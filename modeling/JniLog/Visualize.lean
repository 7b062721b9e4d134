import JniLog.Value

/-! # Encoding JNI values on the hook side

    Model of the encoders of `visualize.c`: the escaping append, the
    array encoder `vis_encode_array_items`, and the argument encoder
    `vis_encode_typed_args` with its scan of the method descriptor.

    * A Java object is what the `vis_*` helpers obtain about it, in a
      context where they may call back (no pending exception, not in a
      critical section). An object whose class name or content cannot be
      read is one with an empty text there.
    * A growing buffer is the text written to it so far; its allocations
      succeed.

    Main results: the escaping append is the escape code of `Value`, and
    every round of the argument loop appends one record, for the
    argument it stands at. -/

namespace JniLog.Visualize

open Bytes JlFmt

/-! ## Section 1: Java objects -/

/-- A non-null object as the `vis_*` helpers see it. A `toString` is
    `none` when `vis_object_tostring_safe` answers NULL. -/
inductive JObj where
  /-- an instance of `java.lang.String` with its content -/
  | string (content : CStr)
  /-- an instance of `java.lang.Class` with the name `getName` gives -/
  | clazz (name : CStr) (toString : Option CStr)
  /-- any other object, with the name of its class -/
  | object (className : CStr) (toString : Option CStr)

def vis_is_string : JObj → Bool
  | .string _ => true
  | _ => false

def vis_is_class : JObj → Bool
  | .clazz .. => true
  | _ => false

/-- `vis_class_name` of a class object. -/
def vis_class_name : JObj → Bytes
  | .clazz name _ => name
  | _ => []

def vis_object_class_name : JObj → Bytes
  | .string _ => ascii "java.lang.String"
  | .clazz .. => ascii "java.lang.Class"
  | .object name _ => name

def vis_object_tostring_safe : JObj → Option Bytes
  | .string content => some content
  | .clazz _ text => text.map Subtype.val
  | .object _ text => text.map Subtype.val

/-- `vis_string_value_raw`. -/
def vis_string_value_raw : JObj → Bytes
  | .string content => content
  | _ => []

/-- `vis_string_value`: the content between quotes. -/
def vis_string_value (o : JObj) : Bytes :=
  ascii "\"" ++ vis_string_value_raw o ++ ascii "\""

/-- A Java array. Its length is a `jsize`. -/
structure JArray (α : Type) where
  elems : List α
  length_lt : elems.length < 2 ^ 31

/-- A Java array by element type. Floating point elements are bit patterns. -/
inductive JArr where
  | Z (a : JArray UInt8)
  | B (a : JArray Int8)
  | C (a : JArray UInt16)
  | S (a : JArray Int16)
  | I (a : JArray Int32)
  | J (a : JArray Int64)
  | F (a : JArray UInt32)
  | D (a : JArray UInt64)
  | L (a : JArray (Option JObj))

/-- `GetArrayLength`. -/
def JArr.length : JArr → Nat
  | Z a => a.elems.length
  | B a => a.elems.length
  | C a => a.elems.length
  | S a => a.elems.length
  | I a => a.elems.length
  | J a => a.elems.length
  | F a => a.elems.length
  | D a => a.elems.length
  | L a => a.elems.length

/-- What a reference points to. -/
inductive JRef where
  | obj (o : JObj)
  | arr (a : JArr)

/-! ## Section 2: The grow buffer -/

/-- `vea_append_escaped`: runs of plain bytes are appended in one piece;
    `run` holds the bytes since the last escape. -/
def veaEscapedLoop (buf run : Bytes) : Bytes → Bytes
  | [] => if run ≠ [] then buf ++ run else buf
  | b :: src =>
    if b = 0x01 ∨ b = 0x02 ∨ b = 0x03 ∨ b = 0x04 ∨ b = 0x05 ∨ b = 0x1a then
      let buf := if run ≠ [] then buf ++ run else buf
      veaEscapedLoop (buf ++ [0x05, b ^^^ 0x40]) [] src
    else veaEscapedLoop buf (run ++ [b]) src

def vea_append_escaped (buf src : Bytes) : Bytes := veaEscapedLoop buf [] src

/-- An empty run need not be appended. -/
theorem append_run_eq (buf run : Bytes) : (if run ≠ [] then buf ++ run else buf) = buf ++ run := by
  split
  · rfl
  · rename_i hrun
    rw [not_ne_iff.mp hrun, List.append_nil]

theorem veaEscapedLoop_eq (buf run src : Bytes) :
    veaEscapedLoop buf run src = buf ++ run ++ wireCode.escape src := by
  induction src generalizing buf run with
  | nil => simp [veaEscapedLoop]
  | cons b src ih =>
    rw [veaEscapedLoop]
    split
    · rename_i hb
      have hres : wireCode.reserved b = true := by
        simpa [wireCode, wireByteNeedsEscape, or_assoc] using hb
      simp only [append_run_eq, ih, EscapeCode.escape_cons, EscapeCode.encodeByte_of_reserved hres]
      simp [wireCode, wireEscByte]
    · rename_i hb
      have hres : wireCode.reserved b = false := by
        rw [← Bool.not_eq_true]
        simpa [wireCode, wireByteNeedsEscape, or_assoc] using hb
      simp [ih, EscapeCode.encodeByte_of_free hres]

/-- The batched append writes what escaping byte by byte writes. -/
@[simp] theorem vea_append_escaped_eq (buf src : Bytes) :
    vea_append_escaped buf src = buf ++ wireCode.escape src := by
  simp [vea_append_escaped, veaEscapedLoop_eq]

/-! ## Section 3: Array items -/

def VIS_MAX_ARRAY_ITEMS : Nat := 16

/-- The `double` with the value of a `float`, both as bit patterns. -/
def widen (bits : UInt32) : UInt64 :=
  let sign := bits.toUInt64 >>> 31 <<< 63
  let exp := (bits >>> 23) &&& 0xff
  let man := bits &&& 0x7fffff
  if exp = 0xff then sign ||| ((0x7ff : UInt64) <<< 52) ||| (man.toUInt64 <<< 29)
  else if exp = 0 then
    if man = 0 then sign
    else
      -- a subnormal: `man` units of `2 ^ (-149)`
      let top := man.toNat.log2
      sign ||| (UInt64.ofNat (top + 1023 - 149) <<< 52) |||
        ((man.toUInt64 <<< UInt64.ofNat (52 - top)) &&& 0xfffffffffffff)
  else sign ||| ((exp.toUInt64 + (1023 - 127)) <<< 52) ||| (man.toUInt64 <<< 29)

/-- An `int` argument as an argument word. -/
def intWord (x : Int32) : UInt64 := x.toUInt32.toUInt64

/-- `snprintf(tmp, sizeof(tmp), fmt, w)`. -/
def fmtWord (fmt : String) (w : UInt64) : Bytes := snprintf 64 (ascii fmt) [.word w]

/-- `snprintf(tmp, sizeof(tmp), fmt, d)` of a `double`. -/
def fmtDouble (fmt : String) (bits : UInt64) : Bytes := snprintf 64 (ascii fmt) [.dbl bits]

/-- The item loop of a primitive array: `\x04` and a text for each item. -/
def appendItems {α : Type} (text : α → Bytes) (count : Nat) (elems : List α) (buf : Bytes) :
    Bytes :=
  (elems.take count).foldl (fun buf e => buf ++ [0x04] ++ text e) buf

/-- The body of the loop over an object array. -/
def appendElem (buf : Bytes) (elem : Option JObj) : Bytes :=
  let buf := buf ++ [0x04]
  match elem with
  | none => buf ++ ascii "null"
  | some o =>
    if vis_is_string o then vea_append_escaped buf (vis_string_value_raw o)
    else
      let buf := vea_append_escaped buf (vis_object_class_name o)
      match vis_object_tostring_safe o with
      | some text => vea_append_escaped (buf ++ [0x03]) text
      | none => buf

/-- `vis_encode_array_items`. A null array gives the empty text. Asking
    for elements of another type than the array's is undefined in JNI;
    no item is written there. -/
def vis_encode_array_items (arr : Option JArr) (itemSigChar : UInt8) : Bytes :=
  match arr with
  | none => []
  | some arr =>
    let buf := [itemSigChar]
    let total := arr.length
    let count := if total > VIS_MAX_ARRAY_ITEMS then VIS_MAX_ARRAY_ITEMS else total
    let buf :=
      match arr with
      | .Z a =>
        if itemSigChar = 0x5a then
          appendItems (fun z => if z ≠ 0 then ascii "1" else ascii "0") count a.elems buf
        else buf
      | .B a =>
        if itemSigChar = 0x42 then
          appendItems (fun b => fmtWord "%d" (intWord b.toInt32)) count a.elems buf
        else buf
      | .C a =>
        if itemSigChar = 0x43 then
          appendItems (fun c => fmtWord "%u" c.toUInt64) count a.elems buf
        else buf
      | .S a =>
        if itemSigChar = 0x53 then
          appendItems (fun s => fmtWord "%d" (intWord s.toInt32)) count a.elems buf
        else buf
      | .I a =>
        if itemSigChar = 0x49 then
          appendItems (fun i => fmtWord "%d" (intWord i)) count a.elems buf
        else buf
      | .J a =>
        if itemSigChar = 0x4a then
          appendItems (fun j => fmtWord "%lld" j.toUInt64) count a.elems buf
        else buf
      | .F a =>
        if itemSigChar = 0x46 then
          appendItems (fun f => fmtDouble "%.9g" (widen f)) count a.elems buf
        else buf
      | .D a =>
        if itemSigChar = 0x44 then
          appendItems (fun d => fmtDouble "%.17g" d) count a.elems buf
        else buf
      | .L a =>
        if itemSigChar = 0x4c then (a.elems.take count).foldl appendElem buf else buf
    if total > VIS_MAX_ARRAY_ITEMS then
      buf ++ [0x04] ++ fmtWord "+%d" (intWord (Int32.ofNat (total - VIS_MAX_ARRAY_ITEMS)))
    else buf

/-! ## Section 4: Typed arguments -/

/-- `while (*p && *p != ';') p++; if (*p == ';') p++;` -/
def skipClass : Bytes → Bytes
  | [] => []
  | c :: p => if c = 0x3b then p else skipClass p

/-- `while (*p == '[') p++;` -/
def skipBrackets : Bytes → Bytes
  | [] => []
  | c :: p => if c = 0x5b then skipBrackets p else c :: p

/-- The scan past the type `p` starts with. -/
def skipType : Bytes → Bytes
  | [] => []
  | c :: p =>
    if c = 0x4c then skipClass (c :: p)
    else if c = 0x5b then
      match skipBrackets p with
      | [] => []
      | e :: q => if e = 0x4c then skipClass (e :: q) else q
    else p

/-- Patches the just-appended signature character, two bytes from the end. -/
def patchSigChar (buf : Bytes) (c : UInt8) : Bytes :=
  if buf.length ≥ 2 then buf.set (buf.length - 2) c else buf

/-- The `switch` of `vis_encode_typed_args` on the kind of an argument:
    the buffer afterwards, and whether the record is still to be ended.
    `deref` says what a reference word points to. -/
def appendArg (deref : UInt64 → Option JRef) (buf : Bytes) (kind_ch elem_sig : UInt8)
    (val : UInt64) : Bytes × Bool :=
  if kind_ch = 0x5a then (buf ++ fmtWord "%d" (intWord (val &&& 1).toUInt32.toInt32), true)
  else if kind_ch = 0x42 then (buf ++ fmtWord "%d" (intWord val.toUInt8.toInt8.toInt32), true)
  else if kind_ch = 0x43 then (buf ++ fmtWord "%u" val.toUInt16.toUInt64, true)
  else if kind_ch = 0x53 then (buf ++ fmtWord "%d" (intWord val.toUInt16.toInt16.toInt32), true)
  else if kind_ch = 0x49 then (buf ++ fmtWord "%d" (intWord val.toUInt32.toInt32), true)
  else if kind_ch = 0x4a then (buf ++ fmtWord "%lld" val, true)
  else if kind_ch = 0x46 then (buf ++ fmtDouble "%.9g" (widen val.toUInt32), true)
  else if kind_ch = 0x44 then (buf ++ fmtDouble "%.17g" val, true)
  else if kind_ch = 0x5b then
    if val = 0 then (buf, true)
    else
      let el := if elem_sig = 0x4c ∨ elem_sig = 0x5b then 0x4c else elem_sig
      let arr := match deref val with | some (.arr a) => some a | _ => none
      (buf ++ vis_encode_array_items arr el ++ [0x02], false)
  else if kind_ch = 0x4c then
    if val = 0 then (buf, true)
    else
      match deref val with
      | some (.obj o) =>
        if vis_is_string o then
          (vea_append_escaped (patchSigChar buf 0x73) (vis_string_value_raw o), true)
        else if vis_is_class o then
          (vea_append_escaped (patchSigChar buf 0x63) (vis_class_name o), true)
        else
          let buf := vea_append_escaped buf (vis_object_class_name o)
          match vis_object_tostring_safe o with
          | some text => (vea_append_escaped (buf ++ [0x03]) text, true)
          | none => (buf, true)
      | _ => (buf, true)
  else (buf ++ fmtWord "0x%lx" val, true)

/-- The argument loop: `p` is the rest of the descriptor, the list holds
    the words still to be encoded. -/
def typedArgsLoop (deref : UInt64 → Option JRef) : Bytes → Bytes → List UInt64 → Bytes
  | buf, [], _ => buf
  | buf, _, [] => buf
  | buf, kind_ch :: p, val :: extracted =>
    if kind_ch = 0x29 then buf
    else
      let elem_sig := if kind_ch = 0x5b then (skipBrackets p).headD 0 else 0
      let (buf, open_) := appendArg deref (buf ++ [kind_ch, 0x01]) kind_ch elem_sig val
      let buf := if open_ then buf ++ [0x02] else buf
      typedArgsLoop deref buf (skipType (kind_ch :: p)) extracted

/-- `vis_encode_typed_args`; `sig` is `none` for NULL. -/
def vis_encode_typed_args (deref : UInt64 → Option JRef) (sig : Option Bytes)
    (extracted : List UInt64) : Bytes :=
  match sig with
  | none => []
  | some sig => typedArgsLoop deref [] (if sig.head? = some 0x28 then sig.tail else sig) extracted

/-! ## Section 5: The text of an array -/

@[simp] theorem wordInt_intWord (x : Int32) : wordInt (intWord x) = x := by
  simp [wordInt, intWord]

theorem fmtWord_d (x : Int32) : fmtWord "%d" (intWord x) = intText x.toInt := by
  rw [fmtWord, snprintf_d, wordInt_intWord, Int32.toInt_toInt64]

theorem fmtWord_lld (w : UInt64) : fmtWord "%lld" w = intText w.toInt64.toInt :=
  snprintf_lld w

theorem fmtWord_u (c : UInt16) : fmtWord "%u" c.toUInt64 = intText c.toNat := by
  have hlt := c.toNat_lt
  rw [fmtWord, snprintf_u, UInt64.toNat_toUInt32, UInt16.toNat_toUInt64,
    Nat.mod_eq_of_lt (by omega)]

theorem fmtWord_plus_d {n : Nat} (h : n < 2 ^ 31) :
    fmtWord "+%d" (intWord (Int32.ofNat n)) = ascii "+" ++ intText n := by
  rw [fmtWord, snprintf_plus_d, wordInt_intWord, Int32.toInt_toInt64, Int32.toInt_ofNat_of_lt h]

/-- The texts of the part of an array that is left out. -/
def overflowParts (total : Nat) : List Bytes :=
  if total > VIS_MAX_ARRAY_ITEMS then [ascii "+" ++ intText (total - VIS_MAX_ARRAY_ITEMS : Nat)]
  else []

theorem foldl_items {α : Type} (text : α → Bytes) (elems : List α) (buf : Bytes) :
    elems.foldl (fun buf e => buf ++ [0x04] ++ text e) buf =
      buf ++ (elems.map text).flatMap fun p => 0x04 :: p := by
  induction elems generalizing buf with
  | nil => simp
  | cons e es ih =>
    rw [List.foldl_cons, ih, List.map_cons, List.flatMap_cons]
    simp

theorem appendItems_eq {α : Type} (text : α → Bytes) (count : Nat) (elems : List α)
    (buf : Bytes) :
    appendItems text count elems buf =
      buf ++ ((elems.take count).map text).flatMap fun p => 0x04 :: p :=
  foldl_items text (elems.take count) buf

/-- The text of an element of an object array. -/
def elemText : Option JObj → Bytes
  | none => ascii "null"
  | some (.string content) => wireCode.escape content
  | some o => objectText (vis_object_class_name o) (vis_object_tostring_safe o)

theorem appendElem_eq (buf : Bytes) (elem : Option JObj) :
    appendElem buf elem = buf ++ 0x04 :: elemText elem := by
  match elem with
  | none => simp [appendElem, elemText]
  | some (.string content) => simp [appendElem, elemText, vis_is_string, vis_string_value_raw]
  | some (.clazz name none) =>
    simp [appendElem, elemText, vis_is_string, objectText, extraText, vis_object_tostring_safe]
  | some (.clazz name (some text)) =>
    simp [appendElem, elemText, vis_is_string, objectText, extraText, vis_object_tostring_safe]
  | some (.object name none) =>
    simp [appendElem, elemText, vis_is_string, objectText, extraText, vis_object_tostring_safe]
  | some (.object name (some text)) =>
    simp [appendElem, elemText, vis_is_string, objectText, extraText, vis_object_tostring_safe]

theorem foldl_appendElem (buf : Bytes) (elems : List (Option JObj)) :
    elems.foldl appendElem buf = buf ++ (elems.map elemText).flatMap fun p => 0x04 :: p := by
  induction elems generalizing buf with
  | nil => simp
  | cons e es ih => simp [ih, appendElem_eq]

/-- The first items an encoder writes, whatever the length of the array. -/
theorem take_count {α : Type} {elems : List α} {total : Nat} (h : total = elems.length) :
    elems.take (if total > VIS_MAX_ARRAY_ITEMS then VIS_MAX_ARRAY_ITEMS else total) =
      elems.take VIS_MAX_ARRAY_ITEMS := by
  split
  · rfl
  · rw [h, List.take_length, List.take_of_length_le (by omega)]

/-- The marker the encoder writes is the one of `overflowParts`. -/
theorem append_marker (buf : Bytes) {total : Nat} (h : total < 2 ^ 31) :
    (if total > VIS_MAX_ARRAY_ITEMS then
        buf ++ [0x04] ++ fmtWord "+%d" (intWord (Int32.ofNat (total - VIS_MAX_ARRAY_ITEMS)))
      else buf) = buf ++ (overflowParts total).flatMap fun p => 0x04 :: p := by
  unfold overflowParts
  split
  · rw [fmtWord_plus_d (by omega)]
    simp
  · simp

theorem flatMap_parts (sig : UInt8) (ps qs : List Bytes) :
    [sig] ++ (ps.flatMap fun p => 0x04 :: p) ++ (qs.flatMap fun p => 0x04 :: p) =
      arrayText sig (ps ++ qs) := by
  simp [arrayText]

/-- The text of an object array. -/
theorem vis_encode_array_items_L (a : JArray (Option JObj)) :
    vis_encode_array_items (some (.L a)) 0x4c =
      arrayText 0x4c
        ((a.elems.take VIS_MAX_ARRAY_ITEMS).map elemText ++ overflowParts a.elems.length) := by
  have hlen : (JArr.L a).length = a.elems.length := rfl
  simp only [vis_encode_array_items, if_true, take_count hlen, foldl_appendElem,
    append_marker _ (hlen ▸ a.length_lt), flatMap_parts]
  rfl

/-! ### Integral elements -/

/-- The integral primitive types. -/
inductive IntPrim where
  | Z | B | C | S | I | J
  deriving DecidableEq, Repr

namespace IntPrim

/-- The character of the type in a descriptor. -/
def sigChar : IntPrim → UInt8
  | Z => 0x5a
  | B => 0x42
  | C => 0x43
  | S => 0x53
  | I => 0x49
  | J => 0x4a

/-- The elements of an array of the type. -/
abbrev Elem : IntPrim → Type
  | Z => UInt8
  | B => Int8
  | C => UInt16
  | S => Int16
  | I => Int32
  | J => Int64

def arr : (p : IntPrim) → JArray p.Elem → JArr
  | Z => .Z
  | B => .B
  | C => .C
  | S => .S
  | I => .I
  | J => .J

/-- The value of an element. A `jboolean` is true when it is not zero. -/
def toInt : (p : IntPrim) → p.Elem → Int
  | Z, z => if z ≠ 0 then 1 else 0
  | B, b => b.toInt
  | C, c => c.toNat
  | S, s => s.toInt
  | I, i => i.toInt
  | J, j => j.toInt

theorem toInt_mem_range (p : IntPrim) (x : p.Elem) :
    -2 ^ 63 ≤ p.toInt x ∧ p.toInt x < 2 ^ 63 := by
  cases p with
  | Z => simp only [toInt]; split <;> decide
  | B => have hlo := Int8.le_toInt x; have hhi := Int8.toInt_lt x; simp only [toInt]; omega
  | C => have hlt := UInt16.toNat_lt x; simp only [toInt]; omega
  | S => have hlo := Int16.le_toInt x; have hhi := Int16.toInt_lt x; simp only [toInt]; omega
  | I => have hlo := Int32.le_toInt x; have hhi := Int32.toInt_lt x; simp only [toInt]; omega
  | J => exact ⟨Int64.le_toInt x, Int64.toInt_lt x⟩

end IntPrim

/-- The text of an array whose items have the texts `text`. -/
theorem items_text {α : Type} (sig : UInt8) (text : α → Bytes) (a : JArray α) :
    (let buf := appendItems text
        (if a.elems.length > VIS_MAX_ARRAY_ITEMS then VIS_MAX_ARRAY_ITEMS else a.elems.length)
        a.elems [sig]
      if a.elems.length > VIS_MAX_ARRAY_ITEMS then
        buf ++ [0x04] ++
          fmtWord "+%d" (intWord (Int32.ofNat (a.elems.length - VIS_MAX_ARRAY_ITEMS)))
      else buf) =
    arrayText sig ((a.elems.take VIS_MAX_ARRAY_ITEMS).map text ++
      overflowParts a.elems.length) := by
  simp only [append_marker _ a.length_lt, appendItems_eq, take_count rfl, flatMap_parts]

/-- The text of an array of an integral type. -/
theorem vis_encode_array_items_prim (p : IntPrim) (a : JArray p.Elem) :
    vis_encode_array_items (some (p.arr a)) p.sigChar =
      arrayText p.sigChar
        ((a.elems.take VIS_MAX_ARRAY_ITEMS).map (fun x => intText (p.toInt x)) ++
          overflowParts a.elems.length) := by
  -- each element goes through `%d`, `%u` or `%lld` after C's promotions
  have hbool : ∀ z : UInt8, (if z ≠ 0 then ascii "1" else ascii "0") =
      intText (IntPrim.toInt .Z z) := by
    intro z
    simp only [IntPrim.toInt]
    split <;> decide
  have hbyte : ∀ b : Int8, fmtWord "%d" (intWord b.toInt32) = intText b.toInt := by
    intro b
    rw [fmtWord_d, Int8.toInt_toInt32]
  have hshort : ∀ s : Int16, fmtWord "%d" (intWord s.toInt32) = intText s.toInt := by
    intro s
    rw [fmtWord_d, Int16.toInt_toInt32]
  have hlong : ∀ j : Int64, fmtWord "%lld" j.toUInt64 = intText j.toInt := by
    intro j
    rw [fmtWord_lld, Int64.toInt64_toUInt64]
  cases p with
  | Z => exact funext hbool ▸ items_text 0x5a _ a
  | B => exact funext hbyte ▸ items_text 0x42 _ a
  | C => exact funext fmtWord_u ▸ items_text 0x43 _ a
  | S => exact funext hshort ▸ items_text 0x53 _ a
  | I => exact funext fmtWord_d ▸ items_text 0x49 _ a
  | J => exact funext hlong ▸ items_text 0x4a _ a

/-! ## Section 6: Reading array texts back -/

theorem notMem_arrayText {b sig : UInt8} {parts : List Bytes} (hsig : b ≠ sig) (hsep : b ≠ 0x04)
    (h : ∀ p ∈ parts, b ∉ p) : b ∉ arrayText sig parts := by
  intro hb
  simp only [arrayText, List.mem_cons, List.mem_flatMap] at hb
  rcases hb with hb | ⟨p, hp, hb | hb⟩
  · exact hsig hb
  · exact hsep hb
  · exact h p hp hb

theorem notMem_overflowParts {b : UInt8} (hb : b < 0x30) (hdash : b ≠ 0x2d) (hplus : b ≠ 0x2b)
    {total : Nat} : ∀ p ∈ overflowParts total, b ∉ p := by
  intro p hp
  unfold overflowParts at hp
  split at hp
  · rw [List.mem_singleton] at hp
    subst hp
    simp only [List.mem_append, not_or]
    refine ⟨?_, notMem_intText hb hdash _⟩
    simpa [show ascii "+" = [0x2b] by decide] using hplus
  · simp at hp

theorem notMem_elemText {b : UInt8} (hb : wireByteNeedsEscape b = true) (hne : b ≠ wireEscByte)
    (hsep : b ≠ 0x03) (e : Option JObj) : b ∉ elemText e := by
  have hnull : b ∉ ascii "null" := by
    intro h
    have hall : (ascii "null").all fun c => !wireByteNeedsEscape c := by decide
    have hfree := List.all_eq_true.mp hall b h
    simp [hb] at hfree
  have hobj : ∀ name text, b ∉ objectText name text := by
    intro name text h
    rw [objectText, List.mem_append] at h
    rcases h with h | h
    · exact notMem_wireCode hb hne _ h
    · cases text with
      | none => simp [extraText] at h
      | some t =>
        rcases List.mem_cons.mp h with h | h
        · exact hsep h
        · exact notMem_wireCode hb hne _ h
  cases e with
  | none => exact hnull
  | some obj =>
    cases obj with
    | string content => exact notMem_wireCode hb hne _
    | clazz name toString => exact hobj _ _
    | object className toString => exact hobj _ _

/-- Past the item limit the marker is read off, and the parts before it
    are the items. -/
theorem buildJNIValue_overflow {sig : UInt8} {parts : List Bytes} {total : Nat}
    (hkind : JNIKindFromSigChar sig ≠ .KindArray) (hfree : ∀ p ∈ parts, (0x04 : UInt8) ∉ p)
    (hover : total > VIS_MAX_ARRAY_ITEMS) (hlt : total < 2 ^ 31) :
    buildJNIValue .KindArray (arrayText sig (parts ++ overflowParts total)) =
      { kind := .KindArray, int := (total - VIS_MAX_ARRAY_ITEMS : Nat),
        str := arrayText sig (parts ++ overflowParts total),
        items := parts.map (buildJNIValue (JNIKindFromSigChar sig)) } := by
  have hparts : overflowParts total =
      [ascii "+" ++ intText (total - VIS_MAX_ARRAY_ITEMS : Nat)] := by
    rw [overflowParts, if_pos hover]
  have hmark : overflowMarker (ascii "+" ++ intText (total - VIS_MAX_ARRAY_ITEMS : Nat)) =
      some ((total - VIS_MAX_ARRAY_ITEMS : Nat) : Int) :=
    overflowMarker_plus (by omega) (by omega)
  have hne : parts ++ overflowParts total ≠ [[]] := by
    rw [hparts]
    intro h
    have hlast := congrArg (fun l => l.getLastD []) h
    simp [show ascii "+" = [0x2b] by decide] at hlast
  rw [buildJNIValue_array hkind ?_ (by simp [hparts]) hne, hparts]
  · simp [hmark]
  · intro p hp
    rcases List.mem_append.mp hp with hp | hp
    · exact hfree p hp
    · exact notMem_overflowParts (by decide) (by decide) (by decide) p hp

/-- The text of an item that is not empty, holds no separator, and is not
    mistaken for the marker. -/
structure ItemText (p : Bytes) : Prop where
  ne_nil : p ≠ []
  free : (0x04 : UInt8) ∉ p
  not_marker : overflowMarker p = none

theorem itemText_intText (n : Int) : ItemText (intText n) where
  ne_nil := intText_ne_nil n
  free := notMem_intText (by decide) (by decide) n
  not_marker := overflowMarker_intText n

/-- **Arrays of item texts.** The items read back one by one, and the
    marker as the number of elements left out, at every length. -/
theorem buildJNIValue_items {sig : UInt8} {items : List Bytes} {total : Nat}
    (hkind : JNIKindFromSigChar sig ≠ .KindArray) (hitems : ∀ p ∈ items, ItemText p)
    (hlen : items.length = min total VIS_MAX_ARRAY_ITEMS) (hlt : total < 2 ^ 31) :
    buildJNIValue .KindArray (arrayText sig (items ++ overflowParts total)) =
      { kind := .KindArray, int := (total - VIS_MAX_ARRAY_ITEMS : Nat),
        str := arrayText sig (items ++ overflowParts total),
        items := items.map (buildJNIValue (JNIKindFromSigChar sig)) } := by
  have hfree : ∀ p ∈ items, (0x04 : UInt8) ∉ p := fun p hp => (hitems p hp).free
  by_cases hover : total > VIS_MAX_ARRAY_ITEMS
  · exact buildJNIValue_overflow hkind hfree hover hlt
  · -- no marker, and the last item is not taken for one
    have hno : overflowParts total = [] := by rw [overflowParts, if_neg hover]
    have hzero : total - VIS_MAX_ARRAY_ITEMS = 0 := by omega
    rw [hno, List.append_nil, hzero]
    rcases List.eq_nil_or_concat items with rfl | ⟨init, last, rfl⟩
    · rfl
    · rw [List.concat_eq_append] at hitems hfree ⊢
      have hlast : ItemText last := hitems last (by simp)
      have hempty : init ++ [last] ≠ [[]] := by
        intro h
        have hsame := congrArg (fun l => l.getLastD []) h
        simp only [List.getLastD_concat] at hsame
        exact hlast.ne_nil hsame
      rw [buildJNIValue_array hkind hfree (by simp) hempty, List.getLastD_concat, hlast.not_marker]
      rfl

/-- The kind of the elements of an integral array. -/
def IntPrim.kind : IntPrim → JNIKind
  | .Z => .KindBoolean
  | .B => .KindByte
  | .C => .KindChar
  | .S => .KindShort
  | .I => .KindInt
  | .J => .KindLong

theorem IntPrim.kind_sigChar (p : IntPrim) : JNIKindFromSigChar p.sigChar = p.kind := by
  cases p <;> decide

theorem IntPrim.kind_isIntegral (p : IntPrim) : p.kind.IsIntegral := by
  cases p <;> decide

theorem IntPrim.kind_ne_array (p : IntPrim) : p.kind ≠ .KindArray := by
  cases p <;> decide

/-- An integral array reads back as its first items and the number of
    elements left out. -/
theorem buildJNIValue_prim (p : IntPrim) (a : JArray p.Elem) :
    buildJNIValue .KindArray (vis_encode_array_items (some (p.arr a)) p.sigChar) =
      { kind := .KindArray, int := (a.elems.length - VIS_MAX_ARRAY_ITEMS : Nat),
        str := vis_encode_array_items (some (p.arr a)) p.sigChar,
        items := (a.elems.take VIS_MAX_ARRAY_ITEMS).map fun x =>
          { kind := p.kind, int := p.toInt x } } := by
  have hkind : JNIKindFromSigChar p.sigChar ≠ .KindArray := by
    rw [p.kind_sigChar]
    exact p.kind_ne_array
  have hitem : ∀ x, buildJNIValue p.kind (intText (p.toInt x)) =
      { kind := p.kind, int := p.toInt x } := fun x =>
    buildJNIValue_integral p.kind_isIntegral (p.toInt_mem_range x).1 (p.toInt_mem_range x).2
  have hitems : ∀ q ∈ (a.elems.take VIS_MAX_ARRAY_ITEMS).map (fun x => intText (p.toInt x)),
      ItemText q := by
    intro q hq
    obtain ⟨x, -, rfl⟩ := List.mem_map.mp hq
    exact itemText_intText _
  rw [vis_encode_array_items_prim, buildJNIValue_items hkind hitems
    (by rw [List.length_map, List.length_take, Nat.min_comm]) a.length_lt, p.kind_sigChar,
    List.map_map]
  simp only [Function.comp_def, hitem]

end JniLog.Visualize
