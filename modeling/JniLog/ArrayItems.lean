import JniLog.Framework.Framing
import JniLog.TypedArgs

/-! # The two array encoders

    `vis_encode_array_items` asks the VM for the elements of a Java
    array, `vis_encode_ptr_array_items` reads them from the buffer of a
    `Get`/`Set` region call. They differ for an empty array, where the
    second one writes nothing at all, and in how they write a boolean.

    * The buffer is a block of bytes, and the elements stand in it one
      after the other, least significant byte first. A `jsize` is an
      `Int32`.

    Main results: both texts decode to the same first items and the same
    number of elements left out, whatever the length; and the limit set
    in the configuration is kept exactly when it makes no difference,
    since neither encoder asks for it. -/

namespace JniLog.ArrayItems

open Bytes JlFmt Visualize TypedArgs

/-! ## Section 1: Model -/

/-- `((const T *)buf)[i]` of an unsigned type of `size` bytes. -/
def elemBits (buf : Bytes) (size i : Nat) : Nat :=
  Framing.unle ((buf.drop (i * size)).take size)

/-- The `switch` of `vis_encode_ptr_array_items`: the text of element `i`. -/
def ptrItem (buf : Bytes) (itemSigChar : UInt8) (i : Nat) : Bytes :=
  if itemSigChar = 0x5a then fmtWord "%d" (intWord (Int32.ofNat (elemBits buf 1 i)))
  else if itemSigChar = 0x42 then
    fmtWord "%d" (intWord (UInt8.ofNat (elemBits buf 1 i)).toInt8.toInt32)
  else if itemSigChar = 0x43 then fmtWord "%u" (UInt16.ofNat (elemBits buf 2 i)).toUInt64
  else if itemSigChar = 0x53 then
    fmtWord "%d" (intWord (UInt16.ofNat (elemBits buf 2 i)).toInt16.toInt32)
  else if itemSigChar = 0x49 then
    fmtWord "%d" (intWord (UInt32.ofNat (elemBits buf 4 i)).toInt32)
  else if itemSigChar = 0x4a then fmtWord "%lld" (UInt64.ofNat (elemBits buf 8 i))
  else if itemSigChar = 0x46 then fmtDouble "%.9g" (widen (UInt32.ofNat (elemBits buf 4 i)))
  else if itemSigChar = 0x44 then fmtDouble "%.17g" (UInt64.ofNat (elemBits buf 8 i))
  else snprintf 64 (ascii "?") []

/-- `vis_encode_ptr_array_items`. -/
def vis_encode_ptr_array_items (buf : Option Bytes) (count : Int32) (itemSigChar : UInt8) : Bytes :=
  match buf with
  | none => []
  | some buf =>
    if count ≤ 0 then []
    else
      let n := count.toInt.toNat
      let limit := if n > VIS_MAX_ARRAY_ITEMS then VIS_MAX_ARRAY_ITEMS else n
      let out := (List.range limit).foldl
        (fun out i => out ++ [0x04] ++ ptrItem buf itemSigChar i) [itemSigChar]
      if n > VIS_MAX_ARRAY_ITEMS then
        out ++ [0x04] ++ fmtWord "+%d" (intWord (Int32.ofNat (n - VIS_MAX_ARRAY_ITEMS)))
      else out

/-! ## Section 2: Primitive types -/

/-- The primitive types of Java. -/
inductive Prim where
  | int (p : IntPrim)
  | F
  | D
  deriving DecidableEq, Repr

namespace Prim

def sigChar : Prim → UInt8
  | int p => p.sigChar
  | F => 0x46
  | D => 0x44

/-- The elements of an array of the type; floating point ones as bits. -/
abbrev Elem : Prim → Type
  | int p => p.Elem
  | F => UInt32
  | D => UInt64

def arr : (p : Prim) → JArray p.Elem → JArr
  | int p => p.arr
  | F => .F
  | D => .D

/-- `sizeof` an element. -/
def size : Prim → Nat
  | int .Z => 1
  | int .B => 1
  | int .C => 2
  | int .S => 2
  | int .I => 4
  | int .J => 8
  | F => 4
  | D => 8

/-- The bits of an element. -/
def bits : (p : Prim) → p.Elem → Nat
  | int .Z, z => UInt8.toNat z
  | int .B, b => (Int8.toUInt8 b).toNat
  | int .C, c => UInt16.toNat c
  | int .S, s => (Int16.toUInt16 s).toNat
  | int .I, i => (Int32.toUInt32 i).toNat
  | int .J, j => (Int64.toUInt64 j).toNat
  | F, f => UInt32.toNat f
  | D, d => UInt64.toNat d

theorem bits_lt (p : Prim) (x : p.Elem) : p.bits x < 256 ^ p.size := by
  match p, x with
  | int .Z, z => exact UInt8.toNat_lt z
  | int .B, b => exact UInt8.toNat_lt _
  | int .C, c => exact UInt16.toNat_lt c
  | int .S, s => exact UInt16.toNat_lt _
  | int .I, i => exact UInt32.toNat_lt _
  | int .J, j => exact UInt64.toNat_lt _
  | F, f => exact UInt32.toNat_lt f
  | D, d => exact UInt64.toNat_lt d

/-- Elements in memory. -/
def memory (p : Prim) (xs : List p.Elem) : Bytes :=
  xs.flatMap fun x => Framing.le p.size (p.bits x)

/-- The text `vis_encode_array_items` writes for an element. -/
def text : (p : Prim) → p.Elem → Bytes
  | int p, x => intText (p.toInt x)
  | F, f => fmtDouble "%.9g" (widen f)
  | D, d => fmtDouble "%.17g" d

/-- The text `vis_encode_ptr_array_items` writes for an element: a
    boolean is not normalised. -/
def ptrText : (p : Prim) → p.Elem → Bytes
  | int .Z, z => intText (UInt8.toNat z)
  | p, x => p.text x

end Prim

/-! ## Section 3: Reading the buffer -/

section Buffer

variable {p : Prim}

theorem elemBits_memory {xs : List p.Elem} {i : Nat} (h : i < xs.length) :
    elemBits (p.memory xs) p.size i = p.bits xs[i] := by
  induction xs generalizing i with
  | nil => exact absurd h (Nat.not_lt_zero i)
  | cons x xs ih =>
    have hlen : (Framing.le p.size (p.bits x)).length = p.size := Framing.length_le _ _
    have hmem : p.memory (x :: xs) = Framing.le p.size (p.bits x) ++ p.memory xs := rfl
    rw [hmem]
    -- the index counts off whole elements
    cases i with
    | zero =>
      rw [elemBits, Nat.zero_mul, List.drop_zero,
        List.take_append_of_le_length (Nat.le_of_eq hlen.symm),
        List.take_of_length_le (Nat.le_of_eq hlen), Framing.unle_le_of_lt (p.bits_lt x)]
      rfl
    | succ i =>
      have hdrop : (Framing.le p.size (p.bits x) ++ p.memory xs).drop ((i + 1) * p.size) =
          (p.memory xs).drop (i * p.size) := by
        have hsum : (i + 1) * p.size = (Framing.le p.size (p.bits x)).length + i * p.size := by
          rw [hlen, Nat.succ_mul, Nat.add_comm]
        rw [hsum, ← List.drop_drop, List.drop_left]
      rw [elemBits, hdrop]
      exact ih (Nat.lt_of_succ_lt_succ h)

/-- The bits of an element are read back as the element. -/
theorem ptrItem_memory {xs : List p.Elem} {i : Nat} (h : i < xs.length) :
    ptrItem (p.memory xs) p.sigChar i = p.ptrText xs[i] := by
  have hbits := elemBits_memory h
  generalize xs[i] = x at hbits ⊢
  generalize p.memory xs = buf at hbits ⊢
  cases p with
  | int p =>
    cases p with
    | Z =>
      -- a `jboolean` is printed by its byte, which may be neither 0 nor 1
      show fmtWord "%d" (intWord (Int32.ofNat (elemBits buf 1 i))) = intText (UInt8.toNat x)
      have hbool : UInt8.toNat x < 2 ^ 31 := Nat.lt_trans (UInt8.toNat_lt x) (by decide)
      rw [show elemBits buf 1 i = UInt8.toNat x from hbits, fmtWord_d,
        Int32.toInt_ofNat_of_lt hbool]
    | B =>
      show fmtWord "%d" (intWord (UInt8.ofNat (elemBits buf 1 i)).toInt8.toInt32) =
        intText (Int8.toInt x)
      rw [show elemBits buf 1 i = (Int8.toUInt8 x).toNat from hbits, UInt8.ofNat_toNat, fmtWord_d,
        Int8.toInt_toInt32, Int8.toInt8_toUInt8]
    | C =>
      show fmtWord "%u" (UInt16.ofNat (elemBits buf 2 i)).toUInt64 = intText (UInt16.toNat x)
      rw [show elemBits buf 2 i = UInt16.toNat x from hbits, UInt16.ofNat_toNat, fmtWord_u]
    | S =>
      show fmtWord "%d" (intWord (UInt16.ofNat (elemBits buf 2 i)).toInt16.toInt32) =
        intText (Int16.toInt x)
      rw [show elemBits buf 2 i = (Int16.toUInt16 x).toNat from hbits, UInt16.ofNat_toNat,
        fmtWord_d, Int16.toInt_toInt32, Int16.toInt16_toUInt16]
    | I =>
      show fmtWord "%d" (intWord (UInt32.ofNat (elemBits buf 4 i)).toInt32) =
        intText (Int32.toInt x)
      rw [show elemBits buf 4 i = (Int32.toUInt32 x).toNat from hbits, UInt32.ofNat_toNat,
        fmtWord_d, Int32.toInt32_toUInt32]
    | J =>
      show fmtWord "%lld" (UInt64.ofNat (elemBits buf 8 i)) = intText (Int64.toInt x)
      rw [show elemBits buf 8 i = (Int64.toUInt64 x).toNat from hbits, UInt64.ofNat_toNat,
        fmtWord_lld, Int64.toInt64_toUInt64]
  | F =>
    show fmtDouble "%.9g" (widen (UInt32.ofNat (elemBits buf 4 i))) = fmtDouble "%.9g" (widen x)
    rw [show elemBits buf 4 i = UInt32.toNat x from hbits, UInt32.ofNat_toNat]
  | D =>
    show fmtDouble "%.17g" (UInt64.ofNat (elemBits buf 8 i)) = fmtDouble "%.17g" x
    rw [show elemBits buf 8 i = UInt64.toNat x from hbits, UInt64.ofNat_toNat]

end Buffer

/-! ## Section 4: The texts of the two encoders -/

section Texts

variable (p : Prim) (a : JArray p.Elem)

theorem vis_encode_array_items_text :
    vis_encode_array_items (some (p.arr a)) p.sigChar =
      arrayText p.sigChar
        ((a.elems.take VIS_MAX_ARRAY_ITEMS).map p.text ++ overflowParts a.elems.length) := by
  cases p with
  | int p => exact vis_encode_array_items_prim p a
  | F => exact items_text 0x46 _ a
  | D => exact items_text 0x44 _ a

/-- The loop over the indices writes the first elements. -/
theorem range_ptrItem :
    (List.range (if a.elems.length > VIS_MAX_ARRAY_ITEMS then VIS_MAX_ARRAY_ITEMS
        else a.elems.length)).map (ptrItem (p.memory a.elems) p.sigChar) =
      (a.elems.take VIS_MAX_ARRAY_ITEMS).map p.ptrText := by
  have hlimit : (if a.elems.length > VIS_MAX_ARRAY_ITEMS then VIS_MAX_ARRAY_ITEMS
      else a.elems.length) = min VIS_MAX_ARRAY_ITEMS a.elems.length := by
    split <;> omega
  rw [hlimit]
  apply List.ext_getElem
  · simp only [List.length_map, List.length_range, List.length_take]
  · intro i hi hi'
    simp only [List.length_map, List.length_range] at hi
    have hlt : i < a.elems.length := by omega
    simp only [List.getElem_map, List.getElem_range, List.getElem_take]
    exact ptrItem_memory hlt

theorem vis_encode_ptr_array_items_text (hne : a.elems ≠ []) :
    vis_encode_ptr_array_items (some (p.memory a.elems)) (Int32.ofNat a.elems.length) p.sigChar =
      arrayText p.sigChar
        ((a.elems.take VIS_MAX_ARRAY_ITEMS).map p.ptrText ++ overflowParts a.elems.length) := by
  have hcount : (Int32.ofNat a.elems.length).toInt = a.elems.length :=
    Int32.toInt_ofNat_of_lt a.length_lt
  have hpos : ¬ Int32.ofNat a.elems.length ≤ 0 := by
    have hlen := List.length_pos_of_ne_nil hne
    rw [Int32.le_iff_toInt_le, hcount]
    show ¬ (a.elems.length : Int) ≤ 0
    omega
  rw [vis_encode_ptr_array_items, if_neg hpos]
  simp only [hcount, Int.toNat_natCast, foldl_items, append_marker _ a.length_lt, range_ptrItem,
    flatMap_parts]

end Texts

theorem itemText_of_begins {t : Bytes} (hb : Begins t) (hg : Graphic t) : ItemText t := by
  obtain ⟨c, s, rfl, hc⟩ := hb
  refine ⟨List.cons_ne_nil c s, ?_, ?_⟩
  · intro hmem
    exact absurd (hg _ hmem) (by decide)
  · rw [overflowMarker, if_neg hc]

theorem itemText_text (p : Prim) (x : p.Elem) : ItemText (p.text x) := by
  cases p with
  | int p => exact itemText_intText _
  | F => exact itemText_of_begins (begins_snprintf_9g _) (graphic_snprintf_9g _)
  | D => exact itemText_of_begins (begins_snprintf_17g _) (graphic_snprintf_17g _)

theorem itemText_ptrText (p : Prim) (x : p.Elem) : ItemText (p.ptrText x) := by
  match p with
  | .int .Z => exact itemText_intText _
  | .int .B | .int .C | .int .S | .int .I | .int .J | .F | .D => exact itemText_text _ x

/-! ## Section 5: Decoding either text -/

/-- The kind of the elements. -/
def Prim.kind : Prim → JNIKind
  | int p => p.kind
  | F => .KindFloat
  | D => .KindDouble

theorem Prim.kind_sigChar (p : Prim) : JNIKindFromSigChar p.sigChar = p.kind := by
  cases p with
  | int p => exact p.kind_sigChar
  | F => decide
  | D => decide

theorem Prim.kind_ne_array (p : Prim) : JNIKindFromSigChar p.sigChar ≠ .KindArray := by
  rw [p.kind_sigChar]
  cases p with
  | int p => exact p.kind_ne_array
  | F => decide
  | D => decide

section Decode

variable (p : Prim) (a : JArray p.Elem)

/-- Item texts of the first elements decode one by one. -/
theorem decode_texts {text : p.Elem → Bytes} (htext : ∀ x, ItemText (text x)) :
    buildJNIValue .KindArray (arrayText p.sigChar
        ((a.elems.take VIS_MAX_ARRAY_ITEMS).map text ++ overflowParts a.elems.length)) =
      { kind := .KindArray, int := (a.elems.length - VIS_MAX_ARRAY_ITEMS : Nat),
        str := arrayText p.sigChar
          ((a.elems.take VIS_MAX_ARRAY_ITEMS).map text ++ overflowParts a.elems.length),
        items := (a.elems.take VIS_MAX_ARRAY_ITEMS).map fun x =>
          buildJNIValue p.kind (text x) } := by
  have hitems : ∀ q ∈ (a.elems.take VIS_MAX_ARRAY_ITEMS).map text, ItemText q := by
    intro q hq
    obtain ⟨x, -, rfl⟩ := List.mem_map.mp hq
    exact htext x
  have hlen : ((a.elems.take VIS_MAX_ARRAY_ITEMS).map text).length =
      min a.elems.length VIS_MAX_ARRAY_ITEMS := by
    rw [List.length_map, List.length_take, Nat.min_comm]
  rw [buildJNIValue_items p.kind_ne_array hitems hlen a.length_lt, p.kind_sigChar, List.map_map]
  rfl

theorem decode_array_items :
    buildJNIValue .KindArray (vis_encode_array_items (some (p.arr a)) p.sigChar) =
      { kind := .KindArray, int := (a.elems.length - VIS_MAX_ARRAY_ITEMS : Nat),
        str := vis_encode_array_items (some (p.arr a)) p.sigChar,
        items := (a.elems.take VIS_MAX_ARRAY_ITEMS).map fun x =>
          buildJNIValue p.kind (p.text x) } := by
  rw [vis_encode_array_items_text]
  exact decode_texts p a (itemText_text p)

theorem decode_ptr_array_items :
    buildJNIValue .KindArray (vis_encode_ptr_array_items (some (p.memory a.elems))
        (Int32.ofNat a.elems.length) p.sigChar) =
      { kind := .KindArray, int := (a.elems.length - VIS_MAX_ARRAY_ITEMS : Nat),
        str := vis_encode_ptr_array_items (some (p.memory a.elems))
          (Int32.ofNat a.elems.length) p.sigChar,
        items := (a.elems.take VIS_MAX_ARRAY_ITEMS).map fun x =>
          buildJNIValue p.kind (p.ptrText x) } := by
  by_cases hne : a.elems = []
  · -- the empty text has no items either
    rw [hne]
    rfl
  · rw [vis_encode_ptr_array_items_text p a hne]
    exact decode_texts p a (itemText_ptrText p)

end Decode

/-! ## Section 6: Main theorem on integral arrays -/

/-- A value as it is stored in an array: a boolean is 0 or 1. -/
def Val.elem : (p : IntPrim) → Val p → p.Elem
  | .Z, z => if z then (1 : UInt8) else 0
  | .B, x => x
  | .C, x => x
  | .S, x => x
  | .I, x => x
  | .J, x => x

theorem length_map_lt {α β : Type} (f : α → β) (a : JArray α) :
    (a.elems.map f).length < 2 ^ 31 := by
  rw [List.length_map]
  exact a.length_lt

/-- The array of these values. -/
def stored {p : IntPrim} (a : JArray (Val p)) : JArray p.Elem where
  elems := a.elems.map (Val.elem p)
  length_lt := length_map_lt (Val.elem p) a

/-- `text` decodes to the first elements, by kind and value and in their
    order, and the number of elements left out. -/
def Decodes (p : IntPrim) (a : JArray (Val p)) (text : Bytes) : Prop :=
  buildJNIValue .KindArray text =
    { kind := .KindArray, int := (a.elems.length - VIS_MAX_ARRAY_ITEMS : Nat), str := text,
      items := (a.elems.take VIS_MAX_ARRAY_ITEMS).map fun x =>
        { kind := p.kind, int := Val.toInt p x } }

theorem text_elem (p : IntPrim) (x : Val p) :
    (Prim.int p).text (Val.elem p x) = intText (Val.toInt p x) := by
  cases p with
  | Z => cases x <;> rfl
  | _ => rfl

theorem ptrText_elem (p : IntPrim) (x : Val p) :
    (Prim.int p).ptrText (Val.elem p x) = intText (Val.toInt p x) := by
  cases p with
  | Z => cases x <;> rfl
  | _ => rfl

/-- **Main result.** Whichever encoder wrote it, an integral array reads
    back as its first items and the number of elements left out. -/
theorem array_encoders_decode (p : IntPrim) (a : JArray (Val p)) :
    Decodes p a (vis_encode_array_items (some (p.arr (stored a))) p.sigChar) ∧
      Decodes p a (vis_encode_ptr_array_items (some ((Prim.int p).memory (stored a).elems))
        (Int32.ofNat a.elems.length) p.sigChar) := by
  have hlen : (stored a).elems.length = a.elems.length := List.length_map (Val.elem p)
  have hread (x : Val p) :
      buildJNIValue p.kind (intText (Val.toInt p x)) = { kind := p.kind, int := Val.toInt p x } :=
    buildJNIValue_integral p.kind_isIntegral (Val.toInt_mem_range p x).1 (Val.toInt_mem_range p x).2
  have hitems {text : p.Elem → Bytes} (htext : ∀ x, text (Val.elem p x) = intText (Val.toInt p x)) :
      ((stored a).elems.take VIS_MAX_ARRAY_ITEMS).map (fun x => buildJNIValue p.kind (text x)) =
        (a.elems.take VIS_MAX_ARRAY_ITEMS).map fun x =>
          { kind := p.kind, int := Val.toInt p x } := by
    rw [stored, ← List.map_take, List.map_map]
    exact List.map_congr_left fun x _ => (congrArg _ (htext x)).trans (hread x)
  constructor
  · have hdec := decode_array_items (.int p) (stored a)
    rw [hlen] at hdec
    exact hdec.trans (by rw [← hitems (text_elem p)]; rfl)
  · have hdec := decode_ptr_array_items (.int p) (stored a)
    rw [hlen] at hdec
    exact hdec.trans (by rw [← hitems (ptrText_elem p)]; rfl)

/-! ## Section 7: The configured limit -/

/-- Which encoder logs an array: the one for arrays, or the one for the
    buffer of a region call. -/
inductive Encoder where
  | array
  | region

def Encoder.encode : (e : Encoder) → (p : Prim) → JArray p.Elem → Bytes
  | array, p, a => vis_encode_array_items (some (p.arr a)) p.sigChar
  | region, p, a =>
    vis_encode_ptr_array_items (some (p.memory a.elems)) (Int32.ofNat a.elems.length) p.sigChar

/-- What the reader makes of an array logged under a configuration whose
    `array_items` is the first argument. It gets there by way of
    `config_array_max_items` only, and no encoder calls that. -/
def logged (_array_items : Nat) (e : Encoder) (p : Prim) (a : JArray p.Elem) : JNIValue :=
  buildJNIValue .KindArray (e.encode p a)

/-- An array value of `n` elements as a limit of `M` items has it. -/
structure KeepsLimit (M n : Nat) (v : JNIValue) : Prop where
  items : v.items.length = min n M
  overflow : v.int = (n - M : Nat)

theorem logged_counts (M : Nat) (e : Encoder) (p : Prim) (a : JArray p.Elem) :
    (logged M e p a).items.length = min a.elems.length VIS_MAX_ARRAY_ITEMS ∧
      (logged M e p a).int = (a.elems.length - VIS_MAX_ARRAY_ITEMS : Nat) := by
  cases e with
  | array =>
    have hdec := decode_array_items p a
    rw [logged, Encoder.encode, hdec]
    exact ⟨by rw [List.length_map, List.length_take, Nat.min_comm], rfl⟩
  | region =>
    have hdec := decode_ptr_array_items p a
    rw [logged, Encoder.encode, hdec]
    exact ⟨by rw [List.length_map, List.length_take, Nat.min_comm], rfl⟩

/-- **Main result.** The configured limit is kept exactly when it is the
    one built into the encoders, or the array is within both. -/
theorem keepsLimit_iff (M : Nat) (e : Encoder) (p : Prim) (a : JArray p.Elem) :
    KeepsLimit M a.elems.length (logged M e p a) ↔
      M = VIS_MAX_ARRAY_ITEMS ∨ a.elems.length ≤ min M VIS_MAX_ARRAY_ITEMS := by
  obtain ⟨hitems, hint⟩ := logged_counts M e p a
  constructor
  · intro h
    have hlen := hitems.symm.trans h.items
    have hover := Int.ofNat_inj.mp (hint.symm.trans h.overflow)
    omega
  · intro h
    refine ⟨?_, ?_⟩
    · rw [hitems]
      omega
    · rw [hint]
      congr 1
      omega

/-- Five numbers under a limit of four are all shown. -/
theorem limit_of_four_ignored :
    ¬ KeepsLimit 4 5 (logged 4 .array (.int .I) ⟨[1, 2, 3, 4, 5], by decide⟩) := by
  intro h
  have hitems := h.items
  rw [(logged_counts 4 .array (.int .I) ⟨[1, 2, 3, 4, 5], by decide⟩).1] at hitems
  exact absurd hitems (by decide)

end JniLog.ArrayItems
