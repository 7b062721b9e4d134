import JniLog.JlFmt
import JniLog.Framework.Nested
import JniLog.Framework.Text

/-! # The method list of a RegisterNatives event

    Model of the list builder in `log_jni_register_natives` of
    `bridge.c`, with `address_of_r` of `hook_common.c`, and of the Go
    side's reading of the list: `splitDepth` and the loop of
    `emitRegisterNatives` in `logger.go`.

    * What the process's memory map says about an address is an input:
      the function `dladdr`. The 2048-byte buffer has any content at the
      start.
    * A piece is modelled up to what its entry is rendered from: the
      name, the signature and the address.

    Main results:

    * The builder stays within its buffer and leaves in it as much of the
      list as fits.
    * The Go side reads back the methods of the list exactly when every
      entry is whole and in clear form, and every entry but the last
      closes the brackets it opens. A descriptor with an array type opens
      a bracket that it never closes. -/

namespace JniLog.RegisterNatives

open Bytes JlFmt Nested Text

/-! ## Section 1: The list builder -/

/-- `Dl_info`, with what `jl_dladdr` leaves in `jl_dladdr_synth`. -/
structure Dl_info where
  dli_fname : Option CStr
  dli_fbase : UInt64
  dli_sname : Option CStr
  dli_saddr : UInt64
  synth : Bool

/-- `strrchr(fname, '/')`: the text after the last slash, if there is one. -/
def afterSlash : Bytes → Option Bytes
  | [] => none
  | c :: s =>
    match afterSlash s with
    | some name => some name
    | none => if c = 0x2f then some s else none

theorem afterSlash_subset {s t : Bytes} (h : afterSlash s = some t) : t ⊆ s := by
  induction s with
  | nil => simp [afterSlash] at h
  | cons c s ih =>
    rw [afterSlash] at h
    cases hrest : afterSlash s with
    | some name =>
      rw [hrest] at h
      obtain rfl : name = t := by simpa using h
      exact List.subset_cons_of_subset c (ih hrest)
    | none =>
      rw [hrest] at h
      simp only at h
      split at h
      · obtain rfl : s = t := by simpa using h
        exact List.subset_cons_self c s
      · simp at h

/-- The file name without its directories. -/
def baseName (fname : CStr) : CStr :=
  match h : afterSlash fname.val with
  | some name => ⟨name, fun h0 => fname.property (afterSlash_subset h h0)⟩
  | none => fname

/-- `address_of_r` into a buffer of `bufsz` bytes, which is not zero. -/
def address_of_r (dladdr : UInt64 → Option Dl_info) (addr : UInt64) (bufsz : Nat) : Bytes :=
  if addr = 0 then snprintf bufsz (ascii "null") []
  else
    match dladdr addr with
    | some ⟨some fname, fbase, sname, saddr, synth⟩ =>
      let name := baseName fname
      match sname with
      | some sname =>
        snprintf bufsz (ascii "%s!%s+0x%lx")
          [.str (some name), .str (some sname), .word (addr - saddr)]
      | none =>
        snprintf bufsz (if synth then ascii "%s+0x%lx" else ascii "%s!0x%lx")
          [.str (some name), .word (addr - fbase)]
    | _ => snprintf bufsz (ascii "0x%lx") [.word addr]

theorem zero_notMem_address_of_r (dladdr : UInt64 → Option Dl_info) (addr : UInt64)
    (bufsz : Nat) : 0 ∉ address_of_r dladdr addr bufsz := by
  unfold address_of_r
  split
  · exact zero_notMem_snprintf _ _ _
  · split
    · dsimp only
      split <;> exact zero_notMem_snprintf _ _ _
    · exact zero_notMem_snprintf _ _ _

/-- `JNINativeMethod`. -/
structure JNINativeMethod where
  name : Option CStr
  signature : Option CStr
  fnPtr : UInt64

/-- The local variables `buf` and `pos`. -/
structure ListBuf where
  buf : Nat → UInt8
  pos : Nat

/-- `snprintf(buf + pos, cap, ...)`: the memory afterwards, and the answer. -/
def snprintfAt (buf : Nat → UInt8) (pos cap : Nat) (fmt : Bytes) (ap : List Arg) :
    (Nat → UInt8) × Int32 :=
  let (out, w) := jl_vsnprintf (fun i => buf (pos + i)) cap fmt ap
  (fun i => if i < pos then buf i else out (i - pos), w)

def REGNAT_APPEND (s : ListBuf) (fmt : Bytes) (ap : List Arg) : ListBuf :=
  if s.pos + 1 ≥ 2048 then s
  else
    let room := 2048 - s.pos
    let (buf, w) := snprintfAt s.buf s.pos room fmt ap
    if w < 0 then { s with buf }
    else if w.toInt.toNat ≥ room then { buf, pos := 2048 - 1 }
    else { buf, pos := s.pos + w.toInt.toNat }

/-- The name or the signature shown, `"?"` for a null pointer. -/
def orUnknown (s : Option CStr) : CStr :=
  s.getD ⟨[0x3f], by decide⟩

/-- `fnsym`. -/
def fnsym (dladdr : UInt64 → Option Dl_info) (m : JNINativeMethod) : CStr :=
  ⟨address_of_r dladdr m.fnPtr 192, zero_notMem_address_of_r dladdr m.fnPtr 192⟩

def separator : CStr := ⟨[0x2c, 0x20], by decide⟩

/-- The loop over the methods; `later` is `i > 0`. -/
def methodLoop (dladdr : UInt64 → Option Dl_info) :
    Bool → List JNINativeMethod → ListBuf → ListBuf
  | _, [], s => s
  | later, m :: methods, s =>
    let s := if later then REGNAT_APPEND s (ascii "%s") [.str (some separator)] else s
    if s.pos + 1 ≥ 2048 then s
    else
      let s := REGNAT_APPEND s (ascii "%.200s %.400s @%s")
        [.str (some (orUnknown m.name)), .str (some (orUnknown m.signature)),
          .str (some (fnsym dladdr m))]
      if s.pos + 1 ≥ 2048 then s else methodLoop dladdr true methods s

/-- The C string `log_jni_register_natives` leaves in `buf`. -/
def log_jni_register_natives_buf (mem : Nat → UInt8) (dladdr : UInt64 → Option Dl_info)
    (methods : List JNINativeMethod) : Bytes :=
  let s := methodLoop dladdr false methods { buf := Function.update mem 0 0, pos := 0 }
  ((List.range 2048).map (Function.update s.buf s.pos 0)).takeWhile (· ≠ 0)

/-! ## Section 2: The Go side -/

/-- The `switch` of `splitDepth`: what a byte adds to the depth. -/
def bracket (c : UInt8) : Int :=
  if c = 0x5b ∨ c = 0x28 ∨ c = 0x7b then 1
  else if c = 0x5d ∨ c = 0x29 ∨ c = 0x7d then -1
  else 0

/-- The loop of `splitDepth`. `part` is `s[start:i]`, the last argument
    `s[i:]`; `skip` counts the bytes that `i += len(sep) - 1` jumps over. -/
def splitDepthLoop (sep : Bytes) : Nat → Int → Bytes → Bytes → List Bytes
  | _, _, part, [] => [trimSpace part]
  | skip + 1, depth, part, _ :: s => splitDepthLoop sep skip depth part s
  | 0, depth, part, c :: s =>
    let depth := depth + bracket c
    if depth = 0 ∧ sep <+: c :: s then
      trimSpace part :: splitDepthLoop sep (sep.length - 1) depth [] s
    else splitDepthLoop sep 0 depth (part ++ [c]) s

/-- `splitDepth`, for a separator that is not empty. -/
def splitDepth (s sep : Bytes) : List Bytes :=
  splitDepthLoop sep 0 0 [] s

/-- What an entry is rendered from; a part that is not found is absent. -/
structure Entry where
  mname : Bytes
  sig : Option Bytes
  addr : Option Bytes
  deriving DecidableEq, Repr

/-- The body of the loop in `emitRegisterNatives`, for one part. The cut
    at the first space is `IndexByte` and the two slices around it. -/
def renderEntry (part : Bytes) : Entry :=
  let atIdx := match lastIndex [0x20, 0x40] part with
    | some atIdx => some atIdx
    | none => lastIndex [0x40] part
  match atIdx with
  | some atIdx =>
    let nameAndSig := trimSpace (part.take atIdx)
    let addr := trimSpace (part.drop atIdx)
    match cut 0x20 nameAndSig with
    | some (mname, sig) => ⟨mname, some sig, some addr⟩
    | none => ⟨nameAndSig, none, some addr⟩
  | none => ⟨part, none, none⟩

/-- The entries `emitRegisterNatives` renders. -/
def emitRegisterNatives_entries (methods : Bytes) : List Entry :=
  (splitDepth methods separator.val).map renderEntry

theorem splitDepth_eq (s sep : Bytes) :
    splitDepth s sep = (segments bracket sep 0 0 [] s).map trimSpace := by
  have hloop (skip : Nat) (depth : Int) (part : Bytes) :
      splitDepthLoop sep skip depth part s =
        (segments bracket sep skip depth part s).map trimSpace := by
    induction s generalizing skip depth part with
    | nil => cases skip <;> rfl
    | cons c s ih =>
      cases skip with
      | succ skip => exact ih skip depth part
      | zero =>
        simp only [splitDepthLoop, segments]
        split
        · rw [ih, List.map_cons]
        · rw [ih]
  exact hloop 0 0 []

/-! ## Section 3: The text of the list -/

/-- `"name sig @addr"`. -/
def entryText (name sig addr : Bytes) : Bytes :=
  name ++ 0x20 :: (sig ++ 0x20 :: 0x40 :: addr)

namespace JNINativeMethod

variable (m : JNINativeMethod)

/-- The name shown. -/
def nameText : Bytes := (orUnknown m.name).val

/-- The signature shown. -/
def sigText : Bytes := (orUnknown m.signature).val

end JNINativeMethod

section Builder

variable (dladdr : UInt64 → Option Dl_info)

/-- The address shown. -/
def addrText (m : JNINativeMethod) : Bytes := (fnsym dladdr m).val

/-- The entry of a method, with its name and signature in full. -/
def wholeText (m : JNINativeMethod) : Bytes :=
  entryText m.nameText m.sigText (addrText dladdr m)

/-- The entry as the format clips it. -/
def clippedText (m : JNINativeMethod) : Bytes :=
  entryText (m.nameText.take 200) (m.sigText.take 400) (addrText dladdr m)

/-- The formatted list. -/
def listText (methods : List JNINativeMethod) : Bytes :=
  separator.val.intercalate (methods.map (clippedText dladdr))

/-- The text before `pos`. -/
def ListBuf.Holds (s : ListBuf) (t : Bytes) : Prop :=
  s.pos = t.length ∧ ∀ i (h : i < t.length), s.buf i = t[i]

variable {dladdr} {s : ListBuf} {t u : Bytes}

/-- What one append does. The position moves on by the length of the text
    and stops at the last byte; what is written is the text from the
    position on, and nothing else of it is seen before the position or
    behind the buffer. -/
theorem REGNAT_APPEND_spec {fmt : Bytes} {ap : List Arg} (hle : s.pos ≤ 2047)
    (hw : Writes (formatLoop fmt.length fmt ap) u) (hlt : u.length < 2 ^ 31) :
    (REGNAT_APPEND s fmt ap).pos = min (s.pos + u.length) 2047 ∧
      (∀ i, i < s.pos ∨ 2048 ≤ i → (REGNAT_APPEND s fmt ap).buf i = s.buf i) ∧
      ∀ i (h : i < u.length), s.pos + i < 2047 →
        (REGNAT_APPEND s fmt ap).buf (s.pos + i) = u[i] := by
  unfold REGNAT_APPEND
  by_cases hfull : s.pos + 1 ≥ 2048
  · rw [if_pos hfull]
    exact ⟨by omega, fun i _ => rfl, fun i _ hi => by omega⟩
  rw [if_neg hfull]
  obtain ⟨mem, w, hout⟩ : ∃ mem w, snprintfAt s.buf s.pos (2048 - s.pos) fmt ap = (mem, w) :=
    ⟨_, _, rfl⟩
  have hlen : w.toInt = u.length := by
    have := congrArg (fun out => out.2.toInt) hout
    exact this.symm.trans (jl_vsnprintf_len hw hlt)
  have hmem (i : Nat) : mem i = if i < s.pos then s.buf i else
      (jl_vsnprintf (fun i => s.buf (s.pos + i)) (2048 - s.pos) fmt ap).1 (i - s.pos) :=
    (congrArg (fun out => out.1 i) hout).symm
  have hnonneg : ¬ w < 0 := by
    rw [Int32.lt_iff_toInt_lt, hlen]
    simp
  have hframe (i : Nat) (hi : i < s.pos ∨ 2048 ≤ i) : mem i = s.buf i := by
    rw [hmem]
    split
    · rfl
    · rw [jl_vsnprintf_buf hw, if_neg (by omega), if_neg (by omega)]
      congr 1
      omega
  have htext (i : Nat) (h : i < u.length) (hi : s.pos + i < 2047) : mem (s.pos + i) = u[i] := by
    rw [hmem, if_neg (by omega), jl_vsnprintf_buf hw, if_neg (by omega), if_pos (by omega),
      Nat.add_sub_cancel_left, List.getElem?_eq_getElem h, Option.getD_some]
  simp only [hout]
  rw [if_neg hnonneg, hlen, Int.toNat_natCast]
  -- the position is cut to the last byte when the text was
  by_cases hcut : u.length ≥ 2048 - s.pos
  · rw [if_pos hcut]
    refine ⟨?_, hframe, htext⟩
    show 2048 - 1 = _
    omega
  · rw [if_neg hcut]
    refine ⟨?_, hframe, htext⟩
    show s.pos + u.length = _
    omega

/-- The buffer has the first 2047 bytes of the text so far. -/
theorem ListBuf.Holds.append {fmt : Bytes} {ap : List Arg} (hs : s.Holds (t.take 2047))
    (hw : Writes (formatLoop fmt.length fmt ap) u) (hlt : u.length < 2 ^ 31) :
    (REGNAT_APPEND s fmt ap).Holds ((t ++ u).take 2047) := by
  obtain ⟨hpos, hbuf⟩ := hs
  have hlen : s.pos = min 2047 t.length := by rw [hpos, List.length_take]
  have hle : s.pos ≤ 2047 := by omega
  obtain ⟨hpos', hframe, htext⟩ := REGNAT_APPEND_spec hle hw hlt
  refine ⟨?_, ?_⟩
  · rw [hpos', hlen, List.length_take, List.length_append]
    omega
  · intro i hi
    rw [List.length_take, List.length_append] at hi
    rw [List.getElem_take]
    -- the bytes of the text there was, then those just written
    by_cases hold : i < t.length
    · rw [hframe i (by omega), hbuf i (by rw [List.length_take]; omega), List.getElem_take,
        List.getElem_append_left hold]
    · have hi' : i = s.pos + (i - t.length) := by omega
      rw [List.getElem_append_right (by omega), ← htext (i - t.length) (by omega) (by omega), ← hi']

/-- A full buffer has the beginning of every longer text. -/
theorem ListBuf.Holds.full (hs : s.Holds (t.take 2047)) (hfull : s.pos + 1 ≥ 2048) (u : Bytes) :
    s.Holds ((t ++ u).take 2047) := by
  have hlen := hs.1
  rw [List.length_take] at hlen
  rwa [List.take_append_of_le_length (by omega)]

theorem writes_separator :
    Writes (formatLoop (ascii "%s").length (ascii "%s") [.str (some separator)])
      separator.val := by
  intro k
  have hfmt : ascii "%s" = [0x25, 0x73] := by decide
  rw [hfmt]
  have hpad : padded false 0 separator.val = separator.val := padded_of_le (by omega)
  simp [formatLoop, parseSpec, parseFlags, parseNumber, parseLength, convert, va_str, hpad]

theorem writes_entry (dladdr : UInt64 → Option Dl_info) (m : JNINativeMethod) :
    Writes (formatLoop (ascii "%.200s %.400s @%s").length (ascii "%.200s %.400s @%s")
      [.str (some (orUnknown m.name)), .str (some (orUnknown m.signature)),
        .str (some (fnsym dladdr m))]) (clippedText dladdr m) := by
  intro k
  have hfmt : ascii "%.200s %.400s @%s" =
      [0x25, 0x2e, 0x32, 0x30, 0x30, 0x73, 0x20, 0x25, 0x2e, 0x34, 0x30, 0x30, 0x73,
        0x20, 0x40, 0x25, 0x73] := by decide
  rw [hfmt]
  have hpad (t : Bytes) : padded false 0 t = t := padded_of_le (by omega)
  simp [formatLoop, parseSpec, parseFlags, parseNumber, parseLength, convert, va_str,
    clippedText, entryText, addrText, JNINativeMethod.nameText, JNINativeMethod.sigText,
    puts_append, hpad]

theorem length_addrText_le (dladdr : UInt64 → Option Dl_info) (m : JNINativeMethod) :
    (addrText dladdr m).length ≤ 192 := by
  have hsnprintf (fmt : Bytes) (ap : List Arg) : (snprintf 192 fmt ap).length ≤ 192 := by
    have hcut := (List.takeWhile_prefix (l := (List.range 192).map
      (jl_vsnprintf (fun _ => 0) 192 fmt ap).1) (· ≠ 0)).length_le
    rwa [List.length_map, List.length_range] at hcut
  show (address_of_r dladdr m.fnPtr 192).length ≤ 192
  unfold address_of_r
  split
  · exact hsnprintf _ _
  · split
    · dsimp only
      split <;> exact hsnprintf _ _
    · exact hsnprintf _ _

/-- An entry is short, whatever the length of the texts it is made from. -/
theorem length_clippedText_lt (dladdr : UInt64 → Option Dl_info) (m : JNINativeMethod) :
    (clippedText dladdr m).length < 2 ^ 31 := by
  have haddr := length_addrText_le dladdr m
  simp only [clippedText, entryText, List.length_append, List.length_cons, List.length_take]
  omega

/-- The loop from the second method on: every round puts a separator and
    an entry behind the text. -/
theorem methodLoop_later (methods : List JNINativeMethod) (hs : s.Holds (t.take 2047)) :
    (methodLoop dladdr true methods s).Holds
      ((t ++ methods.flatMap fun m => separator.val ++ clippedText dladdr m).take 2047) := by
  induction methods generalizing s t with
  | nil => simpa [methodLoop] using hs
  | cons m methods ih =>
    rw [List.flatMap_cons, ← List.append_assoc, ← List.append_assoc]
    have h₁ := hs.append writes_separator (by decide)
    have h₂ := h₁.append (writes_entry dladdr m) (length_clippedText_lt dladdr m)
    rw [methodLoop]
    simp only [if_true]
    split
    · rename_i hfull
      rw [List.append_assoc]
      exact h₁.full hfull _
    · split
      · rename_i hfull
        exact h₂.full hfull _
      · exact ih h₂

theorem intercalate_cons (sep x : Bytes) (xs : List Bytes) :
    sep.intercalate (x :: xs) = x ++ xs.flatMap fun y => sep ++ y := by
  induction xs generalizing x with
  | nil => simp
  | cons y ys ih =>
    rw [List.intercalate_cons_cons, ih, List.flatMap_cons]
    simp

theorem listText_cons (dladdr : UInt64 → Option Dl_info) (m : JNINativeMethod)
    (methods : List JNINativeMethod) :
    listText dladdr (m :: methods) = clippedText dladdr m ++
      methods.flatMap fun m => separator.val ++ clippedText dladdr m := by
  rw [listText, List.map_cons, intercalate_cons, List.flatMap_map]

/-- After the loop the buffer has as much of the list as fits. -/
theorem methodLoop_holds (methods : List JNINativeMethod) (hs : s.Holds []) :
    (methodLoop dladdr false methods s).Holds ((listText dladdr methods).take 2047) := by
  cases methods with
  | nil => simpa [methodLoop, listText] using hs
  | cons m methods =>
    have h₀ : s.Holds (([] : Bytes).take 2047) := hs
    have h₁ := h₀.append (writes_entry dladdr m) (length_clippedText_lt dladdr m)
    rw [List.nil_append] at h₁
    rw [listText_cons, methodLoop]
    simp only [Bool.false_eq_true, if_false]
    rw [if_neg (by rw [hs.1]; simp)]
    split
    · rename_i hfull
      exact h₁.full hfull _
    · exact methodLoop_later methods h₁

theorem zero_notMem_entryText {name sig addr : Bytes} (hn : 0 ∉ name) (hs : 0 ∉ sig)
    (ha : 0 ∉ addr) : 0 ∉ entryText name sig addr := by
  simp [entryText, hn, hs, ha]

theorem zero_notMem_listText (dladdr : UInt64 → Option Dl_info)
    (methods : List JNINativeMethod) : 0 ∉ listText dladdr methods := by
  have hentry (m : JNINativeMethod) : 0 ∉ clippedText dladdr m :=
    zero_notMem_entryText (fun h => (orUnknown m.name).property (List.mem_of_mem_take h))
      (fun h => (orUnknown m.signature).property (List.mem_of_mem_take h)) (fnsym dladdr m).property
  have hsep := separator.property
  cases methods with
  | nil => simp [listText]
  | cons m methods =>
    rw [listText_cons]
    simp [hentry, hsep]

/-- What the builder leaves in memory for the text `t`. -/
structure BuiltList (mem out : Nat → UInt8) (t : Bytes) : Prop where
  text : (List.range (min t.length 2047)).map out = t.take (min t.length 2047)
  nul : out (min t.length 2047) = 0
  outside : ∀ i, 2048 ≤ i → out i = mem i

/-- The C string in the buffer is the text that was built. -/
theorem BuiltList.cstr {mem out : Nat → UInt8} (h : BuiltList mem out t) (hnul : 0 ∉ t) :
    ((List.range 2048).map out).takeWhile (· ≠ 0) = t.take (min t.length 2047) := by
  have hsize : 2048 = min t.length 2047 + (2047 - min t.length 2047 + 1) := by omega
  rw [hsize, List.range_add, List.map_append, h.text, List.range_succ_eq_map,
    List.takeWhile_append_of_pos]
  · simp only [List.map_cons, Nat.add_zero, h.nul, List.takeWhile_cons, ne_eq, not_true,
      decide_false, Bool.false_eq_true, if_false, List.append_nil]
  · intro c hc
    have : c ≠ 0 := fun h0 => hnul (h0 ▸ List.mem_of_mem_take hc)
    simpa using this

/-- The local variables before the loop. -/
def ListBuf.start (mem : Nat → UInt8) : ListBuf :=
  { buf := Function.update mem 0 0, pos := 0 }

/-- The states of the loop: at its start and after each `REGNAT_APPEND`. -/
def methodTrace (dladdr : UInt64 → Option Dl_info) :
    Bool → List JNINativeMethod → ListBuf → List ListBuf
  | _, [], s => [s]
  | later, m :: methods, s =>
    let s₁ := if later then REGNAT_APPEND s (ascii "%s") [.str (some separator)] else s
    if s₁.pos + 1 ≥ 2048 then [s, s₁]
    else
      let s₂ := REGNAT_APPEND s₁ (ascii "%.200s %.400s @%s")
        [.str (some (orUnknown m.name)), .str (some (orUnknown m.signature)),
          .str (some (fnsym dladdr m))]
      if s₂.pos + 1 ≥ 2048 then [s, s₁, s₂] else s :: s₁ :: methodTrace dladdr true methods s₂

/-- The trace ends where the loop does. -/
theorem methodTrace_getLast? (dladdr : UInt64 → Option Dl_info) (later : Bool)
    (methods : List JNINativeMethod) (s : ListBuf) :
    (methodTrace dladdr later methods s).getLast? = some (methodLoop dladdr later methods s) := by
  induction methods generalizing later s with
  | nil => rfl
  | cons m methods ih =>
    rw [methodTrace, methodLoop]
    dsimp only
    generalize (if later = true then _ else s) = s₁
    split
    · rfl
    · split
      · rfl
      · rw [List.getLast?_cons, List.getLast?_cons, ih]
        rfl

/-- The position is in the buffer, and memory behind the buffer is as it was. -/
def ListBuf.Within (mem : Nat → UInt8) (s : ListBuf) : Prop :=
  s.pos ≤ 2047 ∧ ∀ i, 2048 ≤ i → s.buf i = mem i

theorem ListBuf.Within.append {mem : Nat → UInt8} {fmt : Bytes} {ap : List Arg}
    (hs : s.Within mem) (hw : Writes (formatLoop fmt.length fmt ap) u) (hlt : u.length < 2 ^ 31) :
    (REGNAT_APPEND s fmt ap).Within mem := by
  obtain ⟨hpos, hframe, -⟩ := REGNAT_APPEND_spec hs.1 hw hlt
  refine ⟨by omega, fun i hi => ?_⟩
  rw [hframe i (.inr hi), hs.2 i hi]

/-- No append of the loop leaves the buffer. -/
theorem methodTrace_within {mem : Nat → UInt8} (dladdr : UInt64 → Option Dl_info) (later : Bool)
    (methods : List JNINativeMethod) (hs : s.Within mem) :
    ∀ s' ∈ methodTrace dladdr later methods s, s'.Within mem := by
  induction methods generalizing later s with
  | nil => exact List.forall_mem_singleton.mpr hs
  | cons m methods ih =>
    have h₁ : (if later then REGNAT_APPEND s (ascii "%s") [.str (some separator)]
        else s).Within mem := by
      split
      · exact hs.append writes_separator (by decide)
      · exact hs
    have h₂ := h₁.append (writes_entry dladdr m) (length_clippedText_lt dladdr m)
    rw [methodTrace]
    dsimp only
    generalize (if later = true then _ else s) = s₁ at h₁ h₂ ⊢
    split
    · exact List.forall_mem_cons.mpr ⟨hs, List.forall_mem_singleton.mpr h₁⟩
    · split
      · exact List.forall_mem_cons.mpr
          ⟨hs, List.forall_mem_cons.mpr ⟨h₁, List.forall_mem_singleton.mpr h₂⟩⟩
      · exact List.forall_mem_cons.mpr ⟨hs, List.forall_mem_cons.mpr ⟨h₁, ih true h₂⟩⟩

/-- The terminator goes behind the text. -/
theorem ListBuf.Holds.built {mem : Nat → UInt8} (hs : s.Holds (t.take 2047))
    (hwithin : s.Within mem) : BuiltList mem (Function.update s.buf s.pos 0) t := by
  obtain ⟨hpos, hbuf⟩ := hs
  have hmin : s.pos = min t.length 2047 := by
    rw [hpos, List.length_take]
    omega
  refine ⟨?_, ?_, ?_⟩
  · apply List.ext_getElem
    · simp
    · intro i hi hi'
      rw [List.length_map, List.length_range] at hi
      rw [List.getElem_map, List.getElem_range, Function.update_of_ne (by omega),
        hbuf i (by rw [List.length_take]; omega), List.getElem_take, List.getElem_take]
  · rw [← hmin, Function.update_self]
  · intro i hi
    rw [Function.update_of_ne (by omega), hwithin.2 i hi]

/-- The memory after `buf[pos] = '\0'`. -/
def log_jni_register_natives_mem (mem : Nat → UInt8) (dladdr : UInt64 → Option Dl_info)
    (methods : List JNINativeMethod) : Nat → UInt8 :=
  let s := methodLoop dladdr false methods (.start mem)
  Function.update s.buf s.pos 0

theorem built_methodLoop (mem : Nat → UInt8) (dladdr : UInt64 → Option Dl_info)
    (methods : List JNINativeMethod) :
    BuiltList mem (log_jni_register_natives_mem mem dladdr methods) (listText dladdr methods) := by
  have hholds : (ListBuf.start mem).Holds [] := ⟨rfl, by simp⟩
  have hstart : (ListBuf.start mem).Within mem :=
    ⟨Nat.zero_le _, fun i hi => Function.update_of_ne (by omega) _ _⟩
  have hlast := List.mem_of_getLast? (methodTrace_getLast? dladdr false methods (.start mem))
  have hwithin := methodTrace_within dladdr false methods hstart _ hlast
  exact (methodLoop_holds methods hholds).built hwithin

/-- **The list builder is bounded and complete.** For all methods, with
    names, signatures and addresses of any length: after every append the
    position is at most 2047 and nothing behind the 2048 bytes has been
    written; in the end the buffer has the first 2047 bytes of the list,
    or all of them if there are fewer, and a NUL. -/
theorem methodList_bounded (mem : Nat → UInt8) (dladdr : UInt64 → Option Dl_info)
    (methods : List JNINativeMethod) :
    (∀ s ∈ methodTrace dladdr false methods (.start mem),
      s.pos ≤ 2047 ∧ ∀ i, 2048 ≤ i → s.buf i = mem i) ∧
    BuiltList mem (log_jni_register_natives_mem mem dladdr methods) (listText dladdr methods) ∧
    log_jni_register_natives_buf mem dladdr methods =
      (listText dladdr methods).take (min (listText dladdr methods).length 2047) := by
  have hstart : (ListBuf.start mem).Within mem :=
    ⟨Nat.zero_le _, fun i hi => Function.update_of_ne (by omega) _ _⟩
  have hbuilt := built_methodLoop mem dladdr methods
  exact ⟨methodTrace_within dladdr false methods hstart, hbuilt,
    hbuilt.cstr (zero_notMem_listText dladdr methods)⟩

/-- A list that fits is built whole. -/
theorem log_jni_register_natives_buf_eq (mem : Nat → UInt8) (methods : List JNINativeMethod)
    (hfits : (listText dladdr methods).length ≤ 2047) :
    log_jni_register_natives_buf mem dladdr methods = listText dladdr methods := by
  have hcstr := (built_methodLoop mem dladdr methods).cstr (zero_notMem_listText dladdr methods)
  rw [List.take_of_length_le (by omega)] at hcstr
  exact hcstr

end Builder

/-! ## Section 4: Method descriptors -/

/-- The primitive types of a descriptor. -/
inductive BaseType where
  | byte | char | double | float | int | long | short | boolean

def BaseType.letter : BaseType → UInt8
  | byte => 0x42
  | char => 0x43
  | double => 0x44
  | float => 0x46
  | int => 0x49
  | long => 0x4a
  | short => 0x53
  | boolean => 0x5a

/-- A class name in internal form: unqualified names with slashes between. -/
structure ClassName where
  text : Bytes
  unqualified : ∀ u ∈ text.splitOn 0x2f, u ≠ [] ∧ 0x2e ∉ u ∧ 0x3b ∉ u ∧ 0x5b ∉ u

inductive FieldType where
  | base (t : BaseType)
  | object (cls : ClassName)
  | array (elem : FieldType)

namespace FieldType

def text : FieldType → Bytes
  | base t => [t.letter]
  | object cls => 0x4c :: (cls.text ++ [0x3b])
  | array elem => 0x5b :: elem.text

/-- The number of dimensions. -/
def dims : FieldType → Nat
  | base _ => 0
  | object _ => 0
  | array elem => elem.dims + 1

/-- The class named in the type, if there is one, has a name without brackets. -/
def Plain : FieldType → Prop
  | base _ => True
  | object cls => ∀ c ∈ cls.text, bracket c = 0
  | array elem => elem.Plain

end FieldType

/-- A method descriptor; a method without a result returns `void`. -/
structure MethodDescriptor where
  params : List FieldType
  result : Option FieldType

namespace MethodDescriptor

variable (d : MethodDescriptor)

def resultText : Bytes :=
  match d.result with
  | some t => t.text
  | none => [0x56]

def text : Bytes :=
  0x28 :: (d.params.flatMap FieldType.text ++ 0x29 :: d.resultText)

/-- The types the descriptor is made of. -/
def types : List FieldType := d.params ++ d.result.toList

end MethodDescriptor

theorem BaseType.bracket_letter (t : BaseType) : bracket t.letter = 0 := by
  cases t <;> rfl

theorem BaseType.letter_notMem (t : BaseType) : t.letter ∉ spaceBytes := by
  cases t <;> decide

/-- A type does not end in white space. -/
theorem FieldType.exists_text (t : FieldType) : ∃ p c, t.text = p ++ [c] ∧ c ∉ spaceBytes := by
  induction t with
  | base t => exact ⟨[], t.letter, rfl, t.letter_notMem⟩
  | object cls => exact ⟨0x4c :: cls.text, 0x3b, rfl, by decide⟩
  | array elem ih =>
    obtain ⟨p, c, h, hc⟩ := ih
    exact ⟨0x5b :: p, c, by rw [text, h]; rfl, hc⟩

/-- A descriptor begins with a parenthesis and does not end in white space. -/
theorem MethodDescriptor.exists_text (d : MethodDescriptor) :
    ∃ p c, d.text = 0x28 :: (p ++ [c]) ∧ c ∉ spaceBytes := by
  have hresult : ∃ p c, d.resultText = p ++ [c] ∧ c ∉ spaceBytes := by
    unfold resultText
    split
    · rename_i t _
      exact t.exists_text
    · exact ⟨[], 0x56, rfl, by decide⟩
  obtain ⟨p, c, h, hc⟩ := hresult
  exact ⟨d.params.flatMap FieldType.text ++ 0x29 :: p, c, by rw [text, h]; simp, hc⟩

/-- Every dimension of an array type opens a bracket that stays open. -/
theorem FieldType.nesting_text {t : FieldType} (h : t.Plain) :
    nesting bracket t.text = t.dims := by
  induction t with
  | base t => simp [text, dims, t.bracket_letter]
  | object cls =>
    have hl : bracket 0x4c = 0 := rfl
    have hsemi : bracket 0x3b = 0 := rfl
    simp [text, dims, nesting_eq_zero bracket h, hl, hsemi]
  | array elem ih =>
    have hopen : bracket 0x5b = 1 := rfl
    rw [text, nesting_cons, ih h, hopen, dims]
    omega

theorem MethodDescriptor.nesting_text {d : MethodDescriptor} (h : ∀ t ∈ d.types, t.Plain) :
    nesting bracket d.text = (d.types.map FieldType.dims).sum := by
  have hparams (ts : List FieldType) (hts : ∀ t ∈ ts, t.Plain) :
      nesting bracket (ts.flatMap FieldType.text) = (ts.map FieldType.dims).sum := by
    induction ts with
    | nil => rfl
    | cons t ts ih =>
      rw [List.flatMap_cons, nesting_append, FieldType.nesting_text (hts t (by simp)),
        ih fun t' ht' => hts t' (by simp [ht'])]
      simp
  have hresult : nesting bracket d.resultText = (d.result.toList.map FieldType.dims).sum := by
    unfold resultText
    cases hres : d.result with
    | none => rfl
    | some t =>
      have ht : t.Plain := h t (by simp [types, hres])
      simp [FieldType.nesting_text ht]
  have hopen : bracket 0x28 = 1 := rfl
  have hclose : bracket 0x29 = -1 := rfl
  rw [text, nesting_cons, nesting_append, nesting_cons, hopen, hclose, hresult,
    hparams d.params fun t ht => h t (by simp [types, ht]), types, List.map_append,
    List.sum_append]
  push_cast
  omega

/-! ## Section 5: Reading one entry -/

section Reading

variable {part name sig addr : Bytes}

/-- The last blank before an `@`, and the cut `renderEntry` makes there. -/
theorem renderEntry_of_lastIndex {i : Nat} (h : lastIndex [0x20, 0x40] part = some i)
    (hcut : cut 0x20 (trimSpace (part.take i)) = some (name, sig)) :
    renderEntry part = ⟨name, some sig, some (trimSpace (part.drop i))⟩ := by
  simp [renderEntry, h, hcut]

/-- What an entry shows is found in its part: a blank is left over when
    the part has a blank before an `@`. -/
theorem length_of_renderEntry (h : renderEntry part = ⟨name, some sig, some (0x40 :: addr)⟩) :
    (entryText name sig addr).length ≤ part.length ∨
      ¬ [0x20, 0x40] <:+: part ∧ (entryText name sig addr).length ≤ part.length + 1 := by
  have htext : (entryText name sig addr).length = name.length + sig.length + addr.length + 3 := by
    simp only [entryText, List.length_append, List.length_cons]
    omega
  -- the lengths at the index the part is cut at
  have hparts {i : Nat} {rest : Bytes} (hi : i ≤ part.length)
      (hcut : cut 0x20 (trimSpace (part.take i)) = some (name, sig))
      (haddr : trimSpace rest = 0x40 :: addr) :
      name.length + sig.length + addr.length + 2 ≤ i + rest.length := by
    have hname := congrArg List.length (cut_eq_some hcut).2
    have htake := length_trimSpace_le (part.take i)
    have hrest := length_trimSpace_le rest
    rw [haddr, List.length_cons] at hrest
    rw [List.length_append, List.length_cons] at hname
    rw [List.length_take] at htake
    omega
  unfold renderEntry at h
  cases hlast : lastIndex [0x20, 0x40] part with
  | some i =>
    obtain ⟨hi, q, hq⟩ := lastIndex_eq_some hlast
    simp only [hlast] at h
    cases hcut : cut 0x20 (trimSpace (part.take i)) with
    | none => simp [hcut] at h
    | some c =>
      simp only [hcut, Entry.mk.injEq, Option.some.injEq] at h
      obtain ⟨rfl, rfl, haddr⟩ := h
      rw [← hq, List.cons_append, trimSpace_space_cons] at haddr
      have hsum := hparts (by omega) hcut haddr
      have hdrop := congrArg List.length hq
      simp only [List.length_append, List.length_cons, List.length_drop, List.length_nil] at hdrop
      simp only [List.length_append, List.length_cons, List.length_nil] at hsum
      left
      omega
  | none =>
    have hnone : ¬ [0x20, 0x40] <:+: part := lastIndex_eq_none (by simp) hlast
    simp only [hlast] at h
    cases hat : lastIndex [0x40] part with
    | none => simp [hat] at h
    | some i =>
      obtain ⟨hi, -⟩ := lastIndex_eq_some hat
      simp only [hat] at h
      cases hcut : cut 0x20 (trimSpace (part.take i)) with
      | none => simp [hcut] at h
      | some c =>
        simp only [hcut, Entry.mk.injEq, Option.some.injEq] at h
        obtain ⟨rfl, rfl, haddr⟩ := h
        have hsum := hparts (by omega) hcut haddr
        rw [List.length_drop] at hsum
        exact Or.inr ⟨hnone, by omega⟩

/-- The address shown is what stands from the last blank before an `@`. -/
theorem addr_of_lastIndex {i : Nat} (h : lastIndex [0x20, 0x40] part = some i) :
    (renderEntry part).addr = some (trimSpace (part.drop i)) := by
  simp only [renderEntry, h]
  split <;> rfl

/-- An entry in clear form shows its name, signature and address. -/
theorem renderEntry_entryText {p : Bytes} {c : UInt8} (hname : 0x20 ∉ name) (hne : name ≠ [])
    (hstart : ¬ StartsWithSpace name) (hsig : sig = p ++ [c]) (hc : c ∉ spaceBytes)
    (hend : ¬ EndsWithSpace addr) (haddr : ¬ [0x20, 0x40] <:+: addr) :
    renderEntry (entryText name sig addr) = ⟨name, some sig, some (0x40 :: addr)⟩ := by
  have htext : entryText name sig addr = (name ++ 0x20 :: sig) ++ 0x20 :: 0x40 :: addr := by
    simp [entryText]
  -- the last blank before an `@` is the one the entry was written with
  have hlast : lastIndex [0x20, 0x40] (entryText name sig addr) =
      some (name ++ 0x20 :: sig).length := by
    rw [htext]
    refine lastIndex_append_cons (by simp) ?_
    rw [List.infix_cons_iff]
    rintro (hpre | hin)
    · simp at hpre
    · exact haddr hin
  have hleft : trimSpace ((entryText name sig addr).take (name ++ 0x20 :: sig).length) =
      name ++ 0x20 :: sig := by
    rw [htext, List.take_left, trimSpace_eq_self_iff, startsWithSpace_append_space hname]
    refine ⟨not_or.mpr ⟨hne, hstart⟩, ?_⟩
    have hsplit : name ++ 0x20 :: sig = (name ++ 0x20 :: p) ++ c :: [] := by simp [hsig]
    rw [hsplit, endsWithSpace_append_cons hc]
    rintro ⟨r, hr, hsuf⟩
    exact whiteSpace_ne_nil hr (List.suffix_nil.mp hsuf)
  have hat : (0x40 : UInt8) ∉ spaceBytes := by decide
  have hright : trimSpace ((entryText name sig addr).drop (name ++ 0x20 :: sig).length) =
      0x40 :: addr := by
    rw [htext, List.drop_left, trimSpace_space_cons, trimSpace_eq_self_iff]
    refine ⟨not_startsWithSpace_cons hat, ?_⟩
    rwa [← List.nil_append (0x40 :: addr), endsWithSpace_append_cons hat]
  rw [renderEntry_of_lastIndex hlast (by rw [hleft, cut_append hname]), hright]

/-- An entry whose address is shown whole has no blank before an `@` in it. -/
theorem notInfix_of_renderEntry
    (h : (renderEntry (entryText name sig addr)).addr = some (0x40 :: addr)) :
    ¬ [0x20, 0x40] <:+: addr := by
  rintro ⟨x, y, hxy⟩
  have htext : entryText name sig addr =
      (name ++ 0x20 :: (sig ++ 0x20 :: 0x40 :: x)) ++ 0x20 :: 0x40 :: y := by
    simp [entryText, ← hxy]
  have hpre : [0x20, 0x40] <+: 0x20 :: 0x40 :: y := ⟨y, rfl⟩
  have hocc : [0x20, 0x40] <:+: entryText name sig addr := by
    rw [htext]
    exact hpre.isInfix.trans (List.suffix_append _ _).isInfix
  obtain ⟨i, hi⟩ := lastIndex_isSome hocc (by simp)
  rw [addr_of_lastIndex hi, Option.some.injEq] at h
  obtain ⟨hlt, q, hq⟩ := lastIndex_eq_some hi
  rw [htext] at hi
  have hle := length_le_lastIndex hi hpre (by simp)
  rw [← hq, List.cons_append, trimSpace_space_cons] at h
  have htrim := length_trimSpace_le ([0x40] ++ q)
  rw [h] at htrim
  have hdrop := congrArg List.length hq
  have hlen := congrArg List.length hxy
  simp only [entryText, List.length_append, List.length_cons, List.length_drop,
    List.length_nil] at *
  omega

end Reading

/-! ## Section 6: Two ways to cut the list -/

section TwoCuts

variable {dladdr : UInt64 → Option Dl_info}

/-- The entry a method is to be shown as. -/
def ownEntry (dladdr : UInt64 → Option Dl_info) (m : JNINativeMethod) : Entry :=
  ⟨m.nameText, some m.sigText, some (0x40 :: addrText dladdr m)⟩

/-- The signature is a method descriptor. -/
def JNINativeMethod.HasDescriptor (m : JNINativeMethod) : Prop :=
  ∃ d : MethodDescriptor, m.sigText = d.text

/-- A piece that is shown as the entry of a method. -/
def ShownAs (dladdr : UInt64 → Option Dl_info) (r : Bytes) (m : JNINativeMethod) : Prop :=
  renderEntry (trimSpace r) = ownEntry dladdr m

variable {m : JNINativeMethod} {r : Bytes}

theorem length_clippedText_le (dladdr : UInt64 → Option Dl_info) (m : JNINativeMethod) :
    (clippedText dladdr m).length ≤ (wholeText dladdr m).length := by
  simp only [clippedText, wholeText, entryText, List.length_append, List.length_cons,
    List.length_take]
  omega

/-- A clipped entry still has the parenthesis of its descriptor. -/
theorem exists_clippedText (dladdr : UInt64 → Option Dl_info) (hm : m.HasDescriptor) :
    ∃ y, clippedText dladdr m =
      (m.nameText.take 200 ++ [0x20]) ++ 0x28 :: (y ++ 0x20 :: 0x40 :: addrText dladdr m) := by
  obtain ⟨d, hd⟩ := hm
  obtain ⟨p, c, hp, -⟩ := d.exists_text
  exact ⟨(p ++ [c]).take 399, by simp [clippedText, entryText, hd, hp]⟩

/-- A piece that reaches from a descriptor to an address keeps its blank
    before the `@`. -/
theorem infix_of_eq {x y z : Bytes} (h : r = x ++ 0x28 :: (y ++ 0x20 :: 0x40 :: z)) :
    [0x20, 0x40] <:+: trimSpace r := by
  have hin : 0x28 :: ((y ++ [0x20]) ++ [0x40]) <:+:
      trimSpace (x ++ 0x28 :: ((y ++ [0x20]) ++ 0x40 :: z)) :=
    infix_trimSpace (by decide) (by decide)
  have htext : x ++ 0x28 :: ((y ++ [0x20]) ++ 0x40 :: z) = r := by simp [h]
  rw [htext] at hin
  exact List.IsInfix.trans ⟨0x28 :: y, [], by simp⟩ hin

/-- A piece without a blank before an `@` is neither an entry, nor an
    entry without its first byte, nor one without a comma at its end. -/
theorem ne_clippedText (dladdr : UInt64 → Option Dl_info) (hm : m.HasDescriptor)
    (hr : ¬ [0x20, 0x40] <:+: trimSpace r) :
    r ≠ clippedText dladdr m ∧ (∀ c, c :: r ≠ clippedText dladdr m) ∧
      r ++ [0x2c] ≠ clippedText dladdr m := by
  obtain ⟨y, hy⟩ := exists_clippedText dladdr hm
  rw [hy]
  refine ⟨fun h => hr (infix_of_eq h), ?_, ?_⟩
  · intro c h
    -- the byte in front belongs to the name or is the blank after it
    obtain ⟨d, x, hx⟩ : ∃ d x, m.nameText.take 200 ++ [0x20] = d :: x := by
      cases m.nameText.take 200 with
      | nil => exact ⟨0x20, [], rfl⟩
      | cons d x => exact ⟨d, x ++ [0x20], rfl⟩
    rw [hx, List.cons_append] at h
    exact hr (infix_of_eq (List.cons.inj h).2)
  · intro h
    rcases List.eq_nil_or_concat (addrText dladdr m) with haddr | ⟨a, d, haddr⟩
    · -- the entry ends in the `@`
      rw [haddr] at h
      have hconcat : r ++ [0x2c] =
          (m.nameText.take 200 ++ [0x20] ++ 0x28 :: (y ++ [0x20])) ++ [0x40] := by
        rw [h]
        simp
      exact absurd (List.append_inj' hconcat rfl).2 (by decide)
    · have hconcat : r ++ [0x2c] =
          (m.nameText.take 200 ++ [0x20] ++ 0x28 :: (y ++ 0x20 :: 0x40 :: a)) ++ [d] := by
        rw [h, haddr]
        simp
      exact hr (infix_of_eq (List.append_inj' hconcat rfl).1)

theorem ShownAs.length (h : ShownAs dladdr r m) :
    (wholeText dladdr m).length ≤ (trimSpace r).length ∨
      ¬ [0x20, 0x40] <:+: trimSpace r ∧ (wholeText dladdr m).length ≤ r.length + 1 := by
  rcases length_of_renderEntry h with hlong | ⟨hbare, hlen⟩
  · exact Or.inl hlong
  · have := length_trimSpace_le r
    exact Or.inr ⟨hbare, by unfold wholeText; omega⟩

/-- The pieces after the first, each behind a separator. -/
def behind (rs : List Bytes) : Bytes :=
  rs.flatMap fun r => separator.val ++ r

theorem behind_cons (rs : List Bytes) : behind (r :: rs) = 0x2c :: 0x20 :: (r ++ behind rs) := by
  simp [behind, separator]

/-- When pieces are shown as the entries of the methods, and the pieces
    and the clipped entries are the ends of one text, then the entries
    start no earlier than the pieces.

    A piece can be a byte shorter than its entry only when it has no
    blank before an `@`. It would have to start one byte behind its
    entry, and have the entry's blank in it. -/
theorem length_behind_le {rs : List Bytes} {ms : List JNINativeMethod} {u : Bytes}
    (h : List.Forall₂ (ShownAs dladdr) rs ms) (hsig : ∀ m ∈ ms, m.HasDescriptor)
    (hrs : behind rs <:+ u) (hms : behind (ms.map (clippedText dladdr)) <:+ u) :
    (behind (ms.map (clippedText dladdr))).length ≤ (behind rs).length := by
  induction h with
  | nil => simp [behind]
  | @cons r m rs ms hshown hall ih =>
    rw [List.map_cons, behind_cons] at hms ⊢
    rw [behind_cons] at hrs ⊢
    have hr : r ++ behind rs <:+ u := (List.suffix_append [0x2c, 0x20] _).trans hrs
    have hm : clippedText dladdr m ++ behind (ms.map (clippedText dladdr)) <:+ u :=
      (List.suffix_append [0x2c, 0x20] _).trans hms
    have hrs' := (List.suffix_append r _).trans hr
    have hms' := (List.suffix_append (clippedText dladdr m) _).trans hm
    have ih := ih (fun m' hm' => hsig m' (by simp [hm'])) hrs' hms'
    have hclip := length_clippedText_le dladdr m
    simp only [List.length_cons, List.length_append]
    rcases hshown.length with hlong | ⟨hbare, hlen⟩
    · have := length_trimSpace_le r
      omega
    · by_contra hlt
      -- the ends behind the piece and behind its entry are the same
      have hend : behind rs = behind (ms.map (clippedText dladdr)) :=
        (List.suffix_of_suffix_length_le hrs' hms' (by omega)).eq_of_length (by omega)
      have hsuf : r ++ behind rs <:+ clippedText dladdr m ++ behind (ms.map (clippedText dladdr)) :=
        List.suffix_of_suffix_length_le hr hm (by simp only [List.length_append]; omega)
      obtain ⟨p, hp⟩ := hsuf
      have hplen := congrArg List.length hp
      simp only [List.length_append, hend] at hplen
      obtain ⟨c, rfl⟩ := List.length_eq_one_iff.mp (show p.length = 1 by omega)
      rw [hend, ← List.append_assoc] at hp
      exact (ne_clippedText dladdr (hsig m (by simp)) hbare).2.1 c (List.append_cancel_right hp)

/-- A piece shown as the entry of a method is the entry, and whole, when
    the two begin one text and the piece is not the longer one. -/
theorem ShownAs.piece_eq {rs rs' : List Bytes} (h : ShownAs dladdr r m) (hsig : m.HasDescriptor)
    (heq : r ++ behind rs = clippedText dladdr m ++ behind rs')
    (hle : (behind rs').length ≤ (behind rs).length) :
    r = clippedText dladdr m ∧ (wholeText dladdr m).length ≤ (trimSpace r).length := by
  have hlen := congrArg List.length heq
  have hclip := length_clippedText_le dladdr m
  simp only [List.length_append] at hlen
  rcases h.length with hlong | ⟨hbare, hshort⟩
  · have := length_trimSpace_le r
    exact ⟨(List.append_inj heq (by omega)).1, hlong⟩
  -- a bare name is shorter than the entry it was cut from
  · exfalso
    obtain ⟨hself, -, hcomma⟩ := ne_clippedText dladdr hsig hbare
    rcases List.append_eq_append_iff.mp heq with ⟨q, hq, hrest⟩ | ⟨q, hq, -⟩
    · rcases q with - | ⟨d, q⟩
      · exact hself (by simpa using hq.symm)
      · -- the entry is longer by a byte, which is the separator's comma
        have hqlen := congrArg List.length hq
        simp only [List.length_append, List.length_cons] at hqlen
        obtain rfl : q = [] := List.length_eq_zero_iff.mp (by omega)
        cases rs with
        | nil => simp [behind] at hrest
        | cons r' rs =>
          rw [behind_cons, List.singleton_append, List.cons.injEq] at hrest
          exact hcomma (by rw [hq, hrest.1])
    · have hqlen := congrArg List.length hq
      rw [List.length_append] at hqlen
      obtain rfl : q = [] := List.length_eq_zero_iff.mp (by omega)
      exact hself (by simpa using hq)

/-- Pieces of the list that are shown as the entries of the methods are
    the entries, and the entries are whole and not trimmed. -/
theorem eq_of_shownAs {rs : List Bytes} {ms : List JNINativeMethod}
    (h : List.Forall₂ (ShownAs dladdr) rs ms) (hsig : ∀ m ∈ ms, m.HasDescriptor)
    (heq : behind rs = behind (ms.map (clippedText dladdr))) :
    rs = ms.map (clippedText dladdr) ∧
      ∀ m ∈ ms, (wholeText dladdr m).length ≤ (trimSpace (clippedText dladdr m)).length := by
  induction h with
  | nil => simp
  | @cons r m rs ms hshown hall ih =>
    have hsig' : ∀ m' ∈ ms, m'.HasDescriptor := fun m' hm' => hsig m' (by simp [hm'])
    rw [List.map_cons, behind_cons, behind_cons] at heq
    simp only [List.cons.injEq, true_and] at heq
    -- what follows is no shorter than what it was cut from, so `r` is no longer
    -- than its entry
    have hle : (behind (ms.map (clippedText dladdr))).length ≤ (behind rs).length := by
      refine length_behind_le hall hsig' (List.suffix_append r _) ?_
      rw [heq]
      exact List.suffix_append _ _
    obtain ⟨rfl, hwhole⟩ := hshown.piece_eq (hsig m (by simp)) heq hle
    obtain ⟨hrs, hms⟩ := ih hsig' (List.append_cancel_left heq)
    refine ⟨by rw [List.map_cons, hrs], ?_⟩
    intro m' hm'
    rcases List.mem_cons.mp hm' with rfl | hm'
    · exact hwhole
    · exact hms m' hm'

end TwoCuts

/-! ## Section 7: What is read back -/

section ReadBack

variable {dladdr : UInt64 → Option Dl_info} {m : JNINativeMethod}

/-- A method whose entry is read back where it stands alone. -/
structure Clear (dladdr : UInt64 → Option Dl_info) (m : JNINativeMethod) : Prop where
  name_ne : m.nameText ≠ []
  name_start : ¬ StartsWithSpace m.nameText
  name_whole : m.nameText.length ≤ 200
  sig_whole : m.sigText.length ≤ 400
  addr_end : ¬ EndsWithSpace (addrText dladdr m)
  addr_blank : ¬ [0x20, 0x40] <:+: addrText dladdr m
  /-- No separator of the entry stands outside its brackets. -/
  unsplit : Unsplit bracket separator.val 0 (wholeText dladdr m)

/-- The methods of a list that is read back: each is clear, and all but
    the last close the brackets they open. -/
structure ClearList (dladdr : UInt64 → Option Dl_info) (methods : List JNINativeMethod) :
    Prop where
  ne_nil : methods ≠ []
  clear : ∀ m ∈ methods, Clear dladdr m
  closed : ∀ m ∈ methods.dropLast, nesting bracket (wholeText dladdr m) = 0

/-- Clipping keeps an entry exactly when it keeps its length. -/
theorem whole_of_length (dladdr : UInt64 → Option Dl_info)
    (h : (wholeText dladdr m).length ≤ (clippedText dladdr m).length) :
    m.nameText.length ≤ 200 ∧ m.sigText.length ≤ 400 := by
  simp only [wholeText, clippedText, entryText, List.length_append, List.length_cons,
    List.length_take] at h
  omega

theorem clippedText_eq (dladdr : UInt64 → Option Dl_info) (hname : m.nameText.length ≤ 200)
    (hsig : m.sigText.length ≤ 400) : clippedText dladdr m = wholeText dladdr m := by
  rw [clippedText, wholeText, List.take_of_length_le hname, List.take_of_length_le hsig]

theorem trimSpace_wholeText_iff (dladdr : UInt64 → Option Dl_info)
    (hname : 0x20 ∉ m.nameText) :
    trimSpace (wholeText dladdr m) = wholeText dladdr m ↔
      (m.nameText ≠ [] ∧ ¬ StartsWithSpace m.nameText) ∧
        ¬ EndsWithSpace (addrText dladdr m) := by
  have hat : (0x40 : UInt8) ∉ spaceBytes := by decide
  have hend : EndsWithSpace (wholeText dladdr m) ↔ EndsWithSpace (addrText dladdr m) := by
    have hsplit : wholeText dladdr m =
        (m.nameText ++ 0x20 :: (m.sigText ++ [0x20])) ++ 0x40 :: addrText dladdr m := by
      simp [wholeText, entryText]
    rw [hsplit, endsWithSpace_append_cons hat]
  have hstart : StartsWithSpace (wholeText dladdr m) ↔
      m.nameText = [] ∨ StartsWithSpace m.nameText :=
    startsWithSpace_append_space hname
  rw [trimSpace_eq_self_iff, hstart, hend, not_or]

/-- A clear method's entry shows the method. -/
theorem Clear.shownAs (h : Clear dladdr m) (hname : 0x20 ∉ m.nameText) (hsig : m.HasDescriptor) :
    ShownAs dladdr (wholeText dladdr m) m := by
  obtain ⟨d, hd⟩ := hsig
  obtain ⟨p, c, hp, hc⟩ := d.exists_text
  have htrim := (trimSpace_wholeText_iff dladdr hname).mpr
    ⟨⟨h.name_ne, h.name_start⟩, h.addr_end⟩
  have htext : m.sigText = (0x28 :: p) ++ [c] := by rw [hd, hp]; rfl
  unfold ShownAs
  rw [htrim]
  exact renderEntry_entryText hname h.name_ne h.name_start htext hc h.addr_end h.addr_blank

/-- The entries rendered for a list that fits are those of its segments. -/
theorem entries_eq (mem : Nat → UInt8) {methods : List JNINativeMethod}
    (hfits : (listText dladdr methods).length ≤ 2047) :
    emitRegisterNatives_entries (log_jni_register_natives_buf mem dladdr methods) =
      (segments bracket separator.val 0 0 [] (listText dladdr methods)).map
        fun r => renderEntry (trimSpace r) := by
  rw [log_jni_register_natives_buf_eq mem methods hfits, emitRegisterNatives_entries,
    splitDepth_eq, List.map_map]
  rfl

theorem map_clippedText_eq (dladdr : UInt64 → Option Dl_info)
    {methods : List JNINativeMethod}
    (h : ∀ m ∈ methods, m.nameText.length ≤ 200 ∧ m.sigText.length ≤ 400) :
    methods.map (clippedText dladdr) = methods.map (wholeText dladdr) :=
  List.map_congr_left fun m hm => clippedText_eq dladdr (h m hm).1 (h m hm).2

/-- The whole entries are the segments of the list exactly when none is
    split and all but the last are closed. -/
theorem segments_wholeText_iff {methods : List JNINativeMethod} (hne : methods ≠ []) :
    segments bracket separator.val 0 0 [] (separator.val.intercalate
        (methods.map (wholeText dladdr))) = methods.map (wholeText dladdr) ↔
      (∀ m ∈ methods, Unsplit bracket separator.val 0 (wholeText dladdr m)) ∧
        ∀ m ∈ methods.dropLast, nesting bracket (wholeText dladdr m) = 0 := by
  have hentries : methods.map (wholeText dladdr) ≠ [] := by simpa using hne
  have hiff := segments_intercalate_iff (w := bracket) (a := 0x2c) (b := 0x20) (by decide) rfl
    hentries
  rw [← List.map_dropLast, List.forall_mem_map, List.forall_mem_map] at hiff
  exact hiff

theorem behind_cons_eq (r : Bytes) (rs : List Bytes) :
    behind (r :: rs) = separator.val ++ separator.val.intercalate (r :: rs) := by
  rw [behind_cons, intercalate_cons]
  rfl

/-- Methods shown by the segments of their list make up a clear list. -/
theorem clearList_of_shownAs {methods : List JNINativeMethod}
    (hname : ∀ m ∈ methods, 0x20 ∉ m.nameText) (hsig : ∀ m ∈ methods, m.HasDescriptor)
    (h : List.Forall₂ (ShownAs dladdr)
      (segments bracket separator.val 0 0 [] (listText dladdr methods)) methods) :
    ClearList dladdr methods := by
  have hjoin : separator.val.intercalate
      (segments bracket separator.val 0 0 [] (listText dladdr methods)) =
        listText dladdr methods :=
    intercalate_segments (w := bracket) (a := 0x2c) (b := 0x20) rfl _
  have hsegs : segments bracket separator.val 0 0 [] (listText dladdr methods) ≠ [] :=
    segments_ne_nil (w := bracket) (a := 0x2c) (b := 0x20) 0 0 [] _
  obtain ⟨r, rs, hrs⟩ := List.exists_cons_of_ne_nil hsegs
  have hne : methods ≠ [] := by
    rintro rfl
    rw [hrs] at h
    cases h
  -- the pieces are the entries
  have hbehind : behind (segments bracket separator.val 0 0 [] (listText dladdr methods)) =
      behind (methods.map (clippedText dladdr)) := by
    obtain ⟨m, ms, hms⟩ := List.exists_cons_of_ne_nil hne
    rw [hrs] at hjoin ⊢
    rw [behind_cons_eq, hjoin, listText, hms, List.map_cons, behind_cons_eq]
  obtain ⟨heq, hlen⟩ := eq_of_shownAs h hsig hbehind
  -- and they are whole
  have hwhole : ∀ m ∈ methods, m.nameText.length ≤ 200 ∧ m.sigText.length ≤ 400 := by
    intro m hm
    have := length_trimSpace_le (clippedText dladdr m)
    have := hlen m hm
    exact whole_of_length dladdr (by omega)
  have hmap := map_clippedText_eq dladdr hwhole
  rw [heq, hmap, List.forall₂_map_left_iff, List.forall₂_same] at h
  rw [listText, hmap, segments_wholeText_iff hne] at heq
  refine ⟨hne, ?_, heq.2⟩
  intro m hm
  have hclip := clippedText_eq dladdr (hwhole m hm).1 (hwhole m hm).2
  have htrim : trimSpace (wholeText dladdr m) = wholeText dladdr m := by
    have := hlen m hm
    rw [hclip] at this
    exact trimSpace_eq_self_of_length this
  have hends := (trimSpace_wholeText_iff dladdr (hname m hm)).mp htrim
  have haddr := congrArg Entry.addr (h m hm)
  rw [htrim] at haddr
  exact ⟨hends.1.1, hends.1.2, (hwhole m hm).1, (hwhole m hm).2, hends.2,
    notInfix_of_renderEntry haddr, heq.1 m hm⟩

/-- For method lists that fit the buffer, with names without a space and
    with method descriptors as signatures: the Go side shows each method
    by its name, signature and address, in order, exactly when the list
    is clear. -/
theorem registerNatives_read_back_iff (mem : Nat → UInt8) (dladdr : UInt64 → Option Dl_info)
    (methods : List JNINativeMethod) (hname : ∀ m ∈ methods, 0x20 ∉ m.nameText)
    (hsig : ∀ m ∈ methods, m.HasDescriptor)
    (hfits : (listText dladdr methods).length ≤ 2047) :
    emitRegisterNatives_entries (log_jni_register_natives_buf mem dladdr methods) =
        methods.map (ownEntry dladdr) ↔
      ClearList dladdr methods := by
  rw [entries_eq mem hfits]
  constructor
  · intro h
    refine clearList_of_shownAs hname hsig ?_
    have hall : List.Forall₂ (· = ·)
        ((segments bracket separator.val 0 0 [] (listText dladdr methods)).map
          fun r => renderEntry (trimSpace r)) (methods.map (ownEntry dladdr)) := by
      rw [List.forall₂_eq_eq_eq]
      exact h
    rw [List.forall₂_map_left_iff, List.forall₂_map_right_iff] at hall
    exact hall
  · intro h
    have hwhole : ∀ m ∈ methods, m.nameText.length ≤ 200 ∧ m.sigText.length ≤ 400 :=
      fun m hm => ⟨(h.clear m hm).name_whole, (h.clear m hm).sig_whole⟩
    have hsegs := (segments_wholeText_iff h.ne_nil).mpr
      ⟨fun m hm => (h.clear m hm).unsplit, h.closed⟩
    rw [listText, map_clippedText_eq dladdr hwhole, hsegs, List.map_map]
    exact List.map_congr_left fun m hm => (h.clear m hm).shownAs (hname m hm) (hsig m hm)

/-- Where names and addresses have no brackets, an entry closes what it
    opens exactly when its descriptor has no array type. -/
theorem nesting_wholeText_iff {d : MethodDescriptor} (hsig : m.sigText = d.text)
    (hplain : ∀ t ∈ d.types, t.Plain) (hname : ∀ c ∈ m.nameText, bracket c = 0)
    (haddr : ∀ c ∈ addrText dladdr m, bracket c = 0) :
    nesting bracket (wholeText dladdr m) = 0 ↔ ∀ t ∈ d.types, t.dims = 0 := by
  have hspace : bracket 0x20 = 0 := rfl
  have hat : bracket 0x40 = 0 := rfl
  have hentry : nesting bracket (wholeText dladdr m) = (d.types.map FieldType.dims).sum := by
    simp only [wholeText, entryText, nesting_append, nesting_cons, hspace, hat,
      nesting_eq_zero bracket hname, nesting_eq_zero bracket haddr, hsig,
      MethodDescriptor.nesting_text hplain]
    omega
  rw [hentry]
  norm_cast
  rw [List.sum_eq_zero_iff_forall_eq_nat, List.forall_mem_map]

/-- An encryption routine that takes and returns a byte array. -/
def encryptMethod : JNINativeMethod :=
  ⟨some ⟨ascii "encrypt", by decide⟩, some ⟨ascii "([B)[B", by decide⟩, 0x1000⟩

def initMethod : JNINativeMethod :=
  ⟨some ⟨ascii "init", by decide⟩, some ⟨ascii "(I)V", by decide⟩, 0x2000⟩

/-- A list with the array type in its last entry is read back. -/
theorem read_back_array_last :
    emitRegisterNatives_entries
        (log_jni_register_natives_buf (fun _ => 0) (fun _ => none) [initMethod, encryptMethod]) =
      [initMethod, encryptMethod].map (ownEntry fun _ => none) := by
  have hdesc : initMethod.HasDescriptor ∧ encryptMethod.HasDescriptor :=
    ⟨⟨⟨[.base .int], none⟩, by decide⟩,
      ⟨⟨[.array (.base .byte)], some (.array (.base .byte))⟩, by decide⟩⟩
  refine (registerNatives_read_back_iff (fun _ => 0) (fun _ => none) [initMethod, encryptMethod]
    ?_ ?_ (by decide +kernel)).mpr ⟨by simp, ?_, ?_⟩
  · decide
  · simpa using hdesc
  · have hinit : Clear (fun _ => none) initMethod :=
      ⟨by decide, by decide, by decide, by decide, by decide +kernel, by decide +kernel,
        by decide +kernel⟩
    have hencrypt : Clear (fun _ => none) encryptMethod :=
      ⟨by decide, by decide, by decide, by decide, by decide +kernel, by decide +kernel,
        by decide +kernel⟩
    simpa using ⟨hinit, hencrypt⟩
  · decide +kernel

/-- With the array type in the first entry, the second one is read as part
    of its signature. -/
theorem array_first_merges :
    ((∀ m ∈ [encryptMethod, initMethod], 0x20 ∉ m.nameText ∧ m.HasDescriptor) ∧
        (listText (fun _ => none) [encryptMethod, initMethod]).length ≤ 2047) ∧
      emitRegisterNatives_entries
          (log_jni_register_natives_buf (fun _ => 0) (fun _ => none)
            [encryptMethod, initMethod]) =
        [⟨ascii "encrypt", some (ascii "([B)[B @0x1000, init (I)V"), some (ascii "@0x2000")⟩] ∧
      emitRegisterNatives_entries
          (log_jni_register_natives_buf (fun _ => 0) (fun _ => none)
            [encryptMethod, initMethod]) ≠
        [encryptMethod, initMethod].map (ownEntry fun _ => none) := by
  have hdesc : encryptMethod.HasDescriptor ∧ initMethod.HasDescriptor :=
    ⟨⟨⟨[.array (.base .byte)], some (.array (.base .byte))⟩, by decide⟩,
      ⟨⟨[.base .int], none⟩, by decide⟩⟩
  have hnames : 0x20 ∉ encryptMethod.nameText ∧ 0x20 ∉ initMethod.nameText := by decide
  have hlist : listText (fun _ => none) [encryptMethod, initMethod] =
      ascii "encrypt ([B)[B @0x1000, init (I)V @0x2000" := by decide +kernel
  have hfits : (listText (fun _ => none) [encryptMethod, initMethod]).length ≤ 2047 := by
    rw [hlist]
    decide
  have hread : emitRegisterNatives_entries
      (log_jni_register_natives_buf (fun _ => 0) (fun _ => none) [encryptMethod, initMethod]) =
        [⟨ascii "encrypt", some (ascii "([B)[B @0x1000, init (I)V"),
          some (ascii "@0x2000")⟩] := by
    rw [log_jni_register_natives_buf_eq _ _ hfits, hlist]
    decide +kernel
  refine ⟨⟨by simp [hnames, hdesc], hfits⟩, hread, ?_⟩
  rw [hread]
  simp

end ReadBack

end JniLog.RegisterNatives
