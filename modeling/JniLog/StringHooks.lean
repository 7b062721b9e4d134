import JniLog.Visualize

/-! # Hooks that frame strings by hand

    Six hooks of `hooks.c` write their `encoded_args` around raw text,
    outside the escaping encoder: `NewStringUTF`, `GetStringUTFChars`,
    `ThrowNew`, `FatalError`, `DefineClass` and `ExceptionClear`. Each
    clips its strings to a byte cap of its own.

    Main result: `decodeArgs` reads the records such a hook means exactly
    when the clipped strings keep clear of the record terminator and of
    the escape byte. -/

namespace JniLog.StringHooks

open Bytes JlFmt Visualize

/-! ## Section 1: The buffers the hooks build -/

/-- `utf ? utf : ""`. -/
def orEmpty : Option CStr → CStr
  | some s => s
  | none => default

/-- `enc` of `hooked_NewStringUTF`. Lengths of strings fit an `int`. -/
def hooked_NewStringUTF_enc (utf : Option CStr) : Bytes :=
  let ulen := match utf with | some utf => utf.val.length | none => 0
  let ulen := if ulen > 400 then 400 else ulen
  [0x73, 0x01] ++ (match utf with | some utf => utf.val.take ulen | none => []) ++ [0x02]

/-- `enc` of `hooked_GetStringUTFChars`; `sv` is the string's content. -/
def hooked_GetStringUTFChars_enc (sv : Option CStr) : Bytes :=
  snprintf 512 (ascii "s\x01%.400s\x02") [.str (orEmpty sv)]

/-- `enc` of `hooked_ThrowNew`; `cn` is the name of the class. -/
def hooked_ThrowNew_enc (cn msg : Option CStr) : Bytes :=
  snprintf 1024 (ascii "c\x01%.500s\x02s\x01%.400s\x02") [.str (orEmpty cn), .str (orEmpty msg)]

/-- `enc` of `hooked_FatalError`. -/
def hooked_FatalError_enc (msg : Option CStr) : Bytes :=
  snprintf 512 (ascii "s\x01%.400s\x02") [.str (orEmpty msg)]

/-- `enc` of `hooked_DefineClass`. -/
def hooked_DefineClass_enc (name : Option CStr) (bufLen : Int32) : Bytes :=
  snprintf 256 (ascii "c\x01%.200s\x02I\x01%d\x02") [.str (orEmpty name), .word (intWord bufLen)]

/-- `snprintf` with the length it answers. -/
def snprintfLen (cap : Nat) (fmt : Bytes) (ap : List Arg) : Bytes × Int :=
  (snprintf cap fmt ap, (jl_vsnprintf (fun _ => 0) cap fmt ap).2.toInt)

/-- The first part of `enc` in `hooked_ExceptionClear`, and the write
    position `pos` clamped to the buffer: `sv` is the content of the
    exception when it is a string, `cn` its class name. -/
def exceptionHead (sv : Option CStr) (cn : CStr) : Bytes × Int :=
  let cap : Int := 1024
  let (enc, pos) := match sv with
    | some sv => snprintfLen 1024 (ascii "s\x01%.400s") [.str (some sv)]
    | none => snprintfLen 1024 (ascii "L\x01%.400s") [.str (some cn)]
  let pos := if pos < 0 then 0 else pos
  let pos := if pos > cap - 1 then cap - 1 else pos
  (enc.take pos.toNat, pos)

/-- The `toString` part: `enc` is the text before `pos`. -/
def exceptionExtra (ts : Option CStr) (enc : Bytes) (pos : Int) : Bytes × Int :=
  let cap : Int := 1024
  match ts with
  | some ts =>
    if pos < cap - 2 then
      let enc := enc ++ [0x03]
      let pos := pos + 1
      let (text, w) := snprintfLen (cap - 1 - pos).toNat (ascii "%.400s") [.str (some ts)]
      let w := if w < 0 then 0 else w
      let w := if w > cap - 1 - pos then cap - 1 - pos else w
      (enc ++ text.take w.toNat, pos + w)
    else (enc, pos)
  | none => (enc, pos)

/-- `enc` of `hooked_ExceptionClear` for a pending exception; `ts` is its
    `toString`. -/
def hooked_ExceptionClear_enc (sv : Option CStr) (cn : CStr) (ts : Option CStr) : Bytes :=
  let cap : Int := 1024
  let (enc, pos) := exceptionHead sv cn
  let (enc, pos) := exceptionExtra ts enc pos
  if pos < cap - 1 then enc ++ [0x02] else enc

/-! ## Section 2: The text of the buffers -/

/-- A string conversion with a precision. -/
theorem padded_take (n : Nat) (s : Bytes) : padded false 0 (s.take n) = s.take n :=
  padded_of_le (by omega)

/-- The text of a record: a signature character, the separator, the rest. -/
def recordText (sig : UInt8) (raw : Bytes) : Bytes := sig :: 0x01 :: raw

theorem writes_s400 (s : CStr) :
    Writes (formatLoop 9 (ascii "s\x01%.400s\x02") [.str (some s)])
      (recordText 0x73 (s.val.take 400) ++ [0x02]) := by
  intro k
  have hfmt : ascii "s\x01%.400s\x02" =
      [0x73, 0x01, 0x25, 0x2e, 0x34, 0x30, 0x30, 0x73, 0x02] := by decide
  rw [hfmt]
  simp [formatLoop, parseSpec, parseFlags, parseNumber, parseLength, convert, va_str,
    recordText, puts_append, padded_take]

theorem zero_notMem_take {s : CStr} (n : Nat) : 0 ∉ s.val.take n :=
  fun h => s.property (List.mem_of_mem_take h)

theorem snprintf_s400 (s : CStr) :
    snprintf 512 (ascii "s\x01%.400s\x02") [.str (some s)] =
      recordText 0x73 (s.val.take 400) ++ [0x02] := by
  refine snprintf_eq_of_fits (writes_s400 s) ?_ ?_
  · simpa [recordText] using zero_notMem_take 400
  · simp [recordText]
    omega

theorem hooked_NewStringUTF_enc_eq (utf : Option CStr) :
    hooked_NewStringUTF_enc utf = recordText 0x73 ((orEmpty utf).val.take 400) ++ [0x02] := by
  cases utf with
  | none => rfl
  | some u =>
    simp only [hooked_NewStringUTF_enc, orEmpty, recordText]
    split
    · rfl
    · rw [List.take_length, List.take_of_length_le (by omega)]
      rfl

theorem hooked_ThrowNew_enc_eq (cn msg : Option CStr) :
    hooked_ThrowNew_enc cn msg =
      recordText 0x63 ((orEmpty cn).val.take 500) ++
        0x02 :: (recordText 0x73 ((orEmpty msg).val.take 400) ++ [0x02]) := by
  have hw : Writes (formatLoop 18 (ascii "c\x01%.500s\x02s\x01%.400s\x02")
      [.str (orEmpty cn), .str (orEmpty msg)])
      (recordText 0x63 ((orEmpty cn).val.take 500) ++
        0x02 :: (recordText 0x73 ((orEmpty msg).val.take 400) ++ [0x02])) := by
    intro k
    have hfmt : ascii "c\x01%.500s\x02s\x01%.400s\x02" =
        [0x63, 0x01, 0x25, 0x2e, 0x35, 0x30, 0x30, 0x73, 0x02,
          0x73, 0x01, 0x25, 0x2e, 0x34, 0x30, 0x30, 0x73, 0x02] := by decide
    rw [hfmt]
    simp [formatLoop, parseSpec, parseFlags, parseNumber, parseLength, convert, va_str,
      recordText, puts_append, padded_take]
  refine snprintf_eq_of_fits hw ?_ ?_
  · simpa [recordText] using ⟨zero_notMem_take 500, zero_notMem_take 400⟩
  · simp [recordText]
    omega

theorem hooked_DefineClass_enc_eq (name : Option CStr) (bufLen : Int32) :
    hooked_DefineClass_enc name bufLen =
      recordText 0x63 ((orEmpty name).val.take 200) ++
        0x02 :: (recordText 0x49 (intText bufLen.toInt) ++ [0x02]) := by
  have hint (k : jl_fmt_sink) :
      jl_fmt_int k bufLen.toInt64 0 0 false false false false false =
        puts k (intText bufLen.toInt) := by
    have h := writes_jl_fmt_int bufLen.toInt64 k
    rwa [Int32.toInt_toInt64] at h
  have hw : Writes (formatLoop 14 (ascii "c\x01%.200s\x02I\x01%d\x02")
      [.str (orEmpty name), .word (intWord bufLen)])
      (recordText 0x63 ((orEmpty name).val.take 200) ++
        0x02 :: (recordText 0x49 (intText bufLen.toInt) ++ [0x02])) := by
    intro k
    have hfmt : ascii "c\x01%.200s\x02I\x01%d\x02" =
        [0x63, 0x01, 0x25, 0x2e, 0x32, 0x30, 0x30, 0x73, 0x02,
          0x49, 0x01, 0x25, 0x64, 0x02] := by decide
    rw [hfmt]
    simp [formatLoop, parseSpec, parseFlags, parseNumber, parseLength, convert, va_str, va_word,
      recordText, puts_append, padded_take, hint]
  have hlen := length_intText_le bufLen.toInt64
  rw [Int32.toInt_toInt64] at hlen
  refine snprintf_eq_of_fits hw ?_ ?_
  · simpa [recordText] using ⟨zero_notMem_take 200, zero_notMem_intText _⟩
  · simp [recordText]
    omega

/-- The text of an exception's record: its class name and, when there is
    one, its `toString`. -/
def exceptionText (name : Bytes) : Option Bytes → Bytes
  | none => name
  | some text => name ++ 0x03 :: text

theorem exceptionHead_eq (cn : CStr) :
    exceptionHead none cn =
      (recordText 0x4c (cn.val.take 400), ((cn.val.take 400).length : Int) + 2) := by
  have hw : Writes (formatLoop 8 (ascii "L\x01%.400s") [.str (some cn)])
      (recordText 0x4c (cn.val.take 400)) := by
    intro k
    have hfmt : ascii "L\x01%.400s" = [0x4c, 0x01, 0x25, 0x2e, 0x34, 0x30, 0x30, 0x73] := by
      decide
    rw [hfmt]
    simp [formatLoop, parseSpec, parseFlags, parseNumber, parseLength, convert, va_str,
      recordText, padded_take]
  have htake : (cn.val.take 400).length ≤ 400 := List.length_take_le _ _
  have hlen : (recordText 0x4c (cn.val.take 400)).length = (cn.val.take 400).length + 2 := rfl
  have htext : snprintf 1024 (ascii "L\x01%.400s") [.str (some cn)] =
      recordText 0x4c (cn.val.take 400) := by
    refine snprintf_eq_of_fits hw ?_ (by omega)
    simpa [recordText] using zero_notMem_take 400
  have hpos : (jl_vsnprintf (fun _ => 0) 1024 (ascii "L\x01%.400s") [.str (some cn)]).2.toInt =
      (recordText 0x4c (cn.val.take 400)).length := jl_vsnprintf_len hw (by omega)
  simp only [exceptionHead, snprintfLen, htext, hpos, hlen, Nat.cast_add, Nat.cast_ofNat]
  rw [if_neg (by omega), if_neg (by omega), List.take_of_length_le (by omega)]

/-- The separator and the clipped `toString`, when there is one. -/
def extraPart : Option CStr → Bytes
  | some ts => 0x03 :: ts.val.take 400
  | none => []

theorem exceptionExtra_eq (ts : Option CStr) (enc : Bytes) {pos : Int} (hpos : 0 ≤ pos)
    (h : pos ≤ 402) :
    exceptionExtra ts enc pos = (enc ++ extraPart ts, pos + (extraPart ts).length) := by
  cases ts with
  | none => simp [exceptionExtra, extraPart]
  | some ts =>
    have htake : (ts.val.take 400).length ≤ 400 := List.length_take_le _ _
    have hw : Writes (formatLoop 6 (ascii "%.400s") [.str (some ts)]) (ts.val.take 400) := by
      intro k
      have hfmt : ascii "%.400s" = [0x25, 0x2e, 0x34, 0x30, 0x30, 0x73] := by decide
      rw [hfmt]
      simp [formatLoop, parseSpec, parseFlags, parseNumber, parseLength, convert, va_str,
        padded_take]
    have htext : snprintf ((1024 : Int) - 1 - (pos + 1)).toNat (ascii "%.400s") [.str (some ts)] =
        ts.val.take 400 := snprintf_eq_of_fits hw (zero_notMem_take 400) (by omega)
    have hret : (jl_vsnprintf (fun _ => 0) ((1024 : Int) - 1 - (pos + 1)).toNat (ascii "%.400s")
        [.str (some ts)]).2.toInt = (ts.val.take 400).length := jl_vsnprintf_len hw (by omega)
    have hroom : (pos : Int) < 1024 - 2 := by omega
    simp only [exceptionExtra, snprintfLen, htext, hret, if_pos hroom]
    rw [if_neg (by omega), if_neg (by omega), List.take_of_length_le (by omega)]
    simp only [extraPart, List.append_assoc, List.singleton_append, List.length_cons,
      Prod.mk.injEq, true_and]
    omega

theorem hooked_ExceptionClear_enc_eq (cn : CStr) (ts : Option CStr) :
    hooked_ExceptionClear_enc none cn ts =
      recordText 0x4c (exceptionText (cn.val.take 400) (ts.map fun t => t.val.take 400)) ++
        [0x02] := by
  have hcn : (cn.val.take 400).length ≤ 400 := List.length_take_le _ _
  have hextra : (extraPart ts).length ≤ 401 := by
    cases ts with
    | none => simp [extraPart]
    | some ts => simp [extraPart]
  simp only [hooked_ExceptionClear_enc, exceptionHead_eq]
  rw [exceptionExtra_eq ts _ (by omega) (by omega)]
  simp only
  rw [if_pos (by omega)]
  cases ts <;> simp [recordText, exceptionText, extraPart]

/-! ## Section 3: Reading hand-framed records -/

/-- A text that is framed and read back whole: it does not end its record,
    and no byte of it but the last is the escape byte. -/
def CleanText (s : Bytes) : Prop :=
  (0x02 : UInt8) ∉ s ∧ wireEscByte ∉ s.dropLast

instance (s : Bytes) : Decidable (CleanText s) := inferInstanceAs (Decidable (_ ∧ _))

theorem length_unescapeWireContent_le (s : Bytes) :
    (unescapeWireContent s).length ≤ s.length := by
  rw [unescapeWireContent_eq]
  exact EscapeCode.length_unescape_le s

/-- Unescaping keeps the length of a text just when it changes nothing. -/
theorem length_unescapeWireContent_eq {s : Bytes}
    (h : (unescapeWireContent s).length = s.length) : wireEscByte ∉ s.dropLast := by
  intro hmem
  have hlt := EscapeCode.length_unescape_lt (c := wireCode) hmem
  rw [← unescapeWireContent_eq] at hlt
  omega

theorem unescapeWireContent_of_dropLast {s : Bytes} (h : wireEscByte ∉ s.dropLast) :
    unescapeWireContent s = s := by
  rw [unescapeWireContent_eq]
  exact EscapeCode.unescape_eq_self_of_dropLast (c := wireCode) h

section Framed

variable {sig : UInt8} {kind : JNIKind} {f : Bytes → Bytes} {rest : Bytes} {vs : List JNIValue}

theorem recordText_notMem (hsig : sig ≠ 0x02) {raw : Bytes} (h : (0x02 : UInt8) ∉ raw) :
    (0x02 : UInt8) ∉ recordText sig raw := by
  simp [recordText, Ne.symm hsig, h]

/-- **Exactness for one record** whose value is its text, up to a
    rewriting of single bytes. -/
theorem decodeArgs_record_iff (hsig : sig ≠ 0x01 ∧ sig ≠ 0x02)
    (hf : ∀ s, (f s).length = s.length)
    (hbuild : ∀ raw, buildJNIValue (JNIKindFromSigChar sig) raw =
      { kind, str := f (unescapeWireContent raw) }) (s : Bytes) :
    decodeArgs (recordText sig s ++ 0x02 :: rest) = { kind, str := f s } :: vs ↔
      CleanText s ∧ decodeArgs rest = vs := by
  have hdecode (p : Bytes) (hp : (0x02 : UInt8) ∉ p) (rest : Bytes) :
      decodeArgs (recordText sig p ++ 0x02 :: rest) =
        { kind, str := f (unescapeWireContent p) } :: decodeArgs rest := by
    rw [decodeArgs_append (recordText_notMem hsig.2 hp), recordText, decodeRecord_cons hsig.1,
      hbuild]
    rfl
  -- the text of the first value is never longer than the text it is read from
  have hlen {p : Bytes} (h : f (unescapeWireContent p) = f s) : s.length ≤ p.length := by
    have hle := length_unescapeWireContent_le p
    have heq := congrArg List.length h
    rw [hf, hf] at heq
    omega
  constructor
  · intro h
    by_cases hend : (0x02 : UInt8) ∈ s
    · obtain ⟨p, q, hs, hp⟩ := List.eq_append_cons_of_mem hend
      have hsplit : recordText sig s ++ 0x02 :: rest =
          recordText sig p ++ 0x02 :: (q ++ 0x02 :: rest) := by
        simp [recordText, hs]
      rw [hsplit, hdecode p hp] at h
      have hstr : f (unescapeWireContent p) = f s := congrArg JNIValue.str (List.cons.inj h).1
      have hshort := hlen hstr
      simp [hs] at hshort
    · rw [hdecode s hend] at h
      obtain ⟨hhead, htail⟩ := List.cons.inj h
      have hstr : f (unescapeWireContent s) = f s := congrArg JNIValue.str hhead
      have heq := congrArg List.length hstr
      rw [hf, hf] at heq
      exact ⟨⟨hend, length_unescapeWireContent_eq heq⟩, htail⟩
  · rintro ⟨⟨hend, hesc⟩, htail⟩
    rw [hdecode s hend, unescapeWireContent_of_dropLast hesc, htail]

end Framed

theorem decodeArgs_string_iff (s rest : Bytes) (vs : List JNIValue) :
    decodeArgs (recordText 0x73 s ++ 0x02 :: rest) = { kind := .KindString, str := s } :: vs ↔
      CleanText s ∧ decodeArgs rest = vs :=
  decodeArgs_record_iff (f := id) (by decide) (fun _ => rfl)
    (fun raw => by simp [JNIKindFromSigChar, buildJNIValue, buildJNIValueFuel]) s

theorem decodeArgs_class_iff (s rest : Bytes) (vs : List JNIValue) :
    decodeArgs (recordText 0x63 s ++ 0x02 :: rest) =
        { kind := .KindClass, str := normalizeDots s } :: vs ↔
      CleanText s ∧ decodeArgs rest = vs :=
  decodeArgs_record_iff (by decide) length_normalizeDots
    (fun raw => by simp [JNIKindFromSigChar, buildJNIValue, buildJNIValueFuel]) s

/-! ### The record of an exception -/

/-- The bytes of text an object value shows. -/
def shownLength (v : JNIValue) : Nat := v.str.length + v.extra.length

theorem shownLength_object_le (raw : Bytes) :
    shownLength (buildJNIValue .KindObject raw) ≤ raw.length := by
  simp only [buildJNIValue, buildJNIValueFuel]
  split
  · simp [shownLength, NullValue]
  · split
    · rename_i name text hcut
      have hname := length_unescapeWireContent_le name
      have htext := length_unescapeWireContent_le text
      have hraw := congrArg List.length (cut_eq_some hcut).2
      simp only [shownLength, length_normalizeDots, List.length_append, List.length_cons] at hraw ⊢
      omega
    · have hraw := length_unescapeWireContent_le raw
      simpa [shownLength, length_normalizeDots] using hraw

/-- A separator is not shown. -/
theorem shownLength_object_lt {raw : Bytes} (h : (0x03 : UInt8) ∈ raw) :
    shownLength (buildJNIValue .KindObject raw) < raw.length := by
  obtain ⟨p, q, rfl, hp⟩ := List.eq_append_cons_of_mem h
  have hname := length_unescapeWireContent_le p
  have htext := length_unescapeWireContent_le q
  simp only [buildJNIValue, buildJNIValueFuel, cut_append hp]
  split
  · simp [shownLength, NullValue]
  · simp only [shownLength, length_normalizeDots, List.length_append, List.length_cons]
    omega

/-- What the hook means to show of an exception. -/
def exceptionValue (name : Bytes) (text : Option Bytes) : JNIValue :=
  { kind := .KindObject, str := normalizeDots name, extra := text.getD [] }

/-- An exception whose record is read back whole. -/
structure CleanException (name : Bytes) (text : Option Bytes) : Prop where
  name_clean : CleanText name
  name_sep : (0x03 : UInt8) ∉ name
  text_clean : ∀ t, text = some t → CleanText t
  not_null : ¬ (name = ascii "null" ∧ text = none)

theorem shownLength_exceptionValue (name : Bytes) (text : Option Bytes) :
    shownLength (exceptionValue name text) = name.length + (text.getD []).length := by
  simp [shownLength, exceptionValue]

/-- The text before a terminator shows less than the whole exception. -/
theorem shownLength_cut {name : Bytes} {text : Option Bytes} {p q : Bytes}
    (h : exceptionText name text = p ++ 0x02 :: q) :
    shownLength (buildJNIValue .KindObject p) < shownLength (exceptionValue name text) := by
  rw [shownLength_exceptionValue]
  have hle := shownLength_object_le p
  cases text with
  | none =>
    have hlen := congrArg List.length h
    simp only [exceptionText, List.length_append, List.length_cons] at hlen
    simp only [Option.getD_none, List.length_nil]
    omega
  | some t =>
    have hlen := congrArg List.length h
    simp only [exceptionText, List.length_append, List.length_cons] at hlen
    simp only [Option.getD_some]
    -- the separator before the terminator is not shown
    by_cases hsep : (0x03 : UInt8) ∈ p
    · have hlt := shownLength_object_lt hsep
      omega
    · -- the terminator stands inside the name
      rcases List.append_eq_append_iff.mp h with ⟨a, hp, ha⟩ | ⟨a, hname, ha⟩
      · cases a with
        | nil => simp at ha
        | cons x a =>
          rw [List.cons_append, List.cons.injEq] at ha
          exact absurd (by simp [hp, ← ha.1]) hsep
      · cases a with
        | nil => simp at ha
        | cons x a =>
          have hnl := congrArg List.length hname
          simp only [List.length_append, List.length_cons] at hnl
          omega

/-- Without the terminator the exception is one record. -/
theorem buildJNIValue_exception_iff {name : Bytes} {text : Option Bytes}
    (hend : (0x02 : UInt8) ∉ exceptionText name text) :
    buildJNIValue .KindObject (exceptionText name text) = exceptionValue name text ↔
      CleanException name text := by
  cases text with
  | none =>
    constructor
    · intro h
      have hnull : name ≠ ascii "null" := by
        rintro rfl
        exact absurd (congrArg JNIValue.kind h) (by decide)
      -- a separator in the name would not be shown
      have hsep : (0x03 : UInt8) ∉ name := by
        intro hmem
        have hlt := shownLength_object_lt hmem
        rw [show buildJNIValue .KindObject name = exceptionValue name none from h,
          shownLength_exceptionValue] at hlt
        simp at hlt
      simp only [exceptionText, buildJNIValue, buildJNIValueFuel, if_neg hnull,
        cut_eq_none hsep] at h
      have hstr := congrArg (fun v => v.str.length) h
      simp only [exceptionValue, length_normalizeDots] at hstr
      exact ⟨⟨hend, length_unescapeWireContent_eq hstr⟩, hsep, by simp, fun hn => hnull hn.1⟩
    · intro h
      have hnull : name ≠ ascii "null" := fun hn => h.not_null ⟨hn, rfl⟩
      simp [exceptionText, buildJNIValue, buildJNIValueFuel, hnull, cut_eq_none h.name_sep,
        unescapeWireContent_of_dropLast h.name_clean.2, exceptionValue]
  | some t =>
    have hparts : (0x02 : UInt8) ∉ name ∧ (0x02 : UInt8) ∉ t := by
      simpa [exceptionText] using hend
    have hnull : name ++ 0x03 :: t ≠ ascii "null" := by
      intro hn
      have hmem : (0x03 : UInt8) ∈ ascii "null" := by simp [← hn]
      exact absurd hmem (by decide)
    constructor
    · intro h
      -- a separator in the name would end the class name there
      have hsep : (0x03 : UInt8) ∉ name := by
        intro hmem
        obtain ⟨p, q, rfl, hp⟩ := List.eq_append_cons_of_mem hmem
        simp only [exceptionText, buildJNIValue, buildJNIValueFuel, List.append_assoc,
          List.cons_append, cut_append hp] at h
        rw [if_neg (by simpa using hnull)] at h
        have hstr := congrArg (fun v => v.str.length) h
        simp only [exceptionValue, length_normalizeDots, List.length_append,
          List.length_cons] at hstr
        have hle := length_unescapeWireContent_le p
        omega
      simp only [exceptionText, buildJNIValue, buildJNIValueFuel, if_neg hnull,
        cut_append hsep] at h
      have hstr := congrArg (fun v => v.str.length) h
      have hextra := congrArg (fun v => v.extra.length) h
      simp only [exceptionValue, length_normalizeDots, Option.getD_some] at hstr hextra
      refine ⟨⟨hparts.1, length_unescapeWireContent_eq hstr⟩, hsep, ?_, by simp⟩
      intro u hu
      obtain rfl := Option.some.inj hu
      exact ⟨hparts.2, length_unescapeWireContent_eq hextra⟩
    · intro h
      simp [exceptionText, buildJNIValue, buildJNIValueFuel, hnull, cut_append h.name_sep,
        unescapeWireContent_of_dropLast h.name_clean.2,
        unescapeWireContent_of_dropLast (h.text_clean t rfl).2, exceptionValue]

/-- **Exactness for an exception's record.** -/
theorem decodeArgs_exception_iff (name : Bytes) (text : Option Bytes) :
    decodeArgs (recordText 0x4c (exceptionText name text) ++ [0x02]) =
        [exceptionValue name text] ↔ CleanException name text := by
  have hkind : JNIKindFromSigChar 0x4c = .KindObject := by decide
  have hdecode (p : Bytes) (hp : (0x02 : UInt8) ∉ p) (rest : Bytes) :
      decodeArgs (recordText 0x4c p ++ 0x02 :: rest) =
        buildJNIValue .KindObject p :: decodeArgs rest := by
    rw [decodeArgs_append (recordText_notMem (by decide) hp), recordText,
      decodeRecord_cons (by decide), hkind]
    rfl
  by_cases hend : (0x02 : UInt8) ∈ exceptionText name text
  -- the record ends at the first terminator, wherever that stands
  · obtain ⟨p, q, hs, hp⟩ := List.eq_append_cons_of_mem hend
    have hsplit : recordText 0x4c (exceptionText name text) ++ [0x02] =
        recordText 0x4c p ++ 0x02 :: (q ++ [0x02]) := by
      simp [recordText, hs]
    refine iff_of_false ?_ ?_
    · intro h
      rw [hsplit, hdecode p hp] at h
      have hlt := shownLength_cut hs
      rw [(List.cons.inj h).1] at hlt
      omega
    · intro h
      have hname := h.name_clean.1
      cases text with
      | none => exact hname hend
      | some t =>
        have ht := (h.text_clean t rfl).1
        simp [exceptionText, hname, ht] at hend
  · rw [hdecode _ hend, ← buildJNIValue_exception_iff hend, List.cons.injEq]
    exact and_iff_left rfl

/-! ## Section 4: All six hooks -/

/-- A logged call of one of the hooks, with the strings it reads. The
    exception of `ExceptionClear` is a throwable, never a string. -/
inductive HookCall where
  | NewStringUTF (utf : Option CStr)
  | GetStringUTFChars (sv : Option CStr)
  | ThrowNew (cn msg : Option CStr)
  | FatalError (msg : Option CStr)
  | DefineClass (name : Option CStr) (bufLen : Int32)
  | ExceptionClear (cn : CStr) (ts : Option CStr)

namespace HookCall

/-- The `encoded_args` the hook builds. -/
def encodedArgs : HookCall → Bytes
  | NewStringUTF utf => hooked_NewStringUTF_enc utf
  | GetStringUTFChars sv => hooked_GetStringUTFChars_enc sv
  | ThrowNew cn msg => hooked_ThrowNew_enc cn msg
  | FatalError msg => hooked_FatalError_enc msg
  | DefineClass name bufLen => hooked_DefineClass_enc name bufLen
  | ExceptionClear cn ts => hooked_ExceptionClear_enc none cn ts

/-- The string a hook reads, up to its cap. -/
def clip (n : Nat) (s : Option CStr) : Bytes := (orEmpty s).val.take n

/-- The arguments the hook means to log. -/
def intended : HookCall → List JNIValue
  | NewStringUTF utf => [{ kind := .KindString, str := clip 400 utf }]
  | GetStringUTFChars sv => [{ kind := .KindString, str := clip 400 sv }]
  | ThrowNew cn msg =>
    [{ kind := .KindClass, str := normalizeDots (clip 500 cn) },
      { kind := .KindString, str := clip 400 msg }]
  | FatalError msg => [{ kind := .KindString, str := clip 400 msg }]
  | DefineClass name bufLen =>
    [{ kind := .KindClass, str := normalizeDots (clip 200 name) },
      { kind := .KindInt, int := bufLen.toInt }]
  | ExceptionClear cn ts =>
    [exceptionValue (clip 400 (some cn)) (ts.map fun t => clip 400 (some t))]

/-- The clipped strings of the call keep clear of the framing. -/
def Clean : HookCall → Prop
  | NewStringUTF utf => CleanText (clip 400 utf)
  | GetStringUTFChars sv => CleanText (clip 400 sv)
  | ThrowNew cn msg => CleanText (clip 500 cn) ∧ CleanText (clip 400 msg)
  | FatalError msg => CleanText (clip 400 msg)
  | DefineClass name _ => CleanText (clip 200 name)
  | ExceptionClear cn ts =>
    CleanException (clip 400 (some cn)) (ts.map fun t => clip 400 (some t))

end HookCall

theorem decodeArgs_int (n : Int32) :
    decodeArgs (recordText 0x49 (intText n.toInt) ++ [0x02]) =
      [{ kind := .KindInt, int := n.toInt }] := by
  have hrange : -2 ^ 63 ≤ n.toInt ∧ n.toInt < 2 ^ 63 := IntPrim.toInt_mem_range .I n
  have hkind : JNIKindFromSigChar 0x49 = .KindInt := by decide
  have hfree : (0x02 : UInt8) ∉ intText n.toInt := notMem_intText (by decide) (by decide) _
  rw [decodeArgs_append (recordText_notMem (by decide) hfree), recordText,
    decodeRecord_cons (by decide), hkind, buildJNIValue_integral (by decide) hrange.1 hrange.2]
  rfl

/-- **Exactness.** A reader sees the arguments a hook means to log
    precisely when the clipped strings are clean. -/
theorem decodeArgs_encodedArgs_iff (h : HookCall) :
    decodeArgs h.encodedArgs = h.intended ↔ h.Clean := by
  have hstring (s : Bytes) : decodeArgs (recordText 0x73 s ++ [0x02]) =
      [{ kind := .KindString, str := s }] ↔ CleanText s :=
    (decodeArgs_string_iff s [] []).trans (and_iff_left rfl)
  cases h with
  | NewStringUTF utf =>
    simp only [HookCall.encodedArgs, hooked_NewStringUTF_enc_eq]
    exact hstring _
  | GetStringUTFChars sv =>
    simp only [HookCall.encodedArgs, hooked_GetStringUTFChars_enc, snprintf_s400]
    exact hstring _
  | ThrowNew cn msg =>
    simp only [HookCall.encodedArgs, hooked_ThrowNew_enc_eq]
    exact (decodeArgs_class_iff _ _ _).trans (and_congr_right fun _ => hstring _)
  | FatalError msg =>
    simp only [HookCall.encodedArgs, hooked_FatalError_enc, snprintf_s400]
    exact hstring _
  | DefineClass name bufLen =>
    simp only [HookCall.encodedArgs, hooked_DefineClass_enc_eq]
    exact (decodeArgs_class_iff _ _ _).trans (and_iff_left (decodeArgs_int bufLen))
  | ExceptionClear cn ts =>
    simp only [HookCall.encodedArgs, hooked_ExceptionClear_enc_eq]
    exact decodeArgs_exception_iff _ _

/-- A fatal error whose message carries a record of its own. -/
def forgedMessage : HookCall :=
  .FatalError (some ⟨[0x61, 0x02, 0x49, 0x01, 0x34, 0x32], by decide⟩)

/-- The message `a` is cut at its second byte, and an `int` 42 that was
    never passed is read after it. -/
theorem forgedMessage_read :
    decodeArgs forgedMessage.encodedArgs ≠ forgedMessage.intended ∧
      decodeArgs forgedMessage.encodedArgs =
        [{ kind := .KindString, str := ascii "a" }, { kind := .KindInt, int := 42 }] := by
  have henc : forgedMessage.encodedArgs =
      recordText 0x73 [0x61, 0x02, 0x49, 0x01, 0x34, 0x32] ++ [0x02] := by
    simp only [forgedMessage, HookCall.encodedArgs, hooked_FatalError_enc, orEmpty, snprintf_s400]
    decide
  have hread : decodeArgs forgedMessage.encodedArgs =
      [{ kind := .KindString, str := ascii "a" }, { kind := .KindInt, int := 42 }] := by
    rw [henc]
    decide
  exact ⟨by rw [hread]; decide, hread⟩

end JniLog.StringHooks
