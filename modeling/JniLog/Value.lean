import JniLog.Framework.Escape
import JniLog.JlFmt

/-! # Typed values on the reader side

    Model of `value.go`: the kinds and values the log is rendered from,
    the escaping of embedded content, and the decoders `decodeArgs`,
    `buildJNIValue`, `buildReturnValue` and `decodeSingleReceiver`.

    * `strconv.ParseInt` follows its documentation: a syntax error gives
      0, a value out of range the nearest bound, each with an error.
    * A floating point value is kept as what it is read from (a text, or
      bits), since nothing here computes with it.

    Main results: the codec for embedded content loses nothing, integer
    texts read back, and `decodeArgs` of well-separated records decodes
    record by record. -/

namespace JniLog

open Bytes

/-! ## Section 1: Kinds and values -/

/-- `JNIKind`. -/
inductive JNIKind where
  | KindNull | KindVoid | KindBoolean | KindByte | KindChar | KindShort | KindInt | KindLong
  | KindFloat | KindDouble | KindString | KindClass | KindObject | KindArray | KindPointer
  deriving DecidableEq, Repr

/-- `JNIKind(rkind)` for an `int`: the low byte picks the constant.
    `none` stands for a byte that is not one of the constants. -/
def JNIKind.ofInt (rkind : Int) : Option JNIKind :=
  match (rkind % 256).toNat with
  | 0 => some .KindNull
  | 1 => some .KindVoid
  | 2 => some .KindBoolean
  | 3 => some .KindByte
  | 4 => some .KindChar
  | 5 => some .KindShort
  | 6 => some .KindInt
  | 7 => some .KindLong
  | 8 => some .KindFloat
  | 9 => some .KindDouble
  | 10 => some .KindString
  | 11 => some .KindClass
  | 12 => some .KindObject
  | 13 => some .KindArray
  | 14 => some .KindPointer
  | _ => none

/-- What a `float64` was made from. -/
inductive FloatVal where
  | zero
  /-- `strconv.ParseFloat` of a text -/
  | parsed : Bytes → FloatVal
  /-- a `float32` bit pattern, widened -/
  | bits32 : UInt32 → FloatVal
  | bits64 : UInt64 → FloatVal
  deriving DecidableEq, Repr

/-- `JNIValue`. -/
structure JNIValue where
  kind : JNIKind
  /-- integral value; for an array, the number of elements left out -/
  int : Int := 0
  float : FloatVal := .zero
  str : Bytes := []
  extra : Bytes := []
  items : List JNIValue := []
  deriving Repr

mutual

def JNIValue.decEq : (a b : JNIValue) → Decidable (a = b)
  | ⟨k, i, f, s, e, xs⟩, ⟨k', i', f', s', e', xs'⟩ =>
    have := JNIValue.decEqItems xs xs'
    decidable_of_iff (k = k' ∧ i = i' ∧ f = f' ∧ s = s' ∧ e = e' ∧ xs = xs') (by simp)

def JNIValue.decEqItems : (xs ys : List JNIValue) → Decidable (xs = ys)
  | [], [] => isTrue rfl
  | [], _ :: _ => isFalse (by simp)
  | _ :: _, [] => isFalse (by simp)
  | x :: xs, y :: ys =>
    have := JNIValue.decEq x y
    have := JNIValue.decEqItems xs ys
    decidable_of_iff (x = y ∧ xs = ys) (by simp)

end

instance : DecidableEq JNIValue := JNIValue.decEq

def NullValue : JNIValue := { kind := .KindNull }

def VoidValue : JNIValue := { kind := .KindVoid }

/-- `JNIKindFromSigChar`. -/
def JNIKindFromSigChar (ch : UInt8) : JNIKind :=
  if ch = 0x5a then .KindBoolean       -- 'Z'
  else if ch = 0x42 then .KindByte     -- 'B'
  else if ch = 0x43 then .KindChar     -- 'C'
  else if ch = 0x53 then .KindShort    -- 'S'
  else if ch = 0x49 then .KindInt      -- 'I'
  else if ch = 0x4a then .KindLong     -- 'J'
  else if ch = 0x46 then .KindFloat    -- 'F'
  else if ch = 0x44 then .KindDouble   -- 'D'
  else if ch = 0x56 then .KindVoid     -- 'V'
  else if ch = 0x5b then .KindArray    -- '['
  else if ch = 0x4c then .KindObject   -- 'L'
  else if ch = 0x70 then .KindPointer  -- 'p'
  else if ch = 0x73 then .KindString   -- 's'
  else if ch = 0x63 then .KindClass    -- 'c'
  else .KindNull

/-! ## Section 2: Escaping of embedded content -/

def wireEscByte : UInt8 := 0x05

def wireByteNeedsEscape (b : UInt8) : Bool :=
  b == 0x01 || b == 0x02 || b == 0x03 || b == 0x04 || b == 0x05 || b == 0x1a

/-- The escape code of the wire: `\x05` leads, and `b ^ 0x40` follows. -/
def wireCode : EscapeCode where
  lead := wireEscByte
  mask := 0x40
  reserved := wireByteNeedsEscape
  lead_reserved := by decide
  masked_free := by
    intro b hb
    simp only [wireByteNeedsEscape, Bool.or_eq_true, beq_iff_eq] at hb
    rcases hb with ((((rfl | rfl) | rfl) | rfl) | rfl) | rfl <;> decide

/-- The loop of `unescapeWireContent`. -/
def unescapeLoop : Bytes → Bytes
  | [] => []
  | [b] => [b]
  | b :: x :: s => if b = wireEscByte then (x ^^^ 0x40) :: unescapeLoop s
      else b :: unescapeLoop (x :: s)

/-- `unescapeWireContent`: texts without the escape byte are passed through. -/
def unescapeWireContent (s : Bytes) : Bytes :=
  if wireEscByte ∉ s then s else unescapeLoop s

/-- `escapeWireContent`: texts with nothing to escape are passed through. -/
def escapeWireContent (s : Bytes) : Bytes :=
  if !s.any wireByteNeedsEscape then s
  else s.flatMap fun b => if wireByteNeedsEscape b then [wireEscByte, b ^^^ 0x40] else [b]

theorem unescapeLoop_eq (s : Bytes) : unescapeLoop s = wireCode.unescape s := by
  induction s using unescapeLoop.induct with
  | case1 => rw [unescapeLoop, EscapeCode.unescape]
  | case2 b => rw [unescapeLoop, EscapeCode.unescape]
  | case3 x s ih =>
    rw [unescapeLoop, EscapeCode.unescape, if_pos rfl, ih]
    exact (if_pos rfl).symm
  | case4 b x s hb ih =>
    rw [unescapeLoop, EscapeCode.unescape, if_neg hb, ih]
    exact (if_neg hb).symm

theorem unescapeWireContent_eq (s : Bytes) : unescapeWireContent s = wireCode.unescape s := by
  unfold unescapeWireContent
  split
  · rename_i h
    exact (EscapeCode.unescape_eq_self (c := wireCode) h).symm
  · exact unescapeLoop_eq s

theorem escapeWireContent_eq (s : Bytes) : escapeWireContent s = wireCode.escape s := by
  unfold escapeWireContent
  split
  · rename_i h
    refine (EscapeCode.escape_eq_self (c := wireCode) fun b hb => ?_).symm
    simp only [Bool.not_eq_true', List.any_eq_false, Bool.not_eq_true] at h
    exact h b hb
  · rfl

/-- Embedded content survives the wire. -/
@[simp] theorem unescape_wireCode (s : Bytes) :
    unescapeWireContent (wireCode.escape s) = s := by
  rw [unescapeWireContent_eq, EscapeCode.unescape_escape]

/-- The framing bytes and the placeholder marker do not occur in escaped content. -/
theorem notMem_wireCode {b : UInt8} (h : wireByteNeedsEscape b = true) (hne : b ≠ wireEscByte)
    (s : Bytes) : b ∉ wireCode.escape s :=
  EscapeCode.notMem_escape (c := wireCode) h hne s

/-- `normalizeDots`. -/
def normalizeDots (s : Bytes) : Bytes :=
  s.map fun b => if b = 0x2f then 0x2e else b

@[simp] theorem length_normalizeDots (s : Bytes) : (normalizeDots s).length = s.length := by
  simp [normalizeDots]

/-! ## Section 3: Integers as text -/

/-- The errors of `strconv`. -/
inductive NumError where
  | ErrSyntax | ErrRange
  deriving DecidableEq, Repr

/-- The digit loop of `ParseUint(s, 10, 64)`, from the value `n` on. -/
def parseUintLoop (n : Nat) : Bytes → Nat × Option NumError
  | [] => (n, none)
  | c :: s =>
    match Numeral.byteDigit? c with
    | none => (0, some .ErrSyntax)
    | some d =>
      if n * 10 + d ≥ 2 ^ 64 then (2 ^ 64 - 1, some .ErrRange) else parseUintLoop (n * 10 + d) s

/-- `strconv.ParseUint(s, 10, 64)`. -/
def ParseUint (s : Bytes) : Nat × Option NumError :=
  if s = [] then (0, some .ErrSyntax) else parseUintLoop 0 s

/-- The optional sign of a number. -/
def splitSign : Bytes → Bool × Bytes
  | [] => (false, [])
  | c :: s => if c = 0x2b then (false, s) else if c = 0x2d then (true, s) else (false, c :: s)

/-- `strconv.ParseInt(s, 10, 64)`. -/
def ParseInt (s : Bytes) : Int × Option NumError :=
  if s = [] then (0, some .ErrSyntax)
  else
    let (neg, digits) := splitSign s
    match ParseUint digits with
    | (_, some .ErrSyntax) => (0, some .ErrSyntax)
    | (un, _) =>
      if !neg && un ≥ 2 ^ 63 then (2 ^ 63 - 1, some .ErrRange)
      else if neg && un > 2 ^ 63 then (-2 ^ 63, some .ErrRange)
      else (if neg then -un else un, none)

theorem parseUintLoop_map {n : Nat} {ds : List Nat} (hd : ∀ d ∈ ds, d < 10)
    (h : Numeral.valueFrom 10 n ds < 2 ^ 64) :
    parseUintLoop n (ds.map Numeral.digitByte) = (Numeral.valueFrom 10 n ds, none) := by
  induction ds generalizing n with
  | nil => rfl
  | cons d ds ih =>
    have hle : n * 10 + d ≤ Numeral.valueFrom 10 n (d :: ds) :=
      Numeral.le_valueFrom (by decide) _ ds
    rw [List.map_cons, parseUintLoop, Numeral.byteDigit?_digitByte (hd d (by simp))]
    simp only
    rw [if_neg (by omega), ih (fun e he => hd e (by simp [he])) h, Numeral.valueFrom_cons]

/-- Decimal text of a 64-bit number reads back. -/
theorem ParseUint_decimal {n : Nat} (h : n < 2 ^ 64) :
    ParseUint (Numeral.decimal 64 n) = (n, none) := by
  have hval : Numeral.valueFrom 10 0 (Numeral.digits 10 64 n).reverse = n :=
    Numeral.valueFrom_reverse_digits (by decide) (by omega)
  rw [ParseUint, if_neg (Numeral.decimal_ne_nil 63 n), Numeral.decimal,
    parseUintLoop_map (fun d hd => Numeral.lt_of_mem_digits (by decide) (by simpa using hd))
      (by rwa [hval]), hval]

/-- A text of digits has no sign. -/
theorem splitSign_digits {s : Bytes} (h : ∀ c ∈ s, 0x30 ≤ c) : splitSign s = (false, s) := by
  cases s with
  | nil => rfl
  | cons c s =>
    have hc : 0x30 ≤ c := h c List.mem_cons_self
    have hplus : c ≠ 0x2b := by rintro rfl; exact absurd hc (by decide)
    have hdash : c ≠ 0x2d := by rintro rfl; exact absurd hc (by decide)
    rw [splitSign, if_neg hplus, if_neg hdash]

theorem splitSign_decimal (n : Nat) :
    splitSign (Numeral.decimal 64 n) = (false, Numeral.decimal 64 n) :=
  splitSign_digits fun _ hc => (Numeral.mem_decimal hc).1

/-- The text of a 64-bit integer reads back. -/
theorem ParseInt_intText {n : Int} (hlo : -2 ^ 63 ≤ n) (hhi : n < 2 ^ 63) :
    ParseInt (JlFmt.intText n) = (n, none) := by
  have hun := ParseUint_decimal (show n.natAbs < 2 ^ 64 by omega)
  by_cases hneg : n < 0
  · have htext : JlFmt.intText n = 0x2d :: Numeral.decimal 64 n.natAbs := by
      rw [JlFmt.intText, if_pos hneg, show ascii "-" = [0x2d] by decide]
      rfl
    have hsign : splitSign (0x2d :: Numeral.decimal 64 n.natAbs) =
      (true, Numeral.decimal 64 n.natAbs) := rfl
    have hrange : ¬ n.natAbs > 2 ^ 63 := by omega
    rw [htext, ParseInt, if_neg (List.cons_ne_nil _ _), hsign]
    have hval : -(n.natAbs : Int) = n := by omega
    simp only [hun, Bool.not_true, Bool.false_and, Bool.true_and, Bool.false_eq_true, if_false,
      decide_eq_true_eq, if_neg hrange, if_true, hval]
  · have htext : JlFmt.intText n = Numeral.decimal 64 n.natAbs := by
      rw [JlFmt.intText, if_neg hneg]
      rfl
    have hrange : ¬ n.natAbs ≥ 2 ^ 63 := by omega
    rw [htext, ParseInt, if_neg (Numeral.decimal_ne_nil 63 _), splitSign_decimal]
    have hval : (n.natAbs : Int) = n := by omega
    simp only [hun, Bool.not_false, Bool.false_and, Bool.true_and, Bool.false_eq_true, if_false,
      decide_eq_true_eq, if_neg hrange, hval]

/-- The first digits of a number read as a number that is smaller, unless
    they are all of them. -/
theorem ParseUint_isPrefix {n : Nat} (h : n < 2 ^ 64) {s : Bytes}
    (hpre : s <+: Numeral.decimal 64 n) (hne : s ≠ []) :
    ∃ m, ParseUint s = (m, none) ∧ m ≤ n ∧ (m = n → n ≠ 0 → s = Numeral.decimal 64 n) := by
  have hval : Numeral.valueFrom 10 0 (Numeral.digits 10 64 n).reverse = n :=
    Numeral.valueFrom_reverse_digits (by decide) (by omega)
  obtain ⟨ds, hds, rfl⟩ := List.prefix_map_iff.mp hpre
  have hle : Numeral.valueFrom 10 0 ds ≤ n := by
    obtain ⟨es, hes⟩ := hds
    rw [← hval, ← hes, Numeral.valueFrom_append]
    exact Numeral.le_valueFrom (by decide) _ _
  have hlt : ∀ d ∈ ds, d < 10 := by
    intro d hd
    have hmem : d ∈ Numeral.digits 10 64 n := by simpa using hds.subset hd
    exact Numeral.lt_of_mem_digits (by decide) hmem
  refine ⟨Numeral.valueFrom 10 0 ds, ?_, hle, ?_⟩
  · rw [ParseUint, if_neg hne, parseUintLoop_map hlt (by omega)]
  · intro heq hpos
    have hsame : Numeral.valueFrom 10 0 ds =
        Numeral.valueFrom 10 0 (Numeral.digits 10 64 n).reverse := by
      rw [heq, hval]
    rw [Numeral.eq_of_valueFrom_isPrefix (by decide) hds hsame (by omega), Numeral.decimal]

/-- Only all of its text reads as a number that is not 0. -/
theorem ParseInt_isPrefix {n : Int} (hlo : -2 ^ 63 ≤ n) (hhi : n < 2 ^ 63) {s : Bytes}
    (hpre : s <+: JlFmt.intText n) (hne : n ≠ 0) :
    (ParseInt s).1 = n ↔ s = JlFmt.intText n := by
  constructor
  · intro h
    -- a sign alone, or nothing, reads as 0
    by_cases hneg : n < 0
    · have htext : JlFmt.intText n = 0x2d :: Numeral.decimal 64 n.natAbs := by
        rw [JlFmt.intText, if_pos hneg, show ascii "-" = [0x2d] by decide]
        rfl
      rw [htext] at hpre ⊢
      cases s with
      | nil => exact absurd h.symm hne
      | cons c s =>
        obtain ⟨rfl, hdigits⟩ := List.cons_prefix_cons.mp hpre
        have hsign : splitSign (0x2d :: s) = (true, s) := rfl
        by_cases hs : s = []
        · subst hs
          exact absurd h.symm hne
        · obtain ⟨m, hm, hle, hall⟩ := ParseUint_isPrefix (by omega) hdigits hs
          have hrange : ¬ m > 2 ^ 63 := by omega
          rw [ParseInt, if_neg (List.cons_ne_nil _ _), hsign] at h
          simp only [hm, Bool.not_true, Bool.false_and, Bool.true_and, Bool.false_eq_true, if_false,
            decide_eq_true_eq, if_neg hrange, if_true] at h
          rw [hall (by omega) (by omega)]
    · have htext : JlFmt.intText n = Numeral.decimal 64 n.natAbs := by
        rw [JlFmt.intText, if_neg hneg]
        rfl
      rw [htext] at hpre ⊢
      by_cases hs : s = []
      · subst hs
        exact absurd h.symm hne
      · obtain ⟨m, hm, hle, hall⟩ := ParseUint_isPrefix (by omega) hpre hs
        have hsign : splitSign s = (false, s) :=
          splitSign_digits fun c hc => (Numeral.mem_decimal (hpre.subset hc)).1
        have hrange : ¬ m ≥ 2 ^ 63 := by omega
        rw [ParseInt, if_neg hs, hsign] at h
        simp only [hm, Bool.not_false, Bool.false_and, Bool.true_and, Bool.false_eq_true, if_false,
          decide_eq_true_eq, if_neg hrange] at h
        exact hall (by omega) (by omega)
  · intro h
    rw [h, ParseInt_intText hlo hhi]

theorem parseUintLoop_ok {n m : Nat} {s : Bytes} (h : parseUintLoop n s = (m, none)) :
    ∀ c ∈ s, 0x30 ≤ c := by
  induction s generalizing n with
  | nil => simp
  | cons c s ih =>
    rw [parseUintLoop] at h
    cases hd : Numeral.byteDigit? c with
    | none => simp [hd] at h
    | some d =>
      have hc : 0x30 ≤ c := by
        unfold Numeral.byteDigit? at hd
        split at hd
        · rename_i hc
          exact hc.1
        · simp at hd
      simp only [hd] at h
      split at h
      · simp at h
      · intro x hx
        rcases List.mem_cons.mp hx with rfl | hx
        · exact hc
        · exact ih h x hx

theorem parseUintLoop_range {n m : Nat} {s : Bytes}
    (h : parseUintLoop n s = (m, some .ErrRange)) : m = 2 ^ 64 - 1 := by
  induction s generalizing n with
  | nil => simp [parseUintLoop] at h
  | cons c s ih =>
    rw [parseUintLoop] at h
    cases hd : Numeral.byteDigit? c with
    | none => simp [hd] at h
    | some d =>
      simp only [hd] at h
      split at h
      · simpa using h.symm
      · exact ih h

/-- A text that parses has digits after its sign. -/
theorem ParseUint_of_ParseInt {n : Int} {s : Bytes} (h : ParseInt s = (n, none)) :
    ∃ un, ParseUint (splitSign s).2 = (un, none) := by
  unfold ParseInt at h
  split at h
  · simp at h
  · cases hun : ParseUint (splitSign s).2 with
    | mk un err =>
      cases err with
      | none => exact ⟨un, rfl⟩
      | some e =>
        cases e with
        | ErrSyntax => simp [hun] at h
        | ErrRange =>
          -- out of range for `ParseUint` is out of range for `ParseInt`
          have hmax : un = 2 ^ 64 - 1 := by
            unfold ParseUint at hun
            split at hun
            · simp at hun
            · exact parseUintLoop_range hun
          cases hneg : (splitSign s).1 <;> simp [hun, hneg, hmax] at h

/-- A text that parses holds signs and digits only. -/
theorem ParseInt_ok {n : Int} {s : Bytes} (h : ParseInt s = (n, none)) : ∀ c ∈ s, 0x2b ≤ c := by
  obtain ⟨un, hun⟩ := ParseUint_of_ParseInt h
  have hdigits : ∀ c ∈ (splitSign s).2, 0x2b ≤ c := by
    intro c hc
    unfold ParseUint at hun
    split at hun
    · simp at hun
    · exact UInt8.le_trans (by decide) (parseUintLoop_ok hun c hc)
  cases s with
  | nil => simp
  | cons x t =>
    rw [splitSign] at hdigits
    split at hdigits
    · rename_i hx
      simpa [hx] using hdigits
    · split at hdigits
      · rename_i _ hx
        simpa [hx] using hdigits
      · exact hdigits

/-! ## Section 4: Decoders -/

/-- The `+N` marker of an array: the number of elements left out. -/
def overflowMarker : Bytes → Option Int
  | [] => none
  | c :: s =>
    if c = 0x2b then
      match ParseInt s with
      | (n, none) => some n
      | (_, some _) => none
    else none

/-- `buildJNIValue`. An element of an array is decoded by the function
    itself; its text is shorter than the array's, so the length of the
    text is fuel enough. -/
def buildJNIValueFuel (fuel : Nat) (kind : JNIKind) (raw : Bytes) : JNIValue :=
  match kind with
  | .KindNull | .KindVoid => { kind }
  | .KindBoolean | .KindByte | .KindChar | .KindShort | .KindInt | .KindLong =>
    { kind, int := (ParseInt raw).1 }
  | .KindFloat | .KindDouble => { kind, float := .parsed raw }
  | .KindString => { kind, str := unescapeWireContent raw }
  | .KindClass => { kind, str := normalizeDots (unescapeWireContent raw) }
  | .KindObject =>
    if raw = ascii "null" then NullValue
    else
      match cut 0x03 raw with
      | some (name, text) =>
        { kind, str := normalizeDots (unescapeWireContent name), extra := unescapeWireContent text }
      | none => { kind, str := normalizeDots (unescapeWireContent raw) }
  | .KindArray =>
    match fuel, raw with
    | fuel + 1, c :: sep :: x :: rest =>
      if sep = 0x04 then
        let itemKind := JNIKindFromSigChar c
        let parts := (x :: rest).splitOn 0x04
        -- only the last part can be the marker
        match overflowMarker (parts.getLastD []) with
        | some n =>
          { kind, int := n, str := raw,
            items := parts.dropLast.map (buildJNIValueFuel fuel itemKind) }
        | none => { kind, str := raw, items := parts.map (buildJNIValueFuel fuel itemKind) }
      else { kind, str := raw }
    | _, _ => { kind, str := raw }
  | .KindPointer => { kind, str := raw }

def buildJNIValue (kind : JNIKind) (raw : Bytes) : JNIValue :=
  buildJNIValueFuel raw.length kind raw

/-- One record of `decodeArgs`: `sigChar \x01 rest`, with a single byte
    before the separator. -/
def decodeRecord (rec : Bytes) : Option JNIValue :=
  match cut 0x01 rec with
  | some ([sig], raw) => some (buildJNIValue (JNIKindFromSigChar sig) raw)
  | _ => none

/-- `decodeArgs`. -/
def decodeArgs (encoded : Bytes) : List JNIValue :=
  if encoded = [] then [] else (encoded.splitOn 0x02).filterMap decodeRecord

/-- `formatHex`. -/
def formatHex (v : UInt64) : Bytes :=
  ascii "0x" ++ (Numeral.digits 16 64 v.toNat).reverse.map (JlFmt.digitChar false)

/-- `buildReturnValue`. -/
def buildReturnValue (rkind : Int) (raw : UInt64) (strVal extraVal : Bytes) : JNIValue :=
  match JNIKind.ofInt rkind with
  | some .KindNull => NullValue
  | some .KindVoid => VoidValue
  | some .KindBoolean => { kind := .KindBoolean, int := (raw &&& 1).toNat }
  | some .KindByte => { kind := .KindByte, int := raw.toUInt8.toInt8.toInt }
  | some .KindChar => { kind := .KindChar, int := raw.toUInt16.toNat }
  | some .KindShort => { kind := .KindShort, int := raw.toUInt16.toInt16.toInt }
  | some .KindInt => { kind := .KindInt, int := raw.toUInt32.toInt32.toInt }
  | some .KindLong => { kind := .KindLong, int := raw.toInt64.toInt }
  | some .KindFloat => { kind := .KindFloat, float := .bits32 raw.toUInt32 }
  | some .KindDouble => { kind := .KindDouble, float := .bits64 raw }
  | some .KindString => { kind := .KindString, str := strVal }
  | some .KindClass => { kind := .KindClass, str := normalizeDots strVal }
  | some .KindObject =>
    if strVal = [] ∧ raw = 0 then NullValue
    else { kind := .KindObject, str := normalizeDots strVal, extra := extraVal }
  | some .KindArray => buildJNIValue .KindArray strVal
  | some .KindPointer =>
    if raw = 0 then NullValue else { kind := .KindPointer, str := formatHex raw }
  | none => NullValue

/-- `decodeSingleReceiver`. -/
def decodeSingleReceiver (rkind : Int) (strVal extraVal : Bytes) : JNIValue :=
  match JNIKind.ofInt rkind with
  | some .KindObject =>
    if strVal = [] then NullValue
    else { kind := .KindObject, str := normalizeDots strVal, extra := extraVal }
  | some .KindClass => { kind := .KindClass, str := normalizeDots strVal }
  | some .KindString => { kind := .KindString, str := strVal }
  | _ => NullValue

/-! ## Section 5: How the decoders act on well-formed text -/

/-- Outside arrays the fuel plays no part. -/
theorem buildJNIValueFuel_eq {kind : JNIKind} (h : kind ≠ .KindArray) (fuel : Nat) (raw : Bytes) :
    buildJNIValueFuel fuel kind raw = buildJNIValue kind raw := by
  cases kind <;> first | exact absurd rfl h | simp [buildJNIValue, buildJNIValueFuel]

/-- The integral kinds. -/
def JNIKind.IsIntegral (kind : JNIKind) : Prop :=
  kind ∈ [.KindBoolean, .KindByte, .KindChar, .KindShort, .KindInt, .KindLong]

instance (kind : JNIKind) : Decidable kind.IsIntegral :=
  inferInstanceAs (Decidable (kind ∈ _))

theorem buildJNIValue_integral {kind : JNIKind} (h : kind.IsIntegral) {n : Int}
    (hlo : -2 ^ 63 ≤ n) (hhi : n < 2 ^ 63) :
    buildJNIValue kind (JlFmt.intText n) = { kind, int := n } := by
  cases kind <;>
    first
    | exact absurd h (by decide)
    | simp only [buildJNIValue, buildJNIValueFuel, ParseInt_intText hlo hhi]

theorem buildJNIValue_string (s : Bytes) :
    buildJNIValue .KindString (wireCode.escape s) = { kind := .KindString, str := s } := by
  simp [buildJNIValue, buildJNIValueFuel]

theorem buildJNIValue_class (s : Bytes) :
    buildJNIValue .KindClass (wireCode.escape s) =
      { kind := .KindClass, str := normalizeDots s } := by
  simp [buildJNIValue, buildJNIValueFuel]

/-- The text between an object's name and its `toString`, and the latter. -/
def extraText : Option Bytes → Bytes
  | none => []
  | some text => 0x03 :: wireCode.escape text

/-- The wire text of an object: its class name and, when there is one,
    its `toString`. -/
def objectText (name : Bytes) (text : Option Bytes) : Bytes :=
  wireCode.escape name ++ extraText text

theorem cut_objectText (name : Bytes) (text : Option Bytes) :
    cut 0x03 (objectText name text) =
      text.map fun t => (wireCode.escape name, wireCode.escape t) := by
  have hname : (0x03 : UInt8) ∉ wireCode.escape name := notMem_wireCode (by decide) (by decide) name
  cases text with
  | none => simpa [objectText, extraText] using cut_eq_none hname
  | some t => exact cut_append hname

/-- The only object text that reads as a null is the bare name `null`. -/
theorem objectText_eq_null {name : Bytes} {text : Option Bytes} :
    objectText name text = ascii "null" ↔ name = ascii "null" ∧ text = none := by
  have hnull : wireCode.escape (ascii "null") = ascii "null" := by decide
  constructor
  · intro h
    cases text with
    | none =>
      refine ⟨EscapeCode.escape_injective (c := wireCode) ?_, rfl⟩
      simpa [objectText, extraText, hnull] using h
    | some t =>
      -- the separator does not occur in the marker
      have hmem : (0x03 : UInt8) ∈ ascii "null" := by
        rw [← h]
        simp [objectText, extraText]
      exact absurd hmem (by decide)
  · rintro ⟨rfl, rfl⟩
    simp [objectText, extraText, hnull]

theorem buildJNIValue_object {name : Bytes} {text : Option Bytes}
    (h : ¬ (name = ascii "null" ∧ text = none)) :
    buildJNIValue .KindObject (objectText name text) =
      { kind := .KindObject, str := normalizeDots name, extra := text.getD [] } := by
  simp only [buildJNIValue, buildJNIValueFuel]
  rw [if_neg (mt objectText_eq_null.mp h), cut_objectText]
  cases text with
  | none => simp [objectText, extraText]
  | some t => simp

theorem decodeArgs_eq (encoded : Bytes) :
    decodeArgs encoded = (encoded.splitOn 0x02).filterMap decodeRecord := by
  unfold decodeArgs
  split
  · rename_i h
    subst h
    rfl
  · rfl

/-- The first record is decoded on its own. -/
theorem decodeArgs_append {rec : Bytes} (h : (0x02 : UInt8) ∉ rec) (rest : Bytes) :
    decodeArgs (rec ++ 0x02 :: rest) = (decodeRecord rec).toList ++ decodeArgs rest := by
  rw [decodeArgs_eq, decodeArgs_eq, List.splitOn_append_cons_self_of_not_mem h,
    List.filterMap_cons]
  cases decodeRecord rec <;> rfl

/-- Records that each end in `\x02` are decoded one by one. -/
theorem decodeArgs_terminated {rs : List Bytes} (h : ∀ r ∈ rs, (0x02 : UInt8) ∉ r) :
    decodeArgs (terminated 0x02 rs) = rs.filterMap decodeRecord := by
  rw [decodeArgs_eq, splitOn_terminated h, List.filterMap_append]
  simp [decodeRecord]

/-- A record with a single byte in front of its separator. -/
theorem decodeRecord_cons {sig : UInt8} (h : sig ≠ 0x01) (raw : Bytes) :
    decodeRecord (sig :: 0x01 :: raw) = some (buildJNIValue (JNIKindFromSigChar sig) raw) := by
  rw [decodeRecord, cut_cons_of_ne h, cut_cons_self]
  rfl

/-! ### Arrays -/

/-- Integer text holds a sign and digits only. -/
theorem mem_intText {n : Int} {c : UInt8} (h : c ∈ JlFmt.intText n) : c = 0x2d ∨ 0x30 ≤ c := by
  rw [JlFmt.intText, List.mem_append] at h
  rcases h with h | h
  · split at h
    · exact .inl (by simpa [show ascii "-" = [0x2d] by decide] using h)
    · simp at h
  · exact .inr (Numeral.mem_decimal h).1

theorem notMem_intText {c : UInt8} (hc : c < 0x30) (hne : c ≠ 0x2d) (n : Int) :
    c ∉ JlFmt.intText n := by
  intro h
  rcases mem_intText h with h | h
  · exact hne h
  · exact absurd h (UInt8.not_le.mpr hc)

theorem intText_ne_nil (n : Int) : JlFmt.intText n ≠ [] := by
  simp [JlFmt.intText, Numeral.decimal_ne_nil 63]

/-- No integer text is a marker. -/
theorem overflowMarker_intText (n : Int) : overflowMarker (JlFmt.intText n) = none := by
  cases h : JlFmt.intText n with
  | nil => rfl
  | cons c s =>
    have hne : c ≠ 0x2b := by
      rintro rfl
      exact notMem_intText (by decide) (by decide) n (h ▸ List.mem_cons_self)
    rw [overflowMarker, if_neg hne]

theorem overflowMarker_plus {n : Int} (hlo : -2 ^ 63 ≤ n) (hhi : n < 2 ^ 63) :
    overflowMarker (ascii "+" ++ JlFmt.intText n) = some n := by
  have htext : ascii "+" ++ JlFmt.intText n = 0x2b :: JlFmt.intText n := rfl
  rw [htext, overflowMarker, if_pos rfl, ParseInt_intText hlo hhi]

/-- The wire text of an array: the element signature, then a `\x04` and
    a text for each part. -/
def arrayText (sig : UInt8) (parts : List Bytes) : Bytes :=
  sig :: parts.flatMap fun p => 0x04 :: p

/-- A single empty part reads as no part at all. -/
theorem buildJNIValue_array_empty (sig : UInt8) :
    buildJNIValue .KindArray (arrayText sig [[]]) =
      { kind := .KindArray, str := arrayText sig [[]] } := rfl

/-- The pieces of the text of an array are decoded one by one, but for a
    marker in the last place. -/
theorem buildJNIValue_split {sig : UInt8} (hkind : JNIKindFromSigChar sig ≠ .KindArray) {t : Bytes}
    (ht : t ≠ []) :
    buildJNIValue .KindArray (sig :: 0x04 :: t) =
      match overflowMarker ((t.splitOn 0x04).getLastD []) with
      | some n =>
        { kind := .KindArray, int := n, str := sig :: 0x04 :: t,
          items := (t.splitOn 0x04).dropLast.map (buildJNIValue (JNIKindFromSigChar sig)) }
      | none =>
        { kind := .KindArray, str := sig :: 0x04 :: t,
          items := (t.splitOn 0x04).map (buildJNIValue (JNIKindFromSigChar sig)) } := by
  have hbuild : ∀ fuel, buildJNIValueFuel fuel (JNIKindFromSigChar sig) =
      buildJNIValue (JNIKindFromSigChar sig) :=
    fun fuel => funext fun raw => buildJNIValueFuel_eq hkind fuel raw
  obtain ⟨x, rest, rfl⟩ := List.exists_cons_of_ne_nil ht
  simp only [buildJNIValue, List.length_cons, buildJNIValueFuel, if_true, hbuild]

/-- The parts of an array text are decoded one by one, but for a marker
    in the last place. -/
theorem buildJNIValue_array {sig : UInt8} {parts : List Bytes}
    (hkind : JNIKindFromSigChar sig ≠ .KindArray) (hfree : ∀ p ∈ parts, (0x04 : UInt8) ∉ p)
    (hnil : parts ≠ []) (hempty : parts ≠ [[]]) :
    buildJNIValue .KindArray (arrayText sig parts) =
      match overflowMarker (parts.getLastD []) with
      | some n =>
        { kind := .KindArray, int := n, str := arrayText sig parts,
          items := parts.dropLast.map (buildJNIValue (JNIKindFromSigChar sig)) }
      | none =>
        { kind := .KindArray, str := arrayText sig parts,
          items := parts.map (buildJNIValue (JNIKindFromSigChar sig)) } := by
  obtain ⟨p, ps, rfl⟩ := List.exists_cons_of_ne_nil hnil
  have htext : arrayText sig (p :: ps) = sig :: 0x04 :: joined 0x04 p ps := by
    simp [arrayText, joined]
  have hsplit : (joined 0x04 p ps).splitOn 0x04 = p :: ps :=
    splitOn_joined (hfree p (by simp)) fun x hx => hfree x (by simp [hx])
  -- the text after the first separator is not empty
  have hne : joined 0x04 p ps ≠ [] := by
    cases p <;> cases ps <;> simp [joined] at hempty ⊢
  rw [htext, buildJNIValue_split hkind hne, hsplit]

end JniLog
