import JniLog.FormatCursor
import Mathlib.Data.Nat.Digits.Lemmas

/-! # Integer conversions

    The directives of the integer conversions as C99 writes them, the text
    C99 specifies for them, and where `jl_vsnprintf` has another one.

    * `#` is undefined in C99 for `d`, `i` and `u`; it changes nothing
      there.
    * A width or a precision may be any number.

    Main result: the text is the specified one, unless a zero flag with a
    precision has to be padded, or `#` asks for an octal zero that the
    precision already provides or that is all there is to print. -/

namespace JniLog.JlFmt

open Bytes Cursor

/-! ## Section 1: Directives -/

inductive Flag where
  | minus
  | zero
  | plus
  | space
  | hash
  deriving DecidableEq, Repr

def Flag.char : Flag → UInt8
  | minus => 0x2d
  | zero => 0x30
  | plus => 0x2b
  | space => 0x20
  | hash => 0x23

/-- A decimal number as it is written. -/
abbrev Digits := List (Fin 10)

def Digits.text (ds : Digits) : Bytes := ds.map fun d : Fin 10 => Numeral.digitByte d.val

def Digits.value (ds : Digits) : Nat := Numeral.valueFrom 10 0 (ds.map Fin.val)

/-- A field width. A zero in front would be a flag. -/
inductive Width where
  | digits (ds : Digits) (nonzero : ds.head? ≠ some 0)
  | star (w : UInt64)

inductive Precision where
  | none
  | digits (ds : Digits)
  | star (w : UInt64)

inductive Length where
  | none
  | hh
  | h
  | l
  | ll
  | j
  | z
  | t
  deriving DecidableEq, Repr

inductive IntConv where
  | d
  | i
  | u
  | o
  | x
  | X
  deriving DecidableEq, Repr

namespace Width

def text : Width → Bytes
  | digits ds _ => ds.text
  | star _ => ascii "*"

def args : Width → List Arg
  | digits _ _ => []
  | star w => [.word w]

/-- A negative width stands for a minus flag and its absolute value. -/
def value : Width → Int
  | digits ds _ => ds.value
  | star w => (wordInt w).toInt

end Width

namespace Precision

def text : Precision → Bytes
  | none => []
  | digits ds => 0x2e :: ds.text
  | star _ => ascii ".*"

def args : Precision → List Arg
  | star w => [.word w]
  | _ => []

/-- A point alone is a zero, and a negative precision is none. -/
def value : Precision → Option Nat
  | none => Option.none
  | digits ds => some ds.value
  -- a negative argument is taken as if the precision were omitted
  | star w => if (wordInt w).toInt < 0 then Option.none else some (wordInt w).toInt.toNat

end Precision

namespace Length

def text : Length → Bytes
  | none => []
  | hh => ascii "hh"
  | h => ascii "h"
  | l => ascii "l"
  | ll => ascii "ll"
  | j => ascii "j"
  | z => ascii "z"
  | t => ascii "t"

/-- The width of the type, on the 64-bit targets. -/
def bits : Length → Nat
  | none => 32
  | hh => 8
  | h => 16
  | l | ll | j | z | t => 64

/-- The argument word holds an `int`. Smaller types are promoted to it. -/
def isInt : Length → Bool
  | none | hh | h => true
  | l | ll | j | z | t => false

end Length

namespace IntConv

def char : IntConv → UInt8
  | d => 0x64
  | i => 0x69
  | u => 0x75
  | o => 0x6f
  | x => 0x78
  | X => 0x58

def signed : IntConv → Bool
  | d | i => true
  | u | o | x | X => false

def base : IntConv → Nat
  | d | i | u => 10
  | o => 8
  | x | X => 16

theorem base_mem (c : IntConv) : 1 < c.base ∧ c.base ≤ 16 := by
  cases c <;> decide

end IntConv

/-- The value of an argument word. -/
def argValue (length : Length) (conv : IntConv) (w : UInt64) : Int :=
  if conv.signed then (if length.isInt then (wordInt w).toInt else w.toInt64.toInt)
  else (if length.isInt then w.toUInt32.toNat else w.toNat : Nat)

/-- The values of the conversion's type. -/
def InType (length : Length) (conv : IntConv) (v : Int) : Prop :=
  if conv.signed then -2 ^ (length.bits - 1) ≤ v ∧ v < 2 ^ (length.bits - 1)
  else 0 ≤ v ∧ v < 2 ^ length.bits

instance (length : Length) (conv : IntConv) (v : Int) : Decidable (InType length conv v) :=
  inferInstanceAs (Decidable (if conv.signed = true then _ else _))

/-- An integer conversion with its arguments: the flags in any order, and
    a value of the conversion's type. -/
structure Directive where
  flags : List Flag
  width : Width
  prec : Precision
  length : Length
  conv : IntConv
  arg : UInt64
  inType : InType length conv (argValue length conv arg)

namespace Directive

variable (d : Directive)

/-- What stands behind the `%`. -/
def body : Bytes :=
  d.flags.map Flag.char ++ (d.width.text ++ (d.prec.text ++ (d.length.text ++ [d.conv.char])))

def args : List Arg :=
  d.width.args ++ (d.prec.args ++ [.word d.arg])

/-! ## Section 2: What C99 specifies -/

/-- The argument, converted to the conversion's type. -/
def value : Int :=
  let v := argValue d.length d.conv d.arg
  if d.conv.signed then v.bmod (2 ^ d.length.bits) else v % 2 ^ d.length.bits

def left : Bool :=
  Flag.minus ∈ d.flags || d.width.value < 0

/-- The digits of the value, without any for zero. -/
def numeral : Bytes :=
  (Nat.digits d.conv.base d.value.natAbs).reverse.map fun k =>
    (if d.conv = .X then ascii "0123456789ABCDEF" else ascii "0123456789abcdef").getD k 0

end Directive

/-- At least `p` digits. -/
def minDigits (p : Nat) (ds : Bytes) : Bytes :=
  List.replicate (p - ds.length) 0x30 ++ ds

namespace Directive

variable (d : Directive)

/-- The digits with the precision, which is 1 when there is none. With `#`
    an octal precision is raised, if it has to be, until the first digit
    is a zero. -/
def digits : Bytes :=
  let ds := minDigits (d.prec.value.getD 1) d.numeral
  if d.conv = .o ∧ Flag.hash ∈ d.flags ∧ ds.head? ≠ some 0x30 then
    minDigits (ds.length + 1) d.numeral
  else ds

/-- The sign, or the base. -/
def lead : Bytes :=
  match d.conv with
  | .d | .i =>
    if d.value < 0 then ascii "-"
    else if Flag.plus ∈ d.flags then ascii "+"
    else if Flag.space ∈ d.flags then ascii " " else []
  | .x => if Flag.hash ∈ d.flags ∧ d.value ≠ 0 then ascii "0x" else []
  | .X => if Flag.hash ∈ d.flags ∧ d.value ≠ 0 then ascii "0X" else []
  | .u | .o => []

end Directive

/-- A sign or base and digits in their field: the zero flag counts without a
    minus flag and without a precision only. -/
def c99Field (left zero : Bool) (prec : Option Nat) (width : Nat) (lead ds : Bytes) : Bytes :=
  let pad := width - (lead ++ ds).length
  if left then lead ++ ds ++ List.replicate pad 0x20
  else if zero ∧ prec = none then lead ++ List.replicate pad 0x30 ++ ds
  else List.replicate pad 0x20 ++ lead ++ ds

namespace Directive

variable (d : Directive)

def c99Text : Bytes :=
  c99Field d.left (Flag.zero ∈ d.flags) d.prec.value d.width.value.natAbs d.lead d.digits

end Directive

/-! ## Section 3: Reading a directive -/

theorem scanText_stop {σ : Type} {step : σ → UInt8 → Option σ} {st : σ} {c : UInt8}
    (h : step st c = none) (rest : Bytes) : scanText step st (c :: rest) = (st, c :: rest) := by
  rw [scanText, h]

/-- The conversion character is a letter, and so is a length modifier. -/
theorem letters_eq_cons (length : Length) (conv : IntConv) (rest : Bytes) :
    ∃ c s, length.text ++ conv.char :: rest = c :: s ∧ 0x58 ≤ c := by
  cases length with
  | none => exact ⟨conv.char, rest, rfl, by cases conv <;> decide⟩
  | hh => exact ⟨0x68, 0x68 :: conv.char :: rest, rfl, by decide⟩
  | h => exact ⟨0x68, conv.char :: rest, rfl, by decide⟩
  | l => exact ⟨0x6c, conv.char :: rest, rfl, by decide⟩
  | ll => exact ⟨0x6c, 0x6c :: conv.char :: rest, rfl, by decide⟩
  | j => exact ⟨0x6a, conv.char :: rest, rfl, by decide⟩
  | z => exact ⟨0x7a, conv.char :: rest, rfl, by decide⟩
  | t => exact ⟨0x74, conv.char :: rest, rfl, by decide⟩

/-- The number the source keeps for a length modifier. -/
def Length.code : Length → Nat
  | none | hh | h => 0
  | l => 1
  | ll => 2
  | j | z | t => 3

theorem parseLength_text (length : Length) (conv : IntConv) (rest : Bytes) :
    parseLength 0 (length.text ++ conv.char :: rest) = (length.code, conv.char :: rest) := by
  cases length <;> cases conv <;> rfl

theorem digitStep_digit (n : Nat) (d : Fin 10) :
    digitStep n (Numeral.digitByte d) = some (n * 10 + d : Nat) := by
  have hn := Numeral.toNat_digitByte d.isLt
  rw [digitStep, if_pos (Numeral.digitByte_mem_range d.isLt), hn]
  congr 1
  push_cast
  omega

theorem digitStep_stop {c : UInt8} (h : c = 0x2e ∨ 0x58 ≤ c) (n : Int) : digitStep n c = none := by
  rw [digitStep, if_neg]
  rintro ⟨hlo, hhi⟩
  obtain rfl | hc := h
  · exact absurd hlo (by decide)
  · exact absurd (UInt8.le_trans hc hhi) (by decide)

/-- A number is read up to the point or the letter behind it. -/
theorem scanText_digits (ds : Digits) (n : Nat) {c : UInt8} (h : c = 0x2e ∨ 0x58 ≤ c)
    (rest : Bytes) :
    scanText digitStep n (ds.text ++ c :: rest) =
      ((Numeral.valueFrom 10 n (ds.map Fin.val) : Int), c :: rest) := by
  induction ds generalizing n with
  | nil => exact scanText_stop (digitStep_stop h n) rest
  | cons d ds ih =>
    show scanText digitStep n (Numeral.digitByte d :: (Digits.text ds ++ c :: rest)) = _
    rw [scanText, digitStep_digit]
    exact ih (n * 10 + d)

theorem scanText_value (ds : Digits) {c : UInt8} (h : c = 0x2e ∨ 0x58 ≤ c) (rest : Bytes) :
    scanText digitStep 0 (ds.text ++ c :: rest) = ((ds.value : Int), c :: rest) :=
  scanText_digits ds 0 h rest

/-- A digit, a point or a letter is no star. -/
theorem headD_digits_ne {ds : Digits} {c : UInt8} (h : c = 0x2e ∨ 0x58 ≤ c) (rest : Bytes) :
    (ds.text ++ c :: rest).headD 0 ≠ 0x2a := by
  intro heq
  cases ds with
  | nil =>
    obtain rfl : c = 0x2a := heq
    obtain hc | hc := h <;> exact absurd hc (by decide)
  | cons d ds =>
    have hd : Numeral.digitByte d = 0x2a := heq
    have hlo := (Numeral.digitByte_mem_range d.isLt).1
    rw [hd] at hlo
    exact absurd hlo (by decide)

/-- What the source keeps for a precision. -/
def Precision.code : Precision → Int × Bool
  | none => (0, false)
  | digits ds => (ds.value, true)
  | star w => ((wordInt w).toInt, decide (0 ≤ (wordInt w).toInt))

theorem precText_text (prec : Precision) {c : UInt8} (h : 0x58 ≤ c) (rest : Bytes)
    (ap : List Arg) :
    precText (prec.text ++ c :: rest) (prec.args ++ ap) =
      (prec.code.1, prec.code.2, c :: rest, ap) := by
  cases prec with
  | none =>
    apply precText_none
    rintro rfl
    exact absurd h (by decide)
  | digits ds =>
    show precText (0x2e :: (ds.text ++ c :: rest)) ap = _
    rw [precText_digits (headD_digits_ne (Or.inr h) rest), scanText_value ds (Or.inr h)]
    rfl
  | star w => rfl

theorem widthText_text (width : Width) (flags : Flags) {c : UInt8} (h : c = 0x2e ∨ 0x58 ≤ c)
    (rest : Bytes) (ap : List Arg) :
    widthText flags (width.text ++ c :: rest) (width.args ++ ap) =
      ({ flags with left := flags.left || width.value < 0 }, (width.value.natAbs : Int), c :: rest,
        ap) := by
  cases width with
  | digits ds nonzero =>
    show widthText flags (ds.text ++ c :: rest) ap = _
    rw [widthText_digits (headD_digits_ne h rest), scanText_value ds h]
    have hpos : decide ((Width.digits ds nonzero).value < 0) = false :=
      decide_eq_false (Int.not_lt.mpr (Int.natCast_nonneg ds.value))
    rw [hpos, Bool.or_false]
    rfl
  | star w =>
    show widthText flags (0x2a :: c :: rest) (.word w :: ap) = _
    rw [widthText_star]
    show (if (wordInt w).toInt < 0 then _ else _) = _
    by_cases hneg : (wordInt w).toInt < 0
    · have habs : -(wordInt w).toInt = ((wordInt w).toInt.natAbs : Int) := by omega
      simp [hneg, Width.value, habs, va_word]
    · have habs : (wordInt w).toInt = ((wordInt w).toInt.natAbs : Int) := by omega
      rw [if_neg hneg]
      simp [hneg, Width.value, va_word, ← habs]

theorem flagStep_stop {c : UInt8} (h : c = 0x2a ∨ c = 0x2e ∨ 0x31 ≤ c) (f : Flags) :
    flagStep f c = none := by
  have hne {b : UInt8} (hb : b < 0x31) (hstar : b ≠ 0x2a) (hpoint : b ≠ 0x2e) : c ≠ b := by
    rintro rfl
    obtain h | h | h := h
    · exact hstar h
    · exact hpoint h
    · exact absurd hb (UInt8.not_lt.mpr h)
  rw [flagStep, if_neg (hne (by decide) (by decide) (by decide)),
    if_neg (hne (by decide) (by decide) (by decide)),
    if_neg (hne (by decide) (by decide) (by decide)),
    if_neg (hne (by decide) (by decide) (by decide)),
    if_neg (hne (by decide) (by decide) (by decide))]

/-- The flags, in any order and any number. -/
theorem parseFlags_text (fl : List Flag) (f : Flags) {c : UInt8}
    (h : c = 0x2a ∨ c = 0x2e ∨ 0x31 ≤ c) (rest : Bytes) :
    parseFlags f (fl.map Flag.char ++ c :: rest) =
      ({ left := f.left || Flag.minus ∈ fl, zero := f.zero || Flag.zero ∈ fl,
         plus := f.plus || Flag.plus ∈ fl, space := f.space || Flag.space ∈ fl,
         alt := f.alt || Flag.hash ∈ fl }, c :: rest) := by
  rw [parseFlags_eq]
  induction fl generalizing f with
  | nil =>
    show scanText flagStep f (c :: rest) = _
    rw [scanText_stop (flagStep_stop h f)]
    simp
  | cons g fl ih =>
    rw [List.map_cons, List.cons_append, scanText]
    cases g
    all_goals
      show scanText flagStep _ (fl.map Flag.char ++ c :: rest) = _
      rw [ih]
      simp

namespace Directive

variable (d : Directive)

/-- The directive as the source keeps it. -/
def spec : Spec where
  flags := { left := d.left, zero := Flag.zero ∈ d.flags, plus := Flag.plus ∈ d.flags,
             space := Flag.space ∈ d.flags, alt := Flag.hash ∈ d.flags }
  width := d.width.value.natAbs
  prec := d.prec.code.1
  has_prec := d.prec.code.2
  lng := d.length.code

/-- Behind the flags stands a star, a point, a letter or a digit other than
    zero. -/
theorem width_eq_cons (width : Width) {c : UInt8} (h : c = 0x2e ∨ 0x58 ≤ c) (rest : Bytes) :
    ∃ c' s, width.text ++ c :: rest = c' :: s ∧ (c' = 0x2a ∨ c' = 0x2e ∨ 0x31 ≤ c') := by
  cases width with
  | star w => exact ⟨0x2a, c :: rest, rfl, Or.inl rfl⟩
  | digits ds nonzero =>
    cases ds with
    | nil =>
      refine ⟨c, rest, rfl, Or.inr ?_⟩
      obtain hpoint | hletter := h
      · exact Or.inl hpoint
      · exact Or.inr (UInt8.le_trans (by decide) hletter)
    | cons k ds =>
      refine ⟨Numeral.digitByte k, Digits.text ds ++ c :: rest, rfl, Or.inr (Or.inr ?_)⟩
      have hk : k.val ≠ 0 := fun h0 => nonzero (congrArg some (Fin.ext h0))
      have hn := Numeral.toNat_digitByte k.isLt
      rw [UInt8.le_iff_toNat_le, hn]
      show 0x31 ≤ 0x30 + k.val
      omega

theorem prec_eq_cons (prec : Precision) {c : UInt8} (h : 0x58 ≤ c) (rest : Bytes) :
    ∃ c' s, prec.text ++ c :: rest = c' :: s ∧ (c' = 0x2e ∨ 0x58 ≤ c') := by
  cases prec with
  | none => exact ⟨c, rest, rfl, Or.inr h⟩
  | digits ds => exact ⟨0x2e, ds.text ++ c :: rest, rfl, Or.inl rfl⟩
  | star w => exact ⟨0x2e, 0x2a :: c :: rest, rfl, Or.inl rfl⟩

/-- A directive is read as it is meant, whatever follows it. -/
theorem parseSpec_body (rest : Bytes) (ap : List Arg) :
    parseSpec (d.body ++ rest) (d.args ++ ap) =
      (d.spec, d.conv.char :: rest, .word d.arg :: ap) := by
  have hbody : d.body ++ rest = d.flags.map Flag.char ++ (d.width.text ++ (d.prec.text ++
      (d.length.text ++ d.conv.char :: rest))) := by
    simp [body]
  have hargs : d.args ++ ap = d.width.args ++ (d.prec.args ++ (.word d.arg :: ap)) := by
    simp [args]
  have hlength := parseLength_text d.length d.conv rest
  obtain ⟨c₁, s₁, heq₁, hc₁⟩ := letters_eq_cons d.length d.conv rest
  rw [heq₁] at hlength
  have hprec := precText_text d.prec hc₁ s₁ (.word d.arg :: ap)
  obtain ⟨c₂, s₂, heq₂, hc₂⟩ := prec_eq_cons d.prec hc₁ s₁
  rw [heq₂] at hprec
  have hwidth (f : Flags) := widthText_text d.width f hc₂ s₂ (d.prec.args ++ (.word d.arg :: ap))
  obtain ⟨c₃, s₃, heq₃, hc₃⟩ := width_eq_cons d.width hc₂ s₂
  rw [heq₃] at hwidth
  -- each part is read up to the first byte of the part behind it
  rw [parseSpec_eq, hbody, hargs, heq₁, heq₂, heq₃, parseFlags_text d.flags {} hc₃ s₃]
  dsimp only
  rw [hwidth]
  dsimp only
  rw [hprec]
  dsimp only
  rw [hlength]
  simp [spec, left]

theorem zero_notMem_body : (0 : UInt8) ∉ 0x25 :: d.body := by
  have hdigits (ds : Digits) : (0 : UInt8) ∉ ds.text := by
    intro hmem
    rw [Digits.text, List.mem_map] at hmem
    obtain ⟨k, -, hk⟩ := hmem
    have hlo := (Numeral.digitByte_mem_range k.isLt).1
    rw [hk] at hlo
    exact absurd hlo (by decide)
  have hflags : (0 : UInt8) ∉ d.flags.map Flag.char := by
    intro hmem
    obtain ⟨g, -, hg⟩ := List.mem_map.mp hmem
    cases g <;> exact absurd hg (by decide)
  have hwidth : (0 : UInt8) ∉ d.width.text := by
    cases d.width with
    | digits ds nonzero => exact hdigits ds
    | star w => exact show (0 : UInt8) ∉ ascii "*" by decide
  have hprec : (0 : UInt8) ∉ d.prec.text := by
    cases d.prec with
    | none => exact List.not_mem_nil
    | digits ds => exact List.not_mem_cons_of_ne_of_not_mem (by decide) (hdigits ds)
    | star w => exact show (0 : UInt8) ∉ ascii ".*" by decide
  have hlength : (0 : UInt8) ∉ d.length.text := by
    cases d.length <;> exact fun hmem => absurd hmem (by decide)
  have hconv : (0 : UInt8) ≠ d.conv.char := by
    cases d.conv <;> decide
  have hpercent : (0 : UInt8) ≠ 0x25 := by decide
  simp only [body, List.mem_cons, List.mem_append, List.not_mem_nil, not_or]
  exact ⟨hpercent, hflags, hwidth, hprec, hlength, hconv, not_false⟩

/-- The format that is the directive. -/
def format : CStr :=
  ⟨0x25 :: d.body, d.zero_notMem_body⟩

theorem formatText_format :
    formatText d.format d.args = (convertText d.spec d.conv.char [.word d.arg]).1 := by
  have hspec := d.parseSpec_body [] []
  rw [List.append_nil, List.append_nil] at hspec
  show restText (d.body.length + 1) (0x25 :: d.body) d.args = _
  rw [restText, if_neg (by decide), hspec]
  dsimp only
  rw [restText_nil, List.append_nil]

end Directive

/-! ## Section 4: The text of the source -/

/-- The field of the source: with a zero flag and a precision it is not
    padded at all. -/
def codeField (left zero : Bool) (prec : Option Nat) (width : Nat) (lead ds : Bytes) : Bytes :=
  let pad := width - (lead ++ ds).length
  if left then lead ++ ds ++ List.replicate pad 0x20
  else if zero then
    if prec = none then lead ++ List.replicate pad 0x30 ++ ds else lead ++ ds
  else List.replicate pad 0x20 ++ lead ++ ds

theorem length_minDigits (p : Nat) (ds : Bytes) : (minDigits p ds).length = max p ds.length := by
  rw [minDigits, List.length_append, List.length_replicate]
  omega

/-- The digits `jl_fmt_uint` prints. -/
theorem replicate_digits (v : UInt64) {base : Nat} (hb : 1 < base) (upper : Bool)
    {prec : Option Nat} {code : Int × Bool} (hsome : code.2 = prec.isSome)
    (hval : ∀ p, prec = some p → code.1 = p) :
    let d := if code.2 && code.1 == 0 && v == 0 then []
      else (Numeral.digits base 64 v.toNat).map (digitChar upper)
    List.replicate (if code.2 && code.1 > d.length then code.1 - d.length else 0).toNat 0x30 ++
        d.reverse =
      minDigits (prec.getD 1) ((Nat.digits base v.toNat).reverse.map (digitChar upper)) := by
  dsimp only
  by_cases hv : v = 0
  · -- the source prints one zero, C99 as many as the precision says
    subst hv
    have hzero : Numeral.digits base 64 (0 : UInt64).toNat = [0] := by
      show 0 % base :: (if 0 / base = 0 then [] else _) = [0]
      rw [Nat.zero_mod, Nat.zero_div, if_pos rfl]
    have hnat : Nat.digits base (0 : UInt64).toNat = [] := Nat.digits_zero base
    rw [hzero, hnat]
    cases prec with
    | none =>
      rw [hsome]
      rfl
    | some p =>
      rw [hsome, hval p rfl]
      cases p with
      | zero => rfl
      | succ p =>
        have hne : ((p + 1 : Nat) : Int) ≠ 0 := by omega
        have hpad : (if ((p + 1 : Nat) : Int) > (1 : Nat) then ((p + 1 : Nat) : Int) - (1 : Nat)
            else 0).toNat = p := by
          split <;> omega
        simp only [Option.isSome_some, Bool.true_and, beq_eq_false_iff_ne.mpr hne, Bool.false_and,
          Bool.false_eq_true, if_false, List.map_cons, List.map_nil, List.length_singleton,
          decide_eq_true_eq, hpad]
        show List.replicate p 0x30 ++ [0x30] = List.replicate (p + 1) 0x30 ++ []
        rw [List.append_nil, List.replicate_succ']
  · -- 64 rounds are enough for 64 bits in any base
    have hn : v.toNat ≠ 0 := fun h0 => hv (UInt64.toNat_inj.mp h0)
    have hlt : v.toNat < base ^ 64 := lt_of_lt_of_le v.toNat_lt (Nat.pow_le_pow_left hb 64)
    have hne : Nat.digits base v.toNat ≠ [] := Nat.digits_ne_nil_iff_ne_zero.mpr hn
    have hpos := List.length_pos_iff.mpr hne
    rw [Numeral.digits_eq_natDigits hb hn hlt, beq_eq_false_iff_ne.mpr hv]
    simp only [Bool.and_false, Bool.false_eq_true, if_false, ← List.map_reverse, List.length_map,
      minDigits, List.length_reverse]
    congr 2
    cases prec with
    | none =>
      rw [hsome]
      simp only [Option.isSome_none, Bool.false_and, Bool.false_eq_true, if_false, Option.getD_none]
      omega
    | some p =>
      rw [hsome, hval p rfl]
      simp only [Option.isSome_some, Bool.true_and, decide_eq_true_eq, Option.getD_some]
      split <;> omega

/-- The text of `jl_fmt_uint` is lead and digits in the source's field. -/
theorem uintText_eq (v : UInt64) {base : Nat} (hb : 1 < base) (upper left zero : Bool)
    (width : Nat) {prec : Option Nat} {code : Int × Bool} (hsome : code.2 = prec.isSome)
    (hval : ∀ p, prec = some p → code.1 = p) (lead : Bytes) :
    uintText v base upper width code.1 code.2 left zero lead =
      codeField left zero prec width lead
        (minDigits (prec.getD 1) ((Nat.digits base v.toNat).reverse.map (digitChar upper))) := by
  have hds := replicate_digits v hb upper hsome hval
  dsimp only at hds
  unfold uintText
  revert hds
  generalize (if code.2 && code.1 == 0 && v == 0 then []
    else (Numeral.digits base 64 v.toNat).map (digitChar upper)) = d
  generalize minDigits (prec.getD 1) _ = ds
  intro hds
  dsimp only
  have hzpad : 0 ≤ (if code.2 && code.1 > d.length then code.1 - d.length else 0) := by
    split
    · rename_i h
      have hgt := (Bool.and_eq_true_iff.mp h).2
      rw [decide_eq_true_eq] at hgt
      omega
    · exact Int.le_refl 0
  revert hds hzpad
  generalize (if code.2 && code.1 > d.length then code.1 - d.length else 0) = zpad
  intro hds hzpad
  have hlen := congrArg List.length hds
  rw [List.length_append, List.length_replicate, List.length_reverse] at hlen
  have hpad : ((width : Int) - (d.length + zpad + lead.length)).toNat =
      width - (lead ++ ds).length := by
    rw [List.length_append]
    omega
  rw [hpad, hsome, codeField, ← hds]
  generalize List.replicate zpad.toNat (0x30 : UInt8) = zeros
  cases left <;> cases zero <;> cases prec <;> simp

theorem Precision.code_isSome (prec : Precision) : prec.code.2 = prec.value.isSome := by
  cases prec with
  | none => rfl
  | digits ds => rfl
  | star w =>
    rw [code, value]
    split
    · exact decide_eq_false (by omega)
    · exact decide_eq_true (by omega)

theorem Precision.code_value (prec : Precision) (p : Nat) (h : prec.value = some p) :
    prec.code.1 = p := by
  cases prec with
  | none => cases h
  | digits ds =>
    cases h
    rfl
  | star w =>
    rw [value] at h
    split at h
    · cases h
    · rename_i hneg
      cases h
      exact (Int.toNat_of_nonneg (Int.not_lt.mp hneg)).symm

namespace Directive

variable (d : Directive)

/-- An argument of the conversion's type is its own value. -/
theorem value_eq : d.value = argValue d.length d.conv d.arg := by
  have hin := d.inType
  rw [InType] at hin
  rw [value]
  by_cases hsigned : d.conv.signed = true
  · rw [if_pos hsigned] at hin ⊢
    cases hlen : d.length
    all_goals
      rw [hlen] at hin
      simp only [Length.bits] at hin ⊢
      exact Int.bmod_eq_of_le (by omega) (by omega)
  · rw [if_neg hsigned] at hin ⊢
    exact Int.emod_eq_of_lt hin.1 hin.2

/-- What the source puts in front of the digits: an octal zero too. -/
def codeLead : Bytes :=
  if d.conv = .o then (if Flag.hash ∈ d.flags ∧ d.value ≠ 0 then ascii "0" else []) else d.lead

theorem digit_lt {k : Nat} (hk : k ∈ Nat.digits d.conv.base d.value.natAbs) : k < 16 :=
  Nat.lt_of_lt_of_le (Nat.digits_lt_base d.conv.base_mem.1 hk) d.conv.base_mem.2

/-- The characters are the ones the source picks its digits from. -/
theorem numeral_eq : d.numeral =
    (Nat.digits d.conv.base d.value.natAbs).reverse.map (digitChar (d.conv = .X)) := by
  have hlower : ∀ k : Fin 16, (ascii "0123456789abcdef").getD k 0 = digitChar false k := by decide
  have hupper : ∀ k : Fin 16, (ascii "0123456789ABCDEF").getD k 0 = digitChar true k := by decide
  apply List.map_congr_left
  intro k hk
  have hlt := d.digit_lt (List.mem_reverse.mp hk)
  by_cases hX : d.conv = .X
  · rw [if_pos hX, decide_eq_true hX]
    exact hupper ⟨k, hlt⟩
  · rw [if_neg hX, decide_eq_false hX]
    exact hlower ⟨k, hlt⟩

theorem code_eq_zero_iff (length : Length) : length.code = 0 ↔ length.isInt = true := by
  cases length <;> decide

theorem toInt_signedArg (h : d.conv.signed = true) :
    (if d.length.code = 0 then (wordInt d.arg).toInt64 else d.arg.toInt64).toInt = d.value := by
  rw [value_eq, argValue, if_pos h]
  by_cases hint : d.length.isInt = true
  · rw [if_pos ((code_eq_zero_iff _).mpr hint), if_pos hint, Int32.toInt_toInt64]
  · rw [if_neg (fun h0 => hint ((code_eq_zero_iff _).mp h0)), if_neg hint]

theorem toNat_unsignedArg (h : d.conv.signed = false) :
    ((if d.length.code = 0 then d.arg.toUInt32.toUInt64 else d.arg).toNat : Int) = d.value := by
  rw [value_eq, argValue, h, if_neg Bool.false_ne_true]
  by_cases hint : d.length.isInt = true
  · rw [if_pos ((code_eq_zero_iff _).mpr hint), if_pos hint, UInt32.toNat_toUInt64]
  · rw [if_neg (fun h0 => hint ((code_eq_zero_iff _).mp h0)), if_neg hint]

theorem convertText_signed (h : d.conv.signed = true) :
    (convertText d.spec d.conv.char [.word d.arg]).1 =
      signedText (if d.length.code = 0 then (wordInt d.arg).toInt64 else d.arg.toInt64)
        d.width.value.natAbs d.prec.code.1 d.prec.code.2 d.left (Flag.zero ∈ d.flags)
        (Flag.plus ∈ d.flags) (Flag.space ∈ d.flags) := by
  cases hc : d.conv with
  | d | i => rfl
  | u | o | x | X =>
    rw [hc] at h
    cases h

theorem convertText_unsigned (h : d.conv.signed = false) :
    (convertText d.spec d.conv.char [.word d.arg]).1 =
      uintText (if d.length.code = 0 then d.arg.toUInt32.toUInt64 else d.arg) d.conv.base
        (d.conv = .X) d.width.value.natAbs d.prec.code.1 d.prec.code.2 d.left
        (Flag.zero ∈ d.flags) (altPrefix (Flag.hash ∈ d.flags) d.conv.char
          (if d.length.code = 0 then d.arg.toUInt32.toUInt64 else d.arg)) := by
  cases hc : d.conv with
  | d | i =>
    rw [hc] at h
    cases h
  | u | o | x | X => rfl

/-- What the source puts in front of a signed value. -/
theorem codeLead_signed (h : d.conv.signed = true) : d.codeLead =
    if d.value < 0 then ascii "-" else if Flag.plus ∈ d.flags then ascii "+" else
      if Flag.space ∈ d.flags then ascii " " else [] := by
  rw [codeLead, lead]
  cases hc : d.conv with
  | d | i => rfl
  | u | o | x | X =>
    rw [hc] at h
    cases h

theorem codeLead_unsigned (h : d.conv.signed = false) {v : UInt64}
    (hv : (v.toNat : Int) = d.value) :
    d.codeLead = altPrefix (Flag.hash ∈ d.flags) d.conv.char v := by
  have hzero : v ≠ 0 ↔ d.value ≠ 0 := by
    rw [← hv, Ne, ← UInt64.toNat_inj]
    exact not_congr Int.natCast_eq_zero.symm
  rw [codeLead, lead, altPrefix]
  cases hc : d.conv with
  | d | i =>
    rw [hc] at h
    cases h
  | u | o | x | X => simp [IntConv.char, hzero]

/-- The text of the source. -/
theorem formatText_eq : formatText d.format d.args =
    codeField d.left (Flag.zero ∈ d.flags) d.prec.value d.width.value.natAbs d.codeLead
      (minDigits (d.prec.value.getD 1) d.numeral) := by
  have hprec := d.prec.code_isSome
  have hval := d.prec.code_value
  rw [formatText_format, numeral_eq]
  cases hsigned : d.conv.signed with
  | true =>
    have hv := d.toInt_signedArg hsigned
    have hconv : d.conv.base = 10 ∧ decide (d.conv = .X) = false := by
      cases hc : d.conv with
      | d | i => exact ⟨rfl, rfl⟩
      | u | o | x | X =>
        rw [hc] at hsigned
        cases hsigned
    rw [convertText_signed d hsigned, codeLead_signed d hsigned, hconv.1, hconv.2]
    revert hv
    generalize (if d.length.code = 0 then (wordInt d.arg).toInt64 else d.arg.toInt64) = v
    intro hv
    have hmag := toNat_mag v
    have hneg := lt_zero_iff v
    rw [hv] at hmag hneg
    rw [signedText, ← hmag]
    simp only [hneg, decide_eq_true_eq]
    exact uintText_eq _ (by decide) _ _ _ _ hprec hval _
  | false =>
    have hv := d.toNat_unsignedArg hsigned
    have habs := congrArg Int.natAbs hv
    rw [Int.natAbs_natCast] at habs
    rw [convertText_unsigned d hsigned, codeLead_unsigned d hsigned hv, ← habs]
    exact uintText_eq _ d.conv.base_mem.1 _ _ _ _ hprec hval _

end Directive

/-! ## Section 5: Where the texts differ -/

/-- The fields differ where a zero flag with a precision has to be padded. -/
theorem field_eq_iff (left zero : Bool) (prec : Option Nat) (width : Nat) (lead ds : Bytes) :
    codeField left zero prec width lead ds = c99Field left zero prec width lead ds ↔
      ¬ (zero = true ∧ left = false ∧ prec ≠ none ∧ (lead ++ ds).length < width) := by
  unfold codeField c99Field
  cases left with
  | true => simp
  | false =>
    cases zero with
    | false => simp
    | true =>
      cases prec with
      | none => simp
      | some p =>
        -- the source has no padding here, and C99 has spaces
        have hiff : lead ++ ds = List.replicate (width - (lead ++ ds).length) 0x20 ++ lead ++ ds ↔
            width ≤ (lead ++ ds).length := by
          constructor
          · intro h
            have hlen := congrArg List.length h
            simp only [List.length_append, List.length_replicate] at hlen
            rw [List.length_append]
            omega
          · intro h
            rw [Nat.sub_eq_zero_of_le h]
            rfl
        simpa using hiff

/-- A zero in front may count as a digit. -/
theorem codeField_zero (left zero : Bool) (prec : Option Nat) (width : Nat) (ds : Bytes) :
    codeField left zero prec width (ascii "0") ds =
      codeField left zero prec width [] (0x30 :: ds) := by
  have hzero : ascii "0" = [0x30] := by decide
  unfold codeField
  rw [hzero]
  cases left with
  | true => rfl
  | false =>
    cases zero with
    | false => simp
    | true =>
      cases prec with
      | none =>
        -- the zero stands in front of the padding or behind it
        show 0x30 :: (List.replicate _ 0x30 ++ ds) = List.replicate _ 0x30 ++ 0x30 :: ds
        rw [← List.cons_append, ← List.replicate_succ, List.replicate_succ', List.append_assoc]
        rfl
      | some p => rfl

/-- With a precision the field is padded with spaces only, so texts of
    different length are different in any field. -/
theorem field_ne {left zero : Bool} {p width : Nat} {lead lead' ds ds' : Bytes}
    (h : (0x20 : UInt8) ∉ lead ++ ds) (h' : (0x20 : UInt8) ∉ lead' ++ ds')
    (hlen : (lead ++ ds).length ≠ (lead' ++ ds').length) :
    codeField left zero (some p) width lead ds ≠ c99Field left zero (some p) width lead' ds' := by
  -- without the spaces what is left is the text in the field
  have hkeep {t : Bytes} (ht : (0x20 : UInt8) ∉ t) : t.filter (· ≠ 0x20) = t := by
    apply List.filter_eq_self.mpr
    intro c hc
    exact decide_eq_true fun h0 => ht (h0 ▸ hc)
  have hpad (n : Nat) : (List.replicate n (0x20 : UInt8)).filter (· ≠ 0x20) = [] := by
    simp
  have hcode : (codeField left zero (some p) width lead ds).filter (· ≠ 0x20) = lead ++ ds := by
    rw [← hkeep h]
    unfold codeField
    cases left <;> cases zero <;> simp
  have hc99 : (c99Field left zero (some p) width lead' ds').filter (· ≠ 0x20) = lead' ++ ds' := by
    rw [← hkeep h']
    unfold c99Field
    cases left <;> cases zero <;> simp
  intro heq
  rw [heq, hc99] at hcode
  exact hlen (congrArg List.length hcode.symm)

namespace Directive

variable (d : Directive)

/-- The zero the source puts in front of an octal number. -/
def octalZero : Nat :=
  if d.conv = .o ∧ Flag.hash ∈ d.flags ∧ d.value ≠ 0 then 1 else 0

/-- A zero flag with a precision, in a field that is wider than sign, base
    and digits. -/
def Unpadded : Prop :=
  Flag.zero ∈ d.flags ∧ d.left = false ∧ ∃ p, d.prec.value = some p ∧
    d.lead.length + d.octalZero + max p d.numeral.length < d.width.value.natAbs

/-- `#` with an octal number whose precision has a zero in front already, or
    with a zero and precision 0. -/
def OctalMisprinted : Prop :=
  d.conv = .o ∧ Flag.hash ∈ d.flags ∧ ∃ p, d.prec.value = some p ∧
    if d.value = 0 then p = 0 else d.numeral.length < p

def Misprinted : Prop :=
  d.Unpadded ∨ d.OctalMisprinted

theorem space_notMem_minDigits (p : Nat) : (0x20 : UInt8) ∉ minDigits p d.numeral := by
  have hdigit : ∀ k : Fin 16, ∀ b : Bool, digitChar b k ≠ 0x20 := by decide
  rw [minDigits, numeral_eq, List.mem_append, not_or]
  constructor
  · intro hmem
    exact absurd (List.eq_of_mem_replicate hmem) (by decide)
  · intro hmem
    obtain ⟨k, hk, hchar⟩ := List.mem_map.mp hmem
    exact hdigit ⟨k, d.digit_lt (List.mem_reverse.mp hk)⟩ _ hchar

/-- The first digit of a number is no zero. -/
theorem head_numeral (hv : d.value ≠ 0) : d.numeral.head? ≠ some 0x30 := by
  have hdigit : ∀ k : Fin 16, ∀ b : Bool, digitChar b k = 0x30 → k = 0 := by decide
  have habs : d.value.natAbs ≠ 0 := Int.natAbs_ne_zero.mpr hv
  have hne : Nat.digits d.conv.base d.value.natAbs ≠ [] := Nat.digits_ne_nil_iff_ne_zero.mpr habs
  have hlast := Nat.getLast_digit_ne_zero d.conv.base habs
  have hlt := d.digit_lt (List.getLast_mem hne)
  rw [numeral_eq, List.head?_map, List.head?_reverse, List.getLast?_eq_some_getLast hne]
  intro heq
  have hk := hdigit ⟨_, hlt⟩ _ (Option.some.inj heq)
  exact hlast (congrArg Fin.val hk)

theorem numeral_zero (hv : d.value = 0) : d.numeral = [] := by
  rw [numeral_eq, hv]
  simp

theorem length_numeral_pos (hv : d.value ≠ 0) : 0 < d.numeral.length := by
  have habs : d.value.natAbs ≠ 0 := Int.natAbs_ne_zero.mpr hv
  rw [numeral_eq, List.length_map, List.length_reverse, List.length_pos_iff]
  exact Nat.digits_ne_nil_iff_ne_zero.mpr habs

/-- The field is too wide for a zero flag with a precision. -/
theorem unpadded_iff {t : Bytes} (h : ∀ p, d.prec.value = some p →
      t.length = d.lead.length + d.octalZero + max p d.numeral.length) :
    (decide (Flag.zero ∈ d.flags) = true ∧ d.left = false ∧ d.prec.value ≠ none ∧
        t.length < d.width.value.natAbs) ↔ d.Unpadded := by
  rw [decide_eq_true_eq, Unpadded]
  cases hprec : d.prec.value with
  | none => simp
  | some p =>
    rw [h p hprec]
    simp

/-- Where both texts are the same characters in their fields, the padding
    decides. -/
theorem formatText_iff_of_same {t : Bytes}
    (hcode : ∀ left zero prec width, codeField left zero prec width d.codeLead
      (minDigits (d.prec.value.getD 1) d.numeral) = codeField left zero prec width d.lead t)
    (hc99 : d.digits = t)
    (hlen : ∀ p, d.prec.value = some p → t.length = d.octalZero + max p d.numeral.length)
    (hoct : ¬ d.OctalMisprinted) :
    formatText d.format d.args = d.c99Text ↔ ¬ d.Misprinted := by
  have hlen' : ∀ p, d.prec.value = some p → (d.lead ++ t).length =
      d.lead.length + d.octalZero + max p d.numeral.length := by
    intro p hp
    rw [List.length_append, hlen p hp, Nat.add_assoc]
  rw [formatText_eq, c99Text, hcode, hc99, field_eq_iff, d.unpadded_iff hlen']
  exact not_congr (or_iff_left hoct).symm

/-- Where the digits are more or fewer than the specified ones, no padding
    makes up for it. -/
theorem formatText_ne_of_length {t : Bytes} (hd : ∃ p, d.prec.value = some p)
    (hc99 : d.lead ++ d.digits = t) (hspace : (0x20 : UInt8) ∉ d.codeLead) (ht : (0x20 : UInt8) ∉ t)
    (hlen : d.codeLead.length + (minDigits (d.prec.value.getD 1) d.numeral).length ≠ t.length)
    (hoct : d.OctalMisprinted) :
    formatText d.format d.args = d.c99Text ↔ ¬ d.Misprinted := by
  obtain ⟨p, hp⟩ := hd
  apply iff_of_false
  · rw [formatText_eq, c99Text, hp]
    rw [hp] at hlen
    apply field_ne
    · rw [List.mem_append, not_or]
      exact ⟨hspace, d.space_notMem_minDigits _⟩
    · rwa [hc99]
    · rwa [hc99, List.length_append]
  · intro h
    exact h (Or.inr hoct)

/-- A conversion with no octal `#` prints the specified digits. -/
theorem formatText_iff_of_plain (h : ¬ (d.conv = .o ∧ Flag.hash ∈ d.flags)) :
    formatText d.format d.args = d.c99Text ↔ ¬ d.Misprinted := by
  have hdigits : d.digits = minDigits (d.prec.value.getD 1) d.numeral :=
    if_neg fun hraise => h ⟨hraise.1, hraise.2.1⟩
  have hlead : d.codeLead = d.lead := by
    rw [codeLead]
    split
    · rename_i hc
      rw [if_neg fun hash => h ⟨hc, hash.1⟩, lead, hc]
    · rfl
  have hzero : d.octalZero = 0 := if_neg fun hash => h ⟨hash.1, hash.2.1⟩
  apply d.formatText_iff_of_same _ hdigits
  · intro p hp
    rw [hp, hzero, length_minDigits, Nat.zero_add]
    rfl
  · rintro ⟨hc, hash, -⟩
    exact h ⟨hc, hash⟩
  · intro left zero prec width
    rw [hlead]

theorem lead_octal (hc : d.conv = .o) : d.lead = [] := by
  rw [lead, hc]

theorem digits_eq_of_head (h : (minDigits (d.prec.value.getD 1) d.numeral).head? = some 0x30) :
    d.digits = minDigits (d.prec.value.getD 1) d.numeral :=
  if_neg fun hraise => hraise.2.2 h

/-- `#` with an octal number that has no zero in front. -/
theorem digits_raised (hc : d.conv = .o) (hash : Flag.hash ∈ d.flags)
    (h : (minDigits (d.prec.value.getD 1) d.numeral).head? ≠ some 0x30) :
    d.digits = minDigits ((minDigits (d.prec.value.getD 1) d.numeral).length + 1) d.numeral :=
  if_pos ⟨hc, hash, h⟩

theorem head_minDigits {p : Nat} {ds : Bytes} (h : ds.length < p) :
    (minDigits p ds).head? = some 0x30 := by
  obtain ⟨n, hn⟩ : ∃ n, p - ds.length = n + 1 := ⟨p - ds.length - 1, by omega⟩
  rw [minDigits, hn]
  rfl

theorem minDigits_of_le {p : Nat} {ds : Bytes} (h : p ≤ ds.length) : minDigits p ds = ds := by
  rw [minDigits, Nat.sub_eq_zero_of_le h]
  rfl

/-- An octal zero with `#`. -/
theorem formatText_iff_of_zero (hc : d.conv = .o) (hash : Flag.hash ∈ d.flags)
    (hv : d.value = 0) : formatText d.format d.args = d.c99Text ↔ ¬ d.Misprinted := by
  have hnum := d.numeral_zero hv
  have hlead := d.lead_octal hc
  have hcode : d.codeLead = [] := by
    rw [codeLead, if_pos hc]
    exact if_neg fun h => h.2 hv
  have hzero : d.octalZero = 0 := if_neg fun h => h.2.2 hv
  by_cases hp : d.prec.value = some 0
  · -- there is no digit at all, and C99 wants a zero
    have hnone : minDigits (d.prec.value.getD 1) d.numeral = [] := by
      rw [hp, hnum]
      rfl
    have hraised : d.digits = [0x30] := by
      rw [d.digits_raised hc hash (by rw [hnone]; exact nofun), hnone, hnum]
      rfl
    apply d.formatText_ne_of_length ⟨0, hp⟩ (t := [0x30])
    · rw [hlead, hraised]
      rfl
    · rw [hcode]
      exact List.not_mem_nil
    · decide
    · rw [hcode, hnone]
      decide
    · exact ⟨hc, hash, 0, hp, by rw [if_pos hv]⟩
  · have hpos : d.numeral.length < d.prec.value.getD 1 := by
      rw [hnum]
      cases hprec : d.prec.value with
      | none => exact Nat.one_pos
      | some p =>
        rw [hprec] at hp
        exact Nat.pos_of_ne_zero fun h => hp (congrArg some h)
    apply d.formatText_iff_of_same _ (d.digits_eq_of_head (head_minDigits hpos))
    · intro p hprec
      rw [hprec, hzero, length_minDigits, Nat.zero_add]
      rfl
    · rintro ⟨-, -, p, hprec, h⟩
      rw [if_pos hv] at h
      rw [h] at hprec
      exact hp hprec
    · intro left zero prec width
      rw [hcode, hlead]

/-- Another octal number with `#`. -/
theorem formatText_iff_of_octal (hc : d.conv = .o) (hash : Flag.hash ∈ d.flags)
    (hv : d.value ≠ 0) : formatText d.format d.args = d.c99Text ↔ ¬ d.Misprinted := by
  have hpos := d.length_numeral_pos hv
  have hlead := d.lead_octal hc
  have hcode : d.codeLead = ascii "0" := by
    rw [codeLead, if_pos hc]
    exact if_pos ⟨hash, hv⟩
  have hzero : d.octalZero = 1 := if_pos ⟨hc, hash, hv⟩
  by_cases hp : d.prec.value.getD 1 ≤ d.numeral.length
  · -- the digits, with a zero in front of them
    have hds := minDigits_of_le hp
    have hraised : d.digits = 0x30 :: d.numeral := by
      rw [d.digits_raised hc hash (by rw [hds]; exact d.head_numeral hv), hds, minDigits,
        Nat.add_sub_cancel_left]
      rfl
    apply d.formatText_iff_of_same _ hraised
    · intro p hprec
      rw [hprec, Option.getD_some] at hp
      rw [hzero, List.length_cons]
      omega
    · rintro ⟨-, -, p, hprec, h⟩
      rw [if_neg hv] at h
      rw [hprec, Option.getD_some] at hp
      omega
    · intro left zero prec width
      rw [hds, hcode, hlead, codeField_zero]
  · -- the precision has a zero in front already
    obtain ⟨p, hprec⟩ : ∃ p, d.prec.value = some p := by
      cases hprec : d.prec.value with
      | none =>
        rw [hprec] at hp
        exact absurd hpos hp
      | some p => exact ⟨p, rfl⟩
    have hlt := Nat.lt_of_not_le hp
    apply d.formatText_ne_of_length ⟨p, hprec⟩ (t := minDigits (d.prec.value.getD 1) d.numeral)
    · rw [hlead, d.digits_eq_of_head (head_minDigits hlt)]
      exact List.nil_append _
    · rw [hcode]
      decide
    · exact d.space_notMem_minDigits _
    · rw [hcode]
      have hone : (ascii "0").length = 1 := by decide
      omega
    · refine ⟨hc, hash, p, hprec, ?_⟩
      rw [if_neg hv]
      rwa [hprec] at hlt

/-- **Where the text is the one C99 specifies.** -/
theorem formatText_iff : formatText d.format d.args = d.c99Text ↔ ¬ d.Misprinted := by
  by_cases hoct : d.conv = .o ∧ Flag.hash ∈ d.flags
  · by_cases hv : d.value = 0
    · exact d.formatText_iff_of_zero hoct.1 hoct.2 hv
    · exact d.formatText_iff_of_octal hoct.1 hoct.2 hv
  · exact d.formatText_iff_of_plain hoct

theorem five_ne_zero : ([5] : Digits).head? ≠ some 0 := by
  decide

theorem five_inType : InType .none .d (argValue .none .d 5) := by
  decide

/-- `%05.3d` of 5. -/
def zeroFlagWithPrecision : Directive where
  flags := [.zero]
  width := .digits [5] five_ne_zero
  prec := .digits [3]
  length := .none
  conv := .d
  arg := 5
  inType := five_inType

/-- The field of five characters gets three. -/
theorem zeroFlag_unpadded : zeroFlagWithPrecision.format.val = ascii "%05.3d" ∧
    formatText zeroFlagWithPrecision.format zeroFlagWithPrecision.args = ascii "005" ∧
    zeroFlagWithPrecision.c99Text = ascii "  005" ∧
    ¬ ∀ d : Directive, formatText d.format d.args = d.c99Text := by
  have hcode : formatText zeroFlagWithPrecision.format zeroFlagWithPrecision.args =
      ascii "005" := by
    decide
  have hc99 : zeroFlagWithPrecision.c99Text = ascii "  005" := by decide
  refine ⟨by decide, hcode, hc99, ?_⟩
  intro h
  have heq := h zeroFlagWithPrecision
  rw [hcode, hc99] at heq
  exact absurd heq (by decide)

end Directive

end JniLog.JlFmt
