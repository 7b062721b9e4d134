import JniLog.FloatBits
import JniLog.Framework.Rounding
import JniLog.JlFmt
import Mathlib.Data.List.DropRight
import Mathlib.Data.Rat.Floor
import Mathlib.Tactic.FieldSimp

/-! # Significant digits

    The digits `jl_fmt_g` prints of a finite `double`, compared with the
    correctly rounded ones. The scaling and digit loops are exact, on
    fractions.

    * Section 1: the text of `%g`, from the value of the bits.
    * Section 2: one loop after the other computes what it is for.
    * Section 3: the layout, and that it loses no digit.

    Main result: the code rounds a tie up, so its text is the correctly
    rounded one except for the values halfway between an even number of
    that many digits and the next one. -/

namespace JniLog.JlFmt

open Bytes Rounding
open Visualize (sign64 exponent64 mantissa64)

/-! ## Section 1: The text of `%g` -/

/-- The value of a finite `double` without its sign. -/
def absValue (bits : UInt64) : ℚ :=
  if exponent64 bits = 0 then mantissa64 bits * 2 ^ (-1074 : ℤ)
  else (2 ^ 52 + mantissa64 bits) * 2 ^ ((exponent64 bits : ℤ) - 1075)

/-- A fraction without the zeros at its end, and the point in front of it
    when something is left. -/
def fractionText (frac : List Nat) : Bytes :=
  let digits := frac.rdropWhile (· = 0)
  if digits = [] then [] else 0x2e :: digits.map Numeral.digitByte

def pointText (int frac : List Nat) : Bytes :=
  int.map Numeral.digitByte ++ fractionText frac

/-- A sign and at least two digits. -/
def exponentText (e : ℤ) : Bytes :=
  let digits := (Nat.digits 10 e.natAbs).reverse.map Numeral.digitByte
  ascii "e" ++ (if e < 0 then ascii "-" else ascii "+") ++
    List.replicate (2 - digits.length) 0x30 ++ digits

/-- The layout of `%g` with precision `p`: fixed notation for exponents from
    -4 up to the precision. -/
def layoutG (p : Nat) (ds : List Nat) (e : ℤ) : Bytes :=
  if -4 ≤ e ∧ e < p then
    if 0 ≤ e then pointText (ds.take (e + 1).toNat) (ds.drop (e + 1).toNat)
    else pointText [0] (List.replicate (-e - 1).toNat 0 ++ ds)
  else pointText (ds.take 1) (ds.drop 1) ++ exponentText e

/-- `%g` with a rounding rule. -/
def textG (rnd : ℚ → ℤ) (p : Nat) (bits : UInt64) : Bytes :=
  let q := significant rnd p (absValue bits)
  (if sign64 bits = 1 then ascii "-" else []) ++
    layoutG p (Nat.digits 10 q.1.toNat).reverse q.2

/-! ## Section 2: The loops -/

/-- The number a fraction stands for. -/
def ratio (m : Nat × Nat) : ℚ := m.1 / m.2

/-- The first loop divides by ten until one digit is in front of the point. -/
theorem scaleDown_spec {k : Nat} {m : Nat × Nat} (hden : 0 < m.2) (hfuel : m.1 < 10 ^ (k + 1) * m.2)
    (e : ℤ) :
    0 < (scaleDown k m e).1.2 ∧ (scaleDown k m e).1.1 < 10 * (scaleDown k m e).1.2 ∧
      ratio (scaleDown k m e).1 * 10 ^ (scaleDown k m e).2 = ratio m * 10 ^ e := by
  induction k generalizing m e with
  | zero =>
    refine ⟨hden, ?_, rfl⟩
    simpa [scaleDown] using hfuel
  | succ k ih =>
    obtain ⟨num, den⟩ := m
    dsimp only at hden hfuel
    rw [scaleDown]
    by_cases hge : num ≥ 10 * den
    · rw [if_pos hge]
      have hnext : num < 10 ^ (k + 1) * (10 * den) := by
        rw [← Nat.mul_assoc, ← pow_succ]
        exact hfuel
      obtain ⟨h₁, h₂, h₃⟩ := ih (m := (num, 10 * den)) (by simpa using hden) hnext (e + 1)
      refine ⟨h₁, h₂, h₃.trans ?_⟩
      have hne : (den : ℚ) ≠ 0 := Nat.cast_ne_zero.mpr (by omega)
      rw [ratio, ratio, zpow_add_one₀ (by norm_num)]
      push_cast
      field_simp
    · rw [if_neg hge]
      exact ⟨hden, Nat.lt_of_not_le hge, rfl⟩

/-- The second loop multiplies by ten until that digit is no zero. -/
theorem scaleUp_spec {k : Nat} {m : Nat × Nat} (hden : 0 < m.2) (hlt : m.1 < 10 * m.2)
    (hfuel : m.2 ≤ 10 ^ k * m.1) (e : ℤ) :
    0 < (scaleUp k m e).1.2 ∧ (scaleUp k m e).1.2 ≤ (scaleUp k m e).1.1 ∧
      (scaleUp k m e).1.1 < 10 * (scaleUp k m e).1.2 ∧
      ratio (scaleUp k m e).1 * 10 ^ (scaleUp k m e).2 = ratio m * 10 ^ e := by
  induction k generalizing m e with
  | zero =>
    refine ⟨hden, ?_, hlt, rfl⟩
    simpa [scaleUp] using hfuel
  | succ k ih =>
    obtain ⟨num, den⟩ := m
    dsimp only at hden hlt hfuel
    rw [scaleUp]
    by_cases hsmall : num < den
    · rw [if_pos hsmall]
      have hnext : den ≤ 10 ^ k * (10 * num) := by
        rw [← Nat.mul_assoc, ← pow_succ]
        exact hfuel
      obtain ⟨h₁, h₂, h₃, h₄⟩ := ih (m := (10 * num, den)) hden (by dsimp only; omega) hnext (e - 1)
      refine ⟨h₁, h₂, h₃, h₄.trans ?_⟩
      rw [ratio, ratio, zpow_sub_one₀ (by norm_num)]
      push_cast
      field_simp
    · rw [if_neg hsmall]
      exact ⟨hden, Nat.le_of_not_lt hsmall, hlt, rfl⟩

/-- The digit loop: the digits are the number in front of the point, and a
    tenth of what is left stands behind it. -/
theorem takeDigits_spec {k : Nat} {m : Nat × Nat} (hlt : m.1 < 10 * m.2) :
    (takeDigits k m).2.2 = m.2 ∧ (takeDigits k m).2.1 < 10 * m.2 ∧
      10 * Numeral.valueFrom 10 0 (takeDigits k m).1 * m.2 + (takeDigits k m).2.1 =
        10 ^ k * m.1 := by
  induction k generalizing m with
  | zero => simp [takeDigits, hlt]
  | succ k ih =>
    obtain ⟨num, den⟩ := m
    dsimp only at hlt
    have hden : 0 < den := by omega
    -- the value is below ten, so the digit is not cut to 9
    have hdigit : min (num / den) 9 = num / den := by
      have hle : num / den < 10 := (Nat.div_lt_iff_lt_mul hden).mpr hlt
      omega
    have hrest : num - num / den * den = num % den := by
      have hsplit := Nat.div_add_mod' num den
      omega
    have hmod := Nat.mod_lt num hden
    obtain ⟨h₁, h₂, h₃⟩ := ih (m := (10 * (num % den), den)) (by dsimp only; omega)
    rw [takeDigits, hdigit, hrest]
    refine ⟨h₁, h₂, ?_⟩
    dsimp only at h₃ ⊢
    rw [Numeral.valueFrom_cons, Numeral.valueFrom_eq, length_takeDigits]
    have hsplit := Nat.div_add_mod' num den
    calc _ = 10 ^ (k + 1) * (num / den * den) +
          (10 * Numeral.valueFrom 10 0 (takeDigits k (10 * (num % den), den)).1 * den +
            (takeDigits k (10 * (num % den), den)).2.1) := by ring
      _ = 10 ^ (k + 1) * (num / den * den) + 10 ^ k * (10 * (num % den)) := by rw [h₃]
      _ = 10 ^ (k + 1) * (num / den * den + num % den) := by ring
      _ = 10 ^ (k + 1) * num := by rw [hsplit]

/-- The rounding loop adds one; a carry leaves zeros. -/
theorem roundUp_spec (ds : List Nat) (hds : ∀ d ∈ ds, d < 10) :
    ((roundUp ds).2 = false →
      Numeral.valueFrom 10 0 (roundUp ds).1 = Numeral.valueFrom 10 0 ds + 1) ∧
    ((roundUp ds).2 = true → (roundUp ds).1 = List.replicate ds.length 0 ∧
      Numeral.valueFrom 10 0 ds + 1 = 10 ^ ds.length) := by
  induction ds with
  | nil => exact ⟨fun h => absurd h (by decide), fun _ => ⟨rfl, rfl⟩⟩
  | cons d ds ih =>
    rw [List.forall_mem_cons] at hds
    obtain ⟨hstay, hcarry⟩ := ih hds.2
    have hvalue := Numeral.valueFrom_eq (b := 10) (0 * 10 + d) ds
    have hlength := length_roundUp ds
    rw [Numeral.valueFrom_cons, roundUp, List.length_cons]
    rcases hr : roundUp ds with ⟨ds', carry⟩
    rw [hr] at hstay hcarry hlength
    dsimp only at hstay hcarry hlength
    cases carry with
    | false =>
      refine ⟨fun _ => ?_, fun h => Bool.noConfusion h⟩
      dsimp only
      rw [Numeral.valueFrom_cons, Numeral.valueFrom_eq, hstay rfl, hlength, hvalue, Nat.add_assoc]
    | true =>
      obtain ⟨hzeros, hall⟩ := hcarry rfl
      have hzero := Numeral.valueFrom_zeros (b := 10) ds.length
      by_cases hd : d = 9
      · -- a nine becomes a zero, and the carry goes on
        subst hd
        refine ⟨fun h => absurd h (by simp), fun _ => ⟨?_, ?_⟩⟩
        · simp [hzeros, List.replicate_succ]
        · rw [hvalue, pow_succ]
          omega
      · dsimp only
        rw [if_neg hd]
        refine ⟨fun _ => ?_, fun h => Bool.noConfusion h⟩
        dsimp only
        rw [Numeral.valueFrom_cons, Numeral.valueFrom_eq, hzeros, hzero, List.length_replicate,
          hvalue, Nat.add_assoc, hall]
        ring

/-! ### The scaled value -/

section Scaled

variable {bits : UInt64}

theorem toNat_exp (bits : UInt64) : ((bits >>> 52) &&& 0x7ff).toNat = exponent64 bits := by
  have hmask : (0x7ff : UInt64).toNat = 2 ^ 11 - 1 := rfl
  rw [UInt64.toNat_and, hmask, Nat.and_two_pow_sub_one_eq_mod, UInt64.toNat_shiftRight,
    Nat.shiftRight_eq_div_pow]
  rfl

theorem toNat_man (bits : UInt64) : (bits &&& 0xfffffffffffff).toNat = mantissa64 bits := by
  have hmask : (0xfffffffffffff : UInt64).toNat = 2 ^ 52 - 1 := rfl
  rw [UInt64.toNat_and, hmask, Nat.and_two_pow_sub_one_eq_mod]
  rfl

theorem magnitude_eq (bits : UInt64) : magnitude bits =
    if exponent64 bits = 0 then (mantissa64 bits, 2 ^ 1074)
    else if exponent64 bits ≤ 1075 then (2 ^ 52 + mantissa64 bits, 2 ^ (1075 - exponent64 bits))
    else ((2 ^ 52 + mantissa64 bits) * 2 ^ (exponent64 bits - 1075), 1) := by
  rw [magnitude, toNat_exp, toNat_man]

/-- The fraction is the value of the bits. -/
theorem ratio_magnitude (bits : UInt64) : ratio (magnitude bits) = absValue bits := by
  rw [magnitude_eq, absValue]
  split
  · rw [ratio, zpow_neg, ← div_eq_mul_inv, Nat.cast_pow, Nat.cast_ofNat]
    rfl
  · split
    · rename_i hle
      have hexp : (exponent64 bits : ℤ) - 1075 = -((1075 - exponent64 bits : ℕ) : ℤ) := by omega
      rw [ratio, hexp, zpow_neg, ← div_eq_mul_inv, zpow_natCast, Nat.cast_add, Nat.cast_pow,
        Nat.cast_pow, Nat.cast_ofNat]
    · rename_i hgt
      have hexp : (exponent64 bits : ℤ) - 1075 = ((exponent64 bits - 1075 : ℕ) : ℤ) := by omega
      rw [ratio, hexp, zpow_natCast, Nat.cast_mul, Nat.cast_add, Nat.cast_pow, Nat.cast_pow,
        Nat.cast_ofNat, Nat.cast_one, div_one]

/-- Three powers of two are less than one of ten. -/
theorem two_pow_le_ten_pow {n k : Nat} (h : n ≤ 3 * k) : 2 ^ n ≤ 10 ^ k :=
  calc 2 ^ n ≤ 2 ^ (3 * k) := Nat.pow_le_pow_right (by decide) h
    _ = (2 ^ 3) ^ k := pow_mul 2 3 k
    _ ≤ 10 ^ k := Nat.pow_le_pow_left (by decide) k

/-- A finite value is not too large and not too small for the loops. -/
theorem magnitude_mem (hne : exponent64 bits ≠ 0 ∨ mantissa64 bits ≠ 0) :
    0 < (magnitude bits).2 ∧ (magnitude bits).1 < 10 ^ (400 + 1) * (magnitude bits).2 ∧
      (magnitude bits).2 ≤ 10 ^ 400 * (magnitude bits).1 := by
  have hman : mantissa64 bits < 2 ^ 52 := Nat.mod_lt _ (by decide)
  have hexp : exponent64 bits < 2 ^ 11 := Nat.mod_lt _ (by decide)
  have hpos {n : Nat} : 0 < 10 ^ n := Nat.pow_pos (by decide)
  rw [magnitude_eq]
  split
  · rename_i hzero
    have hman' : 0 < mantissa64 bits := Nat.pos_of_ne_zero (hne.resolve_left (not_not.mpr hzero))
    -- the power is no number to be computed
    generalize hn : 1074 = n
    refine ⟨Nat.two_pow_pos n, ?_, ?_⟩
    · calc mantissa64 bits < 2 ^ 52 := hman
        _ ≤ 10 ^ (400 + 1) := two_pow_le_ten_pow (by decide)
        _ ≤ 10 ^ (400 + 1) * 2 ^ n := Nat.le_mul_of_pos_right _ (Nat.two_pow_pos n)
    · calc 2 ^ n ≤ 10 ^ 400 := two_pow_le_ten_pow (by omega)
        _ ≤ 10 ^ 400 * mantissa64 bits := Nat.le_mul_of_pos_right _ hman'
  · split
    -- a normal number with a fraction, then one without
    · refine ⟨Nat.two_pow_pos _, ?_, ?_⟩
      · calc 2 ^ 52 + mantissa64 bits < 2 ^ 53 := by omega
          _ ≤ 10 ^ (400 + 1) := two_pow_le_ten_pow (by decide)
          _ ≤ 10 ^ (400 + 1) * 2 ^ (1075 - exponent64 bits) :=
            Nat.le_mul_of_pos_right _ (Nat.two_pow_pos _)
      · calc 2 ^ (1075 - exponent64 bits) ≤ 10 ^ 400 := two_pow_le_ten_pow (by omega)
          _ ≤ 10 ^ 400 * (2 ^ 52 + mantissa64 bits) := Nat.le_mul_of_pos_right _ (by omega)
    · refine ⟨Nat.one_pos, ?_, ?_⟩
      · calc (2 ^ 52 + mantissa64 bits) * 2 ^ (exponent64 bits - 1075)
            < 2 ^ 53 * 2 ^ (exponent64 bits - 1075) :=
              Nat.mul_lt_mul_of_pos_right (by omega) (Nat.two_pow_pos _)
          _ = 2 ^ (53 + (exponent64 bits - 1075)) := (pow_add 2 _ _).symm
          _ ≤ 10 ^ (400 + 1) := two_pow_le_ten_pow (by omega)
          _ = 10 ^ (400 + 1) * 1 := (Nat.mul_one _).symm
      · exact Nat.mul_pos hpos (Nat.mul_pos (by omega) (Nat.two_pow_pos _))

theorem scaleDown_le {k N : Nat} (hN : 1 ≤ N) {m : Nat × Nat} (h : m.2 ≤ N * m.1) (e : ℤ) :
    (scaleDown k m e).1.2 ≤ N * (scaleDown k m e).1.1 := by
  induction k generalizing m e with
  | zero => exact h
  | succ k ih =>
    obtain ⟨num, den⟩ := m
    rw [scaleDown]
    by_cases hge : num ≥ 10 * den
    · rw [if_pos hge]
      apply ih
      exact Nat.le_trans hge (Nat.le_mul_of_pos_left num hN)
    · rw [if_neg hge]
      exact h

/-- The value with one digit in front of its point, and its exponent. -/
def normalized (bits : UInt64) : (Nat × Nat) × ℤ :=
  scaleUp 400 (scaleDown 400 (magnitude bits) 0).1 (scaleDown 400 (magnitude bits) 0).2

/-- The loops do not run out of rounds. -/
theorem normalized_spec (hne : exponent64 bits ≠ 0 ∨ mantissa64 bits ≠ 0) :
    0 < (normalized bits).1.2 ∧ (normalized bits).1.2 ≤ (normalized bits).1.1 ∧
      (normalized bits).1.1 < 10 * (normalized bits).1.2 ∧
      ratio (normalized bits).1 * 10 ^ (normalized bits).2 = absValue bits := by
  obtain ⟨hden, hhigh, hlow⟩ := magnitude_mem hne
  obtain ⟨h₁, h₂, h₃⟩ := scaleDown_spec (k := 400) hden hhigh 0
  have hfuel := scaleDown_le (k := 400) (one_le_pow₀ (by decide)) hlow 0
  obtain ⟨h₄, h₅, h₆, h₇⟩ := scaleUp_spec h₁ h₂ hfuel (scaleDown 400 (magnitude bits) 0).2
  refine ⟨h₄, h₅, h₆, h₇.trans ?_⟩
  rw [h₃, zpow_zero, mul_one, ratio_magnitude]

theorem one_le_ratio (hne : exponent64 bits ≠ 0 ∨ mantissa64 bits ≠ 0) :
    1 ≤ ratio (normalized bits).1 ∧ ratio (normalized bits).1 < 10 := by
  obtain ⟨hden, hlow, hhigh, -⟩ := normalized_spec hne
  have hden' : (0 : ℚ) < (normalized bits).1.2 := Nat.cast_pos.mpr hden
  constructor
  · rw [ratio, one_le_div hden']
    exact_mod_cast hlow
  · rw [ratio, div_lt_iff₀ hden']
    exact_mod_cast hhigh

theorem absValue_pos (hne : exponent64 bits ≠ 0 ∨ mantissa64 bits ≠ 0) : 0 < absValue bits := by
  obtain ⟨-, -, -, hvalue⟩ := normalized_spec hne
  have hratio := (one_le_ratio hne).1
  rw [← hvalue]
  exact mul_pos (by linarith) (zpow_pos (by norm_num) _)

/-- The exponent the loops count is the decimal exponent. -/
theorem normalized_exponent (hne : exponent64 bits ≠ 0 ∨ mantissa64 bits ≠ 0) :
    Int.log 10 (absValue bits) = (normalized bits).2 := by
  obtain ⟨-, -, -, hvalue⟩ := normalized_spec hne
  obtain ⟨hlow, hhigh⟩ := one_le_ratio hne
  have hpos : (0 : ℚ) < 10 ^ (normalized bits).2 := zpow_pos (by norm_num) _
  rw [← hvalue]
  apply log_eq_of_le_of_lt
  · exact le_mul_of_one_le_left hpos.le hlow
  · rw [zpow_add_one₀ (by norm_num), mul_comm]
    exact mul_lt_mul_of_pos_left hhigh hpos

/-- Scaled to `p` digits the value is the normalized one times a power of ten. -/
theorem scaled_absValue (hne : exponent64 bits ≠ 0 ∨ mantissa64 bits ≠ 0) {p : Nat} (hp : 1 ≤ p) :
    scaled p (absValue bits) = ratio (normalized bits).1 * 10 ^ (p - 1) := by
  obtain ⟨-, -, -, hvalue⟩ := normalized_spec hne
  have hten : (10 : ℚ) ≠ 0 := by norm_num
  rw [scaled, normalized_exponent hne, ← hvalue, mul_assoc, ← zpow_add₀ hten, ← zpow_natCast]
  congr 2
  omega

end Scaled

/-! ### The rounded digits -/

/-- The digits and the exponent before they are laid out. -/
def roundedDigits (p : Nat) (bits : UInt64) : List Nat × ℤ :=
  let q := takeDigits p (normalized bits).1
  if q.2.1 / q.2.2 ≥ 5 then
    match roundUp q.1 with
    | (dig, false) => (dig, (normalized bits).2)
    | (dig, true) => (1 :: dig.take (p - 1), (normalized bits).2 + 1)
  else (q.1, (normalized bits).2)

section Rounded

variable {bits : UInt64} {p : Nat}

/-- The digits in front of the point of the scaled value, and what stands
    behind it. -/
theorem takeDigits_scaled (hne : exponent64 bits ≠ 0 ∨ mantissa64 bits ≠ 0) (hp : 1 ≤ p) :
    ⌊scaled p (absValue bits)⌋ =
        (Numeral.valueFrom 10 0 (takeDigits p (normalized bits).1).1 : ℤ) ∧
      Int.fract (scaled p (absValue bits)) =
        ratio (takeDigits p (normalized bits).1).2 / 10 := by
  obtain ⟨hden, -, hlt, -⟩ := normalized_spec hne
  obtain ⟨hsame, hrest, hsum⟩ := takeDigits_spec (k := p) hlt
  rw [scaled_absValue hne hp]
  generalize (normalized bits).1 = m at *
  generalize takeDigits p m = q at *
  generalize Numeral.valueFrom 10 0 q.1 = n at *
  have hden' : (0 : ℚ) < m.2 := Nat.cast_pos.mpr hden
  have hscaled : ratio m * 10 ^ (p - 1) = n + ratio q.2 / 10 := by
    have hpow : (10 : ℚ) ^ p = 10 * 10 ^ (p - 1) := by
      rw [← pow_succ']
      congr 1
      omega
    have hsum' : (10 * n * m.2 + q.2.1 : ℚ) = 10 * 10 ^ (p - 1) * m.1 := by
      rw [← hpow]
      exact_mod_cast hsum
    rw [ratio, ratio, hsame]
    field_simp
    linarith
  have hfract : 0 ≤ ratio q.2 / 10 ∧ ratio q.2 / 10 < 1 := by
    rw [ratio, hsame]
    constructor
    · positivity
    · rw [div_div, div_lt_one (by positivity), mul_comm]
      exact_mod_cast hrest
  rw [hscaled, ← Int.cast_natCast (R := ℚ) n]
  constructor
  · rw [Int.floor_eq_iff]
    constructor <;> linarith
  · rw [Int.fract_intCast_add, Int.fract_eq_self]
    exact hfract

/-- The guard digit is at least five when at least one half is left. -/
theorem guard_iff (hne : exponent64 bits ≠ 0 ∨ mantissa64 bits ≠ 0) (hp : 1 ≤ p) :
    (takeDigits p (normalized bits).1).2.1 / (takeDigits p (normalized bits).1).2.2 ≥ 5 ↔
      ¬ Int.fract (scaled p (absValue bits)) < 1 / 2 := by
  obtain ⟨hden, -, hlt, -⟩ := normalized_spec hne
  obtain ⟨hsame, -, -⟩ := takeDigits_spec (k := p) hlt
  have hden' : (0 : ℚ) < (normalized bits).1.2 := Nat.cast_pos.mpr hden
  rw [(takeDigits_scaled hne hp).2, hsame, ge_iff_le, Nat.le_div_iff_mul_le hden, ratio, hsame,
    not_lt, div_div, div_le_div_iff₀ (by norm_num) (by positivity)]
  constructor
  · intro h
    have h' : (5 * (normalized bits).1.2 : ℚ) ≤ (takeDigits p (normalized bits).1).2.1 := by
      exact_mod_cast h
    linarith
  · intro h
    have h' : (5 * (normalized bits).1.2 : ℚ) ≤ (takeDigits p (normalized bits).1).2.1 := by
      linarith
    exact_mod_cast h'

/-- The digits of a number with `p` digits, from its value. -/
theorem eq_digits_of_value {ds : List Nat} (hds : ∀ d ∈ ds, d < 10) (hlen : ds.length = p)
    (hp : 1 ≤ p) (hlow : 10 ^ (p - 1) ≤ Numeral.valueFrom 10 0 ds) :
    ds = (Nat.digits 10 (Numeral.valueFrom 10 0 ds)).reverse := by
  apply Numeral.eq_natDigits_reverse (by decide) hds
  have hle : (Nat.digits 10 (Numeral.valueFrom 10 0 ds)).length ≤ p := by
    rw [Nat.digits_length_le_iff (by decide), ← hlen]
    exact Numeral.valueFrom_lt hds
  have hlt : p - 1 < (Nat.digits 10 (Numeral.valueFrom 10 0 ds)).length := by
    rwa [Nat.lt_digits_length_iff (by decide)]
  omega

/-- The digits are those of the value rounded half up. -/
theorem roundedDigits_eq (hne : exponent64 bits ≠ 0 ∨ mantissa64 bits ≠ 0) (hp : 1 ≤ p) :
    roundedDigits p bits =
      ((Nat.digits 10 (significant round p (absValue bits)).1.toNat).reverse,
        (significant round p (absValue bits)).2) := by
  have hguard := guard_iff hne hp
  have hfloor := (takeDigits_scaled hne hp).1
  obtain ⟨hlow, hhigh⟩ := floor_scaled_mem hp (absValue_pos hne)
  have hlen := length_takeDigits p (normalized bits).1
  have hds : ∀ d ∈ (takeDigits p (normalized bits).1).1, d < 10 := fun _ => lt_of_mem_takeDigits
  have hlow' : 10 ^ (p - 1) ≤ Numeral.valueFrom 10 0 (takeDigits p (normalized bits).1).1 := by
    rw [hfloor] at hlow
    exact_mod_cast hlow
  rw [roundedDigits, significant, round_eq_floor, normalized_exponent hne]
  by_cases hup : (takeDigits p (normalized bits).1).2.1 / (takeDigits p (normalized bits).1).2.2 ≥ 5
  · rw [if_pos hup, if_neg (hguard.mp hup)]
    obtain ⟨hstay, hcarry⟩ := roundUp_spec _ hds
    have hlenUp := length_roundUp (takeDigits p (normalized bits).1).1
    have hdsUp : ∀ d ∈ (roundUp (takeDigits p (normalized bits).1).1).1, d < 10 :=
      fun _ => lt_of_mem_roundUp hds
    rw [hlen] at hlenUp
    rcases hr : roundUp (takeDigits p (normalized bits).1).1 with ⟨dig, carry⟩
    rw [hr] at hstay hcarry hlenUp hdsUp
    rw [hfloor]
    cases carry with
    | false =>
      have hvalue := hstay rfl
      have hlt := Numeral.valueFrom_lt hdsUp
      have hdigits := eq_digits_of_value hdsUp hlenUp hp (by dsimp only at hvalue ⊢; omega)
      dsimp only at hvalue hlt hdigits hlenUp ⊢
      rw [hvalue, hlenUp] at hlt
      rw [if_neg (by exact_mod_cast hlt.ne)]
      rw [hvalue] at hdigits
      rw [hdigits]
      rfl
    | true =>
      -- all digits were nines: a one with zeros, and the next exponent
      obtain ⟨hzeros, hall⟩ := hcarry rfl
      rw [hlen] at hzeros hall
      dsimp only at hzeros hlenUp ⊢
      have hmin : min (p - 1) p = p - 1 := by omega
      have hvalue : Numeral.valueFrom 10 0 (1 :: List.replicate (p - 1) 0) = 10 ^ (p - 1) := by
        rw [Numeral.valueFrom_cons, Numeral.valueFrom_eq, Numeral.valueFrom_zeros,
          List.length_replicate]
        simp
      have hten : ((10 : ℤ) ^ (p - 1)).toNat = 10 ^ (p - 1) := by
        exact_mod_cast Int.toNat_natCast (10 ^ (p - 1))
      have hdigits : 1 :: List.replicate (p - 1) 0 =
          (Nat.digits 10 (Numeral.valueFrom 10 0 (1 :: List.replicate (p - 1) 0))).reverse := by
        apply eq_digits_of_value (p := p) _ _ hp hvalue.ge
        · intro d hd
          obtain rfl | hd := List.mem_cons.mp hd
          · decide
          · rw [List.eq_of_mem_replicate hd]
            decide
        · rw [List.length_cons, List.length_replicate]
          omega
      rw [if_pos (by exact_mod_cast hall), hzeros, List.take_replicate, hmin, hten, ← hvalue]
      exact congrArg (·, _) hdigits
  · -- less than one half is left
    rw [if_neg hup, if_pos (not_not.mp fun h => hup (hguard.mpr h)), if_neg hhigh.ne, hfloor]
    congr 1
    exact eq_digits_of_value hds hlen hp hlow'

end Rounded

/-! ## Section 3: The layout -/

/-- Zeros at the end of a list whose first part may vanish. -/
theorem rdropWhile_append (ds es : List Nat) :
    (ds ++ es).rdropWhile (· = 0) =
      if es.rdropWhile (· = 0) = [] then ds.rdropWhile (· = 0)
      else ds ++ es.rdropWhile (· = 0) := by
  simp only [List.rdropWhile, List.reverse_append, List.dropWhile_append, List.isEmpty_iff,
    List.reverse_eq_nil_iff]
  split
  · rfl
  · rw [List.reverse_append, List.reverse_reverse]

/-- Nothing but zeros is stripped. -/
theorem rdropWhile_append_zeros (ds : List Nat) : ∃ k,
    ds = ds.rdropWhile (· = 0) ++ List.replicate k 0 := by
  refine ⟨(ds.rtakeWhile (· = 0)).length, ?_⟩
  have hzeros : ds.rtakeWhile (· = 0) = List.replicate (ds.rtakeWhile (· = 0)).length 0 := by
    apply List.eq_replicate_of_mem
    intro d hd
    simpa using List.mem_rtakeWhile_imp hd
  rw [← hzeros, List.rdropWhile_append_rtakeWhile]

/-- The zeros at the end of the digits are those at the end of the
    fraction. -/
theorem rdropWhile_drop (ds : List Nat) (n : Nat) :
    (ds.drop n).rdropWhile (· = 0) = (ds.rdropWhile (· = 0)).drop n := by
  by_cases hn : ds.length ≤ n
  · have hlen := (List.rdropWhile_prefix (· = 0) (l := ds)).length_le
    rw [List.drop_eq_nil_of_le hn, List.drop_eq_nil_of_le (Nat.le_trans hlen hn),
      List.rdropWhile_nil]
  · have hsplit := rdropWhile_append (ds.take n) (ds.drop n)
    rw [List.take_append_drop] at hsplit
    have htake : (ds.take n).length = n := List.length_take_of_le (Nat.le_of_not_le hn)
    rw [hsplit]
    split
    · rename_i hnil
      have hlen := (List.rdropWhile_prefix (· = 0) (l := ds.take n)).length_le
      rw [hnil, List.drop_eq_nil_of_le (by omega)]
    · rw [List.drop_left' htake]

/-- The code strips the zeros, but not the first digit. -/
theorem stripZeros_eq {d : Nat} (hd : d ≠ 0) (ds : List Nat) :
    stripZeros (d :: ds) = (d :: ds).rdropWhile (· = 0) := by
  have hone {d : Nat} (hd : d ≠ 0) : [d].rdropWhile (· = 0) = [d] := by
    rw [List.rdropWhile_singleton, if_neg (by simpa using hd)]
  have hkeep (d : Nat) (ds : List Nat) : stripZeros (d :: ds) = d :: ds.rdropWhile (· = 0) := by
    induction ds generalizing d with
    | nil => rfl
    | cons a ds ih =>
      rw [stripZeros, ih a]
      have hsplit := rdropWhile_append [a] ds
      rw [List.singleton_append] at hsplit
      rw [hsplit]
      generalize ds.rdropWhile (· = 0) = es
      cases es with
      | nil =>
        rw [if_pos rfl]
        by_cases ha : a = 0
        · subst ha
          rfl
        · rw [hone ha]
          split
          · rename_i heq
            cases heq
          · rename_i heq
            cases heq
            exact absurd rfl ha
          · rfl
      | cons b es =>
        rw [if_neg (List.cons_ne_nil b es)]
        cases a <;> rfl
  rw [hkeep]
  have hsplit := rdropWhile_append [d] ds
  rw [List.singleton_append] at hsplit
  rw [hsplit]
  split
  · rename_i hnil
    rw [hnil, hone hd]
  · rfl

section Layout

variable {ds : List Nat} {p : Nat}

/-- The fraction of the code. -/
theorem fraction_eq (ds : List Nat) (n : Nat) :
    (if ((ds.rdropWhile (· = 0)).map Numeral.digitByte).length > n then
        ascii "." ++ ((ds.rdropWhile (· = 0)).map Numeral.digitByte).drop n else []) =
      fractionText (ds.drop n) := by
  have hpoint : ascii "." = [0x2e] := by decide
  rw [fractionText, rdropWhile_drop, List.length_map, ← List.map_drop, hpoint]
  by_cases h : (ds.rdropWhile (· = 0)).length > n
  · rw [if_pos h, if_neg]
    · rfl
    · intro hnil
      rw [List.drop_eq_nil_iff] at hnil
      omega
  · rw [if_neg h, if_pos (List.drop_eq_nil_of_le (Nat.le_of_not_lt h))]

/-- The digits in front of the point, with the stripped zeros put back. -/
theorem integer_eq {n : Nat} (hn : n ≤ ds.length) :
    ((ds.rdropWhile (· = 0)).map Numeral.digitByte).take n ++
        List.replicate (n - ((ds.rdropWhile (· = 0)).map Numeral.digitByte).length) 0x30 =
      (ds.take n).map Numeral.digitByte := by
  obtain ⟨k, hk⟩ := rdropWhile_append_zeros ds
  have hlen := congrArg List.length hk
  rw [List.length_append, List.length_replicate] at hlen
  have hmin : min (n - (ds.rdropWhile (· = 0)).length) k = n - (ds.rdropWhile (· = 0)).length := by
    omega
  have hzero : Numeral.digitByte 0 = 0x30 := rfl
  conv_rhs => rw [hk, List.take_append, List.take_replicate, hmin, List.map_append,
    List.map_replicate, hzero]
  rw [List.length_map, List.map_take]

theorem exponent_eq {e : ℤ} (hne : e ≠ 0) (he : e.natAbs < 10 ^ 6) :
    ascii "e" ++ (if e < 0 then ascii "-" else ascii "+") ++ expDigits e.natAbs =
      exponentText e := by
  have hdigits : Numeral.digits 10 6 e.natAbs = Nat.digits 10 e.natAbs :=
    Numeral.digits_eq_natDigits (by decide) (Int.natAbs_ne_zero.mpr hne) he
  simp only [expDigits, exponentText, Numeral.decimal, hdigits, List.append_assoc]

/-- The code's layout is that of `%g`. -/
theorem digitsText_eq {d : Nat} {t : List Nat} {e : ℤ} (hlen : (d :: t).length = p) (hd : d ≠ 0)
    (he : e.natAbs < 10 ^ 6) : digitsText (d :: t, e) p = layoutG p (d :: t) e := by
  rw [digitsText, layoutG, stripZeros_eq hd]
  dsimp only
  have htake {n : Nat} (hn : n ≤ p) := integer_eq (hlen ▸ hn)
  have hp : 1 ≤ p := by
    rw [← hlen]
    exact Nat.succ_pos t.length
  have hfirst : (((d :: t).rdropWhile (· = 0)).map Numeral.digitByte).length ≥ 1 := by
    rw [List.length_map, ← stripZeros_eq hd]
    exact List.length_pos_iff.mpr (stripZeros_ne_nil (List.cons_ne_nil d t))
  by_cases hfixed : -4 ≤ e ∧ e < p
  · rw [if_pos hfixed, if_neg (by omega)]
    by_cases hpos : 0 ≤ e
    · have hn : (e + 1).toNat ≤ p := by omega
      rw [if_pos hpos, if_pos hpos, pointText, ← htake hn, fraction_eq]
    · have hzero : Numeral.digitByte 0 = 0x30 := rfl
      have hpoint : ascii "0." = [0x30, 0x2e] := by decide
      have hne : (d :: t).rdropWhile (· = 0) ≠ [] := by
        intro hnil
        rw [hnil] at hfirst
        exact absurd hfirst (by decide)
      rw [if_neg hpos, if_neg hpos, pointText, fractionText, rdropWhile_append, if_neg hne,
        if_neg (List.append_ne_nil_of_right_ne_nil _ hne), List.map_append, List.map_replicate,
        hzero, hpoint]
      rfl
  · rw [if_neg hfixed, if_pos (by omega), pointText, ← htake hp, fraction_eq,
      ← exponent_eq (by omega) he, Nat.sub_eq_zero_of_le hfirst]
    simp only [List.replicate_zero, List.append_nil, List.append_assoc]

end Layout

section Injective

variable {ds ds' : List Nat}

theorem map_digitByte_inj (hds : ∀ d ∈ ds, d < 10) (hds' : ∀ d ∈ ds', d < 10)
    (h : ds.map Numeral.digitByte = ds'.map Numeral.digitByte) : ds = ds' := by
  have hback {es : List Nat} (hes : ∀ d ∈ es, d < 10) :
      (es.map Numeral.digitByte).map Numeral.byteDigit? = es.map some := by
    rw [List.map_map]
    apply List.map_congr_left
    intro d hd
    exact Numeral.byteDigit?_digitByte (hes d hd)
  have hsome := congrArg (List.map Numeral.byteDigit?) h
  rw [hback hds, hback hds'] at hsome
  exact List.map_injective_iff.mpr (Option.some_injective _) hsome

/-- Fractions of one length are known by their texts. -/
theorem fractionText_inj (hlen : ds.length = ds'.length) (hds : ∀ d ∈ ds, d < 10)
    (hds' : ∀ d ∈ ds', d < 10) (h : fractionText ds = fractionText ds') : ds = ds' := by
  have hsub {es : List Nat} (hes : ∀ d ∈ es, d < 10) : ∀ d ∈ es.rdropWhile (· = 0), d < 10 := by
    intro d hd
    exact hes d ((List.rdropWhile_prefix _ es).subset hd)
  have hstrip : ds.rdropWhile (· = 0) = ds'.rdropWhile (· = 0) := by
    rw [fractionText, fractionText] at h
    split at h <;> split at h
    · rename_i hnil hnil'
      rw [hnil, hnil']
    · cases h
    · cases h
    · exact map_digitByte_inj (hsub hds) (hsub hds') (List.cons.inj h).2
  obtain ⟨k, hk⟩ := rdropWhile_append_zeros ds
  obtain ⟨k', hk'⟩ := rdropWhile_append_zeros ds'
  rw [hk, hk', hstrip, List.length_append, List.length_append, List.length_replicate,
    List.length_replicate] at hlen
  rw [hk, hk', hstrip, Nat.add_left_cancel hlen]

theorem pointText_inj {is is' : List Nat} (hint : is.length = is'.length)
    (his : ∀ d ∈ is, d < 10) (his' : ∀ d ∈ is', d < 10) (hlen : ds.length = ds'.length)
    (hds : ∀ d ∈ ds, d < 10) (hds' : ∀ d ∈ ds', d < 10) (h : pointText is ds = pointText is' ds') :
    is = is' ∧ ds = ds' := by
  have hsplit := List.append_inj h (by rw [List.length_map, List.length_map, hint])
  exact ⟨map_digitByte_inj his his' hsplit.1, fractionText_inj hlen hds hds' hsplit.2⟩

/-- The layout loses no digit. -/
theorem layoutG_inj {e : ℤ} {p : Nat} (hlen : ds.length = ds'.length)
    (hds : ∀ d ∈ ds, d < 10) (hds' : ∀ d ∈ ds', d < 10) (h : layoutG p ds e = layoutG p ds' e) :
    ds = ds' := by
  have hcut {n : Nat} (hpoint : pointText (ds.take n) (ds.drop n) =
      pointText (ds'.take n) (ds'.drop n)) : ds = ds' := by
    have htake : (ds.take n).length = (ds'.take n).length := by
      rw [List.length_take, List.length_take, hlen]
    have hdrop : (ds.drop n).length = (ds'.drop n).length := by
      rw [List.length_drop, List.length_drop, hlen]
    obtain ⟨hint, hfrac⟩ := pointText_inj htake (fun d hd => hds d (List.mem_of_mem_take hd))
      (fun d hd => hds' d (List.mem_of_mem_take hd)) hdrop
      (fun d hd => hds d (List.mem_of_mem_drop hd)) (fun d hd => hds' d (List.mem_of_mem_drop hd))
      hpoint
    rw [← List.take_append_drop n ds, ← List.take_append_drop n ds', hint, hfrac]
  rw [layoutG, layoutG] at h
  split at h
  · split at h
    · exact hcut h
    · have hzeros {es : List Nat} (hes : ∀ d ∈ es, d < 10) :
          ∀ d ∈ List.replicate (-e - 1).toNat 0 ++ es, d < 10 := by
        intro d hd
        obtain hd | hd := List.mem_append.mp hd
        · rw [List.eq_of_mem_replicate hd]
          decide
        · exact hes d hd
      have hone : ∀ d ∈ [0], d < 10 := by
        intro d hd
        rw [List.mem_singleton.mp hd]
        decide
      have hlen' : (List.replicate (-e - 1).toNat 0 ++ ds).length =
          (List.replicate (-e - 1).toNat 0 ++ ds').length := by
        rw [List.length_append, List.length_append, hlen]
      have hfrac := (pointText_inj rfl hone hone hlen' (hzeros hds) (hzeros hds') h).2
      exact List.append_cancel_left hfrac
  · exact hcut (List.append_cancel_right h)

end Injective

/-! ## Section 4: The text of the code -/

theorem scaleDown_exponent (k : Nat) (m : Nat × Nat) (e : ℤ) :
    e ≤ (scaleDown k m e).2 ∧ (scaleDown k m e).2 ≤ e + k := by
  induction k generalizing m e with
  | zero => exact ⟨le_refl e, by simp [scaleDown]⟩
  | succ k ih =>
    obtain ⟨num, den⟩ := m
    rw [scaleDown]
    have hnext := ih (num, 10 * den) (e + 1)
    split
    · constructor <;> push_cast <;> omega
    · constructor <;> push_cast <;> omega

theorem scaleUp_exponent (k : Nat) (m : Nat × Nat) (e : ℤ) :
    e - k ≤ (scaleUp k m e).2 ∧ (scaleUp k m e).2 ≤ e := by
  induction k generalizing m e with
  | zero => exact ⟨by simp [scaleUp], le_refl e⟩
  | succ k ih =>
    obtain ⟨num, den⟩ := m
    rw [scaleUp]
    have hnext := ih (10 * num, den) (e - 1)
    split
    · constructor <;> push_cast <;> omega
    · constructor <;> push_cast <;> omega

section Text

variable {bits : UInt64} {p : Nat}

/-- The exponent has three digits at most. -/
theorem exponent_lt (hne : exponent64 bits ≠ 0 ∨ mantissa64 bits ≠ 0) (rnd : ℚ → ℤ) :
    (significant rnd p (absValue bits)).2.natAbs < 10 ^ 6 := by
  have hdown := scaleDown_exponent 400 (magnitude bits) 0
  have hup := scaleUp_exponent 400 (scaleDown 400 (magnitude bits) 0).1
    (scaleDown 400 (magnitude bits) 0).2
  have hlog : -400 ≤ Int.log 10 (absValue bits) ∧ Int.log 10 (absValue bits) ≤ 400 := by
    rw [normalized_exponent hne, normalized]
    constructor <;> omega
  rw [significant]
  split <;> dsimp only <;> omega

/-- The digits of a number with `p` digits. -/
theorem digits_of_mem {r : ℤ} (hp : 1 ≤ p) (hlow : 10 ^ (p - 1) ≤ r) (hhigh : r < 10 ^ p) :
    (Nat.digits 10 r.toNat).reverse.length = p ∧
      (∀ d ∈ (Nat.digits 10 r.toNat).reverse, d < 10) ∧
      ∃ d t, (Nat.digits 10 r.toNat).reverse = d :: t ∧ d ≠ 0 := by
  obtain ⟨n, rfl⟩ := Int.eq_ofNat_of_zero_le (le_trans (pow_nonneg (by decide) _) hlow)
  have hlow' : 10 ^ (p - 1) ≤ n := by exact_mod_cast hlow
  have hhigh' : n < 10 ^ p := by exact_mod_cast hhigh
  have hn : n ≠ 0 := Nat.pos_iff_ne_zero.mp (lt_of_lt_of_le (Nat.pow_pos (by decide)) hlow')
  rw [Int.toNat_natCast]
  refine ⟨?_, ?_, ?_⟩
  · have hle : (Nat.digits 10 n).length ≤ p := (Nat.digits_length_le_iff (by decide) n).mpr hhigh'
    have hlt : p - 1 < (Nat.digits 10 n).length :=
      (Nat.lt_digits_length_iff (by decide) n).mpr hlow'
    rw [List.length_reverse]
    omega
  · intro d hd
    exact Nat.digits_lt_base (by decide) (List.mem_reverse.mp hd)
  · have hne : Nat.digits 10 n ≠ [] := Nat.digits_ne_nil_iff_ne_zero.mpr hn
    refine ⟨(Nat.digits 10 n).getLast hne, (Nat.digits 10 n).dropLast.reverse, ?_,
      Nat.getLast_digit_ne_zero 10 hn⟩
    rw [← List.reverse_concat, List.dropLast_append_getLast]

theorem round_neighbour (x : ℚ) : round x = ⌊x⌋ ∨ round x = ⌊x⌋ + 1 := by
  rw [round_eq_floor]
  split
  · exact Or.inl rfl
  · exact Or.inr rfl

theorem roundEven_neighbour (x : ℚ) : roundEven x = ⌊x⌋ ∨ roundEven x = ⌊x⌋ + 1 := by
  rw [roundEven]
  split_ifs
  · exact Or.inl rfl
  · exact Or.inr rfl
  · exact Or.inl rfl
  · exact Or.inr rfl

/-- The code's text is `%g` with ties rounded up. -/
theorem jl_fmt_g_eq (hfinite : exponent64 bits ≠ 2047)
    (hne : exponent64 bits ≠ 0 ∨ mantissa64 bits ≠ 0) (hp : 1 ≤ p) (hp' : p ≤ 17) :
    jl_fmt_g bits p = textG round p bits := by
  have hexp {k : UInt64} : (bits >>> 52) &&& 0x7ff = k ↔ exponent64 bits = k.toNat := by
    rw [← UInt64.toNat_inj, toNat_exp]
  have hman : bits &&& 0xfffffffffffff = 0 ↔ mantissa64 bits = 0 := by
    rw [← UInt64.toNat_inj, toNat_man]
    rfl
  have hsign : bits >>> 63 = 1 ↔ sign64 bits = 1 := by
    rw [← UInt64.toNat_inj, UInt64.toNat_shiftRight, Nat.shiftRight_eq_div_pow]
    rfl
  have hinf : ¬ (bits >>> 52) &&& 0x7ff = 0x7ff := fun h => hfinite (hexp.mp h)
  have hzero : ¬ ((bits >>> 52) &&& 0x7ff = 0 ∧ bits &&& 0xfffffffffffff = 0) := by
    rintro ⟨h, h'⟩
    obtain hne | hne := hne
    · exact hne (hexp.mp h)
    · exact hne (hman.mp h')
  have hlow : ¬ (p : ℤ) < 1 := by omega
  have hhigh : ¬ (p : ℤ) > 17 := by omega
  have hcode : jl_fmt_g bits p =
      (if bits >>> 63 = 1 then ascii "-" else []) ++ digitsText (roundedDigits p bits) p := by
    unfold jl_fmt_g
    simp only [if_neg hinf, if_neg hzero, if_neg hlow, if_neg hhigh, Int.toNat_natCast]
    rfl
  obtain ⟨hmem, hmem'⟩ := significant_mem hp (absValue_pos hne) round_neighbour
  obtain ⟨hlen, -, d, t, heq, hd⟩ := digits_of_mem hp hmem hmem'
  rw [hcode, textG, roundedDigits_eq hne hp]
  simp only [hsign]
  congr 1
  rw [heq] at hlen ⊢
  exact digitsText_eq hlen hd (exponent_lt hne round)

/-- **Where the text is correctly rounded.** For every finite number that is
    not zero the text of `jl_fmt_g` is `%g` rounded to nearest with ties to
    even, unless the number scaled to that many digits is halfway between
    an even integer and the next one. -/
theorem jl_fmt_g_iff (hfinite : exponent64 bits ≠ 2047)
    (hne : exponent64 bits ≠ 0 ∨ mantissa64 bits ≠ 0) (hp : 1 ≤ p) (hp' : p ≤ 17) :
    jl_fmt_g bits p = textG roundEven p bits ↔ ¬ EvenTie (scaled p (absValue bits)) := by
  rw [jl_fmt_g_eq hfinite hne hp hp']
  by_cases htie : EvenTie (scaled p (absValue bits))
  · obtain ⟨hup, heven⟩ := significant_of_evenTie hp (absValue_pos hne) htie
    obtain ⟨hmem, hmem'⟩ := significant_mem hp (absValue_pos hne) round_neighbour
    obtain ⟨hmemE, hmemE'⟩ := significant_mem hp (absValue_pos hne) roundEven_neighbour
    rw [hup] at hmem hmem'
    rw [heven] at hmemE hmemE'
    obtain ⟨hlen, hlt, -⟩ := digits_of_mem hp hmem hmem'
    obtain ⟨hlenE, hltE, -⟩ := digits_of_mem hp hmemE hmemE'
    apply iff_of_false _ (not_not.mpr htie)
    intro htext
    rw [textG, textG, hup, heven] at htext
    have hdigits := layoutG_inj (hlen.trans hlenE.symm) hlt hltE (List.append_cancel_left htext)
    have hnat := Nat.digits_inj_iff.mp (List.reverse_injective hdigits)
    dsimp only at hnat hmemE
    have hpos : (0 : ℤ) ≤ 10 ^ (p - 1) := pow_nonneg (by decide) _
    omega
  · have hsame : round (scaled p (absValue bits)) = roundEven (scaled p (absValue bits)) :=
      (round_eq_roundEven_iff _).mpr htie
    apply iff_of_true _ htie
    rw [textG, textG, significant, significant, hsame]

/-- 1.5 with 17 digits. -/
theorem jl_fmt_g_oneAndAHalf :
    jl_fmt_g 0x3FF8000000000000 (17 : ℕ) = textG roundEven 17 0x3FF8000000000000 ↔
      ¬ EvenTie (scaled 17 (absValue 0x3FF8000000000000)) :=
  jl_fmt_g_iff (by decide) (Or.inl (by decide)) (by decide) (by decide)

/-- 2.5 with one digit: the code goes up, the even neighbour is below. -/
theorem twoAndAHalf_rounded_up :
    jl_fmt_g 0x4004000000000000 (1 : ℕ) = ascii "3" ∧
      textG roundEven 1 0x4004000000000000 = ascii "2" ∧
      jl_fmt_g 0x4004000000000000 (1 : ℕ) ≠ textG roundEven 1 0x4004000000000000 := by
  have hcode : jl_fmt_g 0x4004000000000000 (1 : ℕ) = ascii "3" := by decide
  have hexp : exponent64 0x4004000000000000 = 1024 := by decide
  have hman : mantissa64 0x4004000000000000 = 2 ^ 50 := by decide
  have hvalue : absValue 0x4004000000000000 = 5 / 2 := by
    rw [absValue, hexp, hman]
    norm_num [zpow_neg]
  have hlog : Int.log 10 (5 / 2 : ℚ) = 0 := by
    apply log_eq_of_le_of_lt <;> norm_num
  have hscaled : scaled 1 (5 / 2 : ℚ) = 5 / 2 := by
    rw [scaled, hlog]
    norm_num
  have hfloor : ⌊(5 / 2 : ℚ)⌋ = 2 := by
    rw [Int.floor_eq_iff]
    norm_num
  have htie : EvenTie (scaled 1 (5 / 2 : ℚ)) := by
    rw [hscaled, EvenTie, hfloor, Int.fract, hfloor]
    norm_num
  have heven := (significant_of_evenTie (le_refl 1) (by norm_num) htie).2
  rw [hscaled, hfloor, hlog] at heven
  have htext : textG roundEven 1 0x4004000000000000 = ascii "2" := by
    rw [textG, hvalue, heven]
    decide
  refine ⟨hcode, htext, ?_⟩
  rw [hcode, htext]
  decide

end Text

end JniLog.JlFmt
