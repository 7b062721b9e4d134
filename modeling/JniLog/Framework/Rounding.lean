import Mathlib.Algebra.Order.Round
import Mathlib.Data.Int.Log
import Mathlib.Tactic.Linarith
import Mathlib.Tactic.Push

/-! # Rounding to significant digits

    A positive number scaled so that `p` decimal digits stand in front of
    its point, rounded by any rule, with its decimal exponent. Two rules
    are compared: Mathlib's `round`, which takes a tie up, and the one that
    takes a tie to the even neighbour. -/

namespace Rounding

variable {K : Type*} [Field K] [LinearOrder K] [IsStrictOrderedRing K] [FloorRing K]

/-! ## Ties -/

/-- The nearest integer, and the even one of two. -/
def roundEven (x : K) : ℤ :=
  if Int.fract x < 1 / 2 then ⌊x⌋
  else if 1 / 2 < Int.fract x then ⌊x⌋ + 1
  else if Even ⌊x⌋ then ⌊x⌋ else ⌊x⌋ + 1

/-- Halfway between an even integer and the next one. -/
def EvenTie (x : K) : Prop :=
  Int.fract x = 1 / 2 ∧ Even ⌊x⌋

/-- `round` goes down below one half only. -/
theorem round_eq_floor (x : K) : round x = if Int.fract x < 1 / 2 then ⌊x⌋ else ⌊x⌋ + 1 := by
  by_cases h : Int.fract x < 1 / 2
  · rw [if_pos h, round, if_pos (by linarith)]
  · rw [if_neg h, round, if_neg (by linarith)]
    have hlt := Int.fract_lt_one x
    have hsplit := Int.floor_add_fract x
    rw [Int.ceil_eq_iff]
    push_cast
    constructor <;> linarith

theorem round_eq_roundEven_iff (x : K) : round x = roundEven x ↔ ¬ EvenTie x := by
  rw [round_eq_floor, roundEven, EvenTie]
  obtain hlt | heq | hgt := lt_trichotomy (Int.fract x) (1 / 2)
  · rw [if_pos hlt, if_pos hlt]
    exact iff_of_true rfl fun h => absurd h.1 hlt.ne
  · rw [if_neg heq.not_lt, if_neg heq.not_lt, if_neg heq.not_gt]
    by_cases heven : Even ⌊x⌋
    · rw [if_pos heven]
      exact iff_of_false (by omega) (not_not.mpr ⟨heq, heven⟩)
    · rw [if_neg heven]
      exact iff_of_true rfl fun h => heven h.2
  · rw [if_neg hgt.not_gt, if_neg hgt.not_gt, if_pos hgt]
    exact iff_of_true rfl fun h => absurd h.1 hgt.ne'

/-! ## Significant digits -/

/-- The exponent is the one whose powers of ten enclose the number. -/
theorem log_eq_of_le_of_lt {x : K} {e : ℤ} (hle : (10 : K) ^ e ≤ x) (hlt : x < 10 ^ (e + 1)) :
    Int.log 10 x = e := by
  have hx : 0 < x := lt_of_lt_of_le (zpow_pos (by norm_num) e) hle
  have hten : ((10 : ℕ) : K) = 10 := by norm_num
  have hlow : e ≤ Int.log 10 x := by
    rw [← Int.zpow_le_iff_le_log (by norm_num) hx, hten]
    exact hle
  have hhigh : Int.log 10 x < e + 1 := by
    rw [← Int.lt_zpow_iff_log_lt (by norm_num) hx, hten]
    exact hlt
  omega

/-- The number with `p` digits in front of its point. -/
def scaled (p : ℕ) (x : K) : K :=
  x * 10 ^ ((p : ℤ) - 1 - Int.log 10 x)

/-- The first `p` digits by a rounding rule, as a number, and the decimal
    exponent. A carry out of the first digit makes the exponent larger. -/
def significant (rnd : K → ℤ) (p : ℕ) (x : K) : ℤ × ℤ :=
  if rnd (scaled p x) = 10 ^ p then (10 ^ (p - 1), Int.log 10 x + 1)
  else (rnd (scaled p x), Int.log 10 x)

section Digits

variable {p : ℕ} {x : K}

theorem scaled_mem (hp : 1 ≤ p) (hx : 0 < x) :
    (10 : K) ^ (p - 1) ≤ scaled p x ∧ scaled p x < 10 ^ p := by
  have hten : ((10 : ℕ) : K) = 10 := by norm_num
  have hne : (10 : K) ≠ 0 := by norm_num
  have hle := Int.zpow_log_le_self (b := 10) (by norm_num) hx
  have hlt := Int.lt_zpow_succ_log_self (b := 10) (by norm_num) x
  have hpos : (0 : K) < 10 ^ ((p : ℤ) - 1 - Int.log 10 x) := zpow_pos (by norm_num) _
  rw [hten] at hle hlt
  constructor
  · calc (10 : K) ^ (p - 1) = 10 ^ Int.log 10 x * 10 ^ ((p : ℤ) - 1 - Int.log 10 x) := by
          rw [← zpow_add₀ hne, ← zpow_natCast]
          congr 1
          omega
      _ ≤ scaled p x := mul_le_mul_of_nonneg_right hle hpos.le
  · calc scaled p x < 10 ^ (Int.log 10 x + 1) * 10 ^ ((p : ℤ) - 1 - Int.log 10 x) :=
          mul_lt_mul_of_pos_right hlt hpos
      _ = 10 ^ p := by
          rw [← zpow_add₀ hne, ← zpow_natCast]
          congr 1
          omega

theorem floor_scaled_mem (hp : 1 ≤ p) (hx : 0 < x) :
    10 ^ (p - 1) ≤ ⌊scaled p x⌋ ∧ ⌊scaled p x⌋ < 10 ^ p := by
  obtain ⟨hle, hlt⟩ := scaled_mem hp hx
  constructor
  · apply Int.le_floor.mpr
    push_cast
    exact hle
  · apply Int.floor_lt.mpr
    push_cast
    exact hlt

/-- A rule that goes to a neighbour leaves `p` digits. -/
theorem significant_mem (hp : 1 ≤ p) (hx : 0 < x) {rnd : K → ℤ}
    (hrnd : ∀ y, rnd y = ⌊y⌋ ∨ rnd y = ⌊y⌋ + 1) :
    10 ^ (p - 1) ≤ (significant rnd p x).1 ∧ (significant rnd p x).1 < 10 ^ p := by
  obtain ⟨hle, hlt⟩ := floor_scaled_mem hp hx
  rw [significant]
  split
  · exact ⟨le_refl _, pow_lt_pow_right₀ (by norm_num) (by omega)⟩
  · rename_i hne
    obtain h | h := hrnd (scaled p x)
    · rw [h]
      exact ⟨hle, hlt⟩
    · rw [h] at hne ⊢
      dsimp only
      omega

/-- Where the tie is even, the two rules print neighbours. -/
theorem significant_of_evenTie (hp : 1 ≤ p) (hx : 0 < x) (h : EvenTie (scaled p x)) :
    significant round p x = (⌊scaled p x⌋ + 1, Int.log 10 x) ∧
      significant roundEven p x = (⌊scaled p x⌋, Int.log 10 x) := by
  obtain ⟨hhalf, heven⟩ := h
  have hlt := (floor_scaled_mem hp hx).2
  have hround : round (scaled p x) = ⌊scaled p x⌋ + 1 := by
    rw [round_eq_floor, if_neg hhalf.not_lt]
  have hroundEven : roundEven (scaled p x) = ⌊scaled p x⌋ := by
    rw [roundEven, if_neg hhalf.not_lt, if_neg hhalf.not_gt, if_pos heven]
  -- the larger neighbour is odd, so there is no carry
  have hcarry : ⌊scaled p x⌋ + 1 ≠ 10 ^ p := by
    intro heq
    have hpow : Even ((10 : ℤ) ^ p) := (by decide : Even (10 : ℤ)).pow_of_ne_zero (by omega)
    rw [← heq] at hpow
    exact Int.not_even_iff_odd.mpr heven.add_one hpow
  constructor
  · rw [significant, hround, if_neg hcarry]
  · rw [significant, hroundEven, if_neg hlt.ne]

end Digits

end Rounding
