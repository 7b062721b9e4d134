import JniLog.Framework.Bytes
import Mathlib.Data.Nat.Digits.Lemmas
import Mathlib.Tactic.Ring

/-! # Positional numerals

    Digit lists in a base, by repeated division, with the least
    significant digit first, and their values. Printing takes a fuel
    argument: `k` digits are enough for the numbers below `b ^ k`. -/

namespace Numeral

variable {b : Nat}

/-- The digits of `n`, least significant first. Zero has one digit. -/
def digits (b : Nat) : Nat → Nat → List Nat
  | 0, _ => []
  | k + 1, n => n % b :: if n / b = 0 then [] else digits b k (n / b)

/-- The value of a digit list read from the most significant digit, with
    `n` the value of the digits before it. -/
def valueFrom (b n : Nat) (ds : List Nat) : Nat :=
  ds.foldl (fun n d => n * b + d) n

@[simp] theorem valueFrom_nil (n : Nat) : valueFrom b n [] = n := rfl

@[simp] theorem valueFrom_cons (n d : Nat) (ds : List Nat) :
    valueFrom b n (d :: ds) = valueFrom b (n * b + d) ds := rfl

theorem valueFrom_append (n : Nat) (ds es : List Nat) :
    valueFrom b n (ds ++ es) = valueFrom b (valueFrom b n ds) es :=
  List.foldl_append

/-- What stands in front counts by its place. -/
theorem valueFrom_eq (n : Nat) (ds : List Nat) :
    valueFrom b n ds = n * b ^ ds.length + valueFrom b 0 ds := by
  induction ds generalizing n with
  | nil => simp
  | cons d ds ih =>
    rw [valueFrom_cons, valueFrom_cons, ih, ih (0 * b + d), List.length_cons]
    ring

/-- The value of `k` digits is below `b ^ k`. -/
theorem valueFrom_lt {ds : List Nat} (hds : ∀ d ∈ ds, d < b) :
    valueFrom b 0 ds < b ^ ds.length := by
  induction ds with
  | nil => exact Nat.one_pos
  | cons d ds ih =>
    rw [List.forall_mem_cons] at hds
    have hrest := ih hds.2
    have hfirst : (d + 1) * b ^ ds.length ≤ b * b ^ ds.length := Nat.mul_le_mul_right _ hds.1
    rw [Nat.add_mul, Nat.one_mul] at hfirst
    rw [valueFrom_cons, valueFrom_eq, List.length_cons, pow_succ', Nat.zero_mul, Nat.zero_add]
    omega

theorem valueFrom_zeros (k : Nat) : valueFrom b 0 (List.replicate k 0) = 0 := by
  induction k with
  | zero => rfl
  | succ k ih => rw [List.replicate_succ, valueFrom_cons, Nat.zero_mul, ih]

/-- The digits of a value are its only ones of that length. -/
theorem eq_natDigits_reverse (hb : 1 < b) {ds : List Nat} (hds : ∀ d ∈ ds, d < b)
    (hlen : (Nat.digits b (valueFrom b 0 ds)).length = ds.length) :
    ds = (Nat.digits b (valueFrom b 0 ds)).reverse := by
  have hval : valueFrom b 0 ds = Nat.ofDigits b ds.reverse := by
    rw [Nat.ofDigits_eq_foldr, List.foldr_reverse, valueFrom]
    congr 1
    funext n d
    simp only [Nat.cast_id]
    ring
  rw [← List.reverse_eq_iff]
  apply Nat.ofDigits_inj_of_len_eq hb
  · rw [List.length_reverse, hlen]
  · intro d hd
    exact hds d (List.mem_reverse.mp hd)
  · intro d hd
    exact Nat.digits_lt_base hb hd
  · rw [Nat.ofDigits_digits, hval]

/-- Reading more digits never makes the value smaller. -/
theorem le_valueFrom (hb : 0 < b) (n : Nat) (ds : List Nat) : n ≤ valueFrom b n ds := by
  induction ds generalizing n with
  | nil => simp
  | cons d ds ih =>
    have hstep : n ≤ n * b + d := le_trans (Nat.le_mul_of_pos_right n hb) (Nat.le_add_right _ d)
    rw [valueFrom_cons]
    exact le_trans hstep (ih _)

/-- The digits of `n`, read back from the most significant one. -/
theorem valueFrom_reverse_digits (hb : 1 < b) {k n : Nat} (h : n < b ^ k) :
    valueFrom b 0 (digits b k n).reverse = n := by
  induction k generalizing n with
  | zero =>
    have hn : n = 0 := by simpa using h
    simp [digits, hn]
  | succ k ih =>
    have hdiv : n / b < b ^ k := by
      rw [Nat.div_lt_iff_lt_mul (by omega)]
      rwa [pow_succ] at h
    rw [digits]
    split
    · rename_i hq
      have hlt : n < b := (Nat.div_eq_zero_iff_lt (by omega)).mp hq
      simp [Nat.mod_eq_of_lt hlt]
    · rw [List.reverse_cons, valueFrom_append, ih hdiv, valueFrom_cons, valueFrom_nil,
        Nat.div_add_mod']

/-- Leaving digits off at the end makes a positive value smaller. -/
theorem eq_of_valueFrom_isPrefix (hb : 1 < b) {ds es : List Nat} (h : ds <+: es)
    (heq : valueFrom b 0 ds = valueFrom b 0 es) (hpos : 0 < valueFrom b 0 es) : ds = es := by
  obtain ⟨fs, rfl⟩ := h
  cases fs with
  | nil => rw [List.append_nil]
  | cons d fs =>
    have hle : valueFrom b 0 ds * b + d ≤ valueFrom b (valueFrom b 0 ds * b + d) fs :=
      le_valueFrom (by omega) _ fs
    have hmul : valueFrom b 0 ds * 2 ≤ valueFrom b 0 ds * b := Nat.mul_le_mul_left _ hb
    have hval : valueFrom b 0 (ds ++ d :: fs) = valueFrom b (valueFrom b 0 ds * b + d) fs := by
      rw [valueFrom_append, valueFrom_cons]
    omega

/-- With fuel enough, the digits of a positive number are Mathlib's. -/
theorem digits_eq_natDigits (hb : 1 < b) {k n : Nat} (hn : n ≠ 0) (h : n < b ^ k) :
    digits b k n = Nat.digits b n := by
  induction k generalizing n with
  | zero =>
    have hzero : n = 0 := by simpa using h
    exact absurd hzero hn
  | succ k ih =>
    have hdiv : n / b < b ^ k := by
      rw [Nat.div_lt_iff_lt_mul (by omega)]
      rwa [pow_succ] at h
    rw [digits, Nat.digits_def' hb (Nat.pos_of_ne_zero hn)]
    split
    · rename_i hq
      rw [hq, Nat.digits_zero]
    · rename_i hq
      rw [ih hq hdiv]

theorem digits_ne_nil (k n : Nat) : digits b (k + 1) n ≠ [] := by
  simp [digits]

theorem lt_of_mem_digits (hb : 0 < b) {k n d : Nat} (h : d ∈ digits b k n) : d < b := by
  induction k generalizing n with
  | zero => simp [digits] at h
  | succ k ih =>
    rw [digits, List.mem_cons] at h
    rcases h with rfl | h
    · exact Nat.mod_lt n hb
    · split at h
      · simp at h
      · exact ih h

/-- A number below `b ^ j` has at most `j` digits. -/
theorem length_digits_le (hb : 1 < b) {j k n : Nat} (h : n < b ^ (j + 1)) :
    (digits b k n).length ≤ j + 1 := by
  induction k generalizing j n with
  | zero => simp [digits]
  | succ k ih =>
    rw [digits]
    split
    · simp
    · rename_i hq
      cases j with
      | zero =>
        have hlt : n / b = 0 := Nat.div_eq_of_lt (by simpa using h)
        exact absurd hlt hq
      | succ j =>
        have hdiv : n / b < b ^ (j + 1) := by
          rw [Nat.div_lt_iff_lt_mul (by omega)]
          rwa [pow_succ] at h
        simpa using ih hdiv

/-! ## Digit characters -/

/-- The character of a decimal digit. -/
def digitByte (d : Nat) : UInt8 := 0x30 + UInt8.ofNat d

/-- The value of a decimal digit character. -/
def byteDigit? (c : UInt8) : Option Nat :=
  if 0x30 ≤ c ∧ c ≤ 0x39 then some (c.toNat - 0x30) else none

theorem toNat_digitByte {d : Nat} (h : d < 10) : (digitByte d).toNat = 0x30 + d := by
  have h30 : (0x30 : UInt8).toNat = 0x30 := rfl
  simp only [digitByte, UInt8.toNat_add, UInt8.toNat_ofNat', h30]
  omega

theorem byteDigit?_digitByte {d : Nat} (h : d < 10) : byteDigit? (digitByte d) = some d := by
  have hn := toNat_digitByte h
  have hle : 0x30 ≤ digitByte d ∧ digitByte d ≤ 0x39 := by
    rw [UInt8.le_iff_toNat_le, UInt8.le_iff_toNat_le, hn]
    simp
    omega
  rw [byteDigit?, if_pos hle, hn]
  simp

theorem digitByte_mem_range {d : Nat} (h : d < 10) : 0x30 ≤ digitByte d ∧ digitByte d ≤ 0x39 := by
  rw [UInt8.le_iff_toNat_le, UInt8.le_iff_toNat_le, toNat_digitByte h]
  simp
  omega

/-- The decimal text of `n`, for `n` below `10 ^ k`. -/
def decimal (k n : Nat) : Bytes :=
  (digits 10 k n).reverse.map digitByte

theorem decimal_ne_nil (k n : Nat) : decimal (k + 1) n ≠ [] := by
  simp [decimal, digits_ne_nil]

/-- Decimal text is made of the characters `0` to `9`. -/
theorem mem_decimal {k n : Nat} {c : UInt8} (h : c ∈ decimal k n) : 0x30 ≤ c ∧ c ≤ 0x39 := by
  simp only [decimal, List.mem_map, List.mem_reverse] at h
  obtain ⟨d, hd, rfl⟩ := h
  exact digitByte_mem_range (lt_of_mem_digits (by decide) hd)

theorem length_decimal_le {j k n : Nat} (h : n < 10 ^ (j + 1)) :
    (decimal k n).length ≤ j + 1 := by
  simpa [decimal] using length_digits_le (k := k) (by decide) h

end Numeral
