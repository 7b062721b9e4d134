import JniLog.Visualize
import Mathlib.Tactic.Ring

/-! # From `float` to `double` and back

    A `float` argument is promoted when it is passed through a variadic
    call and converted back on the other side. Both conversions are on
    bit patterns here; the one back rounds to nearest, ties to even.

    Main result: a number comes back bit by bit, and a NaN as a NaN. -/

namespace JniLog.Visualize

/-! ## Section 1: Model -/

def sign32 (bits : UInt32) : Nat := bits.toNat / 2 ^ 31
def exponent32 (bits : UInt32) : Nat := bits.toNat / 2 ^ 23 % 2 ^ 8
def mantissa32 (bits : UInt32) : Nat := bits.toNat % 2 ^ 23

def sign64 (bits : UInt64) : Nat := bits.toNat / 2 ^ 63
def exponent64 (bits : UInt64) : Nat := bits.toNat / 2 ^ 52 % 2 ^ 11
def mantissa64 (bits : UInt64) : Nat := bits.toNat % 2 ^ 52

def IsNaN32 (bits : UInt32) : Prop := exponent32 bits = 255 ∧ mantissa32 bits ≠ 0
def IsNaN64 (bits : UInt64) : Prop := exponent64 bits = 2047 ∧ mantissa64 bits ≠ 0

instance (bits : UInt32) : Decidable (IsNaN32 bits) :=
  inferInstanceAs (Decidable (_ ∧ _))

instance (bits : UInt64) : Decidable (IsNaN64 bits) :=
  inferInstanceAs (Decidable (_ ∧ _))

/-- `s / 2 ^ k`, rounded to nearest, ties to even. -/
def roundShift (s k : Nat) : Nat :=
  let q := s / 2 ^ k
  let r := s % 2 ^ k
  if 2 * r > 2 ^ k ∨ 2 * r = 2 ^ k ∧ q % 2 = 1 then q + 1 else q

/-- The bits below the sign of the `float` made of a `double` with these
    fields. A carry out of the mantissa goes into the exponent, and out
    of that into an infinity. -/
def narrowMagnitude (exp man : Nat) : Nat :=
  if exp = 2047 then
    -- a NaN becomes a quiet one
    if man = 0 then 255 * 2 ^ 23 else 255 * 2 ^ 23 + 2 ^ 22 + man / 2 ^ 29 % 2 ^ 22
  else if exp ≥ 1151 then 255 * 2 ^ 23
  else if exp ≥ 897 then (exp - 896) * 2 ^ 23 + roundShift man 29
  else roundShift (if exp = 0 then man else 2 ^ 52 + man) (926 - max exp 1)

/-- `(float)d` of a `double`. -/
def narrow (bits : UInt64) : UInt32 :=
  UInt32.ofNat (sign64 bits * 2 ^ 31 + narrowMagnitude (exponent64 bits) (mantissa64 bits))

/-! ## Section 2: Fields -/

theorem toNat_eq_fields32 (bits : UInt32) :
    bits.toNat = sign32 bits * 2 ^ 31 + exponent32 bits * 2 ^ 23 + mantissa32 bits := by
  have hlt := bits.toNat_lt
  simp only [sign32, exponent32, mantissa32]
  omega

/-- A pattern is known by its fields. -/
theorem fields64_of_toNat {bits : UInt64} {s e m : Nat} (he : e < 2 ^ 11) (hm : m < 2 ^ 52)
    (h : bits.toNat = s * 2 ^ 63 + e * 2 ^ 52 + m) :
    sign64 bits = s ∧ exponent64 bits = e ∧ mantissa64 bits = m := by
  simp only [sign64, exponent64, mantissa64]
  omega

theorem toNat_or_fields {a b c : UInt64} {s e m : Nat} (he : e < 2 ^ 11)
    (hm : m < 2 ^ 52) (ha : a.toNat = s * 2 ^ 63) (hb : b.toNat = e * 2 ^ 52) (hc : c.toNat = m) :
    (a ||| b ||| c).toNat = s * 2 ^ 63 + e * 2 ^ 52 + m := by
  have hlow : e * 2 ^ 52 ||| m = e * 2 ^ 52 + m := by
    rw [Nat.mul_comm, Nat.two_pow_add_eq_or_of_lt hm]
  have hall : s * 2 ^ 63 ||| (e * 2 ^ 52 + m) = s * 2 ^ 63 + (e * 2 ^ 52 + m) := by
    rw [Nat.mul_comm s, Nat.two_pow_add_eq_or_of_lt (by omega)]
  rw [UInt64.or_assoc, UInt64.toNat_or, UInt64.toNat_or, ha, hb, hc, hlow, hall, Nat.add_assoc]

section Widen

variable (bits : UInt32)

theorem toNat_signPart : (bits.toUInt64 >>> 31 <<< 63).toNat = sign32 bits * 2 ^ 63 := by
  have hlt := bits.toNat_lt
  simp only [UInt64.toNat_shiftLeft, UInt64.toNat_shiftRight, UInt32.toNat_toUInt64,
    UInt64.reduceToNat, Nat.reduceMod, Nat.shiftRight_eq_div_pow, Nat.shiftLeft_eq, sign32]
  omega

theorem toNat_expPart : ((bits >>> 23) &&& 0xff).toNat = exponent32 bits := by
  have hmask : (0xff : UInt32).toNat = 2 ^ 8 - 1 := rfl
  rw [UInt32.toNat_and, hmask, Nat.and_two_pow_sub_one_eq_mod, UInt32.toNat_shiftRight,
    Nat.shiftRight_eq_div_pow]
  rfl

theorem toNat_manPart : (bits &&& 0x7fffff).toNat = mantissa32 bits := by
  have hmask : (0x7fffff : UInt32).toNat = 2 ^ 23 - 1 := rfl
  rw [UInt32.toNat_and, hmask, Nat.and_two_pow_sub_one_eq_mod]
  rfl

/-- The fields of the `double` that a `float` with the fields `e` and `m`
    is converted to. A subnormal `float` is a normal `double`. -/
def widenedExponent (e m : Nat) : Nat :=
  if e = 255 then 2047 else if e = 0 then (if m = 0 then 0 else m.log2 + 874) else e + 896

def widenedMantissa (e m : Nat) : Nat :=
  if e = 0 ∧ m ≠ 0 then m * 2 ^ (52 - m.log2) - 2 ^ 52 else m * 2 ^ 29

/-- The leading one of a mantissa, shifted to the implicit bit. -/
theorem shifted_mem_range {m : Nat} (hne : m ≠ 0) (hm : m < 2 ^ 23) :
    m.log2 < 23 ∧ 2 ^ 52 ≤ m * 2 ^ (52 - m.log2) ∧ m * 2 ^ (52 - m.log2) < 2 ^ 53 := by
  have hlog : m.log2 < 23 := (Nat.log2_lt hne).mpr hm
  have hlo : 2 ^ m.log2 ≤ m := Nat.log2_self_le hne
  have hhi : m < 2 ^ (m.log2 + 1) := Nat.lt_log2_self
  have hpos : 0 < 2 ^ (52 - m.log2) := Nat.two_pow_pos _
  have hsplit : 2 ^ m.log2 * 2 ^ (52 - m.log2) = 2 ^ 52 := by
    rw [← Nat.pow_add, Nat.add_sub_cancel' (by omega)]
  refine ⟨hlog, ?_, ?_⟩
  · calc 2 ^ 52 = 2 ^ m.log2 * 2 ^ (52 - m.log2) := hsplit.symm
      _ ≤ m * 2 ^ (52 - m.log2) := Nat.mul_le_mul_right _ hlo
  · calc m * 2 ^ (52 - m.log2) < 2 ^ (m.log2 + 1) * 2 ^ (52 - m.log2) :=
          Nat.mul_lt_mul_of_pos_right hhi hpos
      _ = 2 ^ m.log2 * 2 ^ (52 - m.log2) * 2 := by ring
      _ = 2 ^ 53 := by rw [hsplit, ← Nat.pow_succ]

theorem widened_lt {e m : Nat} (he : e < 2 ^ 8) (hm : m < 2 ^ 23) :
    widenedExponent e m < 2 ^ 11 ∧ widenedMantissa e m < 2 ^ 52 := by
  unfold widenedExponent widenedMantissa
  by_cases hsub : e = 0 ∧ m ≠ 0
  · obtain ⟨hlog, -, hlt⟩ := shifted_mem_range hsub.2 hm
    rw [if_pos hsub]
    refine ⟨?_, by omega⟩
    split <;> (try split) <;> (try split) <;> omega
  · rw [if_neg hsub]
    refine ⟨?_, by omega⟩
    split <;> (try split) <;> (try split) <;> omega

theorem toNat_shiftLeft_of_lt {x : UInt64} {k : Nat} (hk : k < 64) (h : x.toNat * 2 ^ k < 2 ^ 64) :
    (x <<< UInt64.ofNat k).toNat = x.toNat * 2 ^ k := by
  have hof : (UInt64.ofNat k).toNat = k := UInt64.toNat_ofNat_of_lt' (Nat.lt_trans hk (by decide))
  rw [UInt64.toNat_shiftLeft, hof, Nat.mod_eq_of_lt hk, Nat.shiftLeft_eq, Nat.mod_eq_of_lt h]

/-- The exponent of a normal `double`, with the bias changed. -/
theorem toNat_normalExp {exp : UInt32} (hlt : exp.toNat < 2 ^ 8) :
    ((exp.toUInt64 + (1023 - 127)) <<< 52).toNat = (exp.toNat + 896) * 2 ^ 52 := by
  have hsum : (exp.toUInt64 + (1023 - 127)).toNat = exp.toNat + 896 := by
    have hbias : ((1023 : UInt64) - 127).toNat = 896 := by decide
    rw [UInt64.toNat_add, hbias, UInt32.toNat_toUInt64]
    omega
  have h := toNat_shiftLeft_of_lt (x := exp.toUInt64 + (1023 - 127)) (k := 52) (by decide)
    (by rw [hsum]; omega)
  rwa [hsum] at h

theorem toNat_normalMan {man : UInt32} (hlt : man.toNat < 2 ^ 23) :
    (man.toUInt64 <<< 29).toNat = man.toNat * 2 ^ 29 := by
  have h := toNat_shiftLeft_of_lt (x := man.toUInt64) (k := 29) (by decide)
    (by rw [UInt32.toNat_toUInt64]; omega)
  rwa [UInt32.toNat_toUInt64] at h

/-- The exponent of a subnormal `float`, by its leading one. -/
theorem toNat_subnormalExp {k : Nat} (hlog : k < 23) :
    (UInt64.ofNat (k + 1023 - 149) <<< 52).toNat = (k + 874) * 2 ^ 52 := by
  have hof : (UInt64.ofNat (k + 1023 - 149)).toNat = k + 874 := by
    have hsum : k + 1023 - 149 = k + 874 := by omega
    have hsmall : k + 874 < 1000 := by omega
    rw [hsum]
    exact UInt64.toNat_ofNat_of_lt' (Nat.lt_trans hsmall (by decide))
  have h := toNat_shiftLeft_of_lt (x := UInt64.ofNat (k + 1023 - 149)) (k := 52) (by decide)
    (by rw [hof]; omega)
  rwa [hof] at h

/-- Its mantissa, with the leading one shifted out. -/
theorem toNat_subnormalMan {man : UInt32} (hne : man.toNat ≠ 0) (hlt : man.toNat < 2 ^ 23) :
    ((man.toUInt64 <<< UInt64.ofNat (52 - man.toNat.log2)) &&& 0xfffffffffffff).toNat =
      man.toNat * 2 ^ (52 - man.toNat.log2) - 2 ^ 52 := by
  obtain ⟨hlog, hlo, hhi⟩ := shifted_mem_range hne hlt
  have h := toNat_shiftLeft_of_lt (x := man.toUInt64) (k := 52 - man.toNat.log2) (by omega)
    (by rw [UInt32.toNat_toUInt64]; omega)
  have hmask : (0xfffffffffffff : UInt64).toNat = 2 ^ 52 - 1 := by decide
  rw [UInt64.toNat_and, h, hmask, Nat.and_two_pow_sub_one_eq_mod, UInt32.toNat_toUInt64]
  omega

theorem toNat_widen :
    (widen bits).toNat = sign32 bits * 2 ^ 63 +
      widenedExponent (exponent32 bits) (mantissa32 bits) * 2 ^ 52 +
      widenedMantissa (exponent32 bits) (mantissa32 bits) := by
  have hs := toNat_signPart bits
  have hlt : exponent32 bits < 2 ^ 8 := Nat.mod_lt _ (Nat.two_pow_pos 8)
  have hman : mantissa32 bits < 2 ^ 23 := Nat.mod_lt _ (Nat.two_pow_pos 23)
  rw [← toNat_expPart] at hlt ⊢
  rw [← toNat_manPart] at hman ⊢
  obtain ⟨hlt', hman'⟩ := widened_lt hlt hman
  unfold widen
  generalize (bits >>> 23) &&& 0xff = exp at hlt hlt' hman' ⊢
  generalize bits &&& 0x7fffff = man at hman hlt' hman' ⊢
  have hinf : exp = 0xff ↔ exp.toNat = 255 := UInt32.toNat_inj.symm
  have hzero : exp = 0 ↔ exp.toNat = 0 := UInt32.toNat_inj.symm
  have hnone : man = 0 ↔ man.toNat = 0 := UInt32.toNat_inj.symm
  simp only [hinf, hzero, hnone]
  by_cases h255 : exp.toNat = 255
  · -- an infinity or a NaN
    have hexp : widenedExponent exp.toNat man.toNat = 2047 := if_pos h255
    have hmant : widenedMantissa exp.toNat man.toNat = man.toNat * 2 ^ 29 := if_neg (by omega)
    have hmax : ((0x7ff : UInt64) <<< 52).toNat = 2047 * 2 ^ 52 := by decide
    rw [hexp] at hlt' ⊢
    rw [hmant] at hman' ⊢
    rw [if_pos h255]
    exact toNat_or_fields hlt' hman' hs hmax (toNat_normalMan hman)
  · rw [if_neg h255]
    by_cases h0 : exp.toNat = 0
    · rw [if_pos h0]
      by_cases hm0 : man.toNat = 0
      · rw [if_pos hm0, hs]
        simp [widenedExponent, widenedMantissa, h0, hm0]
      · -- a subnormal number is normalised
        obtain ⟨hlog, -, -⟩ := shifted_mem_range hm0 hman
        have hexp : widenedExponent exp.toNat man.toNat = man.toNat.log2 + 874 := by
          rw [widenedExponent, if_neg h255, if_pos h0, if_neg hm0]
        have hmant : widenedMantissa exp.toNat man.toNat =
            man.toNat * 2 ^ (52 - man.toNat.log2) - 2 ^ 52 := if_pos ⟨h0, hm0⟩
        rw [hexp] at hlt' ⊢
        rw [hmant] at hman' ⊢
        rw [if_neg hm0]
        exact toNat_or_fields hlt' hman' hs (toNat_subnormalExp hlog) (toNat_subnormalMan hm0 hman)
    · have hexp : widenedExponent exp.toNat man.toNat = exp.toNat + 896 := by
        rw [widenedExponent, if_neg h255, if_neg h0]
      have hmant : widenedMantissa exp.toNat man.toNat = man.toNat * 2 ^ 29 := if_neg (by omega)
      rw [hexp] at hlt' ⊢
      rw [hmant] at hman' ⊢
      rw [if_neg h0]
      exact toNat_or_fields hlt' hman' hs (toNat_normalExp hlt) (toNat_normalMan hman)

end Widen

/-! ## Section 3: The way back -/

/-- A shift that loses nothing does not round. -/
theorem roundShift_mul (m k : Nat) : roundShift (m * 2 ^ k) k = m := by
  have hpos : 0 < 2 ^ k := Nat.two_pow_pos k
  have hdiv : m * 2 ^ k / 2 ^ k = m := Nat.mul_div_cancel m hpos
  have hmod : m * 2 ^ k % 2 ^ k = 0 := Nat.mul_mod_left m (2 ^ k)
  rw [roundShift, hdiv, hmod, if_neg (by omega)]

section Narrow

variable {bits : UInt32} {d : UInt64}

theorem widen_fields (bits : UInt32) :
    sign64 (widen bits) = sign32 bits ∧
      exponent64 (widen bits) = widenedExponent (exponent32 bits) (mantissa32 bits) ∧
      mantissa64 (widen bits) = widenedMantissa (exponent32 bits) (mantissa32 bits) := by
  have hlt := widened_lt (e := exponent32 bits) (m := mantissa32 bits)
    (Nat.mod_lt _ (Nat.two_pow_pos 8)) (Nat.mod_lt _ (Nat.two_pow_pos 23))
  exact fields64_of_toNat hlt.1 hlt.2 (toNat_widen bits)

theorem isNaN64_widen (h : IsNaN32 bits) : IsNaN64 (widen bits) := by
  obtain ⟨-, hexp, hman⟩ := widen_fields bits
  obtain ⟨h255, hne⟩ := h
  refine ⟨?_, ?_⟩
  · rw [hexp, h255]
    rfl
  · rw [hman, widenedMantissa, if_neg (by omega)]
    omega

/-- The widened fields of a number give its bits back. -/
theorem narrowMagnitude_widened {e m : Nat} (he : e < 2 ^ 8) (hm : m < 2 ^ 23)
    (h : ¬ (e = 255 ∧ m ≠ 0)) :
    narrowMagnitude (widenedExponent e m) (widenedMantissa e m) = e * 2 ^ 23 + m := by
  by_cases h255 : e = 255
  · -- an infinity
    have hm0 : m = 0 := not_ne_iff.mp fun hne => h ⟨h255, hne⟩
    subst h255 hm0
    rfl
  · by_cases hsub : e = 0 ∧ m ≠ 0
    · obtain ⟨rfl, hne⟩ := hsub
      obtain ⟨hlog, hlo, -⟩ := shifted_mem_range hne hm
      have hexp : widenedExponent 0 m = m.log2 + 874 := by
        rw [widenedExponent, if_neg h255, if_pos rfl, if_neg hne]
      have hman : 2 ^ 52 + widenedMantissa 0 m = m * 2 ^ (52 - m.log2) := by
        rw [widenedMantissa, if_pos ⟨rfl, hne⟩]
        omega
      have hshift : 926 - max (m.log2 + 874) 1 = 52 - m.log2 := by omega
      rw [narrowMagnitude, hexp, if_neg (by omega), if_neg (by omega), if_neg (by omega),
        if_neg (by omega), hman, hshift, roundShift_mul, Nat.zero_mul, Nat.zero_add]
    · have hman : widenedMantissa e m = m * 2 ^ 29 := if_neg hsub
      by_cases h0 : e = 0
      · have hm0 : m = 0 := not_ne_iff.mp fun hne => hsub ⟨h0, hne⟩
        have hexp : widenedExponent e m = 0 := by
          rw [widenedExponent, if_neg h255, if_pos h0, if_pos hm0]
        rw [narrowMagnitude, hexp, hman, if_neg (by omega), if_neg (by omega), if_neg (by omega),
          if_pos rfl, hm0, h0, Nat.zero_mul]
        have hzero := roundShift_mul 0 (926 - max 0 1)
        rwa [Nat.zero_mul] at hzero
      · have hexp : widenedExponent e m = e + 896 := by
          rw [widenedExponent, if_neg h255, if_neg h0]
        rw [narrowMagnitude, hexp, hman, if_neg (by omega), if_neg (by omega), if_pos (by omega),
          roundShift_mul, Nat.add_sub_cancel]

/-- **Main result.** A number survives the promotion bit by bit. -/
theorem narrow_widen (h : ¬ IsNaN32 bits) : narrow (widen bits) = bits := by
  obtain ⟨hsign, hexp, hman⟩ := widen_fields bits
  have hlt : exponent32 bits < 2 ^ 8 := Nat.mod_lt _ (Nat.two_pow_pos 8)
  have hm : mantissa32 bits < 2 ^ 23 := Nat.mod_lt _ (Nat.two_pow_pos 23)
  rw [narrow, hsign, hexp, hman, narrowMagnitude_widened hlt hm h, ← Nat.add_assoc,
    ← toNat_eq_fields32, UInt32.ofNat_toNat]

/-- A NaN stays one on the way back. -/
theorem isNaN32_narrow (h : IsNaN64 d) : IsNaN32 (narrow d) := by
  obtain ⟨hexp, hman⟩ := h
  have hsign : sign64 d < 2 := Nat.div_lt_of_lt_mul d.toNat_lt
  have hpayload : mantissa64 d / 2 ^ 29 % 2 ^ 22 < 2 ^ 22 := Nat.mod_lt _ (Nat.two_pow_pos 22)
  have hmag : narrowMagnitude (exponent64 d) (mantissa64 d) =
      255 * 2 ^ 23 + 2 ^ 22 + mantissa64 d / 2 ^ 29 % 2 ^ 22 := by
    rw [narrowMagnitude, if_pos hexp, if_neg hman]
  have hbits : (narrow d).toNat =
      sign64 d * 2 ^ 31 + (255 * 2 ^ 23 + 2 ^ 22 + mantissa64 d / 2 ^ 29 % 2 ^ 22) := by
    rw [narrow, hmag]
    exact UInt32.toNat_ofNat_of_lt' (show _ < 2 ^ 32 by omega)
  unfold IsNaN32 exponent32 mantissa32
  rw [hbits]
  omega

end Narrow

end JniLog.Visualize
