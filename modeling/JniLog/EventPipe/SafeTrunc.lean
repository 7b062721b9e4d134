import JniLog.EventPipe.Datagram
import JniLog.Framework.Units
import JniLog.Framework.Utf8
import JniLog.Value
import Mathlib.Data.List.GetD

/-! # Where a string may be cut

    `safe_trunc_len` looks at single bytes, while a wire string is made
    of units: plain bytes, UTF-8 characters, escape pairs, and
    placeholders. Its comment takes a byte `\x05` at the end for half of
    an escape pair, but it is also the slot byte of the fifth
    placeholder.

    Main result: the longest prefix of whole units is kept exactly when
    no such placeholder stands right in front of the cut. -/

namespace JniLog.EventPipe

open Bytes Utf8 Units

/-! ## Section 1: The units of a wire string -/

/-- What a wire string is made of. -/
inductive WireUnit : Bytes → Prop where
  | plain {b : UInt8} (hlow : b < 0x80) (hesc : b ≠ 0x05) (hmark : b ≠ 0x1A) : WireUnit [b]
  /-- a UTF-8 character of more than one byte -/
  | char {r : Nat} (h : 0x80 ≤ r) : WireUnit (encodeRune r)
  | escape {b : UInt8} (h : wireByteNeedsEscape b = true) : WireUnit [0x05, b ^^^ 0x40]
  | placeholder {slot : Nat} (h : slot < EVENT_PIPE_MAX_REFS) :
      WireUnit [0x1A, UInt8.ofNat (slot + 1)]

/-- The number of bytes that follow the first byte of a unit. -/
def unitTail (b : UInt8) : Nat :=
  if b = 0x05 ∨ b = 0x1A then 1 else if b < 0x80 then 0 else contCount b

/-- The first byte of a unit says how long it is. -/
theorem WireUnit.shape {u : Bytes} (h : WireUnit u) :
    ∃ b cs, u = b :: cs ∧ cs.length = unitTail b := by
  cases h with
  | @plain b hlow hesc hmark =>
    refine ⟨b, [], rfl, ?_⟩
    rw [unitTail, if_neg (not_or.mpr ⟨hesc, hmark⟩), if_pos hlow]
    rfl
  | char hr =>
    obtain ⟨b, cs, heq, hb, hlen, -⟩ := encodeRune_shape hr
    refine ⟨b, cs, heq, ?_⟩
    have hesc : b ≠ 0x05 := fun h => absurd (h ▸ hb) (by decide)
    have hmark : b ≠ 0x1A := fun h => absurd (h ▸ hb) (by decide)
    have hhigh : ¬ b < 0x80 := UInt8.not_lt.mpr (UInt8.le_trans (by decide) hb)
    rw [hlen, unitTail, if_neg (not_or.mpr ⟨hesc, hmark⟩), if_neg hhigh]
  | escape => exact ⟨0x05, _, rfl, rfl⟩
  | placeholder => exact ⟨0x1A, _, rfl, rfl⟩

theorem wireUnit_prefixFree : PrefixFree WireUnit where
  ne_nil := by
    intro u hu
    obtain ⟨b, cs, rfl, -⟩ := hu.shape
    exact List.cons_ne_nil b cs
  eq_of_isPrefix := by
    intro u v hu hv hpre
    obtain ⟨b, cs, rfl, hlen⟩ := hu.shape
    obtain ⟨b', cs', rfl, hlen'⟩ := hv.shape
    obtain ⟨rfl, hcs⟩ := List.cons_prefix_cons.mp hpre
    rw [hcs.eq_of_length (hlen.trans hlen'.symm)]

/-! ## Section 2: The two loops -/

theorem isCont_iff (b : UInt8) : b &&& 0xC0 = 0x80 ↔ isCont b = true := by
  have h : ∀ i : Fin 256, (UInt8.ofFin i &&& 0xC0 = 0x80 ↔ isCont (UInt8.ofFin i) = true) := by
    decide +kernel
  exact h b.toFin

theorem masked_not_cont {b : UInt8} (h : wireByteNeedsEscape b = true) :
    isCont (b ^^^ 0x40) = false ∧ b ^^^ 0x40 ≠ 0x05 ∧ b ^^^ 0x40 ≠ 0x1A := by
  simp only [wireByteNeedsEscape, Bool.or_eq_true, beq_iff_eq] at h
  rcases h with ((((rfl | rfl) | rfl) | rfl) | rfl) | rfl <;> decide

theorem slotByte_not_cont {slot : Nat} (h : slot < EVENT_PIPE_MAX_REFS) :
    isCont (UInt8.ofNat (slot + 1)) = false ∧ UInt8.ofNat (slot + 1) ≠ 0x1A := by
  have hall : ∀ i : Fin 8, isCont (UInt8.ofNat (i.val + 1)) = false ∧
      UInt8.ofNat (i.val + 1) ≠ 0x1A := by decide
  exact hall ⟨slot, h⟩

section Loops

variable {s : Bytes} {n k : Nat}

theorem backToBoundary_stop (h : isCont (s.getD n 0) = false) : backToBoundary s n = n := by
  cases n with
  | zero => rfl
  | succ n =>
    have hne : ¬ (s.getD (n + 1) 0 &&& 0xC0 = 0x80) := by
      rw [isCont_iff, h]
      exact Bool.false_ne_true
    rw [backToBoundary, if_neg hne]

/-- The loop walks back over continuation bytes. -/
theorem backToBoundary_conts (h : ∀ i, 1 ≤ i → i ≤ k → isCont (s.getD (n + i) 0) = true) :
    backToBoundary s (n + k) = backToBoundary s n := by
  induction k with
  | zero => rfl
  | succ k ih =>
    have hcont := h (k + 1) (Nat.le_add_left 1 k) (Nat.le_refl _)
    rw [← Nat.add_assoc] at hcont ⊢
    rw [backToBoundary, if_pos ((isCont_iff _).mpr hcont)]
    exact ih fun i hi hle => h i hi (Nat.le_succ_of_le hle)

theorem dropHalves_eq_self_iff :
    dropHalves s n = n ↔ n = 0 ∨ s.getD (n - 1) 0 ≠ 0x1A ∧ s.getD (n - 1) 0 ≠ 0x05 := by
  cases n with
  | zero => exact iff_of_true rfl (.inl rfl)
  | succ n =>
    have hpos : ¬ n + 1 = 0 := Nat.succ_ne_zero n
    rw [or_iff_right hpos, Nat.add_sub_cancel, ← not_or, dropHalves]
    split
    · rename_i hhalf
      have hle := dropHalves_le s n
      exact iff_of_false (by omega) (not_not.mpr hhalf)
    · rename_i hwhole
      exact iff_of_true rfl hwhole

end Loops

/-! ## Section 3: The unit at the cut -/

section Cut

variable {s p u : Bytes} {len : Nat}

/-- Whichever unit the cut falls into, the first loop goes back to its
    start, or the second one drops what is left of it. -/
theorem safe_trunc_len_atCut (h : AtCut WireUnit s len p u) :
    safe_trunc_len s len = dropHalves s p.length := by
  obtain ⟨-, hunit, hbegins, hends, hpre⟩ := h
  obtain ⟨q, rfl⟩ := hpre
  have hget {i : Nat} (hi : i < u.length) : (p ++ u ++ q).getD (p.length + i) 0 = u.getD i 0 := by
    rw [List.append_assoc, List.getD_append_right _ _ _ _ (Nat.le_add_right _ _),
      Nat.add_sub_cancel_left, List.getD_append _ _ _ _ hi]
  obtain ⟨j, rfl⟩ := Nat.exists_eq_add_of_le hbegins
  have hj : j < u.length := by omega
  -- a unit of a lead byte and one more
  have hpair {b c : UInt8} (hu : u = [b, c]) (hb : isCont b = false) (hc : isCont c = false)
      (hhalf : b = 0x1A ∨ b = 0x05) :
      safe_trunc_len (p ++ u ++ q) (p.length + j) = dropHalves (p ++ u ++ q) p.length := by
    have hlead : (p ++ u ++ q).getD p.length 0 = b := by
      have h := hget (i := 0) (by simp [hu])
      rw [Nat.add_zero, hu] at h
      rw [hu]
      exact h
    have hcases : j = 0 ∨ j = 1 := by
      rw [hu] at hj
      simp only [List.length_cons, List.length_nil] at hj
      omega
    -- the cut is in front of the unit, or between its two bytes
    rcases hcases with rfl | rfl
    · rw [safe_trunc_len, Nat.add_zero, backToBoundary_stop (by rw [hlead]; exact hb)]
    · have hnext : (p ++ u ++ q).getD (p.length + 1) 0 = c := by
        rw [hget hj, hu]
        rfl
      rw [safe_trunc_len, backToBoundary_stop (by rw [hnext]; exact hc), dropHalves, hlead,
        if_pos hhalf]
  cases hunit with
  | @plain b hlow =>
    obtain rfl : j = 0 := Nat.lt_one_iff.mp hj
    have hb : isCont b = false := by
      rw [isCont, decide_eq_false (UInt8.not_le.mpr hlow), Bool.false_and]
    have hlead := hget (i := 0) hj
    rw [Nat.add_zero] at hlead ⊢
    rw [safe_trunc_len, backToBoundary_stop (by rw [hlead]; exact hb)]
  | char hr =>
    -- only the lead byte of a character is no continuation byte
    obtain ⟨b, cs, heq, hb, -, hcs⟩ := encodeRune_shape hr
    rw [heq] at hget hj ⊢
    have hlead : isCont ((p ++ b :: cs ++ q).getD p.length 0) = false := by
      have h := hget (i := 0) (Nat.succ_pos _)
      rw [Nat.add_zero] at h
      have hhigh : ¬ b ≤ 0xBF := UInt8.not_le.mpr (UInt8.lt_of_lt_of_le (by decide) hb)
      rw [h]
      simp [isCont, hhigh]
    have hconts : ∀ i, 1 ≤ i → i ≤ j →
        isCont ((p ++ b :: cs ++ q).getD (p.length + i) 0) = true := by
      intro i hi hle
      rw [hget (by omega)]
      obtain ⟨i, rfl⟩ := Nat.exists_eq_add_of_le' hi
      have hlt : i < cs.length := by
        rw [List.length_cons] at hj
        omega
      rw [List.getD_cons_succ, List.getD_eq_getElem _ _ hlt]
      exact hcs _ (List.getElem_mem hlt)
    rw [safe_trunc_len, backToBoundary_conts hconts, backToBoundary_stop hlead]
  | escape hb => exact hpair rfl (by decide) (masked_not_cont hb).1 (.inr rfl)
  | placeholder hslot => exact hpair rfl (by decide) (slotByte_not_cont hslot).1 (.inl rfl)

/-- The last byte of a unit is no half, but for the fifth placeholder. -/
theorem WireUnit.getLast?_half {c : UInt8} (hu : WireUnit u) (hc : u.getLast? = some c) :
    c ≠ 0x1A ∧ (c = 0x05 → u = [0x1A, 0x05]) := by
  cases hu with
  | plain hlow hesc hmark =>
    obtain rfl := Option.some.inj hc
    exact ⟨hmark, fun h => absurd h hesc⟩
  | char hr =>
    obtain ⟨b, cs, heq, hb, hlen, hcs⟩ := encodeRune_shape hr
    rw [heq] at hc ⊢
    have hge : 0x80 ≤ c := encodeRune_ge hr c (heq ▸ List.mem_of_getLast? hc)
    exact ⟨fun h => absurd (h ▸ hge) (by decide), fun h => absurd (h ▸ hge) (by decide)⟩
  | escape hb =>
    obtain rfl := Option.some.inj hc
    obtain ⟨-, hesc, hmark⟩ := masked_not_cont hb
    exact ⟨hmark, fun h => absurd h hesc⟩
  | placeholder hslot =>
    obtain rfl := Option.some.inj hc
    refine ⟨(slotByte_not_cont hslot).2, fun h => ?_⟩
    exact congrArg (fun b => [0x1A, b]) h

/-- The placeholder of slot 4 stands in front of the unit at the cut. -/
def SlotFourAtCut (s : Bytes) (len : Nat) : Prop :=
  ∃ p u, Whole WireUnit p ∧ AtCut WireUnit s len (p ++ [0x1A, 0x05]) u

/-- What stands in front of the cut is kept unless it ends in a byte that
    looks like half of a unit. -/
theorem dropHalves_front (h : AtCut WireUnit s len p u) :
    dropHalves s p.length = p.length ↔ ¬ ∃ p', Whole WireUnit p' ∧ p = p' ++ [0x1A, 0x05] := by
  obtain ⟨q, hq⟩ := (List.prefix_append p u).trans h.isPrefix
  rw [dropHalves_eq_self_iff]
  rcases h.front.eq_nil_or_append_unit with rfl | ⟨p', v, hp', hv, rfl⟩
  · refine iff_of_true (.inl rfl) ?_
    rintro ⟨p', -, hnil⟩
    exact absurd (List.append_eq_nil_iff.mp hnil.symm).2 (List.cons_ne_nil _ _)
  · obtain ⟨c, hc⟩ : ∃ c, v.getLast? = some c := by
      obtain ⟨b, cs, rfl, -⟩ := hv.shape
      exact ⟨_, List.getLast?_eq_some_getLast (List.cons_ne_nil b cs)⟩
    have hlast : (p' ++ v).getLast? = some c := by
      rw [List.getLast?_append, hc]
      rfl
    have hne : p' ++ v ≠ [] := fun h => by simp [h] at hlast
    have hget : s.getD ((p' ++ v).length - 1) 0 = c := by
      have hlt : (p' ++ v).length - 1 < (p' ++ v).length :=
        Nat.sub_lt (List.length_pos_of_ne_nil hne) Nat.one_pos
      rw [← hq, List.getD_append _ _ _ _ hlt, List.getD_eq_getElem?_getD,
        ← List.getLast?_eq_getElem?, hlast]
      rfl
    have hpos : ¬ (p' ++ v).length = 0 := fun h => hne (List.length_eq_zero_iff.mp h)
    obtain ⟨hmark, hslot⟩ := hv.getLast?_half hc
    rw [hget, or_iff_right hpos, and_iff_right hmark]
    -- what is left in front of the cut may only look like half of an escape
    constructor
    · rintro hesc ⟨p'', -, heq⟩
      rw [heq, List.getLast?_append] at hlast
      exact hesc (Option.some.inj hlast).symm
    · intro hnone hesc
      exact hnone ⟨p', hp', by rw [hslot hesc]⟩

end Cut

/-! ## Section 4: Main theorem -/

/-- **Main result.** A cut keeps the longest prefix of whole units, unless
    the placeholder of slot 4 stands right in front of the unit it falls
    into. -/
theorem safe_trunc_len_longest_iff {s : Bytes} (hs : Whole WireUnit s) {len : Nat}
    (hlen : len < s.length) :
    Longest WireUnit s len (safe_trunc_len s len) ↔ ¬ SlotFourAtCut s len := by
  obtain ⟨p, u, hcut⟩ := hs.exists_atCut hlen
  have hlongest := hcut.longest wireUnit_prefixFree
  have hkept : Longest WireUnit s len (safe_trunc_len s len) ↔
      dropHalves s p.length = p.length := by
    rw [safe_trunc_len_atCut hcut]
    constructor
    · intro h
      exact h.unique hlongest
    · intro h
      rw [h]
      exact hlongest
  rw [hkept, dropHalves_front hcut, not_iff_not]
  constructor
  · rintro ⟨p', hp', rfl⟩
    exact ⟨p', u, hp', hcut⟩
  · rintro ⟨p', u', hp', hcut'⟩
    -- both stand in front of the cut, so they are the same text
    have hsame := (hcut'.longest wireUnit_prefixFree).unique hlongest
    have hpre : p' ++ [0x1A, 0x05] <+: p :=
      List.prefix_of_prefix_length_le ((List.prefix_append _ u').trans hcut'.isPrefix)
        ((List.prefix_append p u).trans hcut.isPrefix) (Nat.le_of_eq hsame)
    exact ⟨p', hp', (hpre.eq_of_length hsame).symm⟩

/-- A placeholder of slot 0 and a letter, cut in the middle of the former. -/
theorem safe_trunc_len_longest_iff_halfPlaceholder :
    Whole WireUnit [0x61, 0x1A, 0x01, 0x62] ∧ 2 < [0x61, 0x1A, 0x01, 0x62].length ∧
      (Longest WireUnit [0x61, 0x1A, 0x01, 0x62] 2 (safe_trunc_len [0x61, 0x1A, 0x01, 0x62] 2) ↔
        ¬ SlotFourAtCut [0x61, 0x1A, 0x01, 0x62] 2) := by
  have ha : WireUnit [0x61] := .plain (by decide) (by decide) (by decide)
  have hb : WireUnit [0x62] := .plain (by decide) (by decide) (by decide)
  have hslot : WireUnit [0x1A, 0x01] := .placeholder (show 0 < EVENT_PIPE_MAX_REFS by decide)
  have hwhole : Whole WireUnit [0x61, 0x1A, 0x01, 0x62] :=
    ((whole_nil.append_unit ha).append_unit hslot).append_unit hb
  exact ⟨hwhole, by decide, safe_trunc_len_longest_iff hwhole (by decide)⟩

/-- The placeholder of slot 4, whole in front of the cut, is dropped. -/
theorem safe_trunc_len_drops_slotFour :
    Whole WireUnit [0x1A, 0x05, 0x61] ∧ 2 < [0x1A, 0x05, 0x61].length ∧
      safe_trunc_len [0x1A, 0x05, 0x61] 2 = 0 ∧ Longest WireUnit [0x1A, 0x05, 0x61] 2 2 ∧
      ¬ Longest WireUnit [0x1A, 0x05, 0x61] 2 (safe_trunc_len [0x1A, 0x05, 0x61] 2) := by
  have ha : WireUnit [0x61] := .plain (by decide) (by decide) (by decide)
  have hslot : WireUnit [0x1A, 0x05] := .placeholder (show 4 < EVENT_PIPE_MAX_REFS by decide)
  have hfront : Whole WireUnit [0x1A, 0x05] := whole_nil.append_unit hslot
  have hcut : AtCut WireUnit [0x1A, 0x05, 0x61] 2 [0x1A, 0x05] [0x61] :=
    ⟨hfront, ha, by decide, by decide, List.prefix_refl _⟩
  have hlongest : Longest WireUnit [0x1A, 0x05, 0x61] 2 2 := hcut.longest wireUnit_prefixFree
  have hzero : safe_trunc_len [0x1A, 0x05, 0x61] 2 = 0 := by decide
  refine ⟨hfront.append_unit ha, by decide, hzero, hlongest, ?_⟩
  intro h
  rw [hzero] at h
  exact absurd (h.unique hlongest) (by decide)

end JniLog.EventPipe
