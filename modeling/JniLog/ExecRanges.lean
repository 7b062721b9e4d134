import JniLog.Framework.Intervals
import JniLog.Framework.System
import JniLog.RangeSet

/-! # What the table of ranges holds

    `c_add_exec_range` over whole runs of calls, from the empty table.
    The table is the list of intervals of `Intervals`, in the numbers of
    the addresses.

    * `exec_ranges_exact`: as long as no range is turned away for lack of
      room, `c_is_in_exec_range` answers for the addresses of all ranges
      added so far, in any order.
    * `entries_apart_iff`: entries overlap as soon as a range reaches
      from the first entry that it meets into another one behind it,
      which is not merged. -/

namespace JniLog.ExecRanges

open RangeSet Intervals

/-! ## Section 1: The table as a list of intervals -/

/-- The numbers of the addresses of an entry. -/
def span (r : ExecRange) : Nat × Nat := (r.base.toNat, r.fin.toNat)

/-- A base and a size that `c_add_exec_range` takes. -/
def valid (base size : UInt64) : Bool := size ≠ 0 && base < base + size

/-- The call finds no entry to extend, and no room for a new one. -/
def refused (me : Nat) (ranges : List ExecRange) (base size : UInt64) : Bool :=
  valid base size && (mergeLoop me base (base + size) ranges).isNone &&
    ranges.length ≥ MAX_EXEC_RANGES

/-- The calls, one after the other. -/
def adds (me : Nat) : Machine (List ExecRange) (UInt64 × UInt64) where
  next ranges c := (c_add_exec_range me ranges c.1 c.2).2

section Spans

variable {me : Nat} {ranges : List ExecRange} {base size fin : UInt64} {r : ExecRange}

theorem valid_iff : valid base size = true ↔ size ≠ 0 ∧ base.toNat + size.toNat < 2 ^ 64 := by
  have hbase := base.toNat_lt
  have hsize := size.toNat_lt
  have hzero : size ≠ 0 ↔ size.toNat ≠ 0 := UInt64.toNat_inj.symm.not
  unfold valid
  rw [Bool.and_eq_true, decide_eq_true_eq, decide_eq_true_eq, UInt64.lt_iff_toNat_lt,
    UInt64.toNat_add, hzero]
  omega

theorem valid_fin (h : valid base size = true) :
    (base + size).toNat = base.toNat + size.toNat := by
  rw [UInt64.toNat_add, Nat.mod_eq_of_lt (valid_iff.mp h).2]

theorem valid_lt (h : valid base size = true) : base < base + size := by
  rw [valid, Bool.and_eq_true, decide_eq_true_eq, decide_eq_true_eq] at h
  exact h.2

/-- The test of the loop. -/
theorem meets_iff :
    Meets (base.toNat, fin.toNat) (span r) ↔ ¬ (fin < r.base ∨ base > r.fin) := by
  rw [not_or, UInt64.not_lt, gt_iff_lt, UInt64.not_lt]
  exact and_congr UInt64.le_iff_toNat_le.symm UInt64.le_iff_toNat_le.symm

/-- The loop is the absorption; an entry that contains the range is the
    hull of both. -/
theorem mergeLoop_spans (me : Nat) (hlt : base < fin) (ranges : List ExecRange) :
    (mergeLoop me base fin ranges).map (fun res => res.2.map span) =
      absorb (base.toNat, fin.toNat) (ranges.map span) := by
  induction ranges with
  | nil => rfl
  | cons r ranges ih =>
    rw [mergeLoop, List.map_cons, absorb]
    by_cases hin : base ≥ r.base ∧ fin ≤ r.fin
    · -- the early return: the entry stays what it is
      obtain ⟨hbase, hfin⟩ := hin
      have hbase' := UInt64.le_iff_toNat_le.mp hbase
      have hfin' := UInt64.le_iff_toNat_le.mp hfin
      have hlt' := UInt64.lt_iff_toNat_lt.mp hlt
      have hmeet : Meets (base.toNat, fin.toNat) (span r) :=
        ⟨hbase'.trans hlt'.le, hlt'.le.trans hfin'⟩
      have hhull : hull (base.toNat, fin.toNat) (span r) = span r :=
        Prod.ext (min_eq_left hbase') (max_eq_left hfin')
      rw [if_pos ⟨hbase, hfin⟩, if_pos hmeet, hhull]
      rfl
    · rw [if_neg hin]
      by_cases hmeet : Meets (base.toNat, fin.toNat) (span r)
      · rw [if_pos (meets_iff.mp hmeet), if_pos hmeet]
        simp only [Option.map_some, List.map_cons, Option.some.injEq, List.cons.injEq, and_true]
        refine Prod.ext ?_ ?_
        · show (if base < r.base then base else r.base).toNat = min r.base.toNat base.toNat
          by_cases hless : base < r.base
          · rw [if_pos hless, min_eq_right (UInt64.lt_iff_toNat_lt.mp hless).le]
          · rw [if_neg hless, min_eq_left (UInt64.le_iff_toNat_le.mp (UInt64.not_lt.mp hless))]
        · show (if fin > r.fin then fin else r.fin).toNat = max r.fin.toNat fin.toNat
          by_cases hmore : fin > r.fin
          · rw [if_pos hmore, max_eq_right (UInt64.lt_iff_toNat_lt.mp hmore).le]
          · rw [if_neg hmore, max_eq_left (UInt64.le_iff_toNat_le.mp (UInt64.not_lt.mp hmore))]
      · rw [if_neg fun h => hmeet (meets_iff.mpr h), if_neg hmeet, ← ih, Option.map_map,
          Option.map_map]
        rfl

/-- **Step.** A call leaves the table alone or adds the interval. -/
theorem c_add_exec_range_spans (me : Nat) (ranges : List ExecRange) (base size : UInt64) :
    ((valid base size = false ∨ refused me ranges base size = true) ∧
        (c_add_exec_range me ranges base size).2 = ranges) ∨
      valid base size = true ∧ refused me ranges base size = false ∧
        (c_add_exec_range me ranges base size).2.map span =
          add (base.toNat, base.toNat + size.toNat) (ranges.map span) := by
  unfold c_add_exec_range
  by_cases hvalid : valid base size = true
  · have hlt := valid_lt hvalid
    have hsize : size ≠ 0 := (valid_iff.mp hvalid).1
    have hspans := mergeLoop_spans me hlt ranges
    rw [valid_fin hvalid] at hspans
    rw [if_neg hsize]
    simp only [if_neg (UInt64.not_le.mpr hlt)]
    unfold refused Intervals.add
    rw [← hspans, hvalid]
    rcases hloop : mergeLoop me base (base + size) ranges with _ | res
    · -- no entry meets the range: a new one, or no room for it
      by_cases hroom : ranges.length < MAX_EXEC_RANGES
      · refine .inr ⟨rfl, ?_, ?_⟩
        · simpa using hroom
        · simp only [if_pos hroom, List.map_append]
          show _ ++ [(base.toNat, (base + size).toNat)] = _
          rw [valid_fin hvalid]
          rfl
      · refine .inl ⟨.inr ?_, ?_⟩
        · simpa using hroom
        · simp only [if_neg hroom]
    · exact .inr ⟨rfl, rfl, rfl⟩
  · -- the two checks in front of the loop
    refine .inl ⟨.inl (Bool.not_eq_true _ ▸ hvalid), ?_⟩
    by_cases hsize : size = 0
    · rw [if_pos hsize]
    · have hle : base + size ≤ base := by
        rw [← UInt64.not_lt]
        intro hlt
        exact hvalid (by simp [valid, hsize, hlt])
      rw [if_neg hsize]
      simp only [if_pos hle]

end Spans

/-! ## Section 2: The addresses held -/

section Union

variable {me : Nat} {ranges : List ExecRange} {calls : List (UInt64 × UInt64)} {addr : UInt64}

/-- The numbers of the addresses of all ranges added. -/
def added (calls : List (UInt64 × UInt64)) : Set Nat :=
  {x | ∃ c ∈ calls, valid c.1 c.2 = true ∧ c.1.toNat ≤ x ∧ x < c.1.toNat + c.2.toNat}

theorem added_cons (c : UInt64 × UInt64) (calls : List (UInt64 × UInt64)) :
    added (c :: calls) =
      (if valid c.1 c.2 then points (c.1.toNat, c.1.toNat + c.2.toNat) else ∅) ∪ added calls := by
  ext x
  by_cases hvalid : valid c.1 c.2 = true
  · simp [added, points, hvalid]
  · simp [added, hvalid]

theorem holds_iff {r : ExecRange} : r.holds addr = true ↔ addr.toNat ∈ points (span r) := by
  rw [ExecRange.holds, Bool.and_eq_true, decide_eq_true_eq, decide_eq_true_eq, ge_iff_le,
    UInt64.le_iff_toNat_le, UInt64.lt_iff_toNat_lt]
  rfl

theorem c_is_in_exec_range_iff :
    c_is_in_exec_range ranges addr = 1 ↔ addr ≠ 0 ∧ addr.toNat ∈ covered (ranges.map span) := by
  have hfound : (ranges.find? (·.holds addr)).isSome = true ↔
      addr.toNat ∈ covered (ranges.map span) := by
    rw [List.find?_isSome]
    simp [covered, holds_iff]
  unfold c_is_in_exec_range
  by_cases hzero : addr = 0
  · simp [hzero]
  · rw [if_neg hzero, ← hfound]
    cases (ranges.find? (·.holds addr)).isSome <;> simp [hzero]

/-- The answer is 0 or 1. -/
theorem c_is_in_exec_range_cases (ranges : List ExecRange) (addr : UInt64) :
    c_is_in_exec_range ranges addr = 0 ∨ c_is_in_exec_range ranges addr = 1 := by
  unfold c_is_in_exec_range
  split
  · exact .inl rfl
  · split
    · exact .inr rfl
    · exact .inl rfl

/-- **Run.** No address is lost, and none is invented. -/
theorem covered_run
    (hroom : (adds me).Meets (fun rs c => refused me rs c.1 c.2 = false) ranges calls) :
    covered (((adds me).exec ranges calls).map span) =
      covered (ranges.map span) ∪ added calls := by
  induction calls generalizing ranges with
  | nil => simp [added]
  | cons c calls ih =>
    obtain ⟨base, size⟩ := c
    obtain ⟨hroom, hrest⟩ := hroom
    rw [Machine.exec_cons, ih hrest, added_cons, ← Set.union_assoc]
    congr 1
    obtain ⟨hleft, htable⟩ | ⟨hvalid, -, htable⟩ := c_add_exec_range_spans me ranges base size
    · have hvalid : valid base size = false :=
        hleft.resolve_right fun h => Bool.false_ne_true (hroom.symm.trans h)
      show covered ((c_add_exec_range me ranges base size).2.map span) = _
      rw [htable, hvalid]
      simp
    · show covered ((c_add_exec_range me ranges base size).2.map span) = _
      rw [htable, covered_add, hvalid]
      rfl

end Union

/-- **Main result.** With room for every range, an address is found
    exactly when it is not 0 and in a range added; so the order of the
    calls does not matter. -/
theorem exec_ranges_exact (me : Nat) (calls : List (UInt64 × UInt64))
    (hroom : (adds me).Meets (fun rs c => refused me rs c.1 c.2 = false) [] calls)
    (addr : UInt64) :
    (c_is_in_exec_range ((adds me).exec [] calls) addr = 1 ↔
      addr ≠ 0 ∧ ∃ c ∈ calls, 0 < c.2.toNat ∧ c.1.toNat + c.2.toNat < 2 ^ 64 ∧
        c.1.toNat ≤ addr.toNat ∧ addr.toNat < c.1.toNat + c.2.toNat) ∧
    ∀ calls', calls'.Perm calls →
      (adds me).Meets (fun rs c => refused me rs c.1 c.2 = false) [] calls' →
      c_is_in_exec_range ((adds me).exec [] calls') addr =
        c_is_in_exec_range ((adds me).exec [] calls) addr := by
  have hexact {calls : List (UInt64 × UInt64)}
      (hroom : (adds me).Meets (fun rs c => refused me rs c.1 c.2 = false) [] calls) :
      c_is_in_exec_range ((adds me).exec [] calls) addr = 1 ↔
        addr ≠ 0 ∧ addr.toNat ∈ added calls := by
    rw [c_is_in_exec_range_iff, covered_run hroom]
    simp
  refine ⟨?_, ?_⟩
  · rw [hexact hroom]
    refine and_congr_right fun _ => exists_congr fun c => and_congr_right fun _ => ?_
    have hpos : c.2 ≠ 0 ↔ 0 < c.2.toNat := by
      rw [Nat.pos_iff_ne_zero]
      exact UInt64.toNat_inj.symm.not
    rw [valid_iff, hpos, and_assoc]
  · intro calls' hperm hroom'
    -- the ranges of both orders have the same union
    have hsame : c_is_in_exec_range ((adds me).exec [] calls') addr = 1 ↔
        c_is_in_exec_range ((adds me).exec [] calls) addr = 1 := by
      have hadded : added calls' = added calls := by
        ext x
        simp [added, hperm.mem_iff]
      rw [hexact hroom, hexact hroom', hadded]
    rcases c_is_in_exec_range_cases ((adds me).exec [] calls) addr with h | h
    · rcases c_is_in_exec_range_cases ((adds me).exec [] calls') addr with h' | h'
      · rw [h, h']
      · rw [hsame.mp h'] at h
        cases h
    · rw [h, hsame.mpr h]

/-- The third range reaches from one entry into the other; the order of
    the first two and the third is turned around. -/
theorem exec_ranges_exact_bridged :
    let calls : List (UInt64 × UInt64) := [(0x1000, 0x1000), (0x3000, 0x1000), (0x1800, 0x2000)]
    (adds 1).exec [] calls = [⟨0x1000, 0x3800, [1, 1]⟩, ⟨0x3000, 0x4000, [1]⟩] ∧
      c_is_in_exec_range ((adds 1).exec [] calls) 0x2800 = 1 ∧
      c_is_in_exec_range ((adds 1).exec [] calls.reverse) 0x2800 =
        c_is_in_exec_range ((adds 1).exec [] calls) 0x2800 := by
  have hexact := exec_ranges_exact 1 [(0x1000, 0x1000), (0x3000, 0x1000), (0x1800, 0x2000)]
    ⟨by decide, by decide, by decide, trivial⟩ 0x2800
  refine ⟨by decide, hexact.1.mpr ⟨by decide, (0x1800, 0x2000), by decide⟩, ?_⟩
  exact hexact.2 _ (List.reverse_perm _) ⟨by decide, by decide, by decide, trivial⟩

/-! ## Section 3: Overlaps -/

/-- No address is in both entries. -/
def NoOverlap (r r' : ExecRange) : Prop := ∀ addr, ¬ (r.holds addr = true ∧ r'.holds addr = true)

/-- The entries behind the first one that the loop extends, or that
    contains the range. -/
def behindFirst (base fin : UInt64) : List ExecRange → List ExecRange
  | [] => []
  | r :: rs => if fin < r.base ∨ base > r.fin then behindFirst base fin rs else rs

/-- The range reaches into an entry behind the first one that it meets. -/
def bridges (ranges : List ExecRange) (base size : UInt64) : Bool :=
  valid base size &&
    (behindFirst base (base + size) ranges).any fun r => base < r.fin && r.base < base + size

/-- What is asked of a table: no overlaps, and a range is only turned away
    when there are as many entries as the table can have, with addresses
    in each and none in two. -/
structure Sound (me : Nat) (ranges : List ExecRange) : Prop where
  apart : ranges.Pairwise NoOverlap
  full : ∀ base size, refused me ranges base size = true →
    ∃ held : List ExecRange, held.Sublist ranges ∧ MAX_EXEC_RANGES ≤ held.length ∧
      (∀ r ∈ held, r.base < r.fin) ∧ held.Pairwise NoOverlap

section Overlaps

variable {me : Nat} {ranges : List ExecRange} {base size fin : UInt64} {r r' : ExecRange}

theorem noOverlap_iff : NoOverlap r r' ↔ Apart (span r) (span r') := by
  constructor
  · intro h x hx hx'
    have hlt : x < 2 ^ 64 := Nat.lt_trans hx.2 r.fin.toNat_lt
    have hnum : (UInt64.ofNat x).toNat = x := UInt64.toNat_ofNat_of_lt' hlt
    refine h (UInt64.ofNat x) ⟨holds_iff.mpr ?_, holds_iff.mpr ?_⟩
    · rwa [hnum]
    · rwa [hnum]
  · intro h addr hboth
    exact h _ (holds_iff.mp hboth.1) (holds_iff.mp hboth.2)

theorem pairwise_spans :
    ranges.Pairwise NoOverlap ↔ (ranges.map span).Pairwise Apart := by
  rw [List.pairwise_map]
  exact ⟨fun h => h.imp noOverlap_iff.mp, fun h => h.imp noOverlap_iff.mpr⟩

theorem behindFirst_spans (base fin : UInt64) (ranges : List ExecRange) :
    (behindFirst base fin ranges).map span =
      behind (base.toNat, fin.toNat) (ranges.map span) := by
  induction ranges with
  | nil => rfl
  | cons r ranges ih =>
    rw [behindFirst, List.map_cons, behind]
    by_cases hmeet : Meets (base.toNat, fin.toNat) (span r)
    · rw [if_neg (meets_iff.mp hmeet), if_pos hmeet]
    · rw [if_pos (not_not.mp fun h => hmeet (meets_iff.mpr h)), if_neg hmeet, ih]

/-- The entries of a table in order: none is empty, and none overlaps. -/
structure Inv (ranges : List ExecRange) : Prop where
  nonempty : ∀ i ∈ ranges.map span, i.1 < i.2
  apart : (ranges.map span).Pairwise Apart

theorem behindFirst_subset (base fin : UInt64) (ranges : List ExecRange) :
    behindFirst base fin ranges ⊆ ranges := by
  induction ranges with
  | nil => exact List.Subset.refl _
  | cons r ranges ih =>
    rw [behindFirst]
    split
    · exact List.subset_cons_of_subset r ih
    · exact List.subset_cons_self r ranges

theorem bridges_iff (h : Inv ranges) (hvalid : valid base size = true) :
    bridges ranges base size = false ↔
      ∀ j ∈ behind (base.toNat, base.toNat + size.toNat) (ranges.map span),
        Apart (base.toNat, base.toNat + size.toNat) j := by
  have hlt : base.toNat < base.toNat + size.toNat := by
    rw [← valid_fin hvalid]
    exact UInt64.lt_iff_toNat_lt.mp (valid_lt hvalid)
  rw [← valid_fin hvalid, ← behindFirst_spans, List.forall_mem_map, bridges, hvalid, Bool.true_and,
    List.any_eq_false]
  refine forall_congr' fun r => forall_congr' fun hr => ?_
  have hne : (span r).1 < (span r).2 :=
    h.nonempty _ (List.mem_map_of_mem (behindFirst_subset _ _ _ hr))
  rw [← not_iff_not, not_not, not_apart_iff (by rwa [valid_fin hvalid]) hne, Bool.and_eq_true,
    decide_eq_true_eq, decide_eq_true_eq, UInt64.lt_iff_toNat_lt, UInt64.lt_iff_toNat_lt]
  rfl

/-- **Step.** Where no range bridges entries, none overlap afterwards. -/
theorem inv_step (h : Inv ranges) (c : UInt64 × UInt64)
    (hok : bridges ranges c.1 c.2 = false) : Inv ((adds me).next ranges c) := by
  obtain ⟨base, size⟩ := c
  obtain ⟨-, htable⟩ | ⟨hvalid, -, htable⟩ := c_add_exec_range_spans me ranges base size
  · show Inv (c_add_exec_range me ranges base size).2
    rwa [htable]
  · have hlt : base.toNat < base.toNat + size.toNat := by
      rw [← valid_fin hvalid]
      exact UInt64.lt_iff_toNat_lt.mp (valid_lt hvalid)
    have happart := (pairwise_add h.apart _).mpr ((bridges_iff h hvalid).mp hok)
    refine ⟨?_, ?_⟩
    · show ∀ i ∈ (c_add_exec_range me ranges base size).2.map span, _
      rw [htable]
      exact nonempty_add hlt h.nonempty
    · show ((c_add_exec_range me ranges base size).2.map span).Pairwise Apart
      rwa [htable]

/-- A range that is turned away meets no entry. -/
theorem not_bridges_of_refused (h : refused me ranges base size = true) :
    bridges ranges base size = false := by
  rw [refused, Bool.and_eq_true, Bool.and_eq_true, Option.isNone_iff_eq_none] at h
  obtain ⟨⟨hvalid, hloop⟩, -⟩ := h
  have hspans := mergeLoop_spans me (valid_lt hvalid) ranges
  rw [hloop] at hspans
  have hbehind := (absorb_eq_none hspans.symm).1
  rw [← behindFirst_spans, List.map_eq_nil_iff] at hbehind
  rw [bridges, hbehind, List.any_nil, Bool.and_false]

/-- A range that bridges entries leaves an overlap. -/
theorem overlap_step (h : Inv ranges) (c : UInt64 × UInt64)
    (hbridge : ¬ bridges ranges c.1 c.2 = false) :
    ¬ ((adds me).next ranges c).Pairwise NoOverlap := by
  obtain ⟨base, size⟩ := c
  have hvalid : valid base size = true := by
    rw [Bool.not_eq_false, bridges, Bool.and_eq_true] at hbridge
    exact hbridge.1
  obtain ⟨hleft, -⟩ | ⟨-, -, htable⟩ := c_add_exec_range_spans me ranges base size
  · have hrefused := hleft.resolve_left fun h => Bool.false_ne_true (h.symm.trans hvalid)
    exact absurd (not_bridges_of_refused hrefused) hbridge
  · show ¬ (c_add_exec_range me ranges base size).2.Pairwise NoOverlap
    rw [pairwise_spans, htable, pairwise_add h.apart, ← bridges_iff h hvalid]
    exact hbridge

theorem Inv.sound (h : Inv ranges) (me : Nat) : Sound me ranges where
  apart := pairwise_spans.mpr h.apart
  full base size hrefused := by
    rw [refused, Bool.and_eq_true, decide_eq_true_eq] at hrefused
    refine ⟨ranges, List.Sublist.refl _, hrefused.2, ?_, pairwise_spans.mpr h.apart⟩
    intro r hr
    exact UInt64.lt_iff_toNat_lt.mpr (h.nonempty _ (List.mem_map_of_mem hr))

end Overlaps

/-- **Main result.** The entries never overlap, and a full table really
    holds its number of ranges, in exactly the runs in which no range
    bridges entries. -/
theorem entries_apart_iff (me : Nat) (calls : List (UInt64 × UInt64)) :
    (∀ ranges ∈ (adds me).trace [] calls, Sound me ranges) ↔
      (adds me).Meets (fun rs c => bridges rs c.1 c.2 = false) [] calls := by
  have hempty : Inv [] := ⟨fun i hi => absurd hi List.not_mem_nil, .nil⟩
  refine Machine.good_iff_meets (fun ranges h => Inv.sound h me) ?_ ?_ hempty
  · intro ranges c h hok
    exact inv_step h c hok
  · intro ranges c h hbridge hsound
    exact overlap_step h c hbridge hsound.apart

/-- Two entries in a row, and a third range over the gap between them. -/
theorem bridged_entries_overlap :
    let calls : List (UInt64 × UInt64) := [(0x1000, 0x1000), (0x3000, 0x1000), (0x1800, 0x2000)]
    (adds 1).exec [] calls = [⟨0x1000, 0x3800, [1, 1]⟩, ⟨0x3000, 0x4000, [1]⟩] ∧
      ¬ ((adds 1).exec [] calls).Pairwise NoOverlap := by
  refine ⟨by decide, ?_⟩
  intro h
  have hpair := List.rel_of_pairwise_cons h List.mem_cons_self
  exact hpair 0x3000 (by decide)

end JniLog.ExecRanges
