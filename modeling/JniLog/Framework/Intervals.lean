import Mathlib.Order.Interval.Set.LinearOrder

/-! # Sets as lists of intervals

    A set kept as a list of half-open intervals, in the order in which
    they were added. A new interval is absorbed by the first one that it
    overlaps or touches; without one it becomes the last of the list.

    The list covers what it has covered before and the new interval. It
    stays free of overlaps exactly when the new interval overlaps no
    interval behind the one that absorbs it. -/

namespace Intervals

variable {α : Type} [LinearOrder α]

/-- The points from `i.1` on and below `i.2`. -/
def points (i : α × α) : Set α := Set.Ico i.1 i.2

/-- The points of all intervals. -/
def covered (l : List (α × α)) : Set α := {a | ∃ i ∈ l, a ∈ points i}

/-- Overlapping or touching. -/
def Meets (new i : α × α) : Prop := i.1 ≤ new.2 ∧ new.1 ≤ i.2

instance (new i : α × α) : Decidable (Meets new i) :=
  inferInstanceAs (Decidable (_ ∧ _))

def hull (new i : α × α) : α × α := (min i.1 new.1, max i.2 new.2)

/-- The list with the new interval absorbed, if one meets it. -/
def absorb (new : α × α) : List (α × α) → Option (List (α × α))
  | [] => none
  | i :: l => if Meets new i then some (hull new i :: l) else (absorb new l).map (i :: ·)

def add (new : α × α) (l : List (α × α)) : List (α × α) := (absorb new l).getD (l ++ [new])

/-- The intervals behind the first one that meets the new one. -/
def behind (new : α × α) : List (α × α) → List (α × α)
  | [] => []
  | i :: l => if Meets new i then l else behind new l

/-- No point is in two intervals. -/
def Apart (i j : α × α) : Prop := ∀ a ∈ points i, a ∉ points j

variable {new i j : α × α} {l : List (α × α)}

/-! ## Points -/

@[simp] theorem covered_nil : covered ([] : List (α × α)) = ∅ := by
  simp [covered]

@[simp] theorem covered_cons (i : α × α) (l : List (α × α)) :
    covered (i :: l) = points i ∪ covered l := by
  ext a
  simp [covered]

theorem points_hull (h : Meets new i) : points (hull new i) = points i ∪ points new :=
  (Set.Ico_union_Ico' h.2 h.1).symm

theorem covered_absorb {l' : List (α × α)} (h : absorb new l = some l') :
    covered l' = covered l ∪ points new := by
  induction l generalizing l' with
  | nil => cases h
  | cons i l ih =>
    rw [absorb] at h
    by_cases hmeet : Meets new i
    · rw [if_pos hmeet] at h
      obtain rfl := Option.some.inj h
      rw [covered_cons, covered_cons, points_hull hmeet, Set.union_right_comm]
    · rw [if_neg hmeet] at h
      obtain ⟨l', hl', rfl⟩ := Option.map_eq_some_iff.mp h
      rw [covered_cons, covered_cons, ih hl', Set.union_assoc]

theorem covered_concat (l : List (α × α)) (new : α × α) :
    covered (l ++ [new]) = covered l ∪ points new := by
  induction l with
  | nil => simp
  | cons i l ih => rw [List.cons_append, covered_cons, covered_cons, ih, Set.union_assoc]

/-- **Points of the list after an addition.** -/
theorem covered_add (new : α × α) (l : List (α × α)) :
    covered (add new l) = covered l ∪ points new := by
  unfold add
  cases h : absorb new l with
  | none => exact covered_concat l new
  | some l' => exact covered_absorb h

theorem nonempty_absorb {l' : List (α × α)} (hl : ∀ i ∈ l, i.1 < i.2) (h : absorb new l = some l') :
    ∀ i ∈ l', i.1 < i.2 := by
  induction l generalizing l' with
  | nil => cases h
  | cons i l ih =>
    rw [List.forall_mem_cons] at hl
    rw [absorb] at h
    by_cases hmeet : Meets new i
    · rw [if_pos hmeet] at h
      obtain rfl := Option.some.inj h
      refine List.forall_mem_cons.mpr ⟨?_, hl.2⟩
      exact ((min_le_left _ _).trans_lt hl.1).trans_le (le_max_left _ _)
    · rw [if_neg hmeet] at h
      obtain ⟨l', hl', rfl⟩ := Option.map_eq_some_iff.mp h
      exact List.forall_mem_cons.mpr ⟨hl.1, ih hl.2 hl'⟩

/-- No interval becomes empty. -/
theorem nonempty_add (hnew : new.1 < new.2) (hl : ∀ i ∈ l, i.1 < i.2) :
    ∀ i ∈ add new l, i.1 < i.2 := by
  unfold add
  cases h : absorb new l with
  | some l' => exact nonempty_absorb hl h
  | none =>
    intro i hi
    rcases List.mem_append.mp hi with hi | hi
    · exact hl i hi
    · rw [List.mem_singleton.mp hi]
      exact hnew

/-! ## Overlaps -/

/-- Intervals with points in them overlap when each begins before the
    other one ends. -/
theorem not_apart_iff (hi : i.1 < i.2) (hj : j.1 < j.2) :
    ¬ Apart i j ↔ i.1 < j.2 ∧ j.1 < i.2 := by
  constructor
  · intro h
    obtain ⟨a, ha⟩ := not_forall.mp h
    obtain ⟨hai, haj⟩ := Classical.not_imp.mp ha
    rw [not_not] at haj
    exact ⟨hai.1.trans_lt haj.2, haj.1.trans_lt hai.2⟩
  · intro h hapart
    -- the later one of the two begins is in both
    exact hapart (max i.1 j.1) ⟨le_max_left _ _, max_lt hi h.2⟩ ⟨le_max_right _ _, max_lt h.1 hj⟩

theorem apart_of_not_meets (h : ¬ Meets new i) : Apart i new := by
  intro a hi hnew
  exact h ⟨hi.1.trans hnew.2.le, hnew.1.trans hi.2.le⟩

theorem apart_hull (h : Meets new i) : Apart (hull new i) j ↔ Apart i j ∧ Apart new j := by
  unfold Apart
  rw [points_hull h]
  simp only [Set.mem_union, or_imp, forall_and]

theorem apart_covered : (∀ j ∈ l, Apart i j) ↔ ∀ a ∈ points i, a ∉ covered l := by
  constructor
  · intro h a hi hl
    obtain ⟨j, hj, ha⟩ := hl
    exact h j hj a hi ha
  · intro h j hj a hi ha
    exact h a hi ⟨j, hj, ha⟩

/-- **Overlaps after an absorption.** -/
theorem pairwise_absorb {l' : List (α × α)} (hl : l.Pairwise Apart) (h : absorb new l = some l') :
    l'.Pairwise Apart ↔ ∀ j ∈ behind new l, Apart new j := by
  induction l generalizing l' with
  | nil => cases h
  | cons i l ih =>
    obtain ⟨hi, hl⟩ := List.pairwise_cons.mp hl
    rw [absorb] at h
    rw [behind]
    by_cases hmeet : Meets new i
    · rw [if_pos hmeet] at h ⊢
      obtain rfl := Option.some.inj h
      rw [List.pairwise_cons]
      constructor
      · intro hhull j hj
        exact ((apart_hull hmeet).mp (hhull.1 j hj)).2
      · intro hnew
        exact ⟨fun j hj => (apart_hull hmeet).mpr ⟨hi j hj, hnew j hj⟩, hl⟩
    · rw [if_neg hmeet] at h ⊢
      obtain ⟨l', hl', rfl⟩ := Option.map_eq_some_iff.mp h
      -- what is added to the rest does not reach `i`
      have hkeep : ∀ j ∈ l', Apart i j := by
        rw [apart_covered, covered_absorb hl']
        intro a ha hcovered
        rcases hcovered with hold | hnew
        · exact apart_covered.mp hi a ha hold
        · exact apart_of_not_meets hmeet a ha hnew
      rw [List.pairwise_cons, ih hl hl']
      exact and_iff_right hkeep

theorem absorb_eq_none (h : absorb new l = none) : behind new l = [] ∧ ∀ i ∈ l, ¬ Meets new i := by
  induction l with
  | nil => exact ⟨rfl, fun i hi => absurd hi List.not_mem_nil⟩
  | cons i l ih =>
    rw [absorb] at h
    rw [behind]
    by_cases hmeet : Meets new i
    · rw [if_pos hmeet] at h
      cases h
    · rw [if_neg hmeet] at h ⊢
      obtain ⟨hbehind, hnone⟩ := ih (Option.map_eq_none_iff.mp h)
      exact ⟨hbehind, List.forall_mem_cons.mpr ⟨hmeet, hnone⟩⟩

/-- **Overlaps after an addition.** -/
theorem pairwise_add (hl : l.Pairwise Apart) (new : α × α) :
    (add new l).Pairwise Apart ↔ ∀ j ∈ behind new l, Apart new j := by
  unfold add
  cases h : absorb new l with
  | some l' => exact pairwise_absorb hl h
  | none =>
    obtain ⟨hbehind, hnone⟩ := absorb_eq_none h
    have hconcat : (l ++ [new]).Pairwise Apart := by
      rw [List.pairwise_append]
      refine ⟨hl, List.pairwise_singleton _ _, ?_⟩
      intro i hi j hj
      rw [List.mem_singleton.mp hj]
      exact apart_of_not_meets (hnone i hi)
    rw [hbehind]
    exact ⟨fun _ j hj => absurd hj List.not_mem_nil, fun _ => hconcat⟩

end Intervals
