import Mathlib.Data.List.Basic

/-! # Texts made of whole units

    A set of units none of which is a prefix of another one, and the
    texts that are concatenations of units. A text is made of units in
    one way only, and cutting it short leaves a longest prefix that is
    made of whole units again: the units in front of the one that the
    cut falls into. -/

universe u

namespace Units

variable {α : Type u}

/-- A concatenation of units. -/
def Whole (U : List α → Prop) (s : List α) : Prop :=
  ∃ us : List (List α), (∀ u ∈ us, U u) ∧ us.flatten = s

/-- The longest prefix of at most `len` symbols that is made of whole
    units is that of `n` symbols. -/
structure Longest (U : List α → Prop) (s : List α) (len n : Nat) : Prop where
  le : n ≤ len
  le_length : n ≤ s.length
  whole : Whole U (s.take n)
  max : ∀ m ≤ len, m ≤ s.length → Whole U (s.take m) → m ≤ n

/-- The unit `u` stands at the cut after `len` symbols: it begins within
    them and ends beyond. In front of it stands `p`. -/
structure AtCut (U : List α → Prop) (s : List α) (len : Nat) (p u : List α) : Prop where
  front : Whole U p
  unit : U u
  begins : p.length ≤ len
  ends : len < p.length + u.length
  isPrefix : p ++ u <+: s

section Whole

variable {U : List α → Prop} {s p u : List α} {len n m : Nat}

theorem whole_nil : Whole U [] :=
  ⟨[], by simp, rfl⟩

theorem Whole.append_unit (hp : Whole U p) (hu : U u) : Whole U (p ++ u) := by
  obtain ⟨us, hus, rfl⟩ := hp
  refine ⟨us ++ [u], ?_, by simp⟩
  intro v hv
  rcases List.mem_append.mp hv with hv | hv
  · exact hus v hv
  · rw [List.mem_singleton.mp hv]
    exact hu

/-- A text that is not empty ends in a unit. -/
theorem Whole.eq_nil_or_append_unit (hs : Whole U s) :
    s = [] ∨ ∃ p u, Whole U p ∧ U u ∧ s = p ++ u := by
  obtain ⟨us, hus, rfl⟩ := hs
  rcases List.eq_nil_or_concat us with rfl | ⟨us, u, rfl⟩
  · exact .inl rfl
  · rw [List.concat_eq_append] at hus ⊢
    refine .inr ⟨us.flatten, u, ⟨us, fun v hv => hus v ?_, rfl⟩, hus u ?_, by simp⟩
    · exact List.mem_append_left _ hv
    · exact List.mem_append_right _ (List.mem_singleton.mpr rfl)

/-- A cut that leaves something out falls into a unit, or in front of one. -/
theorem Whole.exists_atCut (hs : Whole U s) (hlen : len < s.length) : ∃ p u, AtCut U s len p u := by
  obtain ⟨us, hus, rfl⟩ := hs
  induction us generalizing len with
  | nil => exact absurd hlen (Nat.not_lt_zero len)
  | cons v us ih =>
    have hv : U v := hus v List.mem_cons_self
    have hrest : ∀ w ∈ us, U w := fun w hw => hus w (List.mem_cons_of_mem v hw)
    rw [List.flatten_cons] at hlen ⊢
    by_cases hin : len < v.length
    · exact ⟨[], v, whole_nil, hv, Nat.zero_le _, by simpa using hin, List.prefix_append v _⟩
    · -- the cut lies beyond the first unit
      rw [List.length_append] at hlen
      have hlen' : len - v.length < us.flatten.length := by omega
      obtain ⟨p, u, h⟩ := ih hrest hlen'
      obtain ⟨ps, hps, rfl⟩ := h.front
      have hbegins := h.begins
      have hends := h.ends
      refine ⟨v ++ ps.flatten, u, ⟨⟨v :: ps, ?_, rfl⟩, h.unit, ?_, ?_, ?_⟩⟩
      · exact List.forall_mem_cons.mpr ⟨hv, hps⟩
      · rw [List.length_append]
        omega
      · rw [List.length_append]
        omega
      · rw [List.append_assoc]
        exact (List.prefix_append_right_inj v).mpr h.isPrefix

end Whole

/-- No unit is a prefix of another one, or empty. -/
structure PrefixFree (U : List α → Prop) : Prop where
  ne_nil : ∀ u, U u → u ≠ []
  eq_of_isPrefix : ∀ u v, U u → U v → u <+: v → u = v

section Longest

variable {U : List α → Prop} {s p u : List α} {len n m : Nat}

/-- Two texts of which one is a prefix of the other are made of the same
    units, as far as the shorter one goes. -/
theorem PrefixFree.exists_append (hU : PrefixFree U) {us vs : List (List α)} (hus : ∀ u ∈ us, U u)
    (hvs : ∀ v ∈ vs, U v) (h : us.flatten <+: vs.flatten) : ∃ ws, vs = us ++ ws := by
  induction us generalizing vs with
  | nil => exact ⟨vs, rfl⟩
  | cons u us ih =>
    have hu : U u := hus u List.mem_cons_self
    have hrest : ∀ w ∈ us, U w := fun w hw => hus w (List.mem_cons_of_mem u hw)
    rw [List.flatten_cons] at h
    cases vs with
    | nil =>
      have hnil := List.prefix_nil.mp h
      exact absurd (List.append_eq_nil_iff.mp hnil).1 (hU.ne_nil u hu)
    | cons v vs =>
      have hv : U v := hvs v List.mem_cons_self
      have hrest' : ∀ w ∈ vs, U w := fun w hw => hvs w (List.mem_cons_of_mem v hw)
      rw [List.flatten_cons] at h
      -- both begin the longer text, so one is a prefix of the other
      have hsame : u = v := by
        have hpu : u <+: v ++ vs.flatten := (List.prefix_append u _).trans h
        rcases List.prefix_or_prefix_of_prefix hpu (List.prefix_append v _) with huv | hvu
        · exact hU.eq_of_isPrefix u v hu hv huv
        · exact (hU.eq_of_isPrefix v u hv hu hvu).symm
      subst hsame
      obtain ⟨ws, rfl⟩ := ih hrest hrest' ((List.prefix_append_right_inj u).mp h)
      exact ⟨ws, rfl⟩

/-- What stands in front of the cut unit is the longest prefix. -/
theorem AtCut.longest (hU : PrefixFree U) (h : AtCut U s len p u) : Longest U s len p.length := by
  have hp : p <+: s := (List.prefix_append p u).trans h.isPrefix
  refine ⟨h.begins, hp.length_le, ?_, ?_⟩
  · have heq : p = s.take p.length := List.prefix_iff_eq_take.mp hp
    rw [← heq]
    exact h.front
  · intro m hm hlen hwhole
    by_contra hlt
    -- a longer one would have the cut unit in it
    obtain ⟨ps, hps, hpeq⟩ := h.front
    obtain ⟨us, hus, hueq⟩ := hwhole
    have hends := h.ends
    have hcut : us.flatten <+: (ps ++ [u]).flatten := by
      rw [hueq, List.flatten_append, hpeq, List.flatten_singleton]
      refine List.prefix_of_prefix_length_le (List.take_prefix m s) h.isPrefix ?_
      rw [List.length_take, List.length_append]
      omega
    have hall : ∀ v ∈ ps ++ [u], U v := by
      intro v hv
      rcases List.mem_append.mp hv with hv | hv
      · exact hps v hv
      · rw [List.mem_singleton.mp hv]
        exact h.unit
    obtain ⟨ws, hws⟩ := hU.exists_append hus hall hcut
    have hsum := congrArg (fun vs => vs.flatten.length) hws
    simp only [List.flatten_append, hpeq, hueq, List.flatten_singleton, List.length_append,
      List.length_take, Nat.min_eq_left hlen] at hsum
    cases ws with
    | nil =>
      simp only [List.flatten_nil, List.length_nil] at hsum
      omega
    | cons w ws =>
      -- at most `p` is left for the units of the prefix
      obtain ⟨front, rfl⟩ : ∃ front, us ++ front = ps := by
        have hlast := congrArg List.dropLast hws
        rw [List.dropLast_concat, List.dropLast_append_of_ne_nil (List.cons_ne_nil w ws)] at hlast
        exact ⟨_, hlast.symm⟩
      rw [List.flatten_append, hueq] at hpeq
      have hle := congrArg List.length hpeq
      rw [List.length_append, List.length_take, Nat.min_eq_left hlen] at hle
      omega

theorem Longest.unique (h : Longest U s len n) (h' : Longest U s len m) : n = m :=
  Nat.le_antisymm (h'.max n h.le h.le_length h.whole) (h.max m h'.le h'.le_length h'.whole)

end Longest

end Units
