import Mathlib.Data.Finset.Card
import Mathlib.Data.Fintype.Card
import Mathlib.Logic.Function.Basic

/-! # Linear probing

    A table of `n` slots, each of them free or with the entry of a key.
    The entry of a key is looked for from the key's home slot on, around
    the end of the table, and up to the first free slot. No entry is ever
    removed.

    `Represents home n t m` says that the table is the finite map `m`:
    every entry is one of the map and stands at the end of a chain of
    entries of other keys that begins at its home slot. The rules say
    that a lookup is the map's, and that setting an entry sets it in the
    map, as long as there is a free slot for a new key. -/

namespace Probing

/-- The slots by number; a free one is `none`. -/
abbrev Slots (Key Val : Type) := Nat → Option (Key × Val)

/-- Where a search ends. -/
inductive Place where
  | found (idx : Nat)
  | free (idx : Nat)
  | full
  deriving DecidableEq, Repr

section Operations

variable {Key Val : Type} [DecidableEq Key]

/-- The slot in distance `d` from the slot `start`. -/
def slot (n start d : Nat) : Nat := (start + d) % n

/-- The search for a key from distance `d` on, with so many slots to go. -/
def searchFrom (n : Nat) (t : Slots Key Val) (key : Key) (start : Nat) : Nat → Nat → Place
  | 0, _ => .full
  | left + 1, d =>
    match t (slot n start d) with
    | none => .free (slot n start d)
    | some e =>
      if e.1 = key then .found (slot n start d) else searchFrom n t key start left (d + 1)

/-- The search over the whole table. -/
def search (n : Nat) (t : Slots Key Val) (key : Key) (start : Nat) : Place :=
  searchFrom n t key start n 0

def lookup (home : Key → Nat) (n : Nat) (t : Slots Key Val) (key : Key) : Option Val :=
  match search n t key (home key) with
  | .found idx => (t idx).map Prod.snd
  | _ => none

/-- Set the entry of a key from what it was; nothing happens when there is
    no room. -/
def set (home : Key → Nat) (n : Nat) (t : Slots Key Val) (key : Key) (f : Option Val → Val) :
    Slots Key Val :=
  match search n t key (home key) with
  | .found idx => Function.update t idx (some (key, f ((t idx).map Prod.snd)))
  | .free idx => Function.update t idx (some (key, f none))
  | .full => t

end Operations

/-! ## The search -/

section Search

variable {Key Val : Type} {n : Nat} {t : Slots Key Val} {key : Key} {start : Nat}

/-- A slot with the entry of another key. -/
def Passed (t : Slots Key Val) (key : Key) (idx : Nat) : Prop :=
  ∃ e, t idx = some e ∧ e.1 ≠ key

/-- The search for a key reaches distance `d`. -/
structure Reaches (n : Nat) (t : Slots Key Val) (key : Key) (start d : Nat) : Prop where
  lt : d < n
  passed : ∀ d' < d, Passed t key (slot n start d')

theorem Passed.ne_free {idx : Nat} (h : Passed t key idx) : t idx ≠ none := by
  obtain ⟨e, he, -⟩ := h
  rw [he]
  exact Option.some_ne_none e

theorem Passed.ne_found {idx : Nat} (h : Passed t key idx) (v : Val) : t idx ≠ some (key, v) := by
  obtain ⟨e, he, hne⟩ := h
  intro hfound
  rw [he] at hfound
  exact hne (congrArg Prod.fst (Option.some.inj hfound))

/-- A slot that is set is still passed by the search for another key. -/
theorem Passed.update {k : Key} {j idx : Nat} (h : Passed t k j) (v : Val)
    (hother : j = idx → k ≠ key) : Passed (Function.update t idx (some (key, v))) k j := by
  by_cases hj : j = idx
  · subst hj
    exact ⟨(key, v), Function.update_self .., (hother rfl).symm⟩
  · obtain ⟨e, he, hne⟩ := h
    exact ⟨e, (Function.update_of_ne hj ..).trans he, hne⟩

theorem slot_lt (hn : 0 < n) (start d : Nat) : slot n start d < n :=
  Nat.mod_lt _ hn

/-- Every slot is in some distance. -/
theorem exists_slot {idx : Nat} (h : idx < n) (start : Nat) : ∃ d < n, slot n start d = idx := by
  have hn : 0 < n := Nat.zero_lt_of_lt h
  have hle : start % n ≤ n := (Nat.mod_lt start hn).le
  refine ⟨(idx + (n - start % n)) % n, Nat.mod_lt _ hn, ?_⟩
  have hsum : start % n + (idx + (n - start % n)) = idx + n := by omega
  rw [slot, Nat.add_mod_mod, ← Nat.mod_add_mod, hsum, Nat.add_mod_right, Nat.mod_eq_of_lt h]

/-- What a place says about the table. -/
inductive Ends (n : Nat) (t : Slots Key Val) (key : Key) (start : Nat) : Place → Prop where
  | found {d : Nat} {v : Val} (hreach : Reaches n t key start d)
      (hslot : t (slot n start d) = some (key, v)) : Ends n t key start (.found (slot n start d))
  | free {d : Nat} (hreach : Reaches n t key start d) (hslot : t (slot n start d) = none) :
      Ends n t key start (.free (slot n start d))
  | full (hpassed : ∀ d < n, Passed t key (slot n start d)) : Ends n t key start .full

variable [DecidableEq Key]

theorem searchFrom_ends {left d : Nat} (hsum : d + left = n)
    (hpassed : ∀ d' < d, Passed t key (slot n start d')) :
    Ends n t key start (searchFrom n t key start left d) := by
  induction left generalizing d with
  | zero =>
    obtain rfl : d = n := hsum
    exact .full hpassed
  | succ left ih =>
    have hreach : Reaches n t key start d := ⟨by omega, hpassed⟩
    rw [searchFrom]
    rcases hslot : t (slot n start d) with _ | ⟨k, v⟩
    · exact .free hreach hslot
    · show Ends n t key start (if k = key then _ else _)
      by_cases hk : k = key
      · subst hk
        rw [if_pos rfl]
        exact .found hreach hslot
      · rw [if_neg hk]
        refine ih (by omega) ?_
        intro d' hd'
        rcases Nat.lt_succ_iff_lt_or_eq.mp hd' with hlt | rfl
        · exact hpassed d' hlt
        · exact ⟨(k, v), hslot, hk⟩

/-- **The search.** -/
theorem search_ends (n : Nat) (t : Slots Key Val) (key : Key) (start : Nat) :
    Ends n t key start (search n t key start) :=
  searchFrom_ends (Nat.zero_add n) fun _ h => absurd h (Nat.not_lt_zero _)

end Search

/-! ## The table as a finite map -/

/-- The table is the map `m`, and every entry is reached from its home. -/
structure Represents {Key Val : Type} (home : Key → Nat) (n : Nat) (t : Slots Key Val)
    (m : Key → Option Val) : Prop where
  stored : ∀ key v, m key = some v → ∃ idx < n, t idx = some (key, v)
  mapped : ∀ idx < n, ∀ key v, t idx = some (key, v) → m key = some v
  chained : ∀ idx < n, ∀ key v, t idx = some (key, v) →
    ∃ d, slot n (home key) d = idx ∧ Reaches n t key (home key) d

section Rules

variable {Key Val : Type} {home : Key → Nat} {n : Nat} {t : Slots Key Val}
  {m : Key → Option Val} {key : Key}

theorem represents_empty (home : Key → Nat) (n : Nat) :
    Represents home n (fun _ => none : Slots Key Val) fun _ => none where
  stored _ _ h := absurd h (Option.some_ne_none _).symm
  mapped _ _ _ _ h := absurd h (Option.some_ne_none _).symm
  chained _ _ _ _ h := absurd h (Option.some_ne_none _).symm

/-- The search for a key does not stop anywhere but at its entry: in front
    of the entry it passes every slot, and it does not pass the entry. -/
theorem Represents.eq_slot (h : Represents home n t m) {d j : Nat} {w : Val}
    (hreach : Reaches n t key (home key) d) (hstop : ¬ Passed t key (slot n (home key) d))
    (hj : j < n) (ht : t j = some (key, w)) : j = slot n (home key) d := by
  obtain ⟨d', rfl, hd'⟩ := h.chained j hj key w ht
  rcases Nat.lt_trichotomy d d' with hlt | rfl | hlt
  · exact absurd (hd'.passed d hlt) hstop
  · rfl
  · exact absurd ht ((hreach.passed d' hlt).ne_found w)

/-- The entry of a key stands in one slot only. -/
theorem Represents.unique (h : Represents home n t m) {i j : Nat} {v w : Val} (hi : i < n)
    (hj : j < n) (hti : t i = some (key, v)) (htj : t j = some (key, w)) : i = j := by
  obtain ⟨d, rfl, hd⟩ := h.chained i hi key v hti
  exact (h.eq_slot hd (fun hpassed => hpassed.ne_found v hti) hj htj).symm

/-- A key of the map is not searched for in vain. -/
theorem Represents.eq_none (h : Represents home n t m) {d : Nat}
    (hreach : Reaches n t key (home key) d) (hfree : t (slot n (home key) d) = none) :
    m key = none := by
  cases hm : m key with
  | none => rfl
  | some v =>
    obtain ⟨idx, hidx, ht⟩ := h.stored key v hm
    rw [h.eq_slot hreach (fun hpassed => hpassed.ne_free hfree) hidx ht, hfree] at ht
    cases ht

theorem Represents.eq_none_of_full (h : Represents home n t m)
    (hfull : ∀ d < n, Passed t key (slot n (home key) d)) : m key = none := by
  cases hm : m key with
  | none => rfl
  | some v =>
    obtain ⟨idx, hidx, ht⟩ := h.stored key v hm
    obtain ⟨d, hd, rfl⟩ := exists_slot hidx (home key)
    exact absurd ht ((hfull d hd).ne_found v)

/-- With fewer keys than slots a slot is free. -/
theorem Represents.exists_free (h : Represents home n t m) {ks : Finset Key}
    (hks : ∀ key, m key ≠ none → key ∈ ks) (hcard : ks.card < n) : ∃ idx < n, t idx = none := by
  by_contra hall
  have hused : ∀ i : Fin n, ∃ e, t i.val = some e := by
    intro i
    cases ht : t i.val with
    | none => exact absurd ⟨i.val, i.isLt, ht⟩ hall
    | some e => exact ⟨e, rfl⟩
  choose e he using hused
  have hmem : ∀ i, (e i).1 ∈ ks := by
    intro i
    apply hks
    rw [h.mapped i.val i.isLt (e i).1 (e i).2 (he i)]
    exact Option.some_ne_none _
  have hinj : Function.Injective fun i => (e i).1 := by
    intro i j hij
    have hti : t i.val = some ((e j).1, (e i).2) := by
      rw [he i, ← show (e i).1 = (e j).1 from hij]
    exact Fin.ext (h.unique i.isLt j.isLt hti (he j))
  have hle : (Finset.univ : Finset (Fin n)).card ≤ ks.card :=
    Finset.card_le_card_of_injOn (fun i => (e i).1) (fun i _ => hmem i) hinj.injOn
  rw [Finset.card_univ, Fintype.card_fin] at hle
  exact absurd hcard (Nat.not_lt.mpr hle)

variable [DecidableEq Key]

/-- **Lookup.** -/
theorem Represents.lookup_eq (h : Represents home n t m) (key : Key) :
    lookup home n t key = m key := by
  have hend := search_ends n t key (home key)
  unfold lookup
  generalize search n t key (home key) = place at hend
  cases hend with
  | @found d v hreach hslot =>
    have hn : 0 < n := Nat.zero_lt_of_lt hreach.lt
    show (t (slot n (home key) d)).map Prod.snd = _
    rw [hslot, h.mapped _ (slot_lt hn _ _) key v hslot]
    rfl
  | free hreach hslot => exact (h.eq_none hreach hslot).symm
  | full hpassed => exact (h.eq_none_of_full hpassed).symm

/-- Setting the slot that the search for a key has ended at. -/
theorem Represents.update (h : Represents home n t m) {d : Nat} (v : Val)
    (hreach : Reaches n t key (home key) d) (hstop : ¬ Passed t key (slot n (home key) d)) :
    Represents home n (Function.update t (slot n (home key) d) (some (key, v)))
      (Function.update m key (some v)) := by
  have hlt : slot n (home key) d < n := slot_lt (Nat.zero_lt_of_lt hreach.lt) _ _
  have honly {j : Nat} {w : Val} (hj : j < n) (ht : t j = some (key, w)) :
      j = slot n (home key) d := h.eq_slot hreach hstop hj ht
  generalize hidx : slot n (home key) d = idx at hstop hlt honly ⊢
  refine ⟨?_, ?_, ?_⟩
  · intro k w hm
    by_cases hk : k = key
    · subst hk
      rw [Function.update_self] at hm
      obtain rfl := Option.some.inj hm
      exact ⟨idx, hlt, Function.update_self ..⟩
    · rw [Function.update_of_ne hk] at hm
      obtain ⟨j, hj, ht⟩ := h.stored k w hm
      -- an entry of another key is not where the search stops
      have hji : j ≠ idx := by
        rintro rfl
        exact hstop ⟨(k, w), ht, hk⟩
      exact ⟨j, hj, (Function.update_of_ne hji ..).trans ht⟩
  · intro j hj k w ht
    by_cases hji : j = idx
    · subst hji
      rw [Function.update_self] at ht
      obtain ⟨rfl, rfl⟩ := Prod.mk.inj (Option.some.inj ht)
      exact Function.update_self ..
    · rw [Function.update_of_ne hji] at ht
      have hk : k ≠ key := by
        rintro rfl
        exact hji (honly hj ht)
      rw [Function.update_of_ne hk]
      exact h.mapped j hj k w ht
  · intro j hj k w ht
    by_cases hji : j = idx
    · subst hji
      rw [Function.update_self] at ht
      obtain ⟨rfl, rfl⟩ := Prod.mk.inj (Option.some.inj ht)
      refine ⟨d, hidx, hreach.lt, ?_⟩
      intro d' hd'
      have hpassed := hreach.passed d' hd'
      exact hpassed.update v fun heq => absurd (heq ▸ hpassed) hstop
    · rw [Function.update_of_ne hji] at ht
      have hk : k ≠ key := by
        rintro rfl
        exact hji (honly hj ht)
      obtain ⟨d', hd', hr⟩ := h.chained j hj k w ht
      exact ⟨d', hd', hr.lt, fun d'' hd'' => (hr.passed d'' hd'').update v fun _ => hk⟩

/-- **Setting an entry**, when there is room for it. -/
theorem Represents.set (h : Represents home n t m) (f : Option Val → Val)
    (hroom : m key = none → ∃ idx < n, t idx = none) :
    Represents home n (set home n t key f) (Function.update m key (some (f (m key)))) := by
  have hend := search_ends n t key (home key)
  unfold Probing.set
  generalize search n t key (home key) = place at hend
  cases hend with
  | @found d v hreach hslot =>
    have hn : 0 < n := Nat.zero_lt_of_lt hreach.lt
    have hm : m key = some v := h.mapped _ (slot_lt hn _ _) key v hslot
    simp only [hm, hslot, Option.map_some]
    exact h.update (f (some v)) hreach fun hpassed => hpassed.ne_found v hslot
  | @free d hreach hslot =>
    rw [h.eq_none hreach hslot]
    exact h.update (f none) hreach fun hpassed => hpassed.ne_free hslot
  | full hpassed =>
    obtain ⟨idx, hidx, hfree⟩ := hroom (h.eq_none_of_full hpassed)
    obtain ⟨d, hd, rfl⟩ := exists_slot hidx (home key)
    exact absurd hfree (hpassed d hd).ne_free

/-- **Runs.** Setting one entry after the other sets them in the map, when
    there are no more keys than slots. -/
theorem Represents.run (h : Represents home n t m) {ks : Finset Key} (hcard : ks.card ≤ n)
    (hm : ∀ key, m key ≠ none → key ∈ ks) (ops : List (Key × (Option Val → Val)))
    (hops : ∀ op ∈ ops, op.1 ∈ ks) :
    Represents home n (ops.foldl (fun t op => Probing.set home n t op.1 op.2) t)
      (ops.foldl (fun m op => Function.update m op.1 (some (op.2 (m op.1)))) m) := by
  induction ops generalizing t m with
  | nil => exact h
  | cons op ops ih =>
    obtain ⟨key, f⟩ := op
    have hkey : key ∈ ks := hops (key, f) List.mem_cons_self
    have hroom : m key = none → ∃ idx < n, t idx = none := by
      intro hnew
      -- the new key itself is not in the map
      have hold : ∀ k, m k ≠ none → k ∈ ks.erase key := by
        intro k hk
        refine Finset.mem_erase.mpr ⟨?_, hm k hk⟩
        rintro rfl
        exact hk hnew
      exact h.exists_free hold (Nat.lt_of_lt_of_le (Finset.card_erase_lt_of_mem hkey) hcard)
    refine ih (h.set f hroom) ?_ fun op hop => hops op (List.mem_cons_of_mem _ hop)
    intro k hk
    by_cases hkk : k = key
    · subst hkk
      exact hkey
    · have hset : Function.update m key (some (f (m key))) k = m k :=
        Function.update_of_ne hkk ..
      exact hm k (hset ▸ hk)

end Rules

end Probing
