import Mathlib.Data.List.Perm.Basic
import Mathlib.Data.List.Basic

/-! # Release ledgers

    Resources are acquired under a key, and a key may be used again after
    its release. An acquired resource is held by its owner, who releases
    it or hands it over to a peer, who then has to release it. The ledger
    keeps one entry for each acquisition, latest first, with the number
    of releases by either party. A release counts for the latest entry
    of its key.

    `Balanced es held flying` says that every resource is held, on its
    way to the peer, or has been released exactly once by the party that
    had it last. The rules say how each operation moves resources
    between `held` and `flying`. -/

universe u

namespace Ledger

/-- One acquisition. -/
structure Entry (K : Type u) where
  key : K
  handedOver : Bool
  byOwner : Nat
  byPeer : Nat
  deriving DecidableEq, Repr

namespace Entry

variable {K : Type u} (e : Entry K)

/-- Not released yet. -/
def live : Bool :=
  e.byOwner = 0 && e.byPeer = 0

/-- Held by the owner. -/
def held : Bool :=
  e.live && !e.handedOver

/-- On its way to the peer. -/
def flying : Bool :=
  e.live && e.handedOver

/-- Released exactly once, by the party that had it last. -/
def settled : Bool :=
  if e.handedOver then e.byOwner = 0 && e.byPeer = 1 else e.byOwner = 1 && e.byPeer = 0

end Entry

section Operations

variable {K : Type u} [DecidableEq K]

def acquire (k : K) (es : List (Entry K)) : List (Entry K) :=
  ⟨k, false, 0, 0⟩ :: es

/-- Change the latest entry of a key. -/
def alter (k : K) (f : Entry K → Entry K) : List (Entry K) → List (Entry K)
  | [] => []
  | e :: es => if e.key = k then f e :: es else e :: alter k f es

def releaseByOwner (es : List (Entry K)) (k : K) : List (Entry K) :=
  alter k (fun e => { e with byOwner := e.byOwner + 1 }) es

def releaseByPeer (es : List (Entry K)) (k : K) : List (Entry K) :=
  alter k (fun e => { e with byPeer := e.byPeer + 1 }) es

/-- Hand the live resources of the keys `ks` over. -/
def handOver (ks : List K) (es : List (Entry K)) : List (Entry K) :=
  es.map fun e => if e.live ∧ e.key ∈ ks then { e with handedOver := true } else e

/-- The keys of the entries with a property. -/
def keys (p : Entry K → Bool) (es : List (Entry K)) : List K :=
  (es.filter p).map Entry.key

end Operations

/-! ## Balanced ledgers -/

section Balance

variable {K : Type u} {es : List (Entry K)} {k : K} {h f : List K}

@[simp] theorem keys_nil (p : Entry K → Bool) : keys p [] = [] := rfl

theorem keys_cons_of_pos {p : Entry K → Bool} {e : Entry K} (he : p e = true) :
    keys p (e :: es) = e.key :: keys p es := by
  simp [keys, he]

theorem keys_cons_of_neg {p : Entry K → Bool} {e : Entry K} (he : p e = false) :
    keys p (e :: es) = keys p es := by
  simp [keys, he]

@[simp] theorem keys_append (p : Entry K → Bool) (es es' : List (Entry K)) :
    keys p (es ++ es') = keys p es ++ keys p es' := by
  simp [keys]

theorem mem_keys {p : Entry K → Bool} : k ∈ keys p es ↔ ∃ e ∈ es, p e = true ∧ e.key = k := by
  simp [keys, and_assoc]

/-- Only the latest entry of a key may be live. -/
def LatestLive (es : List (Entry K)) : Prop :=
  es.Pairwise fun new old => new.key = old.key → old.live = false

/-- Every resource is held, flying, or released once by the right party;
    `held` and `flying` list the keys of the first two. -/
structure Balanced (es : List (Entry K)) (held flying : List K) : Prop where
  latest : LatestLive es
  state : ∀ e ∈ es, e.held = true ∨ e.flying = true ∨ e.settled = true
  held : (keys Entry.held es).Perm held
  flying : (keys Entry.flying es).Perm flying

theorem Balanced.nil : Balanced ([] : List (Entry K)) [] [] :=
  ⟨List.Pairwise.nil, by simp, List.Perm.refl _, List.Perm.refl _⟩

theorem Entry.live_of_held {e : Entry K} (he : e.held = true) : e.live = true := by
  simp only [Entry.held, Bool.and_eq_true] at he
  exact he.1

theorem Entry.live_of_flying {e : Entry K} (he : e.flying = true) : e.live = true := by
  simp only [Entry.flying, Bool.and_eq_true] at he
  exact he.1

/-- What is held or flying is live. -/
theorem Balanced.mem_live (hb : Balanced es h f) (hk : k ∈ h ++ f) : k ∈ keys Entry.live es := by
  rcases List.mem_append.mp hk with hk | hk
  · obtain ⟨e, he, hheld, hkey⟩ := mem_keys.mp (hb.held.symm.subset hk)
    exact mem_keys.mpr ⟨e, he, Entry.live_of_held hheld, hkey⟩
  · obtain ⟨e, he, hflying, hkey⟩ := mem_keys.mp (hb.flying.symm.subset hk)
    exact mem_keys.mpr ⟨e, he, Entry.live_of_flying hflying, hkey⟩

/-- A live key is neither held nor flying when it is not listed. -/
theorem Balanced.live_mem (hb : Balanced es h f) {e : Entry K} (he : e ∈ es)
    (hlive : e.live = true) : e.key ∈ h ++ f := by
  cases hover : e.handedOver with
  | false =>
    have hheld : e.held = true := by simp [Entry.held, hlive, hover]
    exact List.mem_append_left _ (hb.held.subset (mem_keys.mpr ⟨e, he, hheld, rfl⟩))
  | true =>
    have hflying : e.flying = true := by simp [Entry.flying, hlive, hover]
    exact List.mem_append_right _ (hb.flying.subset (mem_keys.mpr ⟨e, he, hflying, rfl⟩))

/-- Killing an entry keeps older entries dead. -/
theorem LatestLive.replace {pre post : List (Entry K)} {e e' : Entry K}
    (hl : LatestLive (pre ++ e :: post)) (hkey : e'.key = e.key) (hdead : e'.live = false) :
    LatestLive (pre ++ e' :: post) := by
  unfold LatestLive at hl ⊢
  rw [List.pairwise_append, List.pairwise_cons] at hl ⊢
  obtain ⟨hpre, ⟨hhead, hpost⟩, hcross⟩ := hl
  refine ⟨hpre, ⟨fun o ho heq => hhead o ho (hkey ▸ heq), hpost⟩, ?_⟩
  intro a ha b hb heq
  rcases List.mem_cons.mp hb with rfl | hb
  · exact hdead
  · exact hcross a ha b (List.mem_cons_of_mem _ hb) heq

/-- **Acquire rule**: a key that is not live becomes held. -/
theorem Balanced.acquire (hb : Balanced es h f) (hk : k ∉ h ++ f) :
    Balanced (Ledger.acquire k es) (h ++ [k]) f where
  latest := by
    refine List.pairwise_cons.mpr ⟨?_, hb.latest⟩
    intro e he heq
    by_contra hlive
    rw [Bool.not_eq_false] at hlive
    have hkey : k = e.key := heq
    exact hk (hkey ▸ hb.live_mem he hlive)
  state := by
    intro e he
    rcases List.mem_cons.mp he with rfl | he
    · exact .inl rfl
    · exact hb.state e he
  held := by
    have hkeys : keys Entry.held (Ledger.acquire k es) = k :: keys Entry.held es :=
      keys_cons_of_pos rfl
    rw [hkeys]
    exact (hb.held.cons k).trans (List.perm_append_singleton k h).symm
  flying := by
    have hkeys : keys Entry.flying (Ledger.acquire k es) = keys Entry.flying es :=
      keys_cons_of_neg rfl
    rw [hkeys]
    exact hb.flying

end Balance

/-! ## Rules -/

section Rules

variable {K : Type u} [DecidableEq K] {es : List (Entry K)} {k : K} {h f : List K}

/-- The latest entry of a live key is the live one, and is the one altered. -/
theorem exists_alter {p : Entry K → Bool} (hp : ∀ e, p e = true → e.live = true)
    (hl : LatestLive es) (hk : k ∈ keys p es) :
    ∃ pre e post, es = pre ++ e :: post ∧ e.key = k ∧ p e = true ∧
      ∀ g, alter k g es = pre ++ g e :: post := by
  induction es with
  | nil => simp at hk
  | cons e es ih =>
    obtain ⟨hhead, htail⟩ := List.pairwise_cons.mp hl
    obtain ⟨e', he', hpe', hkey'⟩ := mem_keys.mp hk
    by_cases hkey : e.key = k
    · -- an older entry of the same key would not be live
      have hpe : p e = true := by
        rcases List.mem_cons.mp he' with rfl | hmem
        · exact hpe'
        · have hdead := hhead e' hmem (hkey.trans hkey'.symm)
          rw [hp e' hpe'] at hdead
          cases hdead
      exact ⟨[], e, es, rfl, hkey, hpe, fun g => by simp [alter, hkey]⟩
    · have hmem : e' ∈ es := by
        rcases List.mem_cons.mp he' with rfl | hmem
        · exact absurd hkey' hkey
        · exact hmem
      obtain ⟨pre, e₀, post, hes, hkey₀, hpe₀, halter⟩ :=
        ih htail (mem_keys.mpr ⟨e', hmem, hpe', hkey'⟩)
      refine ⟨e :: pre, e₀, post, by simp [hes], hkey₀, hpe₀, fun g => ?_⟩
      rw [alter, if_neg hkey, halter g]
      rfl

omit [DecidableEq K] in
/-- **Release rule**: a live entry is settled, and its key is listed no more. -/
theorem Balanced.settle {pre post : List (Entry K)} {e e' : Entry K} {h' f' : List K}
    (hb : Balanced (pre ++ e :: post) h f) (hkey : e'.key = e.key) (hdead : e'.live = false)
    (hsettled : e'.settled = true) (hh : h.Perm (keys Entry.held [e] ++ h'))
    (hf : f.Perm (keys Entry.flying [e] ++ f')) : Balanced (pre ++ e' :: post) h' f' := by
  -- what is left of the listed keys once those of `e` are crossed out
  have hlisted {p : Entry K → Bool} {l l' : List K} (hdrop : p e' = false)
      (hl : (keys p (pre ++ e :: post)).Perm l) (hl' : l.Perm (keys p [e] ++ l')) :
      (keys p (pre ++ e' :: post)).Perm l' := by
    have hperm := hl.trans hl'
    rw [keys_append, ← List.singleton_append, keys_append] at hperm
    rw [keys_append, keys_cons_of_neg hdrop]
    exact (List.perm_append_left_iff _).mp ((List.perm_append_comm_assoc _ _ _).symm.trans hperm)
  refine ⟨hb.latest.replace hkey hdead, ?_, ?_, ?_⟩
  · intro o ho
    rcases List.mem_append.mp ho with ho | ho
    · exact hb.state o (by simp [ho])
    · rcases List.mem_cons.mp ho with rfl | ho
      · exact .inr (.inr hsettled)
      · exact hb.state o (by simp [ho])
  · exact hlisted (by simp [Entry.held, hdead]) hb.held hh
  · exact hlisted (by simp [Entry.flying, hdead]) hb.flying hf

/-- **Owner's release rule.** -/
theorem Balanced.releaseByOwner (hb : Balanced es (k :: h) f) :
    Balanced (Ledger.releaseByOwner es k) h f := by
  have hmem : k ∈ keys Entry.held es := hb.held.symm.subset (by simp)
  obtain ⟨pre, e, post, rfl, rfl, hheld, halter⟩ :=
    exists_alter (fun _ => Entry.live_of_held) hb.latest hmem
  have hcounts : e.handedOver = false ∧ e.byOwner = 0 ∧ e.byPeer = 0 := by
    simp only [Entry.held, Entry.live, Bool.and_eq_true, decide_eq_true_eq,
      Bool.not_eq_true'] at hheld
    exact ⟨hheld.2, hheld.1⟩
  have hnotflying : e.flying = false := by simp [Entry.flying, hcounts]
  rw [Ledger.releaseByOwner, halter]
  refine hb.settle rfl (by simp [Entry.live]) (by simp [Entry.settled, hcounts]) ?_ ?_
  · rw [keys_cons_of_pos hheld]
    exact List.Perm.refl _
  · rw [keys_cons_of_neg hnotflying]
    exact List.Perm.refl _

/-- **Peer's release rule.** -/
theorem Balanced.releaseByPeer (hb : Balanced es h (k :: f)) :
    Balanced (Ledger.releaseByPeer es k) h f := by
  have hmem : k ∈ keys Entry.flying es := hb.flying.symm.subset (by simp)
  obtain ⟨pre, e, post, rfl, rfl, hflying, halter⟩ :=
    exists_alter (fun _ => Entry.live_of_flying) hb.latest hmem
  have hcounts : e.handedOver = true ∧ e.byOwner = 0 ∧ e.byPeer = 0 := by
    simp only [Entry.flying, Entry.live, Bool.and_eq_true, decide_eq_true_eq] at hflying
    exact ⟨hflying.2, hflying.1⟩
  have hnotheld : e.held = false := by simp [Entry.held, hcounts]
  rw [Ledger.releaseByPeer, halter]
  refine hb.settle rfl (by simp [Entry.live]) (by simp [Entry.settled, hcounts]) ?_ ?_
  · rw [keys_cons_of_neg hnotheld]
    exact List.Perm.refl _
  · rw [keys_cons_of_pos hflying]
    exact List.Perm.refl _

/-- The owner releases everything it holds. -/
theorem Balanced.releaseAllByOwner (hb : Balanced es h f) :
    Balanced (h.foldl Ledger.releaseByOwner es) [] f := by
  induction h generalizing es with
  | nil => exact hb
  | cons k h ih => exact ih hb.releaseByOwner

/-- The peer releases the keys `ks` of those on their way to it. -/
theorem Balanced.releaseAllByPeer {ks : List K} (hb : Balanced es h (ks ++ f)) :
    Balanced (ks.foldl Ledger.releaseByPeer es) h f := by
  induction ks generalizing es with
  | nil => exact hb
  | cons k ks ih => exact ih hb.releaseByPeer

/-- An entry after everything held was handed over. -/
def Entry.pass (e : Entry K) : Entry K :=
  if e.held then { e with handedOver := true } else e

omit [DecidableEq K] in
/-- A hand-over takes what is held to what is flying and changes nothing else. -/
theorem Entry.pass_cases (e : Entry K) :
    e.pass.key = e.key ∧ e.pass.live = e.live ∧
      (e.held = true ∧ e.flying = false ∧ e.pass.held = false ∧ e.pass.flying = true ∨
        e.held = false ∧ e.pass = e) := by
  cases hheld : e.held with
  | true =>
    have h : e.live = true ∧ e.handedOver = false := by simpa [Entry.held] using hheld
    have hpass : e.pass = { e with handedOver := true } := if_pos hheld
    rw [hpass]
    refine ⟨rfl, rfl, .inl ⟨rfl, by simp [Entry.flying, h], by simp [Entry.held], ?_⟩⟩
    simpa [Entry.flying, Entry.live] using h.1
  | false =>
    have hpass : e.pass = e := if_neg (by simp [hheld])
    rw [hpass]
    exact ⟨rfl, rfl, .inr ⟨rfl, rfl⟩⟩

/-- Handing the held keys over passes every entry. -/
theorem Balanced.handOver_eq (hb : Balanced es h f) : handOver h es = es.map Entry.pass := by
  apply List.map_congr_left
  intro e he
  cases hheld : e.held with
  | true =>
    have hlive : e.live = true := Entry.live_of_held hheld
    have hkey : e.key ∈ h := hb.held.subset (mem_keys.mpr ⟨e, he, hheld, rfl⟩)
    rw [if_pos ⟨hlive, hkey⟩, Entry.pass, if_pos hheld]
  | false =>
    have hpass : e.pass = e := if_neg (by simp [hheld])
    rw [hpass]
    split
    · -- live but not held: handed over before
      rename_i hmem
      have hover : e.handedOver = true := by simpa [Entry.held, hmem.1] using hheld
      cases e
      simp_all
    · rfl

/-- **Hand-over rule**: everything held starts its way to the peer. -/
theorem Balanced.handOver (hb : Balanced es h f) :
    Balanced (Ledger.handOver h es) [] (f ++ h) := by
  rw [hb.handOver_eq]
  refine ⟨?_, ?_, ?_, ?_⟩
  · refine List.pairwise_map.mpr (hb.latest.imp ?_)
    intro a b hab heq
    rw [a.pass_cases.1, b.pass_cases.1] at heq
    rw [b.pass_cases.2.1]
    exact hab heq
  · intro o ho
    obtain ⟨e, he, rfl⟩ := List.mem_map.mp ho
    rcases e.pass_cases.2.2 with ⟨-, -, -, hfly⟩ | ⟨-, heq⟩
    · exact .inr (.inl hfly)
    · rw [heq]
      exact hb.state e he
  -- nothing is held any more
  · have hnone : keys Entry.held (es.map Entry.pass) = [] := by
      simp only [keys, List.map_eq_nil_iff, List.filter_eq_nil_iff, List.mem_map]
      rintro _ ⟨e, -, rfl⟩
      rcases e.pass_cases.2.2 with ⟨-, -, hno, -⟩ | ⟨hno, heq⟩
      · simp [hno]
      · simp [heq, hno]
    rw [hnone]
  -- what was flying stays so, and what was held joins it
  · have hsplit : ∀ l : List (Entry K),
        (keys Entry.flying (l.map Entry.pass)).Perm (keys Entry.flying l ++ keys Entry.held l) := by
      intro l
      induction l with
      | nil => exact List.Perm.refl _
      | cons e l ih =>
        rw [List.map_cons]
        rcases e.pass_cases.2.2 with ⟨hheld, hnot, -, hfly⟩ | ⟨hno, heq⟩
        · rw [keys_cons_of_pos hfly, keys_cons_of_neg hnot, keys_cons_of_pos hheld,
            e.pass_cases.1]
          exact (ih.cons _).trans List.perm_middle.symm
        · rw [heq, keys_cons_of_neg hno]
          cases hf : e.flying with
          | true =>
            rw [keys_cons_of_pos hf, keys_cons_of_pos hf]
            exact ih.cons _
          | false =>
            rw [keys_cons_of_neg hf, keys_cons_of_neg hf]
            exact ih
    exact (hsplit es).trans (hb.flying.append hb.held)

end Rules

end Ledger
