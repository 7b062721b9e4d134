import JniLog.Framework.Guarded
import JniLog.Framework.System
import Mathlib.Logic.Function.Basic

/-! # The futex mutex

    Model of `jl_mutex_lock` and `jl_mutex_unlock` of `jl_lock.h`, for any
    number of threads. Every atomic operation and every futex call is one
    step.

    * A thread's place is the operation it does next. The mutex is not
      recursive, and only its owner unlocks it.
    * `FUTEX_WAIT` compares the word and parks the thread in one step.
      `FUTEX_WAKE` takes one parked thread out of the queue, whichever,
      when there is one. A parked thread may also wake up for no reason.

    Main result: at most one thread owns the mutex, and while a thread is
    parked somebody is still to act. -/

namespace JniLog.Mutex

/-! ## Section 1: Model -/

/-- Where a thread is. -/
inductive Place where
  /-- It neither owns the mutex nor waits for it. -/
  | outside
  /-- Before the exchange that announces a waiter. -/
  | exchange
  /-- Before `FUTEX_WAIT`. -/
  | wait
  /-- In the queue of the futex. -/
  | parked
  /-- Behind `FUTEX_WAIT`, before the exchange of the loop; `woken` is
      whether the thread was parked. -/
  | retry (woken : Bool)
  /-- Between the return of `jl_mutex_lock` and `jl_mutex_unlock`. -/
  | owner
  /-- In `jl_mutex_unlock`, before the store. -/
  | store
  /-- In `jl_mutex_unlock`, before `FUTEX_WAKE`. -/
  | wake
  deriving DecidableEq, Repr

/-- `while (c != 0)`. -/
def loop (c : Int32) : Place :=
  if c ≠ 0 then .wait else .owner

/-- `if (c != 2)` and what follows it. -/
def contended (c : Int32) : Place :=
  if c ≠ 2 then .exchange else loop c

/-- `jl_mutex_t` and the threads that use it. -/
structure State (Thread : Type) where
  v : Int32
  place : Thread → Place

variable {Thread : Type} [DecidableEq Thread]

/-- The word is `v` now, and thread `t` is at `p`. -/
def State.move (s : State Thread) (t : Thread) (v : Int32) (p : Place) : State Thread :=
  ⟨v, Function.update s.place t p⟩

/-- Steps. -/
inductive Op (Thread : Type) where
  /-- `__atomic_compare_exchange_n`. -/
  | compare_exchange (t : Thread)
  /-- `__atomic_exchange_n`, in either place. -/
  | exchange (t : Thread)
  /-- `jl__futex_wait`. -/
  | futex_wait (t : Thread)
  /-- A parked thread wakes up on its own. -/
  | wake_up (t : Thread)
  /-- `__atomic_fetch_sub`. -/
  | fetch_sub (t : Thread)
  /-- `__atomic_store_n`. -/
  | store (t : Thread)
  /-- `jl__futex_wake`, and the thread it wakes. -/
  | futex_wake (t : Thread) (woken : Option Thread)

/-- The mutex from `JL_MUTEX_INIT` on. -/
def mutex : System (State Thread) (Op Thread) where
  init s := s.v = 0 ∧ ∀ t, s.place t = .outside
  step s op s' :=
    match op with
    | .compare_exchange t =>
      s.place t = .outside ∧
        s' = if s.v = 0 then s.move t 1 .owner else s.move t s.v (contended s.v)
    | .exchange t =>
      (s.place t = .exchange ∨ ∃ woken, s.place t = .retry woken) ∧ s' = s.move t 2 (loop s.v)
    | .futex_wait t =>
      s.place t = .wait ∧ s' = s.move t s.v (if s.v = 2 then .parked else .retry false)
    | .wake_up t => s.place t = .parked ∧ s' = s.move t s.v (.retry true)
    | .fetch_sub t =>
      s.place t = .owner ∧ s' = s.move t (s.v - 1) (if s.v ≠ 1 then .store else .outside)
    | .store t => s.place t = .store ∧ s' = s.move t 0 .wake
    | .futex_wake t none =>
      s.place t = .wake ∧ (∀ u, s.place u ≠ .parked) ∧ s' = s.move t s.v .outside
    | .futex_wake t (some u) =>
      s.place t = .wake ∧ s.place u = .parked ∧
        s' = (s.move t s.v .outside).move u s.v (.retry true)

/-! ## Section 2: The owner -/

/-- The places where the word is a thread's: as owner, or to clear it. -/
def Place.Holds (p : Place) : Prop :=
  p = .owner ∨ p = .store

instance (p : Place) : Decidable p.Holds :=
  inferInstanceAs (Decidable (_ ∨ _))

/-- The holder, and the word that says whether there is one. -/
structure Held (s : State Thread) (holder : Option Thread) : Prop where
  holds : ∀ t, (s.place t).Holds ↔ holder = some t
  free : s.v = 0 ↔ holder = none
  range : s.v = 0 ∨ s.v = 1 ∨ s.v = 2

section Owner

variable {s : State Thread} {holder : Option Thread} {t u : Thread} {v : Int32} {p : Place}

@[simp] theorem move_v : (s.move t v p).v = v := rfl

@[simp] theorem move_place_self : (s.move t v p).place t = p :=
  Function.update_self _ _ _

theorem move_place_of_ne (h : u ≠ t) : (s.move t v p).place u = s.place u :=
  Function.update_of_ne h _ _

theorem not_holds_loop {c : Int32} (h : c ≠ 0) : ¬ (loop c).Holds := by
  rw [loop, if_pos h]
  decide

theorem not_holds_contended {c : Int32} (h : c ≠ 0) : ¬ (contended c).Holds := by
  unfold contended
  split
  · decide
  · exact not_holds_loop h

/-- A thread that is no holder goes to another such place. -/
theorem Held.stay (h : Held s holder) (ht : ¬ (s.place t).Holds) (hp : ¬ p.Holds)
    (hv : v = 0 ↔ s.v = 0) (hrange : v = 0 ∨ v = 1 ∨ v = 2) : Held (s.move t v p) holder where
  holds u := by
    by_cases hu : u = t
    · subst hu
      rw [move_place_self, ← h.holds u]
      exact iff_of_false hp ht
    · rw [move_place_of_ne hu]
      exact h.holds u
  free := hv.trans h.free
  range := hrange

/-- The free mutex is taken. -/
theorem Held.take (h : Held s none) (hv : v = 1 ∨ v = 2) : Held (s.move t v .owner) (some t) where
  holds u := by
    by_cases hu : u = t
    · subst hu
      rw [move_place_self]
      exact iff_of_true (.inl rfl) rfl
    · rw [move_place_of_ne hu, h.holds u]
      exact iff_of_false nofun fun heq => hu (Option.some.inj heq).symm
  free := by
    refine iff_of_false ?_ nofun
    rintro rfl
    revert hv
    decide
  range := .inr hv

/-- The holder goes on to clear the word. -/
theorem Held.keep (h : Held s holder) (ht : (s.place t).Holds) (hp : p.Holds)
    (hv : v = 1 ∨ v = 2) : Held (s.move t v p) holder where
  holds u := by
    by_cases hu : u = t
    · subst hu
      rw [move_place_self, ← h.holds u]
      exact iff_of_true hp ht
    · rw [move_place_of_ne hu]
      exact h.holds u
  free := by
    rw [(h.holds t).mp ht]
    refine iff_of_false ?_ nofun
    rintro rfl
    revert hv
    decide
  range := .inr hv

/-- The holder gives the mutex back. -/
theorem Held.release (h : Held s holder) (ht : (s.place t).Holds) (hp : ¬ p.Holds) :
    Held (s.move t 0 p) none where
  holds u := by
    by_cases hu : u = t
    · subst hu
      rw [move_place_self]
      exact iff_of_false hp nofun
    · rw [move_place_of_ne hu, h.holds u, (h.holds t).mp ht]
      exact iff_of_false (fun heq => hu (Option.some.inj heq).symm) nofun
  free := iff_of_true rfl rfl
  range := .inl rfl

end Owner

/-! ## Section 3: The queue -/

/-- The places of a thread that a parked one can count on: it will wake
    one up, or it was woken and will try again. -/
def Place.Acts (p : Place) : Prop :=
  p = .store ∨ p = .wake ∨ p = .retry true

instance (p : Place) : Decidable p.Acts :=
  inferInstanceAs (Decidable (_ ∨ _))

/-- A thread is parked only while the word says so, or somebody acts. -/
def Awaited (s : State Thread) : Prop :=
  ∀ t, s.place t = .parked → s.v = 2 ∨ ∃ u, (s.place u).Acts

section Queue

variable {s : State Thread} {t u : Thread} {v : Int32} {p : Place}

omit [DecidableEq Thread] in
theorem awaited_of_word (h : s.v = 2) : Awaited s :=
  fun _ _ => .inl h

omit [DecidableEq Thread] in
theorem awaited_of_acts (h : (s.place u).Acts) : Awaited s :=
  fun _ _ => .inr ⟨u, h⟩

/-- A thread nobody counts on goes to another place than the queue. -/
theorem Awaited.keep (h : Awaited s) (ht : ¬ (s.place t).Acts) (hp : p ≠ .parked)
    (hv : s.v = 2 → v = 2) : Awaited (s.move t v p) := by
  intro w hw
  have hne : w ≠ t := by
    rintro rfl
    rw [move_place_self] at hw
    exact hp hw
  rw [move_place_of_ne hne] at hw
  rcases h w hw with hword | ⟨u, hu⟩
  · exact .inl (hv hword)
  · refine .inr ⟨u, ?_⟩
    have hut : u ≠ t := by
      rintro rfl
      exact ht hu
    rwa [move_place_of_ne hut]

theorem loop_ne_parked (c : Int32) : loop c ≠ .parked := by
  unfold loop
  split <;> decide

theorem contended_ne_parked (c : Int32) : contended c ≠ .parked := by
  unfold contended
  split
  · decide
  · exact loop_ne_parked c

end Queue

/-! ## Section 4: Runs -/

structure Inv (s : State Thread) : Prop where
  held : ∃ holder, Held s holder
  awaited : Awaited s

section Runs

variable {s s' : State Thread} {op : Op Thread}

theorem inv_initial (h : mutex.init s) : Inv s where
  held := by
    refine ⟨none, ?_, iff_of_true h.1 rfl, .inl h.1⟩
    intro t
    rw [h.2 t]
    exact iff_of_false (by decide) nofun
  awaited := by
    intro t ht
    rw [h.2 t] at ht
    exact absurd ht nofun

omit [DecidableEq Thread] in
/-- Whoever holds the mutex has the word at 1 or 2. -/
theorem Held.word {holder : Option Thread} (h : Held s holder) {t : Thread}
    (ht : (s.place t).Holds) : s.v = 1 ∨ s.v = 2 := by
  refine h.range.resolve_left fun hfree => ?_
  have hnone := h.free.mp hfree
  rw [(h.holds t).mp ht] at hnone
  exact absurd hnone nofun

/-- **Step lemma**: who holds the mutex afterwards. -/
theorem held_step {holder : Option Thread} (h : Held s holder) (hs : mutex.step s op s') :
    ∃ holder', Held s' holder' := by
  cases op with
  | compare_exchange t =>
    obtain ⟨ht, rfl⟩ := hs
    have hnot : ¬ (s.place t).Holds := by
      rw [ht]
      decide
    split
    · rename_i hfree
      obtain rfl := h.free.mp hfree
      exact ⟨some t, h.take (.inl rfl)⟩
    · rename_i hword
      exact ⟨holder, h.stay hnot (not_holds_contended hword) Iff.rfl h.range⟩
  | exchange t =>
    obtain ⟨ht, rfl⟩ := hs
    have hnot : ¬ (s.place t).Holds := by
      rcases ht with ht | ⟨woken, ht⟩
      · rw [ht]
        decide
      · rw [ht]
        rintro (h | h) <;> cases h
    by_cases hfree : s.v = 0
    · -- the word was free, and the exchange has taken it
      obtain rfl := h.free.mp hfree
      rw [loop, if_neg (not_not.mpr hfree)]
      exact ⟨some t, h.take (.inr rfl)⟩
    · exact ⟨holder, h.stay hnot (not_holds_loop hfree) (iff_of_false (by decide) hfree)
        (.inr (.inr rfl))⟩
  | futex_wait t =>
    obtain ⟨ht, rfl⟩ := hs
    refine ⟨holder, h.stay (by rw [ht]; decide) ?_ Iff.rfl h.range⟩
    split <;> decide
  | wake_up t =>
    obtain ⟨ht, rfl⟩ := hs
    exact ⟨holder, h.stay (by rw [ht]; decide) (by decide) Iff.rfl h.range⟩
  | fetch_sub t =>
    obtain ⟨ht, rfl⟩ := hs
    have hholds : (s.place t).Holds := .inl ht
    rcases h.word hholds with hone | htwo
    · rw [hone]
      exact ⟨none, h.release hholds (by decide)⟩
    · rw [htwo]
      exact ⟨holder, h.keep hholds (by decide) (by decide)⟩
  | store t =>
    obtain ⟨ht, rfl⟩ := hs
    exact ⟨none, h.release (.inr ht) (by decide)⟩
  | futex_wake t woken =>
    cases woken with
    | none =>
      obtain ⟨ht, -, rfl⟩ := hs
      exact ⟨holder, h.stay (by rw [ht]; decide) (by decide) Iff.rfl h.range⟩
    | some u =>
      obtain ⟨ht, hu, rfl⟩ := hs
      have hne : u ≠ t := by
        rintro rfl
        rw [ht] at hu
        cases hu
      have hleft := h.stay (t := t) (p := .outside) (by rw [ht]; decide) (by decide) Iff.rfl h.range
      refine ⟨holder, hleft.stay ?_ (by decide) Iff.rfl h.range⟩
      rw [move_place_of_ne hne, hu]
      decide

/-- **Step lemma**: no parked thread is forgotten. -/
theorem awaited_step {holder : Option Thread} (h : Held s holder) (ha : Awaited s)
    (hs : mutex.step s op s') : Awaited s' := by
  cases op with
  | compare_exchange t =>
    obtain ⟨ht, rfl⟩ := hs
    have hnot : ¬ (s.place t).Acts := by
      rw [ht]
      decide
    split
    · rename_i hfree
      refine ha.keep hnot (by decide) fun htwo => ?_
      rw [hfree] at htwo
      exact absurd htwo (by decide)
    · exact ha.keep hnot (contended_ne_parked s.v) id
  | exchange t =>
    obtain ⟨-, rfl⟩ := hs
    exact awaited_of_word rfl
  | futex_wait t =>
    obtain ⟨ht, rfl⟩ := hs
    split
    · rename_i htwo
      exact awaited_of_word htwo
    · exact ha.keep (by rw [ht]; decide) (by decide) id
  | wake_up t =>
    obtain ⟨-, rfl⟩ := hs
    exact awaited_of_acts (u := t) (by rw [move_place_self]; decide)
  | fetch_sub t =>
    obtain ⟨ht, rfl⟩ := hs
    rcases h.word (.inl ht) with hone | htwo
    · -- the owner knew of no waiter: those there are count on somebody else
      refine ha.keep (by rw [ht]; decide) (by rw [hone]; decide) fun htwo => ?_
      rw [hone] at htwo
      exact absurd htwo (by decide)
    · refine awaited_of_acts (u := t) ?_
      rw [move_place_self, htwo]
      decide
  | store t =>
    obtain ⟨-, rfl⟩ := hs
    exact awaited_of_acts (u := t) (by rw [move_place_self]; decide)
  | futex_wake t woken =>
    cases woken with
    | none =>
      obtain ⟨-, hnone, rfl⟩ := hs
      intro w hw
      by_cases hwt : w = t
      · subst hwt
        rw [move_place_self] at hw
        cases hw
      · rw [move_place_of_ne hwt] at hw
        exact absurd hw (hnone w)
    | some u =>
      obtain ⟨-, -, rfl⟩ := hs
      exact awaited_of_acts (u := u) (by rw [move_place_self]; decide)

theorem Inv.step (h : Inv s) (hs : mutex.step s op s') : Inv s' := by
  obtain ⟨holder, hheld⟩ := h.held
  exact ⟨held_step hheld hs, awaited_step hheld h.awaited hs⟩

theorem reachable_inv (h : mutex.Reachable s) : Inv s :=
  System.Reachable.invariant (fun _ => inv_initial) (fun _ _ _ => Inv.step) h

/-- **The mutex excludes and forgets nobody.** In every interleaving of
    any number of threads at most one is between the return of
    `jl_mutex_lock` and its `jl_mutex_unlock`; a word that is not 0 has an
    owner, or a thread about to clear it; and while a thread is parked the
    word is not 0, or some thread has yet to do the wake of its unlock, or
    was woken and has not tried again. -/
theorem mutex_sound (h : mutex.Reachable s) :
    (∀ t u, s.place t = .owner → s.place u = .owner → t = u) ∧
    (s.v ≠ 0 → ∃ t, s.place t = .owner ∨ s.place t = .store) ∧
    ∀ t, s.place t = .parked →
      s.v ≠ 0 ∨ ∃ u, s.place u = .store ∨ s.place u = .wake ∨ s.place u = .retry true := by
  obtain ⟨⟨holder, hheld⟩, hawaited⟩ := reachable_inv h
  refine ⟨?_, ?_, ?_⟩
  · intro t u ht hu
    have hholder := (hheld.holds t).mp (.inl ht)
    rw [(hheld.holds u).mp (.inl hu)] at hholder
    exact (Option.some.inj hholder).symm
  · intro hword
    cases holder with
    | none => exact absurd (hheld.free.mpr rfl) hword
    | some t => exact ⟨t, (hheld.holds t).mpr rfl⟩
  · intro t ht
    rcases hawaited t ht with htwo | hacts
    · refine .inl ?_
      rw [htwo]
      decide
    · exact .inr hacts

/-- Nobody uses the mutex yet. -/
def fresh : State Nat := ⟨0, fun _ => .outside⟩

/-- Thread 0 owns the mutex, and thread 1 is parked. -/
def waiting : State Nat :=
  (((fresh.move 0 1 .owner).move 1 1 .exchange).move 1 2 .wait).move 1 2 .parked

/-- Thread 0 has cleared the word and not yet done its wake. -/
def handingOver : State Nat := (waiting.move 0 1 .store).move 0 0 .wake

theorem mutex_sound_handingOver :
    handingOver.v = 0 ∧ handingOver.place 1 = .parked ∧
      ∃ u, handingOver.place u = .store ∨ handingOver.place u = .wake ∨
        handingOver.place u = .retry true := by
  have hfresh : mutex.Reachable fresh := .init ⟨rfl, fun _ => rfl⟩
  have howner := hfresh.step (l := Op.compare_exchange 0) trivial ⟨rfl, rfl⟩
  have hfailed := howner.step (l := Op.compare_exchange 1) trivial ⟨rfl, rfl⟩
  have hannounced := hfailed.step (l := Op.exchange 1) trivial ⟨.inl rfl, rfl⟩
  have hparked := hannounced.step (l := Op.futex_wait 1) trivial ⟨rfl, rfl⟩
  have hstore := hparked.step (l := Op.fetch_sub 0) trivial ⟨rfl, rfl⟩
  have hrun : mutex.Reachable handingOver := hstore.step (l := Op.store 0) trivial ⟨rfl, rfl⟩
  exact ⟨rfl, rfl, ((mutex_sound hrun).2.2 1 rfl).resolve_left (not_not.mpr rfl)⟩

end Runs

/-! ## Section 5: The mutex as a lock -/

section AsLock

variable {s s' : State Thread} {op : Op Thread} {t : Thread}

omit [DecidableEq Thread] in
/-- Who does the step. -/
def Op.thread : Op Thread → Thread
  | .compare_exchange t | .exchange t | .futex_wait t | .wake_up t | .fetch_sub t | .store t
  | .futex_wake t _ => t

theorem owner_unique (h : mutex.Reachable s) {t u : Thread} (ht : s.place t = .owner)
    (hu : s.place u = .owner) : t = u := by
  obtain ⟨holder, hheld⟩ := (reachable_inv h).held
  have hholder := (hheld.holds t).mp (.inl ht)
  rw [(hheld.holds u).mp (.inl hu)] at hholder
  exact (Option.some.inj hholder).symm

/-- Nobody else takes the mutex from its owner. -/
theorem owner_step (hs : mutex.step s op s') (ht : s.place t = .owner) (hne : op.thread ≠ t) :
    s'.place t = .owner := by
  have hkeep : ∀ {u : Thread} {v : Int32} {p : Place}, u ≠ t → (s.move u v p).place t = .owner :=
    fun h => (move_place_of_ne h.symm).trans ht
  cases op with
  | compare_exchange u =>
    obtain ⟨-, rfl⟩ := hs
    split
    · exact hkeep hne
    · exact hkeep hne
  | exchange u | futex_wait u | wake_up u | fetch_sub u | store u =>
    obtain ⟨-, rfl⟩ := hs
    exact hkeep hne
  | futex_wake u woken =>
    cases woken with
    | none =>
      obtain ⟨-, -, rfl⟩ := hs
      exact hkeep hne
    | some w =>
      obtain ⟨-, hw, rfl⟩ := hs
      have hwt : t ≠ w := by
        rintro rfl
        rw [ht] at hw
        cases hw
      rw [move_place_of_ne hwt]
      exact hkeep hne

/-- `jl_mutex_t`, held by its owner. -/
def jl_mutex : Lock Thread (State Thread) (Op Thread) where
  sys := mutex
  actor := Op.thread
  holds s t := s.place t = .owner
  exclusive h ht hu := owner_unique h ht hu
  keeps hs ht hne := owner_step hs ht hne

end AsLock

end JniLog.Mutex
