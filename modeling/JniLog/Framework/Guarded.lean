import JniLog.Framework.System
import Mathlib.Logic.Function.Basic

/-! # Objects behind a lock

    An object that any number of threads use, each use a piece of code
    that runs step by step between taking a lock and giving it back.

    * `Lock`: any transition system that says who holds the lock, of
      which at most one thread does at a time.
    * `Code`: what one step of a use does to the object and to the
      thread's own variables, and when the use is over.
    * `guarded`: the threads' steps, of the lock and of the code, in any
      order.

    The rule: when each use, run alone, does what an operation of an
    `Answering` machine does, then in every interleaving the uses have the
    answers and the effect of the operations one after the other. -/

/-- A lock. Every step is some thread's, and only a holder's own step
    gives the lock back. -/
structure Lock (Thread State Label : Type) where
  sys : System State Label
  actor : Label → Thread
  holds : State → Thread → Prop
  exclusive : ∀ {s t u}, sys.Reachable s → holds s t → holds s u → t = u
  keeps : ∀ {s l s' t}, sys.step s l s' → holds s t → actor l ≠ t → holds s' t

/-- A piece of code over an object: a step goes on, or returns. -/
structure Code (Op Out Loc Obj : Type) where
  start : Op → Loc
  next : Loc → Obj → (Loc × Obj) ⊕ Out

namespace Code

variable {Op Out Loc Obj A : Type}

/-- Some steps lead from one point of the code to the other. -/
def Goes (c : Code Op Out Loc Obj) : Loc × Obj → Loc × Obj → Prop :=
  Relation.ReflTransGen fun p q => c.next p.1 p.2 = .inl q

/-- Run alone, every use does to the object what the operation does to
    what the object stands for. -/
def Does (c : Code Op Out Loc Obj) (m : Answering A Op Out) (Stands : Obj → A → Prop) : Prop :=
  ∀ {op o a loc o' out}, Stands o a → c.Goes (c.start op, o) (loc, o') →
    c.next loc o' = .inr out → (m.next a op).1 = out ∧ Stands o' (m.next a op).2

/-- **Rule** for a piece of code: say for every point what the rest of the
    code will return and make of the object. When a step changes nothing
    about that, and what the whole code does is what the operation does,
    then every use does it. -/
theorem does_of_rest {c : Code Op Out Loc Obj} {m : Answering A Op Out} (view : Obj → A)
    (rest : Loc → Obj → Out × A)
    (hgo : ∀ loc o loc' o', c.next loc o = .inl (loc', o') → rest loc o = rest loc' o')
    (hdone : ∀ loc o out, c.next loc o = .inr out → rest loc o = (out, view o))
    (hstart : ∀ op o, rest (c.start op) o = m.next (view o) op) :
    c.Does m fun o a => view o = a := by
  rintro op o a loc o' out rfl hgoes hout
  have hrest : ∀ p q, c.Goes p q → rest p.1 p.2 = rest q.1 q.2 := by
    intro p q h
    induction h with
    | refl => rfl
    | tail _ hlast ih => exact ih.trans (hgo _ _ _ _ hlast)
  have hall := hrest _ _ hgoes
  rw [hstart, hdone loc o' out hout] at hall
  rw [hall]
  exact ⟨rfl, rfl⟩

end Code

namespace Guarded

variable {Thread LState Label Op Out Loc Obj A : Type}

/-- The lock, the object, the threads that use it with the use and the
    point they are at, and the uses that are over. -/
structure State (Thread LState Op Out Loc Obj : Type) where
  lock : LState
  obj : Obj
  inside : Thread → Option (Op × Loc)
  history : List (Op × Out)

inductive Step (Thread Label Op : Type) where
  /-- A step of the lock. -/
  | lock (l : Label)
  /-- The holder begins to use the object. -/
  | enter (t : Thread) (op : Op)
  /-- A step of a use. -/
  | step (t : Thread)

/-- The threads and the object from a state on in which nobody uses it. -/
def guarded [DecidableEq Thread] (lk : Lock Thread LState Label) (c : Code Op Out Loc Obj)
    (o : Obj) : System (State Thread LState Op Out Loc Obj) (Step Thread Label Op) where
  init s := lk.sys.init s.lock ∧ s.obj = o ∧ (∀ t, s.inside t = none) ∧ s.history = []
  step s l s' :=
    match l with
    | .lock l =>
      ∃ lock, lk.sys.step s.lock l lock ∧ s.inside (lk.actor l) = none ∧
        s' = { s with lock := lock }
    | .enter t op =>
      lk.holds s.lock t ∧ s.inside t = none ∧
        s' = { s with inside := Function.update s.inside t (some (op, c.start op)) }
    | .step t =>
      ∃ op loc, s.inside t = some (op, loc) ∧
        s' =
          match c.next loc s.obj with
          | .inl (loc, obj) =>
            { s with obj := obj, inside := Function.update s.inside t (some (op, loc)) }
          | .inr out =>
            { s with
              inside := Function.update s.inside t none
              history := s.history ++ [(op, out)] }

/-- The uses so far, as operations. -/
def State.ops (s : State Thread LState Op Out Loc Obj) : List Op :=
  s.history.map Prod.fst

/-- What the uses so far returned. -/
def State.outs (s : State Thread LState Op Out Loc Obj) : List Out :=
  s.history.map Prod.snd

/-- What the object was when the last use was over, with who is inside and
    has come from there. -/
inductive Since (c : Code Op Out Loc Obj) (o : Obj) (s : State Thread LState Op Out Loc Obj) :
    Prop where
  | nobody : (∀ t, s.inside t = none) → s.obj = o → Since c o s
  | someone : ∀ t op loc, s.inside t = some (op, loc) → c.Goes (c.start op, o) (loc, s.obj) →
      Since c o s

structure Inv (lk : Lock Thread LState Label) (c : Code Op Out Loc Obj) (m : Answering A Op Out)
    (Stands : Obj → A → Prop) (a : A) (s : State Thread LState Op Out Loc Obj) : Prop where
  lock : lk.sys.Reachable s.lock
  holds : ∀ t, s.inside t ≠ none → lk.holds s.lock t
  answers : m.answers a s.ops = s.outs
  since : ∃ o, Stands o (m.exec a s.ops) ∧ Since c o s

section Serial

variable [DecidableEq Thread] {lk : Lock Thread LState Label} {c : Code Op Out Loc Obj}
  {m : Answering A Op Out} {Stands : Obj → A → Prop} {o : Obj} {a : A}
  {s s' : State Thread LState Op Out Loc Obj} {l : Step Thread Label Op}

omit [DecidableEq Thread] in
/-- Whoever is inside holds the lock, so nobody else is. -/
theorem Inv.alone (h : Inv lk c m Stands a s) {t u : Thread} (ht : s.inside t ≠ none)
    (hu : s.inside u ≠ none) : t = u :=
  lk.exclusive h.lock (h.holds t ht) (h.holds u hu)

omit [DecidableEq Thread] in
/-- Where the one who is inside has come from. -/
theorem Inv.since_of (h : Inv lk c m Stands a s) {t : Thread} {op : Op} {loc : Loc}
    (ht : s.inside t = some (op, loc)) :
    ∃ o, Stands o (m.exec a s.ops) ∧ c.Goes (c.start op, o) (loc, s.obj) := by
  obtain ⟨o, ho, hsince⟩ := h.since
  refine ⟨o, ho, ?_⟩
  cases hsince with
  | nobody hnobody _ => rw [hnobody t] at ht; exact absurd ht nofun
  | someone u op' loc' hu hgoes =>
    obtain rfl := h.alone (t := t) (u := u) (by rw [ht]; exact nofun) (by rw [hu]; exact nofun)
    rw [ht] at hu
    obtain ⟨rfl, rfl⟩ := Prod.mk.inj (Option.some.inj hu)
    exact hgoes

omit [DecidableEq Thread] in
/-- **Step lemma**: a step of the lock. -/
theorem Inv.lock_step (h : Inv lk c m Stands a s) {l : Label} {lock : LState}
    (hs : lk.sys.step s.lock l lock) (hactor : s.inside (lk.actor l) = none) :
    Inv lk c m Stands a { s with lock := lock } where
  lock := h.lock.step trivial hs
  holds t ht := by
    refine lk.keeps hs (h.holds t ht) ?_
    rintro rfl
    exact ht hactor
  answers := h.answers
  since := by
    obtain ⟨o, ho, hsince⟩ := h.since
    refine ⟨o, ho, ?_⟩
    cases hsince with
    | nobody hnobody hobj => exact .nobody hnobody hobj
    | someone t op loc ht hgoes => exact .someone t op loc ht hgoes

/-- **Step lemma**: the holder goes inside. -/
theorem Inv.enter (h : Inv lk c m Stands a s) {t : Thread} (op : Op) (ht : lk.holds s.lock t)
    (hout : s.inside t = none) :
    Inv lk c m Stands a
      { s with inside := Function.update s.inside t (some (op, c.start op)) } where
  lock := h.lock
  holds u hu := by
    by_cases hne : u = t
    · exact hne ▸ ht
    · simp only [Function.update_of_ne hne] at hu
      exact h.holds u hu
  answers := h.answers
  since := by
    obtain ⟨o, ho, hsince⟩ := h.since
    refine ⟨o, ho, .someone t op (c.start op) (Function.update_self _ _ _) ?_⟩
    cases hsince with
    | nobody _ hobj => rw [hobj]; exact .refl
    | someone u op' loc hu _ =>
      have hholds := h.holds u (by rw [hu]; exact nofun)
      obtain rfl := lk.exclusive h.lock ht hholds
      rw [hu] at hout
      exact absurd hout nofun

/-- **Step lemma**: the one who is inside goes on. -/
theorem Inv.go (h : Inv lk c m Stands a s) {t : Thread} {op : Op} {loc loc' : Loc} {obj : Obj}
    (ht : s.inside t = some (op, loc)) (hnext : c.next loc s.obj = .inl (loc', obj)) :
    Inv lk c m Stands a
      { s with obj := obj, inside := Function.update s.inside t (some (op, loc')) } where
  lock := h.lock
  holds u hu := by
    by_cases hne : u = t
    · exact h.holds u (by rw [hne, ht]; exact nofun)
    · simp only [Function.update_of_ne hne] at hu
      exact h.holds u hu
  answers := h.answers
  since := by
    obtain ⟨o, ho, hgoes⟩ := h.since_of ht
    exact ⟨o, ho, .someone t op loc' (Function.update_self _ _ _) (hgoes.tail hnext)⟩

/-- **Step lemma**: a use is over. -/
theorem Inv.done (hdoes : c.Does m Stands) (h : Inv lk c m Stands a s) {t : Thread} {op : Op}
    {loc : Loc} {out : Out} (ht : s.inside t = some (op, loc))
    (hnext : c.next loc s.obj = .inr out) :
    Inv lk c m Stands a
      { s with
        inside := Function.update s.inside t none
        history := s.history ++ [(op, out)] } := by
  obtain ⟨o, ho, hgoes⟩ := h.since_of ht
  obtain ⟨hanswer, hstands⟩ := hdoes ho hgoes hnext
  refine ⟨h.lock, ?_, ?_, ?_⟩
  · intro u hu
    by_cases hne : u = t
    · subst hne
      exact absurd (Function.update_self _ _ _) hu
    · simp only [Function.update_of_ne hne] at hu
      exact h.holds u hu
  · have hanswers := h.answers
    simp only [State.ops, State.outs, List.map_append, List.map_cons, List.map_nil] at hanswers ⊢
    rw [Answering.answers_concat, hanswers, ← State.ops, hanswer]
  · refine ⟨s.obj, ?_, .nobody ?_ rfl⟩
    · simp only [State.ops, List.map_append, List.map_cons, List.map_nil]
      rw [Answering.exec_concat]
      exact hstands
    · intro u
      by_cases hne : u = t
      · subst hne
        exact Function.update_self _ _ _
      · simp only [Function.update_of_ne hne]
        by_contra hu
        exact hne (h.alone hu (by rw [ht]; exact nofun))

/-- **Step lemma**: the invariant is preserved. -/
theorem Inv.step (hdoes : c.Does m Stands) (h : Inv lk c m Stands a s)
    (hs : (guarded lk c o).step s l s') : Inv lk c m Stands a s' := by
  cases l with
  | lock l =>
    obtain ⟨lock, hstep, hactor, rfl⟩ := hs
    exact h.lock_step hstep hactor
  | enter t op =>
    obtain ⟨ht, hout, rfl⟩ := hs
    exact h.enter op ht hout
  | step t =>
    obtain ⟨op, loc, ht, rfl⟩ := hs
    cases hnext : c.next loc s.obj with
    | inl p => exact h.go ht hnext
    | inr out => exact h.done hdoes ht hnext

theorem inv_initial (ho : Stands o a) (h : (guarded lk c o).init s) :
    Inv lk c m Stands a s := by
  obtain ⟨hlock, rfl, hnobody, hhistory⟩ := h
  refine ⟨.init hlock, ?_, ?_, ⟨s.obj, ?_, .nobody hnobody rfl⟩⟩
  · intro t ht
    exact absurd (hnobody t) ht
  · simp [State.ops, State.outs, hhistory, Answering.answers]
  · rw [State.ops, hhistory]
    exact ho

/-- **Serialization rule.** In every interleaving the uses that are over
    returned what the operations return one after the other, in the order
    the uses ended; and while nobody is inside, the object stands for what
    the operations leave behind. -/
theorem serial (hdoes : c.Does m Stands) (ho : Stands o a)
    (h : (guarded lk c o).Reachable s) :
    m.answers a s.ops = s.outs ∧
      ((∀ t, s.inside t = none) → Stands s.obj (m.exec a s.ops)) := by
  have hinv : Inv lk c m Stands a s :=
    System.Reachable.invariant (fun _ => inv_initial ho) (fun _ _ _ hi => hi.step hdoes) h
  refine ⟨hinv.answers, fun hnobody => ?_⟩
  obtain ⟨o, ho, hsince⟩ := hinv.since
  cases hsince with
  | nobody _ hobj => exact hobj ▸ ho
  | someone t op loc ht _ => rw [hnobody t] at ht; exact absurd ht nofun

end Serial

end Guarded
