import Mathlib.Logic.Relation
import Mathlib.Tactic.ByContra

/-! # Transition systems and deterministic machines

    Three shapes of state machine and the induction rules their safety
    proofs use:

    * `System`: an initial predicate and a labelled step relation. A
      state is `ReachableBy ok` when a run leads to it whose every step
      meets the condition `ok`; plain reachability is `ok := True`.
    * `Machine`: a start state and a total transition function, run on a
      list of operations. `trace` lists the states a run passes through,
      `Meets ok` says that every operation of the run meets `ok` in the
      state it is applied to.
    * `Answering`: a machine whose operations have answers.

    The rules: an invariant preserved by every step that meets `ok`
    holds in every state so reached, and, for a machine, a property that
    is also broken by every step that fails `ok` holds along the whole
    run exactly when the run meets `ok`. -/

universe u v w

/-! ## Labelled transition systems -/

/-- A labelled transition system. -/
structure System (State : Type u) (Label : Type v) where
  init : State → Prop
  step : State → Label → State → Prop

namespace System

variable {State : Type u} {Label : Type v} {sys : System State Label}

/-- States reached by a run all of whose steps meet `ok`. -/
inductive ReachableBy (sys : System State Label) (ok : State → Label → Prop) : State → Prop where
  | init : ∀ {s}, sys.init s → ReachableBy sys ok s
  | step : ∀ {s l s'}, ReachableBy sys ok s → ok s l → sys.step s l s' → ReachableBy sys ok s'

/-- States reached by any run. -/
abbrev Reachable (sys : System State Label) : State → Prop :=
  sys.ReachableBy fun _ _ => True

/-- **Invariant rule** for conditional reachability. -/
theorem ReachableBy.invariant {ok : State → Label → Prop} {inv : State → Prop}
    (hinit : ∀ s, sys.init s → inv s)
    (hstep : ∀ s l s', inv s → ok s l → sys.step s l s' → inv s') :
    ∀ {s}, sys.ReachableBy ok s → inv s := by
  intro s h
  induction h with
  | init hi => exact hinit _ hi
  | step _ hok hs ih => exact hstep _ _ _ ih hok hs

/-- **Invariant rule** for plain reachability. -/
theorem Reachable.invariant {inv : State → Prop}
    (hinit : ∀ s, sys.init s → inv s)
    (hstep : ∀ s l s', inv s → sys.step s l s' → inv s') :
    ∀ {s}, sys.Reachable s → inv s :=
  ReachableBy.invariant hinit fun s l s' hs _ h => hstep s l s' hs h

/-- A run of any length leads from one state to the other. -/
def Leads (sys : System State Label) : State → State → Prop :=
  Relation.ReflTransGen fun s s' => ∃ l, sys.step s l s'

theorem Leads.refl (s : State) : sys.Leads s s :=
  Relation.ReflTransGen.refl

theorem Leads.trans {s t u : State} (h : sys.Leads s t) (h' : sys.Leads t u) : sys.Leads s u :=
  Relation.ReflTransGen.trans h h'

theorem Leads.head {s t u : State} (l : Label) (h : sys.step s l t) (h' : sys.Leads t u) :
    sys.Leads s u :=
  Relation.ReflTransGen.head ⟨l, h⟩ h'

theorem Leads.single {s t : State} (l : Label) (h : sys.step s l t) : sys.Leads s t :=
  Relation.ReflTransGen.single ⟨l, h⟩

/-- **Invariant rule** from any state on. -/
theorem Leads.invariant {inv : State → Prop} (hstep : ∀ s l s', inv s → sys.step s l s' → inv s')
    {s s' : State} (h : sys.Leads s s') (hs : inv s) : inv s' := by
  induction h with
  | refl => exact hs
  | tail _ hlast ih =>
    obtain ⟨l, hl⟩ := hlast
    exact hstep _ l _ ih hl

end System

/-! ## Deterministic machines -/

/-- A deterministic machine: a total transition function. -/
structure Machine (State : Type u) (Op : Type v) where
  next : State → Op → State

namespace Machine

variable {State : Type u} {Op : Type v} (m : Machine State Op)

/-- The state a run ends in. -/
def exec : State → List Op → State :=
  List.foldl m.next

/-- The states a run passes through, the first and the last included. -/
def trace : State → List Op → List State
  | s, [] => [s]
  | s, op :: ops => s :: trace (m.next s op) ops

/-- Every operation of the run meets `ok` in the state it is applied to. -/
def Meets (ok : State → Op → Prop) : State → List Op → Prop
  | _, [] => True
  | s, op :: ops => ok s op ∧ Meets ok (m.next s op) ops

@[simp] theorem exec_nil (s : State) : m.exec s [] = s := rfl

@[simp] theorem exec_cons (s : State) (op : Op) (ops : List Op) :
    m.exec s (op :: ops) = m.exec (m.next s op) ops := rfl

theorem exec_append (s : State) (ops ops' : List Op) :
    m.exec s (ops ++ ops') = m.exec (m.exec s ops) ops' :=
  List.foldl_append

@[simp] theorem mem_trace_nil {s t : State} : t ∈ m.trace s [] ↔ t = s := by
  simp [trace]

@[simp] theorem mem_trace_cons {s t : State} {op : Op} {ops : List Op} :
    t ∈ m.trace s (op :: ops) ↔ t = s ∨ t ∈ m.trace (m.next s op) ops := by
  simp [trace]

theorem head_mem_trace (s : State) (ops : List Op) : s ∈ m.trace s ops := by
  cases ops <;> simp [trace]

theorem exec_mem_trace (s : State) (ops : List Op) : m.exec s ops ∈ m.trace s ops := by
  induction ops generalizing s with
  | nil => simp
  | cons op ops ih => simpa using Or.inr (ih (m.next s op))

variable {m} {ok : State → Op → Prop} {inv good : State → Prop}

/-- **Invariant rule**: what every step that meets `ok` preserves holds
    along a run whose steps all meet `ok`. -/
theorem inv_of_meets (hstep : ∀ s op, inv s → ok s op → inv (m.next s op)) :
    ∀ {s : State} {ops : List Op}, inv s → m.Meets ok s ops → ∀ t ∈ m.trace s ops, inv t := by
  intro s ops
  induction ops generalizing s with
  | nil =>
    intro hs _ t ht
    rw [mem_trace_nil] at ht
    exact ht ▸ hs
  | cons op ops ih =>
    intro hs hok t ht
    rcases (mem_trace_cons m).mp ht with rfl | ht
    · exact hs
    · exact ih (hstep s op hs hok.1) hok.2 t ht

/-- A condition on the operations alone. -/
theorem meets_of_forall {ok : Op → Prop} {s : State} {ops : List Op} (h : ∀ op ∈ ops, ok op) :
    m.Meets (fun _ => ok) s ops := by
  induction ops generalizing s with
  | nil => exact trivial
  | cons op ops ih =>
    rw [List.forall_mem_cons] at h
    exact ⟨h.1, ih h.2⟩

/-- **Invariant rule** for a machine all of whose steps preserve it. -/
theorem inv_exec (hstep : ∀ s op, inv s → inv (m.next s op)) :
    ∀ {s : State} (ops : List Op), inv s → inv (m.exec s ops) := by
  intro s ops hs
  induction ops generalizing s with
  | nil => exact hs
  | cons op ops ih => exact ih (hstep s op hs)

/-- **Exactness rule** under an assumption on the environment: when the
    invariant gives `good`, is preserved by the `fair` steps that meet
    `ok`, and every other fair step leads out of `good`, a fair run stays
    `good` exactly when its steps all meet `ok`. -/
theorem good_iff_meets_of {fair : State → Op → Prop} (hgood : ∀ s, inv s → good s)
    (hstep : ∀ s op, inv s → fair s op → ok s op → inv (m.next s op))
    (hbad : ∀ s op, inv s → fair s op → ¬ ok s op → ¬ good (m.next s op)) :
    ∀ {s : State} {ops : List Op}, inv s → m.Meets fair s ops →
      ((∀ t ∈ m.trace s ops, good t) ↔ m.Meets ok s ops) := by
  intro s ops hs hfair
  induction ops generalizing s with
  | nil =>
    refine iff_of_true ?_ trivial
    intro t ht
    rw [mem_trace_nil] at ht
    exact ht ▸ hgood s hs
  | cons op ops ih =>
    constructor
    · -- the first step that fails `ok` leaves a state that is not `good`
      intro h
      have hok : ok s op := by
        by_contra hno
        exact hbad s op hs hfair.1 hno
          (h _ ((mem_trace_cons m).mpr (Or.inr (head_mem_trace m _ _))))
      refine ⟨hok, (ih (hstep s op hs hfair.1 hok) hfair.2).mp ?_⟩
      intro t ht
      exact h t ((mem_trace_cons m).mpr (Or.inr ht))
    · intro h t ht
      rcases (mem_trace_cons m).mp ht with rfl | ht
      · exact hgood t hs
      · exact (ih (hstep s op hs hfair.1 h.1) hfair.2).mpr h.2 t ht

/-- **Exactness rule**: the same for any run. -/
theorem good_iff_meets (hgood : ∀ s, inv s → good s)
    (hstep : ∀ s op, inv s → ok s op → inv (m.next s op))
    (hbad : ∀ s op, inv s → ¬ ok s op → ¬ good (m.next s op)) :
    ∀ {s : State} {ops : List Op}, inv s → ((∀ t ∈ m.trace s ops, good t) ↔ m.Meets ok s ops) :=
  fun {s ops} hs =>
    have hfair : m.Meets (fun _ _ => True) s ops := meets_of_forall fun _ _ => trivial
    good_iff_meets_of hgood (fun s op hi _ => hstep s op hi) (fun s op hi _ => hbad s op hi) hs
      hfair

end Machine

/-! ## Machines with answers -/

/-- A deterministic machine that answers every operation. -/
structure Answering (State : Type u) (Op : Type v) (Out : Type w) where
  next : State → Op → Out × State

namespace Answering

variable {State State' : Type u} {Op : Type v} {Out : Type w}

/-- The answers of a run, in order. -/
def answers (m : Answering State Op Out) : State → List Op → List Out
  | _, [] => []
  | s, op :: ops => (m.next s op).1 :: answers m (m.next s op).2 ops

/-- The state a run ends in. -/
def exec (m : Answering State Op Out) (s : State) (ops : List Op) : State :=
  ops.foldl (fun s op => (m.next s op).2) s

theorem answers_concat (m : Answering State Op Out) (s : State) (ops : List Op) (op : Op) :
    m.answers s (ops ++ [op]) = m.answers s ops ++ [(m.next (m.exec s ops) op).1] := by
  induction ops generalizing s with
  | nil => rfl
  | cons first ops ih =>
    rw [List.cons_append, answers, answers, ih, List.cons_append]
    rfl

theorem exec_concat (m : Answering State Op Out) (s : State) (ops : List Op) (op : Op) :
    m.exec s (ops ++ [op]) = (m.next (m.exec s ops) op).2 := by
  rw [exec, List.foldl_append]
  rfl

/-- **Simulation rule**: when related states give the same answer and go
    to related states, runs from related states give the same answers and
    end in related states. -/
theorem simulates {m : Answering State Op Out} {m' : Answering State' Op Out}
    {R : State → State' → Prop}
    (hstep : ∀ s t op, R s t →
      (m.next s op).1 = (m'.next t op).1 ∧ R (m.next s op).2 (m'.next t op).2) :
    ∀ {s : State} {t : State'} (ops : List Op), R s t →
      m.answers s ops = m'.answers t ops ∧ R (m.exec s ops) (m'.exec t ops) := by
  intro s t ops h
  induction ops generalizing s t with
  | nil => exact ⟨rfl, h⟩
  | cons op ops ih =>
    obtain ⟨hout, hnext⟩ := hstep s t op h
    obtain ⟨hrest, hend⟩ := ih hnext
    refine ⟨?_, hend⟩
    rw [answers, answers, hout, hrest]

end Answering
