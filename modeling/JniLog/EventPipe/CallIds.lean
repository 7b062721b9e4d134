import JniLog.Framework.System
import Mathlib.Data.List.GetD
import Mathlib.Tactic.ByContra

/-! # The call-id stack of a thread

    Model of `tls_push_call_id` and `tls_pop_call_id` of `bridge.c`: an
    array of 32 ids and a depth that keeps counting above 32.

    Main result: the array behaves like an unbounded stack whose pop
    answers 0 for the entries above the cap, for every sequence of pushes
    and pops. The type of the ids is left open. -/

namespace JniLog.EventPipe

def TLS_CALL_ID_DEPTH : Nat := 32

/-- `tls_call_ids` and `tls_call_depth`. -/
structure CallIds (α : Type) where
  tls_call_ids : List α
  tls_call_depth : Int
  size : tls_call_ids.length = TLS_CALL_ID_DEPTH

variable {α : Type} [Zero α]

/-- The zero-initialised thread-local variables. -/
def CallIds.initial : CallIds α :=
  ⟨List.replicate TLS_CALL_ID_DEPTH 0, 0, by simp⟩

def tls_push_call_id (c : CallIds α) (id : α) : CallIds α :=
  let d := c.tls_call_depth
  if 0 ≤ d ∧ d < TLS_CALL_ID_DEPTH then
    ⟨c.tls_call_ids.set d.toNat id, d + 1, by rw [List.length_set, c.size]⟩
  else { c with tls_call_depth := d + 1 }

def tls_pop_call_id (c : CallIds α) : α × CallIds α :=
  if c.tls_call_depth ≤ 0 then (0, { c with tls_call_depth := 0 })
  else
    let d := c.tls_call_depth - 1
    let c := { c with tls_call_depth := d }
    if d < TLS_CALL_ID_DEPTH then (c.tls_call_ids.getD d.toNat 0, c) else (0, c)

/-- The ids in the array are the lowest of the stack `ids`, whose top
    comes first. -/
structure Represents (c : CallIds α) (ids : List α) : Prop where
  depth : c.tls_call_depth = ids.length
  stored : ∀ i < TLS_CALL_ID_DEPTH, i < ids.length →
    c.tls_call_ids.getD i 0 = ids.reverse.getD i 0

theorem represents_initial : Represents (CallIds.initial : CallIds α) [] :=
  ⟨rfl, fun i _ hi => absurd hi (Nat.not_lt_zero i)⟩

/-- **Push rule.** -/
theorem Represents.push {c : CallIds α} {ids : List α} (h : Represents c ids) (id : α) :
    Represents (tls_push_call_id c id) (id :: ids) := by
  have hdepth := h.depth
  have hlast (i : Nat) (hi : i < ids.length) :
      (id :: ids).reverse.getD i 0 = ids.reverse.getD i 0 := by
    rw [List.reverse_cons, List.getD_append _ _ _ _ (by simpa using hi)]
  by_cases hroom : ids.length < TLS_CALL_ID_DEPTH
  · have hpush : tls_push_call_id c id =
        ⟨c.tls_call_ids.set ids.length id, ids.length + 1, by rw [List.length_set, c.size]⟩ := by
      simp only [tls_push_call_id, hdepth]
      rw [if_pos ⟨by omega, by omega⟩]
      rfl
    rw [hpush]
    refine ⟨by simp, fun i hi hlen => ?_⟩
    by_cases htop : i = ids.length
    · subst htop
      have hlt : ids.length < c.tls_call_ids.length := by rwa [c.size]
      simp [List.getD, hlt]
    · have hlt : i < ids.length := by
        simp only [List.length_cons] at hlen
        omega
      rw [hlast i hlt, ← h.stored i hi hlt]
      simp [List.getD, Ne.symm htop]
  -- above the cap only the depth is counted
  · have hpush : tls_push_call_id c id = { c with tls_call_depth := ids.length + 1 } := by
      simp only [tls_push_call_id, hdepth]
      rw [if_neg (by omega)]
    rw [hpush]
    refine ⟨by simp, fun i hi _ => ?_⟩
    have hlt : i < ids.length := by omega
    rw [hlast i hlt]
    exact h.stored i hi hlt

/-- **Pop rule**: the top comes back, unless it was above the cap. -/
theorem Represents.pop {c : CallIds α} {id : α} {ids : List α} (h : Represents c (id :: ids)) :
    (tls_pop_call_id c).1 = (if ids.length < TLS_CALL_ID_DEPTH then id else 0) ∧
      Represents (tls_pop_call_id c).2 ids := by
  have hdepth : c.tls_call_depth = ids.length + 1 := by simpa using h.depth
  have hrest : Represents { c with tls_call_depth := ids.length } ids := by
    refine ⟨rfl, fun i hi hlen => ?_⟩
    have hstored := h.stored i hi (Nat.lt_succ_of_lt hlen)
    rwa [List.reverse_cons, List.getD_append _ _ _ _ (by simpa using hlen)] at hstored
  have hpos : ¬ c.tls_call_depth ≤ 0 := by omega
  have hminus : c.tls_call_depth - 1 = ids.length := by omega
  simp only [tls_pop_call_id, if_neg hpos, hminus]
  by_cases hroom : ids.length < TLS_CALL_ID_DEPTH
  · have htop : c.tls_call_ids.getD ids.length 0 = id := by
      rw [h.stored ids.length hroom (by simp)]
      simp [List.getD]
    rw [if_pos (by omega), if_pos hroom]
    exact ⟨htop, hrest⟩
  · rw [if_neg (by omega), if_neg hroom]
    exact ⟨rfl, hrest⟩

/-- A pop of the empty stack answers 0. -/
theorem Represents.pop_nil {c : CallIds α} (h : Represents c []) :
    (tls_pop_call_id c).1 = 0 ∧ Represents (tls_pop_call_id c).2 [] := by
  have hdepth : c.tls_call_depth ≤ 0 := by
    rw [h.depth]
    simp
  rw [tls_pop_call_id, if_pos hdepth]
  exact ⟨rfl, rfl, fun i _ hi => absurd hi (Nat.not_lt_zero i)⟩

/-! ## Runs -/

/-- What a thread does with its stack. -/
inductive StackOp (α : Type) where
  | push (id : α)
  | pop

/-- The stack of the code. A push has no answer. -/
def callIds (α : Type) [Zero α] : Answering (CallIds α) (StackOp α) (Option α) where
  next c op :=
    match op with
    | .push id => (none, tls_push_call_id c id)
    | .pop => (some (tls_pop_call_id c).1, (tls_pop_call_id c).2)

/-- The ideal stack: it has no cap, and it never forgets an id, but does
    not tell those that were pushed at depth 32 or deeper. -/
def idealStack (α : Type) [Zero α] : Answering (List α) (StackOp α) (Option α) where
  next ids op :=
    match op, ids with
    | .push id, ids => (none, id :: ids)
    | .pop, [] => (some 0, [])
    | .pop, id :: ids => (some (if ids.length < TLS_CALL_ID_DEPTH then id else 0), ids)

/-- **Step lemma**: the array simulates the ideal stack. -/
theorem Represents.next {c : CallIds α} {ids : List α} (h : Represents c ids) (op : StackOp α) :
    ((callIds α).next c op).1 = ((idealStack α).next ids op).1 ∧
      Represents ((callIds α).next c op).2 ((idealStack α).next ids op).2 := by
  cases op with
  | push id => exact ⟨rfl, h.push id⟩
  | pop =>
    cases ids with
    | nil => exact ⟨congrArg some h.pop_nil.1, h.pop_nil.2⟩
    | cons id ids => exact ⟨congrArg some h.pop.1, h.pop.2⟩

/-- **The capped array is a stack.** Whatever a thread pushes and pops,
    unbalanced pops included, it gets the answers of the ideal stack, and
    its depth counter is the nesting of the ideal stack: it stays in the
    range of an `int` as long as fewer than 2^31 calls are nested. -/
theorem callIds_ideal (ops : List (StackOp α)) :
    (callIds α).answers CallIds.initial ops = (idealStack α).answers [] ops ∧
      ((callIds α).exec CallIds.initial ops).tls_call_depth =
        ((idealStack α).exec [] ops).length := by
  have hstep (c : CallIds α) (ids : List α) (op : StackOp α) (h : Represents c ids) := h.next op
  obtain ⟨hanswers, hend⟩ := Answering.simulates hstep ops represents_initial
  exact ⟨hanswers, hend.depth⟩

end JniLog.EventPipe
