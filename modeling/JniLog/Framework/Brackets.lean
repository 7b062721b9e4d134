import Mathlib.Logic.Function.Basic

/-! # Programs with a counter of open scopes

    A thread counts the scopes it is in: a program opens a scope, closes
    it, and runs operations that may look at the counter but leave it.
    Closing does nothing when no scope is open.

    `Runs d e p` says that `p` comes from depth `d` to depth `e`, whatever
    its operations answer. The rules follow the shape of the program; a
    program that keeps every depth has closed exactly what it opened, on
    each of its paths. -/

namespace Brackets

universe u

/-- A state of the world, and the counter. -/
structure Counted (σ : Type u) where
  world : σ
  depth : Nat

/-- A program that answers an `α`. -/
abbrev Prog (σ : Type) (α : Type) := StateM (Counted σ) α

section Programs

variable {σ α β : Type}

/-- An operation on the world, which may look at the counter. -/
abbrev Op (σ : Type) (α : Type) := Nat → σ → α × σ

def op (f : Op σ α) : Prog σ α := fun s =>
  ((f s.depth s.world).1, { s with world := (f s.depth s.world).2 })

def enter : Prog σ Unit := fun s => ((), { s with depth := s.depth + 1 })

def leave : Prog σ Unit := fun s =>
  ((), if s.depth > 0 then { s with depth := s.depth - 1 } else s)

def depth : Prog σ Nat := fun s => (s.depth, s)

/-- The program comes from depth `d` to depth `e`. -/
def Runs (d e : Nat) (p : Prog σ α) : Prop :=
  ∀ s, s.depth = d → (p s).2.depth = e

/-- It comes back to the depth it began at. -/
def Keeps (p : Prog σ α) : Prop :=
  ∀ d, Runs d d p

variable {d e k : Nat} {p : Prog σ α} {f : α → Prog σ β}

theorem Runs.pure (a : α) : Runs d d (pure a : Prog σ α) :=
  fun _ h => h

theorem Runs.op (g : Op σ α) : Runs d d (op g) :=
  fun _ h => h

theorem Runs.depth : Runs d d (depth : Prog σ Nat) :=
  fun _ h => h

theorem Runs.enter : Runs d (d + 1) (enter : Prog σ Unit) :=
  fun _ h => congrArg Nat.succ h

theorem Runs.leave : Runs (d + 1) d (leave : Prog σ Unit) := by
  intro s h
  have hpos : s.depth > 0 := by omega
  show (if s.depth > 0 then { s with depth := s.depth - 1 } else s).depth = d
  rw [if_pos hpos]
  show s.depth - 1 = d
  omega

/-- **Sequence**. -/
theorem Runs.bind (hp : Runs d k p) (hf : ∀ a, Runs k e (f a)) : Runs d e (p >>= f) :=
  fun s h => hf (p s).1 (p s).2 (hp s h)

/-- **Choice**. -/
theorem Runs.ite {c : Prop} [Decidable c] {p q : Prog σ α} (hp : Runs d e p) (hq : Runs d e q) :
    Runs d e (if c then p else q) := by
  split
  · exact hp
  · exact hq

/-- Nothing on one side of a choice, and a program that keeps the depth on
    the other. -/
theorem Runs.optional {c : Prop} [Decidable c] {p : Prog σ Unit} (hp : Runs d d p) :
    Runs d d (if c then p else Pure.pure ()) :=
  .ite hp (.pure ())

/-- **Result**: what a caller computes from the answer. -/
theorem Runs.map (g : α → β) (hp : Runs d e p) : Runs d e (g <$> p) :=
  hp

/-- A loop whose rounds run over the list. -/
def loop {ι : Type} (body : ι → α → Prog σ α) : List ι → α → Prog σ α
  | [], a => Pure.pure a
  | i :: is, a => body i a >>= loop body is

/-- **Loop**: each round keeps the depth. -/
theorem Runs.loop {ι : Type} {body : ι → α → Prog σ α} (h : ∀ i a, Runs d d (body i a))
    (is : List ι) (a : α) : Runs d d (loop body is a) := by
  induction is generalizing a with
  | nil => exact .pure a
  | cons i is ih => exact .bind (h i a) ih

/-- A loop that a round may end: `none` is a `break`. -/
def breakLoop {ι : Type} (body : ι → α → Prog σ (Option α)) : List ι → α → Prog σ α
  | [], a => Pure.pure a
  | i :: is, a => do
    match ← body i a with
    | none => Pure.pure a
    | some a => breakLoop body is a

/-- **Loop with break**. -/
theorem Runs.breakLoop {ι : Type} {body : ι → α → Prog σ (Option α)}
    (h : ∀ i a, Runs d d (body i a)) (is : List ι) (a : α) :
    Runs d d (breakLoop body is a) := by
  induction is generalizing a with
  | nil => exact .pure a
  | cons i is ih =>
    refine .bind (h i a) ?_
    intro r
    cases r with
    | none => exact .pure a
    | some a => exact ih a

end Programs

end Brackets
