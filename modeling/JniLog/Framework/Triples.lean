import JniLog.Framework.Brackets

/-! # Pre- and postconditions of programs with a counter

    `Triple P p Q`: from a state with `P`, whatever it is otherwise, the
    program answers some `a` in a state with `Q a`. Programs always
    return, so this is total correctness. The rules follow the shape of
    the program; `Keeping P p` is a triple that comes back to `P`. -/

namespace Brackets

section Triples

variable {σ α β ι : Type}

/-- A property of the world and the counter. -/
abbrev Assertion (σ : Type) := Counted σ → Prop

def Triple (P : Assertion σ) (p : Prog σ α) (Q : α → Assertion σ) : Prop :=
  ∀ s, P s → Q (p s).1 (p s).2

/-- What holds before holds afterwards, whatever the answer. -/
def Keeping (P : Assertion σ) (p : Prog σ α) : Prop :=
  Triple P p fun _ => P

variable {P P' : Assertion σ} {Q Q' : α → Assertion σ} {R : β → Assertion σ} {p q : Prog σ α}
  {f : α → Prog σ β}

theorem Triple.pure (a : α) (h : ∀ s, P s → Q a s) : Triple P (pure a : Prog σ α) Q :=
  h

theorem Keeping.pure (a : α) : Keeping P (pure a : Prog σ α) :=
  fun _ h => h

/-- **Consequence**. -/
theorem Triple.weaken (h : Triple P p Q) (hpre : ∀ s, P' s → P s) (hpost : ∀ a s, Q a s → Q' a s) :
    Triple P' p Q' :=
  fun s hs => hpost _ _ (h s (hpre s hs))

theorem Triple.post (h : Triple P p Q) (hpost : ∀ a s, Q a s → Q' a s) : Triple P p Q' :=
  h.weaken (fun _ hs => hs) hpost

/-- **Sequence**. -/
theorem Triple.bind (hp : Triple P p Q) (hf : ∀ a, Triple (Q a) (f a) R) :
    Triple P (p >>= f) R :=
  fun s hs => hf (p s).1 (p s).2 (hp s hs)

/-- Sequence after a program that comes back to its precondition. -/
theorem Keeping.bind (hp : Keeping P p) (hf : ∀ a, Triple P (f a) R) : Triple P (p >>= f) R :=
  Triple.bind hp hf

/-- **Choice**. -/
theorem Triple.ite {c : Prop} [Decidable c] (hp : c → Triple P p Q) (hq : ¬ c → Triple P q Q) :
    Triple P (if c then p else q) Q := by
  by_cases hc : c
  · rw [if_pos hc]
    exact hp hc
  · rw [if_neg hc]
    exact hq hc

/-- The same choice in the precondition. -/
theorem Triple.choose {c : Prop} [Decidable c] (hp : c → Triple P p Q) (hq : ¬ c → Triple P' q Q) :
    Triple (if c then P else P') (if c then p else q) Q := by
  by_cases hc : c
  · rw [if_pos hc, if_pos hc]
    exact hp hc
  · rw [if_neg hc, if_neg hc]
    exact hq hc

/-- Nothing on one side of a choice. -/
theorem Keeping.optional {c : Prop} [Decidable c] {p : Prog σ Unit} (hp : c → Keeping P p) :
    Keeping P (if c then p else Pure.pure ()) :=
  Triple.ite hp fun _ => Keeping.pure ()

/-- A fact that does not speak of the state. -/
theorem Triple.given {φ : Prop} (h : φ → Triple P p Q) : Triple (fun s => φ ∧ P s) p Q :=
  fun s hs => h hs.1 s hs.2

/-- A value that is not known. -/
theorem Triple.exists {P : ι → Assertion σ} (h : ∀ i, Triple (P i) p Q) :
    Triple (fun s => ∃ i, P i s) p Q :=
  fun s hs => hs.elim fun i hi => h i s hi

theorem Triple.or (h : Triple P p Q) (h' : Triple P' p Q) : Triple (fun s => P s ∨ P' s) p Q :=
  fun s hs => hs.elim (h s) (h' s)

/-- **Operation**: what holds of its answer and of the world it leaves. -/
theorem Triple.op {g : Op σ α}
    (h : ∀ s, P s → Q (g s.depth s.world).1 { s with world := (g s.depth s.world).2 }) :
    Triple P (op g) Q :=
  h

/-- **Loop**: each round keeps the invariant. -/
theorem Keeping.loop {body : ι → α → Prog σ α} (is : List ι) (a : α)
    (h : ∀ i ∈ is, ∀ a, Keeping P (body i a)) : Keeping P (loop body is a) := by
  induction is generalizing a with
  | nil => exact .pure a
  | cons i is ih =>
    have hfirst : Keeping P (body i a) := h i (List.mem_cons_self ..) a
    have hrest : ∀ j ∈ is, ∀ a, Keeping P (body j a) := fun j hj =>
      h j (List.mem_cons_of_mem _ hj)
    exact hfirst.bind fun a => ih a hrest

/-- **Loop with break**. -/
theorem Keeping.breakLoop {body : ι → α → Prog σ (Option α)}
    (h : ∀ i a, Keeping P (body i a)) (is : List ι) (a : α) :
    Keeping P (breakLoop body is a) := by
  induction is generalizing a with
  | nil => exact .pure a
  | cons i is ih =>
    refine (h i a).bind ?_
    intro r
    cases r with
    | none => exact Keeping.pure a
    | some a => exact ih a

end Triples

end Brackets
