import Mathlib.Data.List.Infix

/-! # Separators outside brackets

    Cutting a text at the separators that stand at nesting depth zero.
    Symbols have weights: an opening bracket raises the depth, a closing
    one lowers it, and other symbols leave it as it is. The depth is a
    sum, so it may be negative, and a bracket that is never closed hides
    every separator after it.

    Main result: joining pieces with a separator of two different
    symbols and cutting again gives the pieces back exactly when no
    piece has a separator at depth zero and every piece but the last
    closes what it opens. -/

universe u

namespace Nested

section

variable {α : Type u} (w : α → Int)

/-! ## Section 1: Depth -/

/-- The number of brackets a text opens, less those it closes. -/
def nesting : List α → Int
  | [] => 0
  | c :: s => w c + nesting s

@[simp] theorem nesting_nil : nesting w [] = 0 := rfl

@[simp] theorem nesting_cons (c : α) (s : List α) :
    nesting w (c :: s) = w c + nesting w s := rfl

@[simp] theorem nesting_append (s t : List α) :
    nesting w (s ++ t) = nesting w s + nesting w t := by
  induction s with
  | nil => simp
  | cons c s ih => rw [List.cons_append, nesting_cons, ih, nesting_cons, Int.add_assoc]

/-- A text without brackets. -/
theorem nesting_eq_zero {s : List α} (h : ∀ c ∈ s, w c = 0) : nesting w s = 0 := by
  induction s with
  | nil => rfl
  | cons c s ih =>
    rw [nesting_cons, h c (by simp), ih fun d hd => h d (by simp [hd]), Int.add_zero]

/-! ## Section 2: Cutting -/

section

variable [DecidableEq α]

/-- Cut a text at the separators at depth zero: `skip` symbols of a
    separator are still to be passed over, `part` is the piece read so
    far. The depth does not count the symbols passed over. -/
def segments (sep : List α) : Nat → Int → List α → List α → List (List α)
  | _, _, part, [] => [part]
  | skip + 1, depth, part, _ :: s => segments sep skip depth part s
  | 0, depth, part, c :: s =>
    let depth := depth + w c
    if depth = 0 ∧ sep <+: c :: s then part :: segments sep (sep.length - 1) depth [] s
    else segments sep 0 depth (part ++ [c]) s

end

/-- No separator of `p` stands at depth zero when `p` starts at `depth`. -/
def Unsplit (sep : List α) (depth : Int) (p : List α) : Prop :=
  ∀ i < p.length, sep <+: p.drop i → depth + nesting w (p.take i) ≠ 0

instance [DecidableEq α] (sep : List α) (depth : Int) (p : List α) :
    Decidable (Unsplit w sep depth p) :=
  inferInstanceAs (Decidable (∀ i < p.length, sep <+: p.drop i → _))

variable {w} {sep p : List α} {c : α} {depth : Int}

theorem Unsplit.head (h : Unsplit w sep depth (c :: p)) : sep <+: c :: p → depth ≠ 0 := by
  intro hsep
  simpa using h 0 (by simp) hsep

theorem Unsplit.tail (h : Unsplit w sep depth (c :: p)) : Unsplit w sep (depth + w c) p := by
  intro i hi hsep
  have := h (i + 1) (by simpa using hi) (by simpa using hsep)
  rwa [List.take_succ_cons, nesting_cons, ← Int.add_assoc] at this

theorem Unsplit.cons (hhead : sep <+: c :: p → depth ≠ 0) (h : Unsplit w sep (depth + w c) p) :
    Unsplit w sep depth (c :: p) := by
  intro i hi hsep
  cases i with
  | zero => simpa using hhead hsep
  | succ i =>
    have := h i (by simpa using hi) (by simpa using hsep)
    rwa [List.take_succ_cons, nesting_cons, ← Int.add_assoc]

end

/-! ## Section 3: A separator of two symbols -/

section TwoSymbols

variable {α : Type u} [DecidableEq α] {w : α → Int} {a b : α} {depth : Int} {part s x : List α}
  {xs : List (List α)}

/-- The cut at a separator. -/
theorem segments_sep (ha : w a = 0) (part s : List α) :
    segments w [a, b] 0 0 part (a :: b :: s) = part :: segments w [a, b] 0 0 [] s := by
  simp [segments, ha]

/-- The first piece of a cut text: it holds no separator at depth zero,
    and it is the whole text or is followed by one. -/
theorem segments_eq_cons (ha : w a = 0) (h : segments w [a, b] 0 depth part s = x :: xs) :
    ∃ p, x = part ++ p ∧ Unsplit w [a, b] depth p ∧
      (xs = [] ∧ s = p ∨
        ∃ q, s = p ++ a :: b :: q ∧ depth + nesting w p = 0 ∧
          xs = segments w [a, b] 0 0 [] q) := by
  induction s generalizing depth part with
  | nil =>
    rw [segments, List.cons.injEq] at h
    obtain ⟨rfl, rfl⟩ := h
    refine ⟨[], by simp, ?_, Or.inl ⟨rfl, rfl⟩⟩
    intro i hi
    simp at hi
  | cons c s ih =>
    by_cases hcut : depth + w c = 0 ∧ [a, b] <+: c :: s
    · -- a separator at depth zero
      obtain ⟨hdepth, t, ht⟩ := hcut
      simp only [List.cons_append, List.nil_append, List.cons.injEq] at ht
      obtain ⟨rfl, rfl⟩ := ht
      have hzero : depth = 0 := by omega
      subst hzero
      rw [segments_sep ha, List.cons.injEq] at h
      obtain ⟨rfl, rfl⟩ := h
      refine ⟨[], by simp, ?_, Or.inr ⟨t, rfl, rfl, rfl⟩⟩
      intro i hi
      simp at hi
    · -- the symbol joins the piece
      simp only [segments, if_neg hcut] at h
      obtain ⟨p, rfl, hunsplit, hend⟩ := ih h
      refine ⟨c :: p, by simp, ?_, ?_⟩
      · refine Unsplit.cons (fun hsep => ?_) hunsplit
        -- a separator at the seam would be one of the text
        have hlong : [a, b] <+: c :: s := by
          refine hsep.trans ?_
          rcases hend with ⟨-, rfl⟩ | ⟨q, rfl, -⟩
          · exact List.prefix_rfl
          · exact ⟨a :: b :: q, rfl⟩
        have hca : w c = 0 := by
          obtain ⟨t, ht⟩ := hsep
          simp only [List.cons_append, List.cons.injEq] at ht
          rw [← ht.1, ha]
        intro hzero
        exact hcut ⟨by omega, hlong⟩
      · rcases hend with ⟨rfl, rfl⟩ | ⟨q, rfl, hdepth, rfl⟩
        · exact Or.inl ⟨rfl, rfl⟩
        · exact Or.inr ⟨q, rfl, by rw [nesting_cons]; omega, rfl⟩

theorem segments_ne_nil (skip : Nat) (depth : Int) (part s : List α) :
    segments w [a, b] skip depth part s ≠ [] := by
  induction s generalizing skip depth part with
  | nil => simp [segments]
  | cons c s ih =>
    cases skip with
    | succ skip => exact ih skip depth part
    | zero =>
      rw [segments]
      split
      · simp
      · exact ih 0 _ _

/-- The pieces make up the text. -/
theorem intercalate_segments (ha : w a = 0) (s : List α) :
    [a, b].intercalate (segments w [a, b] 0 0 [] s) = s := by
  obtain ⟨x, xs, h⟩ :=
    List.exists_cons_of_ne_nil (segments_ne_nil (w := w) (a := a) (b := b) 0 0 [] s)
  obtain ⟨p, hx, -, ⟨rfl, rfl⟩ | ⟨q, rfl, -, rfl⟩⟩ := segments_eq_cons ha h
  · rw [h, hx]
    simp
  · have ih := intercalate_segments ha q
    obtain ⟨y, ys, hq⟩ :=
      List.exists_cons_of_ne_nil (segments_ne_nil (w := w) (a := a) (b := b) 0 0 [] q)
    rw [h, hx, hq, List.intercalate_cons_cons, ← hq, ih]
    simp
termination_by s.length
decreasing_by
  grind

/-- Reading through a text that holds no separator at depth zero. The
    separator cannot begin with its last symbol either, when the next
    symbol is not the separator's second one. -/
theorem segments_append {e rest : List α} (hrest : ∀ q, rest ≠ b :: q)
    (h : Unsplit w [a, b] depth e) (ha : w a = 0) (part : List α) :
    segments w [a, b] 0 depth part (e ++ rest) =
      segments w [a, b] 0 (depth + nesting w e) (part ++ e) rest := by
  induction e generalizing depth part with
  | nil => simp
  | cons c e ih =>
    -- a separator here would lie in `e`, or straddle its end
    have hcut : ¬ (depth + w c = 0 ∧ [a, b] <+: c :: (e ++ rest)) := by
      rintro ⟨hdepth, t, ht⟩
      simp only [List.cons_append, List.nil_append, List.cons.injEq] at ht
      obtain ⟨rfl, ht⟩ := ht
      cases e with
      | nil => exact hrest t ht.symm
      | cons d e =>
        simp only [List.cons_append, List.cons.injEq] at ht
        obtain ⟨rfl, -⟩ := ht
        exact h.head ⟨e, rfl⟩ (by omega)
    simp only [List.cons_append, segments, if_neg hcut]
    rw [ih h.tail, nesting_cons, List.append_assoc, Int.add_assoc]
    rfl

/-- Joined pieces are cut into themselves exactly when none has a
    separator at depth zero and all but the last are balanced. -/
theorem segments_intercalate_iff (hab : a ≠ b) (ha : w a = 0) {es : List (List α)}
    (hne : es ≠ []) :
    segments w [a, b] 0 0 [] ([a, b].intercalate es) = es ↔
      (∀ e ∈ es, Unsplit w [a, b] 0 e) ∧ ∀ e ∈ es.dropLast, nesting w e = 0 := by
  induction es with
  | nil => exact absurd rfl hne
  | cons e es ih =>
    cases es with
    | nil =>
      rw [List.intercalate_singleton]
      constructor
      · intro h
        obtain ⟨p, hp, hunsplit, ⟨-, rfl⟩ | ⟨q, rfl, -, hq⟩⟩ := segments_eq_cons ha h
        · simpa using hunsplit
        · exact absurd hq.symm (segments_ne_nil 0 0 [] q)
      · rintro ⟨h, -⟩
        have hend : ∀ q : List α, [] ≠ b :: q := by simp
        have hrun := segments_append hend (h e (by simp)) ha []
        rw [List.append_nil] at hrun
        rw [hrun]
        simp [segments]
    | cons e' es =>
      have ih := ih (by simp)
      have hjoin : [a, b].intercalate (e :: e' :: es) =
          e ++ a :: b :: [a, b].intercalate (e' :: es) := by
        rw [List.intercalate_cons_cons]
        simp
      rw [hjoin, List.dropLast_cons_cons]
      simp only [List.forall_mem_cons]
      -- the first piece is read up to the first separator at depth zero
      constructor
      · intro h
        obtain ⟨p, hp, hunsplit, ⟨hnil, -⟩ | ⟨q, hs, hdepth, hq⟩⟩ := segments_eq_cons ha h
        · simp at hnil
        · rw [List.nil_append] at hp
          subst hp
          have hrest := List.append_cancel_left hs
          simp only [List.cons.injEq, true_and] at hrest
          rw [← hrest] at hq
          obtain ⟨hall, hbal⟩ := ih.mp hq.symm
          rw [Int.zero_add] at hdepth
          exact ⟨⟨hunsplit, by simpa using hall⟩, hdepth, hbal⟩
      · rintro ⟨⟨he, hall⟩, hbal, hbals⟩
        have hrest : ∀ q, a :: b :: [a, b].intercalate (e' :: es) ≠ b :: q := by
          intro q hq
          exact hab (List.cons.inj hq).1
        rw [segments_append hrest he ha, hbal, Int.add_zero, segments_sep ha,
          ih.mpr ⟨by simpa using hall, hbals⟩]
        simp

end TwoSymbols

end Nested
