import JniLog.Framework.Bytes

/-! # Lists cut short

    A list is cut short when it ends early, and the last element that is
    left may have been reduced. The text a list of pieces is read from
    is cut short byte by byte: then the pieces are cut short, and the
    last one is reduced to a prefix. -/

universe u

/-- `ys` is a prefix of `xs`, or a prefix followed by one element that is
    reduced from the next. -/
def CutShort {α : Type u} (reduced : α → α → Prop) (xs ys : List α) : Prop :=
  ys <+: xs ∨ ∃ init x y rest, xs = init ++ x :: rest ∧ ys = init ++ [y] ∧ reduced x y

namespace CutShort

variable {α : Type u} {reduced : α → α → Prop} {xs ys init rest : List α} {x y : α}

theorem of_isPrefix (h : ys <+: xs) : CutShort reduced xs ys :=
  .inl h

theorem refl (xs : List α) : CutShort reduced xs xs :=
  .inl (List.prefix_refl xs)

/-- Nothing is added to a list that is cut short. -/
theorem length_le (h : CutShort reduced xs ys) : ys.length ≤ xs.length := by
  rcases h with h | ⟨init, x, y, rest, rfl, rfl, -⟩
  · exact h.length_le
  · simp only [List.length_append, List.length_cons, List.length_nil]
    omega

/-- Where the cut falls decides which element is reduced. -/
theorem append_iff (hx : reduced x x) :
    CutShort reduced (init ++ x :: rest) (init ++ [y]) ↔ reduced x y := by
  constructor
  · rintro (h | ⟨init', x', y', rest', hxs, hys, hr⟩)
    · obtain ⟨u, hu⟩ := h
      have heq : y = x ∧ u = rest := by simpa using hu
      rwa [heq.1]
    · -- the two lists end at the same place
      obtain ⟨rfl, hy⟩ := List.append_inj' hys rfl
      obtain rfl : y = y' := by simpa using hy
      have hcons : x :: rest = x' :: rest' := List.append_cancel_left hxs
      obtain rfl : x = x' := (List.cons.inj hcons).1
      exact hr
  · intro h
    exact .inr ⟨init, x, y, rest, rfl, rfl, h⟩

end CutShort

/-- A list ends as its non-empty ends do. -/
theorem List.IsSuffix.getLast?_eq {α : Type u} {s t : List α} (h : s <:+ t) {c : α}
    (hc : s.getLast? = some c) : t.getLast? = some c := by
  obtain ⟨u, rfl⟩ := h
  rw [List.getLast?_append, hc]
  rfl

namespace Bytes

/-- **Pieces of a prefix.** Cutting a text cuts its list of pieces, and
    leaves a prefix of the piece the cut falls into. -/
theorem exists_splitOn_isPrefix {b : UInt8} {s t : Bytes} (h : t <+: s) :
    ∃ init q p rest, t.splitOn b = init ++ [q] ∧ s.splitOn b = init ++ p :: rest ∧ q <+: p := by
  induction t generalizing s with
  | nil =>
    obtain ⟨p, rest, hs⟩ := List.exists_cons_of_ne_nil (List.splitOn_ne_nil b s)
    exact ⟨[], [], p, rest, by simp, hs, List.nil_prefix⟩
  | cons c t ih =>
    obtain ⟨u, rfl⟩ := h
    obtain ⟨init, q, p, rest, ht, hs, hpre⟩ := ih (List.prefix_append t u)
    rw [List.cons_append, List.splitOn_cons_eq_if_modifyHead, List.splitOn_cons_eq_if_modifyHead,
      ht, hs]
    by_cases hc : (c == b) = true
    · rw [if_pos hc, if_pos hc]
      exact ⟨[] :: init, q, p, rest, rfl, rfl, hpre⟩
    · rw [if_neg hc, if_neg hc]
      cases init with
      | nil =>
        exact ⟨[], c :: q, c :: p, rest, rfl, rfl, (List.prefix_cons_inj c).mpr hpre⟩
      | cons x init => exact ⟨(c :: x) :: init, q, p, rest, rfl, rfl, hpre⟩

/-- The last piece is the end of the text. -/
theorem suffix_of_splitOn {b : UInt8} {init : List Bytes} {q t : Bytes}
    (h : t.splitOn b = init ++ [q]) : q <:+ t := by
  have ht : [b].intercalate (t.splitOn b) = t := List.intercalate_splitOn b
  rw [← ht, h]
  clear ht h
  induction init with
  | nil => simp
  | cons x init ih =>
    obtain ⟨y, ys, hy⟩ := List.exists_cons_of_ne_nil (show init ++ [q] ≠ [] by simp)
    rw [hy] at ih
    rw [List.cons_append, hy, List.intercalate_cons_cons]
    exact ih.trans (List.suffix_append _ _)

end Bytes
