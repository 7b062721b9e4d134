import JniLog.Framework.Bytes

/-! # Reading a text by position

    A text with a NUL behind it, read byte by byte at a position. A read
    behind the NUL has no result, so a scan with a result has read
    nothing there. -/

namespace Cursor

open Bytes

/-- The byte at `p`; the NUL is the last one there is. -/
def read (s : Bytes) (p : Nat) : Option UInt8 := (s ++ [0])[p]?

theorem le_of_read {s : Bytes} {p : Nat} {c : UInt8} (h : read s p = some c) : p ≤ s.length := by
  have hlt := (List.getElem?_eq_some_iff.mp h).1
  rw [List.length_append, List.length_singleton] at hlt
  exact Nat.le_of_lt_succ hlt

/-- `while (test(*p)) p++;` -/
def skipWhile (test : UInt8 → Bool) (s : Bytes) (p : Nat) : Option Nat :=
  match h : read s p with
  | none => none
  | some c => if test c then skipWhile test s (p + 1) else some p
termination_by s.length + 1 - p
decreasing_by
  have hle := le_of_read h
  omega

/-- `for (;; p++) { ... else break; }`: every byte may change the state, and
    the first one that has no part in it ends the loop. -/
def scan {σ : Type} (step : σ → UInt8 → Option σ) (s : Bytes) (st : σ) (p : Nat) :
    Option (σ × Nat) :=
  match _ : read s p with
  | none => none
  | some c =>
    match step st c with
    | some st => scan step s st (p + 1)
    | none => some (st, p)
termination_by s.length + 1 - p
decreasing_by
  have hle := le_of_read ‹_›
  omega

/-- The same loop on the text behind the position. -/
def scanText {σ : Type} (step : σ → UInt8 → Option σ) : σ → Bytes → σ × Bytes
  | st, [] => (st, [])
  | st, c :: rest =>
    match step st c with
    | some st => scanText step st rest
    | none => (st, c :: rest)

/-- A loop goes forward only. -/
theorem length_scanText_le {σ : Type} (step : σ → UInt8 → Option σ) (st : σ) (rest : Bytes) :
    (scanText step st rest).2.length ≤ rest.length := by
  induction rest generalizing st with
  | nil => exact Nat.le_refl 0
  | cons c rest ih =>
    rw [scanText]
    split
    · exact Nat.le_succ_of_le (ih _)
    · exact Nat.le_refl _

/-- The position `p` stands in front of `rest`. -/
structure At (s : Bytes) (p : Nat) (rest : Bytes) : Prop where
  le : p ≤ s.length
  drop_eq : s.drop p = rest

section At

variable {s rest : Bytes} {p : Nat} {c : UInt8}

theorem at_zero (s : Bytes) : At s 0 s :=
  ⟨Nat.zero_le _, rfl⟩

theorem At.read_eq (h : At s p rest) : read s p = some (rest.headD 0) := by
  obtain ⟨hle, rfl⟩ := h
  unfold read
  rcases Nat.lt_or_eq_of_le hle with hlt | rfl
  · rw [List.getElem?_append_left hlt, List.getElem?_eq_getElem hlt, List.drop_eq_getElem_cons hlt]
    rfl
  · rw [List.getElem?_append_right (Nat.le_refl _), Nat.sub_self, List.drop_length]
    rfl

theorem At.next (h : At s p (c :: rest)) : At s (p + 1) rest := by
  obtain ⟨hle, hdrop⟩ := h
  have hlen := congrArg List.length hdrop
  rw [List.length_drop, List.length_cons] at hlen
  refine ⟨by omega, ?_⟩
  rw [← List.drop_drop, hdrop]
  rfl

theorem At.subset (h : At s p rest) : rest ⊆ s := by
  rw [← h.drop_eq]
  exact List.drop_subset p s

/-- A loop with a state that stops at the NUL stays within the text. -/
theorem At.scan {σ : Type} {step : σ → UInt8 → Option σ} (hnul : ∀ st, step st 0 = none)
    (h : At s p rest) (st : σ) :
    ∃ q, scan step s st p = some ((scanText step st rest).1, q) ∧
      At s q (scanText step st rest).2 := by
  induction rest generalizing p st with
  | nil =>
    have hread : read s p = some 0 := h.read_eq
    refine ⟨p, ?_, h⟩
    rw [Cursor.scan]
    split
    · simp_all
    · rename_i c' hc'
      obtain rfl : c' = 0 := Option.some.inj (hc'.symm.trans hread)
      rw [hnul]
      rfl
  | cons c rest ih =>
    have hread : read s p = some c := h.read_eq
    rw [Cursor.scan, scanText]
    split
    · simp_all
    · rename_i c' hc'
      obtain rfl : c' = c := Option.some.inj (hc'.symm.trans hread)
      cases step st c' with
      | some st => exact ih h.next st
      | none => exact ⟨p, rfl, h⟩

/-- A loop that stops at the NUL stays within the text. -/
theorem At.skipWhile (test : UInt8 → Bool) (hnul : test 0 = false) (h : At s p rest) :
    ∃ q, skipWhile test s p = some q ∧ At s q (rest.dropWhile test) := by
  induction rest generalizing p with
  | nil =>
    refine ⟨p, ?_, h⟩
    have hread : read s p = some 0 := h.read_eq
    rw [Cursor.skipWhile]
    split
    · simp_all
    · simp_all
  | cons c rest ih =>
    have hread : read s p = some c := h.read_eq
    rw [Cursor.skipWhile]
    split
    · simp_all
    · rename_i c' hc'
      obtain rfl : c' = c := Option.some.inj (hc'.symm.trans hread)
      rw [List.dropWhile_cons]
      split
      · exact ih h.next
      · exact ⟨p, rfl, h⟩

end At

end Cursor
