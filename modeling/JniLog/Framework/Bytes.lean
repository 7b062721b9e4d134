import Mathlib.Data.List.Basic
import Mathlib.Data.UInt

/-! # Byte strings

    Byte strings as lists, C strings as NUL-free byte strings, and the
    text operations that byte-oriented encoders and decoders share:
    cutting at the first occurrence of a delimiter, joining with a
    delimiter, and splitting into records that each end in one. -/

/-- A byte string. -/
abbrev Bytes := List UInt8

/-- A string without a NUL byte. -/
abbrev CStr := {s : Bytes // (0 : UInt8) ∉ s}

namespace Bytes

/-- The bytes of a string of code points below 256. -/
def ascii (s : String) : Bytes :=
  s.toList.map fun c => UInt8.ofNat c.toNat

instance : Inhabited CStr := ⟨⟨[], by simp⟩⟩

/-- The one instance by which membership in a list of byte strings is decided. -/
instance : LawfulBEq Bytes := inferInstance

/-! ## Cutting at a delimiter -/

section Cut

variable {b : UInt8} {p s : Bytes}

/-- The text before and after the first occurrence of `b`. -/
def cut (b : UInt8) : Bytes → Option (Bytes × Bytes)
  | [] => none
  | x :: s => if x = b then some ([], s) else (cut b s).map fun (p, q) => (x :: p, q)

@[simp] theorem cut_nil : cut b [] = none := rfl

@[simp] theorem cut_cons_self : cut b (b :: s) = some ([], s) := by
  simp [cut]

theorem cut_cons_of_ne {x : UInt8} (h : x ≠ b) :
    cut b (x :: s) = (cut b s).map fun (p, q) => (x :: p, q) := by
  simp [cut, h]

theorem cut_eq_none (h : b ∉ s) : cut b s = none := by
  induction s with
  | nil => rfl
  | cons x s ih =>
    simp only [List.mem_cons, not_or] at h
    rw [cut_cons_of_ne (Ne.symm h.1), ih h.2, Option.map_none]

/-- The first delimiter is the one after a delimiter-free text. -/
theorem cut_append (h : b ∉ p) : cut b (p ++ b :: s) = some (p, s) := by
  induction p with
  | nil => simp
  | cons x p ih =>
    simp only [List.mem_cons, not_or] at h
    rw [List.cons_append, cut_cons_of_ne (Ne.symm h.1), ih h.2, Option.map_some]

/-- A successful cut puts the string back together. -/
theorem cut_eq_some {q : Bytes} (h : cut b s = some (p, q)) : b ∉ p ∧ s = p ++ b :: q := by
  induction s generalizing p with
  | nil => simp at h
  | cons x s ih =>
    by_cases hx : x = b
    · subst hx
      simp only [cut_cons_self, Option.some.injEq, Prod.mk.injEq] at h
      obtain ⟨rfl, rfl⟩ := h
      simp
    · rw [cut_cons_of_ne hx, Option.map_eq_some_iff] at h
      obtain ⟨⟨p', q'⟩, hcut, heq⟩ := h
      simp only [Prod.mk.injEq] at heq
      obtain ⟨rfl, rfl⟩ := heq
      obtain ⟨hb, rfl⟩ := ih hcut
      exact ⟨by simp [hb, Ne.symm hx], rfl⟩

/-- Cutting is slicing at the index of the first occurrence. -/
theorem cut_eq_map_idxOf (s : Bytes) :
    cut b s = (s.idxOf? b).map fun i => (s.take i, s.drop (i + 1)) := by
  induction s with
  | nil => rfl
  | cons x s ih =>
    rw [List.idxOf?_cons]
    by_cases hx : x = b
    · subst hx
      simp
    · rw [cut_cons_of_ne hx, ih, if_neg (by simpa using hx), Option.map_map, Option.map_map]
      rfl

end Cut

/-! ## Records ended by a delimiter -/

section Records

variable {b : UInt8} {rs : List Bytes}

/-- The records, each followed by the delimiter. -/
def terminated (b : UInt8) (rs : List Bytes) : Bytes :=
  rs.flatMap fun r => r ++ [b]

@[simp] theorem terminated_nil : terminated b [] = [] := rfl

@[simp] theorem terminated_cons (r : Bytes) :
    terminated b (r :: rs) = r ++ b :: terminated b rs := by
  simp [terminated]

@[simp] theorem terminated_append (rs' : List Bytes) :
    terminated b (rs ++ rs') = terminated b rs ++ terminated b rs' := by
  simp [terminated]

/-- Splitting ended records gives them back, with an empty text at the end. -/
theorem splitOn_terminated (h : ∀ r ∈ rs, b ∉ r) :
    (terminated b rs).splitOn b = rs ++ [[]] := by
  induction rs with
  | nil => rfl
  | cons r rs ih =>
    rw [terminated_cons, List.splitOn_append_cons_self_of_not_mem (h r (by simp)),
      ih fun r' hr' => h r' (by simp [hr'])]
    rfl

/-- Records each preceded by the delimiter, after a first one. -/
def joined (b : UInt8) (r : Bytes) (rs : List Bytes) : Bytes :=
  r ++ rs.flatMap fun x => b :: x

@[simp] theorem joined_nil (r : Bytes) : joined b r [] = r := by
  simp [joined]

@[simp] theorem joined_cons (r x : Bytes) : joined b r (x :: rs) = r ++ b :: joined b x rs := by
  simp [joined]

/-- Splitting joined records gives them back. -/
theorem splitOn_joined {r : Bytes} (hr : b ∉ r) (h : ∀ x ∈ rs, b ∉ x) :
    (joined b r rs).splitOn b = r :: rs := by
  induction rs generalizing r with
  | nil => rw [joined_nil, List.splitOn_eq_singleton hr]
  | cons x rs ih =>
    rw [joined_cons, List.splitOn_append_cons_self_of_not_mem hr,
      ih (h x (by simp)) fun y hy => h y (by simp [hy])]

/-- The records of a text, each ended by the delimiter or by the end of the
    text. -/
def records (b : UInt8) (s : Bytes) : List Bytes :=
  let pieces := s.splitOn b
  if pieces.getLast? = some [] then pieces.dropLast else pieces

@[simp] theorem records_nil : records b [] = [] := rfl

theorem records_cons {p : Bytes} (h : b ∉ p) (s : Bytes) :
    records b (p ++ b :: s) = p :: records b s := by
  have hsplit : (p ++ b :: s).splitOn b = p :: s.splitOn b :=
    List.splitOn_append_cons_self_of_not_mem h s
  obtain ⟨x, xs, hxs⟩ := List.exists_cons_of_ne_nil (List.splitOn_ne_nil b s)
  simp only [records, hsplit, hxs, List.getLast?_cons_cons, List.dropLast_cons_cons]
  split_ifs <;> rfl

/-- A last record without its delimiter. -/
theorem records_last {p : Bytes} (h : b ∉ p) (hne : p ≠ []) : records b p = [p] := by
  have hlast : [p].getLast? ≠ some [] := by
    intro heq
    exact hne (Option.some.inj heq)
  simp only [records, List.splitOn_eq_singleton h, if_neg hlast]

theorem records_of_cut {p q s : Bytes} (h : cut b s = some (p, q)) :
    records b s = p :: records b q := by
  obtain ⟨hp, rfl⟩ := cut_eq_some h
  exact records_cons hp q

theorem records_of_cut_none {s : Bytes} (h : cut b s = none) (hne : s ≠ []) :
    records b s = [s] := by
  apply records_last _ hne
  intro hmem
  obtain ⟨p, q, rfl, hp⟩ := List.eq_append_cons_of_mem hmem
  rw [cut_append hp] at h
  cases h

/-- A byte in none of the pieces is in the text only as the delimiter. -/
theorem notMem_of_splitOn {c : UInt8} {s : Bytes} (hbc : c ≠ b) (h : ∀ r ∈ s.splitOn b, c ∉ r) :
    c ∉ s := by
  have hjoin (rs : List Bytes) (hrs : ∀ r ∈ rs, c ∉ r) : c ∉ [b].intercalate rs := by
    induction rs with
    | nil => exact List.not_mem_nil
    | cons r rs ih =>
      cases rs with
      | nil => simpa using hrs
      | cons r' rs =>
        have hrest := ih fun x hx => hrs x (List.mem_cons_of_mem r hx)
        rw [List.intercalate_cons_cons]
        simp only [List.mem_append, List.mem_singleton, not_or]
        exact ⟨⟨hrs r List.mem_cons_self, hbc⟩, hrest⟩
  have hs := hjoin _ h
  rwa [List.intercalate_splitOn] at hs

end Records

end Bytes
