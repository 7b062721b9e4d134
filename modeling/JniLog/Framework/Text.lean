import JniLog.Framework.Bytes
import Mathlib.Data.List.Infix

/-! # Trimming and searching byte strings

    White space is a list of encoded code points, a byte string each.
    `trimSpace` drops them at both ends of a text; `index` and `lastIndex`
    are the places of the first and the last occurrence of a text in
    another. -/

namespace Text

/-! ## Section 1: White space -/

/-- The UTF-8 encodings of the white space code points: the ASCII ones,
    U+0085, U+00A0, U+1680, U+2000 to U+200A, U+2028, U+2029, U+202F,
    U+205F and U+3000. -/
def whiteSpace : List Bytes :=
  [[0x20], [0x09], [0x0a], [0x0b], [0x0c], [0x0d], [0xc2, 0x85], [0xc2, 0xa0],
    [0xe1, 0x9a, 0x80],
    [0xe2, 0x80, 0x80], [0xe2, 0x80, 0x81], [0xe2, 0x80, 0x82], [0xe2, 0x80, 0x83],
    [0xe2, 0x80, 0x84], [0xe2, 0x80, 0x85], [0xe2, 0x80, 0x86], [0xe2, 0x80, 0x87],
    [0xe2, 0x80, 0x88], [0xe2, 0x80, 0x89], [0xe2, 0x80, 0x8a],
    [0xe2, 0x80, 0xa8], [0xe2, 0x80, 0xa9], [0xe2, 0x80, 0xaf],
    [0xe2, 0x81, 0x9f], [0xe3, 0x80, 0x80]]

/-- The bytes white space is made of. -/
def spaceBytes : Bytes :=
  [0x20, 0x09, 0x0a, 0x0b, 0x0c, 0x0d, 0xc2, 0x85, 0xa0, 0xe1, 0x9a, 0x80, 0xe2, 0x81, 0x82,
    0x83, 0x84, 0x86, 0x87, 0x88, 0x89, 0x8a, 0xa8, 0xa9, 0xaf, 0x9f, 0xe3]

theorem mem_spaceBytes {r : Bytes} (h : r ∈ whiteSpace) {c : UInt8} (hc : c ∈ r) :
    c ∈ spaceBytes := by
  have hall : (whiteSpace.all fun r => r.all fun c => spaceBytes.contains c) = true := by decide
  have hr := List.all_eq_true.mp hall r h
  simpa using List.all_eq_true.mp hr c hc

theorem whiteSpace_ne_nil {r : Bytes} (h : r ∈ whiteSpace) : r ≠ [] := by
  have hall : (whiteSpace.all fun r => !r.isEmpty) = true := by decide
  have hr := List.all_eq_true.mp hall r h
  rintro rfl
  simp at hr

/-- Only the space itself has a space byte in it. -/
theorem space_notMem_of_mem {r : Bytes} (h : r ∈ whiteSpace) : 0x20 ∈ r → r = [0x20] := by
  have hall : (whiteSpace.all fun r => !r.contains 0x20 || r == [0x20]) = true := by decide
  have hr := List.all_eq_true.mp hall r h
  intro hc
  simpa [hc] using hr

def StartsWithSpace (s : Bytes) : Prop := ∃ r ∈ whiteSpace, r <+: s

def EndsWithSpace (s : Bytes) : Prop := ∃ r ∈ whiteSpace, r <:+ s

instance (s : Bytes) : Decidable (StartsWithSpace s) :=
  inferInstanceAs (Decidable (∃ r ∈ whiteSpace, _))

instance (s : Bytes) : Decidable (EndsWithSpace s) :=
  inferInstanceAs (Decidable (∃ r ∈ whiteSpace, _))

section Ends

variable {s t : Bytes} {c : UInt8}

/-- A text that starts with a byte that is not part of white space. -/
theorem not_startsWithSpace_cons (hc : c ∉ spaceBytes) : ¬ StartsWithSpace (c :: s) := by
  rintro ⟨r, hr, hpre⟩
  cases r with
  | nil => exact whiteSpace_ne_nil hr rfl
  | cons d r =>
    obtain ⟨rfl, -⟩ := List.cons_prefix_cons.mp hpre
    exact hc (mem_spaceBytes hr (by simp))

/-- What comes before a byte that is not part of white space does not
    matter for the end of a text. -/
theorem endsWithSpace_append_cons (hc : c ∉ spaceBytes) :
    EndsWithSpace (s ++ c :: t) ↔ EndsWithSpace t := by
  constructor
  · rintro ⟨r, hr, hsuf⟩
    refine ⟨r, hr, ?_⟩
    by_cases hlen : r.length ≤ t.length
    · exact List.suffix_of_suffix_length_le hsuf ((List.suffix_cons c t).trans
        (List.suffix_append s _)) hlen
    · -- a longer one would hold the byte
      have hin : c :: t <:+ r := List.suffix_of_suffix_length_le (List.suffix_append s _) hsuf
        (by rw [List.length_cons]; omega)
      exact absurd (mem_spaceBytes hr (hin.subset (by simp))) hc
  · rintro ⟨r, hr, hsuf⟩
    exact ⟨r, hr, hsuf.trans ((List.suffix_cons c t).trans (List.suffix_append s _))⟩

/-- White space at the start of a text whose first space is known. -/
theorem startsWithSpace_append_space (hs : 0x20 ∉ s) :
    StartsWithSpace (s ++ 0x20 :: t) ↔ s = [] ∨ StartsWithSpace s := by
  constructor
  · rintro ⟨r, hr, hpre⟩
    by_cases hlen : r.length ≤ s.length
    · exact Or.inr ⟨r, hr, List.prefix_of_prefix_length_le hpre (List.prefix_append s _) hlen⟩
    · -- a longer one would hold the space
      have hs' : s ++ [0x20] <+: s ++ 0x20 :: t := ⟨t, by simp⟩
      have hin : s ++ [0x20] <+: r := List.prefix_of_prefix_length_le hs' hpre
        (by rw [List.length_append, List.length_singleton]; omega)
      obtain rfl := space_notMem_of_mem hr (hin.subset (by simp))
      left
      have := hin.length_le
      rw [List.length_append] at this
      exact List.length_eq_zero_iff.mp (by simpa using this)
  · rintro (rfl | ⟨r, hr, hpre⟩)
    · exact ⟨[0x20], by simp [whiteSpace], ⟨t, rfl⟩⟩
    · exact ⟨r, hr, hpre.trans (List.prefix_append s _)⟩

end Ends

/-! ## Section 2: Trimming -/

/-- Drop the texts of `rs` at the start of `s`, at most `k` of them. -/
def trimLeft (rs : List Bytes) : Nat → Bytes → Bytes
  | 0, s => s
  | k + 1, s =>
    match rs.find? (· <+: s) with
    | some r => trimLeft rs k (s.drop r.length)
    | none => s

/-- `strings.TrimSpace`: white space at the start, then at the end. -/
def trimSpace (s : Bytes) : Bytes :=
  let s := trimLeft whiteSpace s.length s
  (trimLeft (whiteSpace.map List.reverse) s.length s.reverse).reverse

section Trim

variable {rs : List Bytes} {s : Bytes}

/-- What is dropped is made up of texts of `rs`. -/
theorem exists_trimLeft (rs : List Bytes) (k : Nat) (s : Bytes) :
    ∃ l, s = l ++ trimLeft rs k s ∧ ∀ c ∈ l, ∃ r ∈ rs, c ∈ r := by
  induction k generalizing s with
  | zero => exact ⟨[], rfl, by simp⟩
  | succ k ih =>
    rw [trimLeft]
    cases hfind : rs.find? (· <+: s) with
    | none => exact ⟨[], rfl, by simp⟩
    | some r =>
      have hr := List.mem_of_find?_eq_some hfind
      have hpre : r <+: s := by simpa using List.find?_some hfind
      obtain ⟨l, hl, hmem⟩ := ih (s.drop r.length)
      refine ⟨r ++ l, ?_, ?_⟩
      · rw [List.append_assoc, ← hl]
        exact (List.prefix_append_drop hpre)
      · intro c hc
        rcases List.mem_append.mp hc with hc | hc
        · exact ⟨r, hr, hc⟩
        · exact hmem c hc

theorem trimLeft_eq_self {k : Nat} (h : ∀ r ∈ rs, ¬ r <+: s) : trimLeft rs k s = s := by
  cases k with
  | zero => rfl
  | succ k =>
    have hnone : rs.find? (· <+: s) = none := by simpa using h
    rw [trimLeft, hnone]

theorem length_trimLeft_le (rs : List Bytes) (k : Nat) (s : Bytes) :
    (trimLeft rs k s).length ≤ s.length := by
  obtain ⟨l, hl, -⟩ := exists_trimLeft rs k s
  have := congrArg List.length hl
  rw [List.length_append] at this
  omega

/-- A text at the start is dropped. -/
theorem length_trimLeft_lt {r : Bytes} (hr : r ∈ rs) (hnil : [] ∉ rs) (hpre : r <+: s) :
    (trimLeft rs s.length s).length < s.length := by
  have hpos : r.length ≠ 0 := by
    intro h0
    exact hnil (List.length_eq_zero_iff.mp h0 ▸ hr)
  have hle := hpre.length_le
  obtain ⟨k, hk⟩ : ∃ k, s.length = k + 1 := ⟨s.length - 1, by omega⟩
  rw [hk, trimLeft]
  cases hfind : rs.find? (· <+: s) with
  | none =>
    have := List.find?_eq_none.mp hfind r hr
    simp [hpre] at this
  | some r' =>
    have hr' : r' ≠ [] := fun h0 => hnil (h0 ▸ List.mem_of_find?_eq_some hfind)
    have hpos' := List.length_pos_iff.mpr hr'
    have := length_trimLeft_le rs k (s.drop r'.length)
    rw [List.length_drop] at this
    dsimp only
    omega

/-- Trimming drops bytes of white space at both ends. -/
theorem exists_trimSpace (s : Bytes) :
    ∃ l q, s = l ++ trimSpace s ++ q ∧ (∀ c ∈ l, c ∈ spaceBytes) ∧ ∀ c ∈ q, c ∈ spaceBytes := by
  obtain ⟨l, hl, hlmem⟩ := exists_trimLeft whiteSpace s.length s
  obtain ⟨q, hq, hqmem⟩ := exists_trimLeft (whiteSpace.map List.reverse)
    (trimLeft whiteSpace s.length s).length (trimLeft whiteSpace s.length s).reverse
  refine ⟨l, q.reverse, ?_, ?_, ?_⟩
  · rw [List.append_assoc, trimSpace, ← List.reverse_append, ← hq, List.reverse_reverse, ← hl]
  · intro c hc
    obtain ⟨r, hr, hcr⟩ := hlmem c hc
    exact mem_spaceBytes hr hcr
  · intro c hc
    obtain ⟨r, hr, hcr⟩ := hqmem c (List.mem_reverse.mp hc)
    obtain ⟨r', hr', rfl⟩ := List.mem_map.mp hr
    exact mem_spaceBytes hr' (List.mem_reverse.mp hcr)

theorem length_trimSpace_le (s : Bytes) : (trimSpace s).length ≤ s.length := by
  obtain ⟨l, q, h, -⟩ := exists_trimSpace s
  have := congrArg List.length h
  simp only [List.length_append] at this
  omega

/-- Trimming keeps a text that is not shortened. -/
theorem trimSpace_eq_self_of_length (h : s.length ≤ (trimSpace s).length) : trimSpace s = s := by
  obtain ⟨l, q, hs, -⟩ := exists_trimSpace s
  have hlen := congrArg List.length hs
  simp only [List.length_append] at hlen
  obtain rfl : l = [] := List.length_eq_zero_iff.mp (by omega)
  obtain rfl : q = [] := List.length_eq_zero_iff.mp (by omega)
  simpa using hs.symm

/-- Trimming keeps exactly the texts without white space at an end. -/
theorem trimSpace_eq_self_iff : trimSpace s = s ↔ ¬ StartsWithSpace s ∧ ¬ EndsWithSpace s := by
  have hnil : [] ∉ whiteSpace := fun h => whiteSpace_ne_nil h rfl
  have hnil' : [] ∉ whiteSpace.map List.reverse := by
    intro h
    obtain ⟨r, hr, hrev⟩ := List.mem_map.mp h
    exact whiteSpace_ne_nil hr (List.reverse_eq_nil_iff.mp hrev)
  constructor
  · intro h
    have hlen := congrArg List.length h
    rw [trimSpace, List.length_reverse] at hlen
    have hle := length_trimLeft_le (whiteSpace.map List.reverse)
      (trimLeft whiteSpace s.length s).length (trimLeft whiteSpace s.length s).reverse
    rw [List.length_reverse] at hle
    -- white space at either end would make the trimmed text shorter
    refine ⟨?_, ?_⟩
    · rintro ⟨r, hr, hpre⟩
      have := length_trimLeft_lt hr hnil hpre
      omega
    · rintro ⟨r, hr, hsuf⟩
      have hle' := length_trimLeft_le whiteSpace s.length s
      obtain ⟨l, hl, -⟩ := exists_trimLeft whiteSpace s.length s
      have hfull : trimLeft whiteSpace s.length s = s := by
        have hll := congrArg List.length hl
        rw [List.length_append] at hll
        obtain rfl : l = [] := List.length_eq_zero_iff.mp (by omega)
        exact hl.symm
      rw [hfull] at hlen
      have := length_trimLeft_lt (List.mem_map_of_mem hr) hnil' (List.reverse_prefix.mpr hsuf)
      rw [List.length_reverse] at this
      omega
  · rintro ⟨hstart, hend⟩
    have hleft : trimLeft whiteSpace s.length s = s :=
      trimLeft_eq_self fun r hr hpre => hstart ⟨r, hr, hpre⟩
    rw [trimSpace]
    simp only [hleft]
    rw [trimLeft_eq_self, List.reverse_reverse]
    intro r hr hpre
    obtain ⟨r', hr', rfl⟩ := List.mem_map.mp hr
    exact hend ⟨r', hr', List.reverse_prefix.mp hpre⟩

/-- What stands between two bytes that are not part of white space is kept. -/
theorem infix_trimSpace {x y z : Bytes} {c d : UInt8} (hc : c ∉ spaceBytes)
    (hd : d ∉ spaceBytes) : c :: (y ++ [d]) <:+: trimSpace (x ++ c :: (y ++ d :: z)) := by
  obtain ⟨l, q, heq, hl, hq⟩ := exists_trimSpace (x ++ c :: (y ++ d :: z))
  generalize trimSpace (x ++ c :: (y ++ d :: z)) = t at heq
  rw [List.append_assoc] at heq
  -- what is dropped in front ends before `c`
  obtain ⟨x', hx'⟩ : ∃ x', t ++ q = x' ++ c :: (y ++ d :: z) := by
    rcases List.append_eq_append_iff.mp heq with ⟨l', rfl, hrest⟩ | ⟨x', rfl, hrest⟩
    · cases l' with
      | nil => exact ⟨[], by simpa using hrest.symm⟩
      | cons e l' =>
        obtain ⟨rfl, -⟩ := List.cons.inj hrest
        exact absurd (hl c (by simp)) hc
    · exact ⟨x', hrest⟩
  -- what is dropped behind starts after `d`
  have hsplit : t ++ q = (x' ++ c :: (y ++ [d])) ++ z := by
    rw [hx']
    simp
  rcases List.append_eq_append_iff.mp hsplit with ⟨w, hw, hrest⟩ | ⟨w, rfl, -⟩
  · rcases List.eq_nil_or_concat w with rfl | ⟨w', e, rfl⟩
    · rw [List.append_nil] at hw
      rw [← hw]
      exact ⟨x', [], by simp⟩
    · have hconcat : (x' ++ c :: y) ++ [d] = (t ++ w') ++ [e] := by simpa using hw
      have hlast : [d] = [e] := (List.append_inj' hconcat rfl).2
      obtain rfl : d = e := by simpa using hlast
      exact absurd (hq d (by simp [hrest])) hd
  · exact ⟨x', w, by simp⟩

/-- A space in front is dropped. -/
theorem trimSpace_space_cons (s : Bytes) : trimSpace (0x20 :: s) = trimSpace s := by
  have hleft : trimLeft whiteSpace (0x20 :: s).length (0x20 :: s) =
      trimLeft whiteSpace s.length s := by
    rw [List.length_cons, trimLeft]
    have hfind : whiteSpace.find? (· <+: (0x20 :: s)) = some [0x20] := by
      simp [whiteSpace]
    rw [hfind]
    rfl
  rw [trimSpace, trimSpace, hleft]

end Trim

/-! ## Section 3: Searching -/

/-- `strings.LastIndex` for a text that is not empty. -/
def lastIndex (sub : Bytes) : Bytes → Option Nat
  | [] => none
  | c :: s =>
    match lastIndex sub s with
    | some i => some (i + 1)
    | none => if sub <+: c :: s then some 0 else none

/-- `strings.Index` and `strstr`. -/
def index (sub : Bytes) : Bytes → Option Nat
  | [] => if sub = [] then some 0 else none
  | c :: s => if sub <+: c :: s then some 0 else (index sub s).map (· + 1)

section Search

variable {sub p q s : Bytes} {i : Nat}

theorem index_eq_some (h : index sub s = some i) :
    i + sub.length ≤ s.length ∧ sub <+: s.drop i := by
  induction s generalizing i with
  | nil =>
    rw [index] at h
    split at h
    · rename_i hsub
      obtain rfl : 0 = i := by simpa using h
      simp [hsub]
    · cases h
  | cons c s ih =>
    rw [index] at h
    split at h
    · rename_i hpre
      obtain rfl : 0 = i := by simpa using h
      exact ⟨by simpa using hpre.length_le, hpre⟩
    · obtain ⟨j, hj, rfl⟩ := Option.map_eq_some_iff.mp h
      obtain ⟨hlen, hpre⟩ := ih hj
      exact ⟨by rw [List.length_cons]; omega, by simpa using hpre⟩

theorem index_of_prefix (h : sub <+: s) : index sub s = some 0 := by
  cases s with
  | nil => rw [index, if_pos (List.prefix_nil.mp h)]
  | cons c s => rw [index, if_pos h]

/-- What is in front does not matter when the first byte is not in it. -/
theorem index_append {c : UInt8} (h : c ∉ p) (q : Bytes) :
    index (c :: sub) (p ++ q) = (index (c :: sub) q).map (· + p.length) := by
  induction p with
  | nil => simp
  | cons b p ih =>
    have hne : c ≠ b := fun heq => h (heq ▸ List.mem_cons_self)
    have hpre : ¬ c :: sub <+: b :: (p ++ q) := fun hpre => hne (List.cons_prefix_cons.mp hpre).1
    rw [List.cons_append, index, if_neg hpre, ih fun hmem => h (List.mem_cons_of_mem b hmem),
      Option.map_map, List.length_cons]
    rfl

/-- A text whose first byte does not come before it. -/
theorem index_append_of_notMem {c : UInt8} (h : c ∉ p) (q : Bytes) :
    index (c :: sub) (p ++ (c :: sub ++ q)) = some p.length := by
  rw [index_append h, index_of_prefix (List.prefix_append _ q), Option.map_some, Nat.zero_add]

theorem index_isSome_of_infix (h : sub <:+: s) : (index sub s).isSome = true := by
  induction s with
  | nil => simp [index, List.eq_nil_of_infix_nil h]
  | cons c s ih =>
    rw [index]
    split
    · rfl
    · rename_i hpre
      rcases List.infix_cons_iff.mp h with hin | hin
      · exact absurd hin hpre
      · rw [Option.isSome_map]
        exact ih hin

theorem lastIndex_eq_some (h : lastIndex sub s = some i) : i < s.length ∧ sub <+: s.drop i := by
  induction s generalizing i with
  | nil => simp [lastIndex] at h
  | cons c s ih =>
    rw [lastIndex] at h
    cases hlast : lastIndex sub s with
    | some j =>
      rw [hlast] at h
      obtain rfl : j + 1 = i := by simpa using h
      obtain ⟨hj, hpre⟩ := ih hlast
      exact ⟨by simpa using hj, by simpa using hpre⟩
    | none =>
      rw [hlast] at h
      simp only at h
      split at h
      · obtain rfl : 0 = i := by simpa using h
        exact ⟨by simp, by simpa⟩
      · simp at h

theorem lastIndex_eq_none (hsub : sub ≠ []) (h : lastIndex sub s = none) : ¬ sub <:+: s := by
  induction s with
  | nil => simpa using hsub
  | cons c s ih =>
    rw [lastIndex] at h
    cases hlast : lastIndex sub s with
    | some j => simp [hlast] at h
    | none =>
      rw [hlast] at h
      have hpre : ¬ sub <+: c :: s := by
        intro hpre
        simp [hpre] at h
      rw [List.infix_cons_iff]
      rintro (hin | hin)
      · exact hpre hin
      · exact ih hlast hin

theorem lastIndex_isSome (h : sub <:+: s) (hsub : sub ≠ []) : ∃ i, lastIndex sub s = some i := by
  cases hlast : lastIndex sub s with
  | some i => exact ⟨i, rfl⟩
  | none => exact absurd h (lastIndex_eq_none hsub hlast)

/-- An occurrence is no later than the last one. -/
theorem length_le_lastIndex (h : lastIndex sub (p ++ q) = some i) (hq : sub <+: q)
    (hsub : sub ≠ []) : p.length ≤ i := by
  induction p generalizing i with
  | nil => simp
  | cons c p ih =>
    rw [List.cons_append, lastIndex] at h
    obtain ⟨j, hj⟩ := lastIndex_isSome (hq.isInfix.trans (List.suffix_append p q).isInfix) hsub
    rw [hj] at h
    obtain rfl : j + 1 = i := by simpa using h
    have := ih hj
    simpa using this

/-- The occurrence after which there is no other is the last one. -/
theorem lastIndex_append_cons {c : UInt8} (hpre : sub <+: c :: q) (hq : ¬ sub <:+: q) :
    lastIndex sub (p ++ c :: q) = some p.length := by
  induction p with
  | nil =>
    have hnone : lastIndex sub q = none := by
      cases hlast : lastIndex sub q with
      | none => rfl
      | some i =>
        have := (lastIndex_eq_some hlast).2
        exact absurd (this.isInfix.trans (List.drop_suffix i q).isInfix) hq
    rw [List.nil_append, lastIndex, hnone]
    simp [hpre]
  | cons d p ih =>
    rw [List.cons_append, lastIndex, ih]
    rfl

end Search

end Text
