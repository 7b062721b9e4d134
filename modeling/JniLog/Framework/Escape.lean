import JniLog.Framework.Bytes

/-! # Byte stuffing

    An escape code: a set of reserved bytes, a lead byte among them, and
    a mask that moves every reserved byte out of the set. A reserved
    byte `b` is written as the lead byte followed by `b ^^^ mask`; every
    other byte is written as itself. -/

/-- An escape code. -/
structure EscapeCode where
  lead : UInt8
  mask : UInt8
  reserved : UInt8 → Bool
  lead_reserved : reserved lead = true
  masked_free : ∀ b, reserved b = true → reserved (b ^^^ mask) = false

namespace EscapeCode

variable (c : EscapeCode)

/-- The code of one byte. -/
def encodeByte (b : UInt8) : Bytes :=
  if c.reserved b then [c.lead, b ^^^ c.mask] else [b]

/-- The code of a byte string. -/
def escape (s : Bytes) : Bytes :=
  s.flatMap c.encodeByte

/-- Reads the code back. A lead byte at the very end stands for itself. -/
def unescape : Bytes → Bytes
  | [] => []
  | [b] => [b]
  | b :: x :: s => if b = c.lead then (x ^^^ c.mask) :: unescape s else b :: unescape (x :: s)

@[simp] theorem escape_nil : c.escape [] = [] := rfl

@[simp] theorem escape_cons (b : UInt8) (s : Bytes) :
    c.escape (b :: s) = c.encodeByte b ++ c.escape s := by
  simp [escape]

@[simp] theorem escape_append (s t : Bytes) : c.escape (s ++ t) = c.escape s ++ c.escape t := by
  simp [escape]

@[simp] theorem unescape_nil : c.unescape [] = [] := by
  rw [unescape]

variable {c}

theorem encodeByte_of_reserved {b : UInt8} (h : c.reserved b = true) :
    c.encodeByte b = [c.lead, b ^^^ c.mask] := by
  simp [encodeByte, h]

theorem encodeByte_of_free {b : UInt8} (h : c.reserved b = false) : c.encodeByte b = [b] := by
  simp [encodeByte, h]

theorem ne_lead_of_free {b : UInt8} (h : c.reserved b = false) : b ≠ c.lead := by
  intro hb
  simp [hb, c.lead_reserved] at h

/-! ## Round trip -/

theorem unescape_lead_cons (x : UInt8) (s : Bytes) :
    c.unescape (c.lead :: x :: s) = (x ^^^ c.mask) :: c.unescape s := by
  rw [unescape, if_pos rfl]

theorem unescape_cons_of_ne {b : UInt8} (h : b ≠ c.lead) (s : Bytes) :
    c.unescape (b :: s) = b :: c.unescape s := by
  cases s with
  | nil => simp [unescape]
  | cons x s => rw [unescape, if_neg h]

/-- The code of a byte reads back as the byte, whatever follows. -/
theorem unescape_encodeByte_append (b : UInt8) (s : Bytes) :
    c.unescape (c.encodeByte b ++ s) = b :: c.unescape s := by
  cases h : c.reserved b with
  | true =>
    rw [encodeByte_of_reserved h]
    show c.unescape (c.lead :: (b ^^^ c.mask) :: s) = b :: c.unescape s
    rw [unescape_lead_cons, UInt8.xor_assoc, UInt8.xor_self, UInt8.xor_zero]
  | false =>
    rw [encodeByte_of_free h]
    exact unescape_cons_of_ne (ne_lead_of_free h) s

/-- Escaped text reads back, whatever follows. -/
theorem unescape_escape_append (s t : Bytes) :
    c.unescape (c.escape s ++ t) = s ++ c.unescape t := by
  induction s with
  | nil => rfl
  | cons b s ih =>
    rw [escape_cons, List.append_assoc, unescape_encodeByte_append, ih, List.cons_append]

/-- Escaping loses nothing. -/
theorem unescape_escape (s : Bytes) : c.unescape (c.escape s) = s := by
  have h := c.unescape_escape_append s []
  rwa [List.append_nil, unescape_nil, List.append_nil] at h

/-! ## What escaped text contains -/

/-- The only reserved byte in escaped text is the lead byte. -/
theorem eq_lead_of_mem_escape {b : UInt8} {s : Bytes} (hb : c.reserved b = true)
    (h : b ∈ c.escape s) : b = c.lead := by
  obtain ⟨x, -, hx⟩ := List.mem_flatMap.mp h
  cases hr : c.reserved x with
  | true =>
    rw [encodeByte_of_reserved hr, List.mem_pair] at hx
    rcases hx with hx | hx
    · exact hx
    · rw [hx, c.masked_free x hr] at hb
      simp at hb
  | false =>
    rw [encodeByte_of_free hr, List.mem_singleton] at hx
    rw [hx, hr] at hb
    simp at hb

/-- Escaped text is free of the reserved bytes other than the lead. -/
theorem notMem_escape {b : UInt8} (hb : c.reserved b = true) (hne : b ≠ c.lead) (s : Bytes) :
    b ∉ c.escape s :=
  fun h => hne (eq_lead_of_mem_escape hb h)

/-- A text without reserved bytes is its own code. -/
theorem escape_eq_self {s : Bytes} (h : ∀ b ∈ s, c.reserved b = false) : c.escape s = s := by
  induction s with
  | nil => rfl
  | cons b s ih =>
    rw [escape_cons, encodeByte_of_free (h b (by simp)), ih fun x hx => h x (by simp [hx])]
    rfl

/-- A text without the lead byte reads as itself. -/
theorem unescape_eq_self {s : Bytes} (h : c.lead ∉ s) : c.unescape s = s := by
  induction s with
  | nil => simp
  | cons b s ih =>
    simp only [List.mem_cons, not_or] at h
    rw [unescape_cons_of_ne (Ne.symm h.1), ih h.2]

theorem escape_eq_nil {s : Bytes} (h : c.escape s = []) : s = [] := by
  rw [← c.unescape_escape s, h, unescape_nil]

/-- Escaping is one-to-one. -/
theorem escape_injective : Function.Injective c.escape := by
  intro s t h
  rw [← c.unescape_escape s, h, c.unescape_escape t]

/-! ## How reading shortens a text -/

theorem length_unescape_le (s : Bytes) : (c.unescape s).length ≤ s.length := by
  induction s using unescape.induct (c := c) with
  | case1 => simp [unescape]
  | case2 b => simp [unescape]
  | case3 x s ih =>
    rw [unescape_lead_cons]
    simp only [List.length_cons]
    omega
  | case4 b x s hb ih =>
    rw [unescape_cons_of_ne hb]
    simpa using ih

/-- A lead byte that is not the last byte takes the next one with it. -/
theorem length_unescape_lt {s : Bytes} (h : c.lead ∈ s.dropLast) :
    (c.unescape s).length < s.length := by
  induction s using unescape.induct (c := c) with
  | case1 => simp at h
  | case2 b => simp at h
  | case3 x s ih =>
    have hle := length_unescape_le (c := c) s
    rw [unescape_lead_cons]
    simp only [List.length_cons]
    omega
  | case4 b x s hb ih =>
    rw [List.dropLast_cons_cons, List.mem_cons] at h
    have hlt := ih (h.resolve_left (Ne.symm hb))
    rw [unescape_cons_of_ne hb]
    simpa using hlt

/-- A text reads as itself when the lead byte stands at its end at most. -/
theorem unescape_eq_self_of_dropLast {s : Bytes} (h : c.lead ∉ s.dropLast) :
    c.unescape s = s := by
  induction s using unescape.induct (c := c) with
  | case1 => simp
  | case2 b => simp [unescape]
  | case3 x s ih => simp at h
  | case4 b x s hb ih =>
    rw [List.dropLast_cons_cons, List.mem_cons, not_or] at h
    rw [unescape_cons_of_ne hb, ih h.2]

/-! ## Cutting escaped text -/

/-- A prefix of escaped text that does not end in the lead byte is itself
    escaped: the text of a prefix. -/
theorem exists_escape_of_isPrefix {s t : Bytes} (h : t <+: c.escape s)
    (hlast : t.getLast? ≠ some c.lead) : ∃ s', s' <+: s ∧ t = c.escape s' := by
  induction s generalizing t with
  | nil => exact ⟨[], List.prefix_refl _, List.prefix_nil.mp h⟩
  | cons b s ih =>
    cases t with
    | nil => exact ⟨[], List.nil_prefix, rfl⟩
    | cons x t =>
      rw [escape_cons] at h
      cases hres : c.reserved b with
      -- a byte that stands for itself
      | false =>
        rw [encodeByte_of_free hres] at h
        obtain ⟨rfl, hpre⟩ := List.cons_prefix_cons.mp h
        have hlast' : t.getLast? ≠ some c.lead := by
          cases t with
          | nil => simp
          | cons y t => rwa [List.getLast?_cons_cons] at hlast
        obtain ⟨s', hs', rfl⟩ := ih hpre hlast'
        refine ⟨x :: s', List.cons_prefix_cons.mpr ⟨rfl, hs'⟩, ?_⟩
        rw [escape_cons, encodeByte_of_free hres]
        rfl
      -- an escaped byte takes two, and the cut is not between them
      | true =>
        rw [encodeByte_of_reserved hres] at h
        obtain ⟨rfl, hpre⟩ := List.cons_prefix_cons.mp h
        cases t with
        | nil => exact absurd rfl hlast
        | cons y t =>
          obtain ⟨rfl, hrest⟩ := List.cons_prefix_cons.mp hpre
          have hlast' : t.getLast? ≠ some c.lead := by
            cases t with
            | nil => simp
            | cons z t => rwa [List.getLast?_cons_cons, List.getLast?_cons_cons] at hlast
          obtain ⟨s', hs', rfl⟩ := ih hrest hlast'
          refine ⟨b :: s', List.cons_prefix_cons.mpr ⟨rfl, hs'⟩, ?_⟩
          rw [escape_cons, encodeByte_of_reserved hres]
          rfl

end EscapeCode
