import JniLog.Framework.Text

/-! # UTF-8 texts, rune by rune

    Decoding that never fails: a byte that does not start a well-formed
    sequence is a rune of its own, the replacement character, one byte
    wide. A rune is a code point. A text is the concatenation of the bytes of its runes, and
    mapping a text encodes the images of its runes. A search for bytes in
    encoded runes finds whole runes. -/

namespace Utf8

def RuneError : Nat := 0xFFFD

def isCont (b : UInt8) : Bool :=
  0x80 ≤ b && b ≤ 0xBF

/-- The bits a continuation byte carries. -/
def tail (b : UInt8) : Nat :=
  b.toNat - 0x80

/-- The bytes that may follow the first byte of a longer sequence: neither
    overlong sequences nor surrogates nor values past 0x10FFFF. -/
def isSecond (b₀ b₁ : UInt8) : Bool :=
  isCont b₁ && !(b₀ = 0xE0 && b₁ < 0xA0) && !(b₀ = 0xED && b₁ > 0x9F) &&
    !(b₀ = 0xF0 && b₁ < 0x90) && !(b₀ = 0xF4 && b₁ > 0x8F)

/-- The first rune of a text that is not empty, and its width. -/
def decodeRune (b₀ : UInt8) (s : Bytes) : Nat × Nat :=
  if b₀ < 0x80 then (b₀.toNat, 1)
  else
    match s with
    | b₁ :: s =>
      if 0xC2 ≤ b₀ && b₀ ≤ 0xDF && isCont b₁ then ((b₀.toNat - 0xC0) * 64 + tail b₁, 2)
      else
        match s with
        | b₂ :: s =>
          if 0xE0 ≤ b₀ && b₀ ≤ 0xEF && isSecond b₀ b₁ && isCont b₂ then
            ((b₀.toNat - 0xE0) * 4096 + tail b₁ * 64 + tail b₂, 3)
          else
            match s with
            | b₃ :: _ =>
              if 0xF0 ≤ b₀ && b₀ ≤ 0xF4 && isSecond b₀ b₁ && isCont b₂ && isCont b₃ then
                ((b₀.toNat - 0xF0) * 262144 + tail b₁ * 4096 + tail b₂ * 64 + tail b₃, 4)
              else (RuneError, 1)
            | [] => (RuneError, 1)
        | [] => (RuneError, 1)
    | [] => (RuneError, 1)

/-- The runes of a text of at most `n` bytes, each with its bytes. -/
def runesLoop : Nat → Bytes → List (Nat × Bytes)
  | 0, _ => []
  | _ + 1, [] => []
  | n + 1, b :: s =>
    let d := decodeRune b s
    (d.1, (b :: s).take d.2) :: runesLoop n ((b :: s).drop d.2)

def runes (s : Bytes) : List (Nat × Bytes) :=
  runesLoop s.length s

/-- The encoding of a rune; what is not a scalar value is encoded as the
    replacement character. -/
def encodeRune (r : Nat) : Bytes :=
  if r < 0x80 then [UInt8.ofNat r]
  else if r < 0x800 then [UInt8.ofNat (0xC0 + r / 64), UInt8.ofNat (0x80 + r % 64)]
  else if r > 0x10FFFF ∨ (0xD800 ≤ r ∧ r ≤ 0xDFFF) then [0xEF, 0xBF, 0xBD]
  else if r < 0x10000 then
    [UInt8.ofNat (0xE0 + r / 4096), UInt8.ofNat (0x80 + r / 64 % 64), UInt8.ofNat (0x80 + r % 64)]
  else
    [UInt8.ofNat (0xF0 + r / 262144), UInt8.ofNat (0x80 + r / 4096 % 64),
      UInt8.ofNat (0x80 + r / 64 % 64), UInt8.ofNat (0x80 + r % 64)]

/-- `strings.Map`, for a mapping that drops nothing. -/
def mapRunes (f : Nat → Nat) (s : Bytes) : Bytes :=
  (runes s).flatMap fun r => encodeRune (f r.1)

/-- The first `n` runes, and whether there are more. -/
def takeRunes (n : Nat) (s : Bytes) : Bytes × Bool :=
  (((runes s).take n).flatMap Prod.snd, n < (runes s).length)

/-! ## Runes and bytes -/

/-- A rune is one to four bytes wide; a byte below 0x80 is its own rune,
    and other runes are made of bytes from 0x80 on. -/
theorem decodeRune_spec (b : UInt8) (s : Bytes) :
    (b < 0x80 ∧ decodeRune b s = (b.toNat, 1)) ∨
    (0x80 ≤ b ∧ 0x80 ≤ (decodeRune b s).1 ∧ 1 ≤ (decodeRune b s).2 ∧
      ∀ c ∈ (b :: s).take (decodeRune b s).2, 0x80 ≤ c) := by
  by_cases hb : b < 0x80
  · exact .inl ⟨hb, by rw [decodeRune.eq_def, if_pos hb]⟩
  · refine .inr ?_
    have hge : 0x80 ≤ b := UInt8.not_lt.mp hb
    have herr : 0x80 ≤ RuneError ∧ 1 ≤ 1 ∧ ∀ c ∈ (b :: s).take 1, 0x80 ≤ c := by
      refine ⟨by decide, Nat.le_refl _, fun c hc => ?_⟩
      obtain rfl : c = b := by simpa using hc
      exact hge
    refine ⟨hge, ?_⟩
    rw [decodeRune.eq_def, if_neg hb]
    have hcont : ∀ c : UInt8, isCont c = true → 0x80 ≤ c ∧ 0x80 ≤ c.toNat := by
      intro c hc
      simp only [isCont, Bool.and_eq_true, decide_eq_true_eq] at hc
      exact ⟨hc.1, UInt8.le_iff_toNat_le.mp hc.1⟩
    have hsecond : ∀ c : UInt8, isSecond b c = true → isCont c = true := by
      intro c hc
      simp only [isSecond, Bool.and_eq_true] at hc
      exact hc.1.1.1.1
    -- one case for each length of a sequence; what fits none is one byte of error
    cases s with
    | nil => exact herr
    | cons b₁ s =>
      dsimp only
      split
      · rename_i h
        simp only [Bool.and_eq_true, decide_eq_true_eq] at h
        obtain ⟨h₁, h₁'⟩ := hcont b₁ h.2
        have h₀ : 0xC2 ≤ b.toNat := UInt8.le_iff_toNat_le.mp h.1.1
        refine ⟨?_, Nat.le_add_left 1 1, ?_⟩
        · show 0x80 ≤ (b.toNat - 0xC0) * 64 + tail b₁
          omega
        · simp [hge, h₁]
      · cases s with
        | nil => exact herr
        | cons b₂ s =>
          dsimp only
          split
          · rename_i h
            simp only [Bool.and_eq_true, decide_eq_true_eq] at h
            obtain ⟨h₁, h₁'⟩ := hcont b₁ (hsecond b₁ h.1.2)
            obtain ⟨h₂, -⟩ := hcont b₂ h.2
            have h₀ : 0xE0 ≤ b.toNat := UInt8.le_iff_toNat_le.mp h.1.1.1
            refine ⟨?_, Nat.le_add_left 1 2, by simp [hge, h₁, h₂]⟩
            show 0x80 ≤ (b.toNat - 0xE0) * 4096 + tail b₁ * 64 + tail b₂
            by_cases he0 : b = 0xE0
            · -- the second byte of a sequence that starts with 0xE0 is large
              have hlow : ¬ b₁ < 0xA0 := by
                have hs := h.1.2
                simp only [isSecond, he0, Bool.and_eq_true] at hs
                simpa using hs.1.1.1.2
              have hb₁ : 0xA0 ≤ b₁.toNat := UInt8.le_iff_toNat_le.mp (UInt8.not_lt.mp hlow)
              have ht : 0x20 ≤ tail b₁ := by
                unfold tail
                omega
              omega
            · have hne : b.toNat ≠ 0xE0 := by
                intro h
                exact he0 (UInt8.toNat_inj.mp h)
              omega
          · cases s with
            | nil => exact herr
            | cons b₃ s =>
              dsimp only
              split
              · rename_i h
                simp only [Bool.and_eq_true, decide_eq_true_eq] at h
                obtain ⟨h₁, h₁'⟩ := hcont b₁ (hsecond b₁ h.1.1.2)
                obtain ⟨h₂, -⟩ := hcont b₂ h.1.2
                obtain ⟨h₃, -⟩ := hcont b₃ h.2
                have h₀ : 0xF0 ≤ b.toNat := UInt8.le_iff_toNat_le.mp h.1.1.1.1
                refine ⟨?_, Nat.le_add_left 1 3, by simp [hge, h₁, h₂, h₃]⟩
                show 0x80 ≤ (b.toNat - 0xF0) * 262144 + tail b₁ * 4096 + tail b₂ * 64 + tail b₃
                by_cases hf0 : b = 0xF0
                -- likewise after 0xF0, for four bytes
                · have hlow : ¬ b₁ < 0x90 := by
                    have hs := h.1.1.2
                    simp only [isSecond, hf0, Bool.and_eq_true] at hs
                    simpa using hs.1.2
                  have hb₁ : 0x90 ≤ b₁.toNat := UInt8.le_iff_toNat_le.mp (UInt8.not_lt.mp hlow)
                  have ht : 0x10 ≤ tail b₁ := by
                    unfold tail
                    omega
                  omega
                · have hne : b.toNat ≠ 0xF0 := by
                    intro h
                    exact hf0 (UInt8.toNat_inj.mp h)
                  omega
              · exact herr

theorem decodeRune_pos (b : UInt8) (s : Bytes) : 1 ≤ (decodeRune b s).2 := by
  rcases decodeRune_spec b s with ⟨-, h⟩ | ⟨-, -, h, -⟩
  · rw [h]
  · exact h

/-- A text is the bytes of its runes. -/
theorem flatMap_runesLoop (n : Nat) (s : Bytes) (h : s.length ≤ n) :
    (runesLoop n s).flatMap Prod.snd = s := by
  induction n generalizing s with
  | zero =>
    obtain rfl : s = [] := List.length_eq_zero_iff.mp (by omega)
    rfl
  | succ n ih =>
    cases s with
    | nil => rfl
    | cons b s =>
      have hpos := decodeRune_pos b s
      rw [runesLoop, List.flatMap_cons, ih]
      · exact List.take_append_drop _ _
      · rw [List.length_drop, List.length_cons]
        rw [List.length_cons] at h
        omega

theorem flatMap_runes (s : Bytes) : (runes s).flatMap Prod.snd = s :=
  flatMap_runesLoop s.length s (Nat.le_refl _)

/-- Every rune of a text is one byte below 0x80, or has only bytes from
    0x80 on. -/
theorem mem_runesLoop {n : Nat} {s : Bytes} {r : Nat} {bs : Bytes} (h : (r, bs) ∈ runesLoop n s) :
    (∃ b : UInt8, b < 0x80 ∧ r = b.toNat ∧ bs = [b]) ∨
      (0x80 ≤ r ∧ ∀ c ∈ bs, (0x80 : UInt8) ≤ c) := by
  induction n generalizing s with
  | zero => cases h
  | succ n ih =>
    cases s with
    | nil => cases h
    | cons b s =>
      rw [runesLoop] at h
      rcases List.mem_cons.mp h with heq | hmem
      · obtain ⟨hr, hbs⟩ := Prod.mk.inj heq
        rcases decodeRune_spec b s with ⟨hb, hdec⟩ | ⟨-, hge, -, hbytes⟩
        · rw [hdec] at hr hbs
          exact .inl ⟨b, hb, hr, hbs⟩
        · rw [hr, hbs]
          exact .inr ⟨hge, hbytes⟩
      · exact ih hmem

theorem mem_runes {s : Bytes} {r : Nat} {bs : Bytes} (h : (r, bs) ∈ runes s) :
    (∃ b : UInt8, b < 0x80 ∧ r = b.toNat ∧ bs = [b]) ∨
      (0x80 ≤ r ∧ ∀ c ∈ bs, (0x80 : UInt8) ≤ c) :=
  mem_runesLoop h

/-- The number of continuation bytes that follow a first byte. -/
def contCount (b : UInt8) : Nat :=
  if b < 0xE0 then 1 else if b < 0xF0 then 2 else 3

theorem ofNat_mem_range {n lo hi : Nat} (h : lo ≤ n) (h' : n < hi) (hhi : hi ≤ 256) :
    UInt8.ofNat lo ≤ UInt8.ofNat n ∧ (UInt8.ofNat n).toNat < hi := by
  have hn : (UInt8.ofNat n).toNat = n := UInt8.toNat_ofNat_of_lt' (Nat.lt_of_lt_of_le h' hhi)
  have hlo : (UInt8.ofNat lo).toNat = lo :=
    UInt8.toNat_ofNat_of_lt' (Nat.lt_of_le_of_lt h (Nat.lt_of_lt_of_le h' hhi))
  rw [UInt8.le_iff_toNat_le, hn, hlo]
  exact ⟨h, h'⟩

theorem isCont_ofNat {n : Nat} (h : 0x80 ≤ n) (h' : n < 0xC0) : isCont (UInt8.ofNat n) = true := by
  obtain ⟨hlo, hhi⟩ := ofNat_mem_range h h' (by decide)
  simp only [isCont, Bool.and_eq_true, decide_eq_true_eq]
  exact ⟨hlo, UInt8.le_iff_toNat_le.mpr (Nat.le_of_lt_succ hhi)⟩

/-- A rune from 0x80 on is a first byte from 0xC0 on and the continuation
    bytes that the first byte calls for. -/
theorem encodeRune_shape {r : Nat} (h : 0x80 ≤ r) :
    ∃ b cs, encodeRune r = b :: cs ∧ 0xC0 ≤ b ∧ cs.length = contCount b ∧
      ∀ c ∈ cs, isCont c = true := by
  have hone : ¬ r < 0x80 := Nat.not_lt.mpr h
  have hcont (n : Nat) : isCont (UInt8.ofNat (0x80 + n % 64)) = true :=
    isCont_ofNat (Nat.le_add_right _ _) (by omega)
  unfold encodeRune
  rw [if_neg hone]
  by_cases htwo : r < 0x800
  · have hfrom : 0xC0 ≤ 0xC0 + r / 64 := Nat.le_add_right _ _
    have hto : 0xC0 + r / 64 < 0xE0 := by omega
    obtain ⟨hlo, hhi⟩ := ofNat_mem_range hfrom hto (by decide)
    rw [if_pos htwo]
    refine ⟨_, _, rfl, hlo, ?_, ?_⟩
    · rw [contCount, if_pos (UInt8.lt_iff_toNat_lt.mpr hhi)]
      rfl
    · exact List.forall_mem_singleton.mpr (hcont r)
  rw [if_neg htwo]
  -- surrogates and values out of range become U+FFFD
  by_cases herr : r > 0x10FFFF ∨ (0xD800 ≤ r ∧ r ≤ 0xDFFF)
  · rw [if_pos herr]
    refine ⟨_, _, rfl, by decide, by decide, ?_⟩
    simp only [List.mem_cons, List.not_mem_nil, or_false]
    rintro c (rfl | rfl)
    · decide
    · decide
  rw [if_neg herr]
  by_cases hthree : r < 0x10000
  · have hfrom : 0xE0 ≤ 0xE0 + r / 4096 := Nat.le_add_right _ _
    have hto : 0xE0 + r / 4096 < 0xF0 := by omega
    obtain ⟨hlo, hhi⟩ := ofNat_mem_range hfrom hto (by decide)
    have hge : ¬ UInt8.ofNat (0xE0 + r / 4096) < 0xE0 := UInt8.not_lt.mpr hlo
    rw [if_pos hthree]
    refine ⟨_, _, rfl, UInt8.le_trans (by decide) hlo, ?_, ?_⟩
    · rw [contCount, if_neg hge, if_pos (UInt8.lt_iff_toNat_lt.mpr hhi)]
      rfl
    · exact List.forall_mem_cons.mpr ⟨hcont _, List.forall_mem_singleton.mpr (hcont r)⟩
  · have hfrom : 0xF0 ≤ 0xF0 + r / 262144 := Nat.le_add_right _ _
    have hto : 0xF0 + r / 262144 < 0x100 := by omega
    obtain ⟨hlo, -⟩ := ofNat_mem_range hfrom hto (by decide)
    have hge : ¬ UInt8.ofNat (0xF0 + r / 262144) < 0xE0 :=
      UInt8.not_lt.mpr (UInt8.le_trans (by decide) hlo)
    have hge' : ¬ UInt8.ofNat (0xF0 + r / 262144) < 0xF0 := UInt8.not_lt.mpr hlo
    rw [if_neg hthree]
    refine ⟨_, _, rfl, UInt8.le_trans (by decide) hlo, ?_, ?_⟩
    · rw [contCount, if_neg hge, if_neg hge']
      rfl
    · exact List.forall_mem_cons.mpr
        ⟨hcont _, List.forall_mem_cons.mpr ⟨hcont _, List.forall_mem_singleton.mpr (hcont r)⟩⟩

/-- A rune from 0x80 on is encoded in bytes from 0x80 on. -/
theorem encodeRune_ge {r : Nat} (h : 0x80 ≤ r) : ∀ c ∈ encodeRune r, (0x80 : UInt8) ≤ c := by
  obtain ⟨b, cs, heq, hb, -, hcs⟩ := encodeRune_shape h
  rw [heq]
  intro c hc
  rcases List.mem_cons.mp hc with rfl | hc
  · exact UInt8.le_trans (by decide) hb
  · have hcont := hcs c hc
    simp only [isCont, Bool.and_eq_true, decide_eq_true_eq] at hcont
    exact hcont.1

/-! ## Searching -/

/-- The bytes of one rune: a first byte and the continuation bytes it calls for. -/
def IsEncoded (bs : Bytes) : Prop :=
  ∃ b cs, bs = b :: cs ∧ isCont b = false ∧ cs.length = (if b < 0x80 then 0 else contCount b) ∧
    ∀ c ∈ cs, isCont c = true

theorem isEncoded_encodeRune (r : Nat) : IsEncoded (encodeRune r) := by
  by_cases h : r < 0x80
  · have hlt : UInt8.ofNat r < 0x80 := by
      rw [UInt8.lt_iff_toNat_lt, UInt8.toNat_ofNat_of_lt' (Nat.lt_trans h (by decide))]
      exact h
    refine ⟨UInt8.ofNat r, [], by rw [encodeRune, if_pos h], ?_, by rw [if_pos hlt]; rfl, ?_⟩
    · rw [isCont, Bool.and_eq_false_iff, decide_eq_false_iff_not]
      exact .inl (UInt8.not_le.mpr hlt)
    · intro c hc
      cases hc
  · obtain ⟨b, cs, heq, hb, hlen, hcs⟩ := encodeRune_shape (Nat.not_lt.mp h)
    refine ⟨b, cs, heq, ?_, ?_, hcs⟩
    · rw [isCont, Bool.and_eq_false_iff, decide_eq_false_iff_not, decide_eq_false_iff_not]
      exact .inr (UInt8.not_le.mpr (UInt8.lt_of_lt_of_le (by decide) hb))
    · rw [hlen, if_neg (UInt8.not_lt.mpr (UInt8.le_trans (by decide) hb))]

section Encoded

variable {x y s t : Bytes} {xs ys : List Bytes}

/-- A text starts with one rune only. -/
theorem IsEncoded.append_inj (hx : IsEncoded x) (hy : IsEncoded y) (h : x ++ s = y ++ t) :
    x = y ∧ s = t := by
  obtain ⟨b, cs, rfl, -, hlen, -⟩ := hx
  obtain ⟨b', cs', rfl, -, hlen', -⟩ := hy
  obtain ⟨rfl, htail⟩ := List.cons.inj h
  obtain ⟨rfl, rfl⟩ := List.append_inj htail (hlen.trans hlen'.symm)
  exact ⟨rfl, rfl⟩

theorem IsEncoded.ne_nil (hx : IsEncoded x) : x ≠ [] := by
  obtain ⟨b, cs, rfl, -⟩ := hx
  exact List.cons_ne_nil b cs

/-- A text of runes starts with another one, byte by byte, exactly when it
    does rune by rune. -/
theorem flatten_prefix_iff (hx : ∀ x ∈ xs, IsEncoded x) (hy : ∀ y ∈ ys, IsEncoded y) :
    xs.flatten <+: ys.flatten ↔ xs <+: ys := by
  constructor
  · intro h
    induction xs generalizing ys with
    | nil => exact List.nil_prefix
    | cons x xs ih =>
      obtain ⟨t, ht⟩ := h
      have hx₀ := hx x List.mem_cons_self
      cases ys with
      | nil =>
        rw [List.flatten_cons, List.append_assoc, List.flatten_nil] at ht
        exact absurd (List.append_eq_nil_iff.mp ht).1 hx₀.ne_nil
      | cons y ys =>
        rw [List.flatten_cons, List.flatten_cons, List.append_assoc] at ht
        obtain ⟨rfl, hrest⟩ := hx₀.append_inj (hy y List.mem_cons_self) ht
        exact List.cons_prefix_cons.mpr ⟨rfl, ih (fun x hmem => hx x (List.mem_cons_of_mem _ hmem))
          (fun y hmem => hy y (List.mem_cons_of_mem _ hmem)) ⟨t, hrest⟩⟩
  · rintro ⟨zs, rfl⟩
    rw [List.flatten_append]
    exact List.prefix_append _ _

/-- `xs` comes right after `before` in `before ++ rest`, and not earlier. -/
structure FirstAt {α : Type} (xs before rest : List α) : Prop where
  found : xs <+: rest
  first : ∀ p q, before = p ++ q → q ≠ [] → ¬ xs <+: q ++ rest

theorem firstAt_nil {α : Type} {xs rest : List α} : FirstAt xs [] rest ↔ xs <+: rest := by
  refine ⟨FirstAt.found, fun h => ⟨h, fun p q hpq hq => ?_⟩⟩
  exact absurd (List.append_eq_nil_iff.mp hpq.symm).2 hq

theorem firstAt_cons {α : Type} {a : α} {xs before rest : List α} :
    FirstAt xs (a :: before) rest ↔
      ¬ xs <+: a :: (before ++ rest) ∧ FirstAt xs before rest := by
  constructor
  · intro h
    refine ⟨h.first [] (a :: before) rfl (List.cons_ne_nil a before), h.found, ?_⟩
    intro p q hpq hq
    exact h.first (a :: p) q (by rw [hpq, List.cons_append]) hq
  · rintro ⟨hhead, hfound, hfirst⟩
    refine ⟨hfound, fun p q hpq hq => ?_⟩
    cases p with
    | nil =>
      obtain rfl : a :: before = q := hpq
      exact hhead
    | cons b p =>
      obtain ⟨-, htail⟩ := List.cons.inj hpq
      exact hfirst p q htail hq

/-- A text that is not at the front is searched for behind the first rune:
    the bytes inside a rune do not start another. -/
theorem index_flatten_cons {y : Bytes} (hx : ∀ x ∈ xs, IsEncoded x)
    (hy : ∀ z ∈ y :: ys, IsEncoded z) (hpre : ¬ xs <+: y :: ys) :
    Text.index xs.flatten (y :: ys).flatten =
      (Text.index xs.flatten ys.flatten).map (· + y.length) := by
  have hnot : ¬ xs.flatten <+: (y :: ys).flatten := fun h => hpre ((flatten_prefix_iff hx hy).mp h)
  cases xs with
  | nil => exact absurd List.nil_prefix hpre
  | cons x xs =>
    obtain ⟨c, ds, rfl, hc, -⟩ := hx x List.mem_cons_self
    obtain ⟨b, cs, rfl, -, -, hcs⟩ := hy y List.mem_cons_self
    -- the first byte of `xs` is none of the continuation bytes of `y`
    have hmem : c ∉ cs := fun hmem => by simp [hcs c hmem] at hc
    rw [List.flatten_cons, List.flatten_cons, List.cons_append] at hnot ⊢
    rw [List.cons_append] at hnot ⊢
    rw [Text.index, if_neg hnot, Text.index_append hmem, Option.map_map]
    rfl

/-- The first place of a text of runes in another one, counted in bytes. -/
theorem index_flatten_iff (hx : ∀ x ∈ xs, IsEncoded x) (hy : ∀ y ∈ ys, IsEncoded y) (i : Nat) :
    Text.index xs.flatten ys.flatten = some i ↔
      ∃ before rest, ys = before ++ rest ∧ FirstAt xs before rest ∧
        i = before.flatten.length := by
  induction ys generalizing i with
  | nil =>
    constructor
    · intro h
      have hpre : xs.flatten <+: ([] : List Bytes).flatten := by
        simpa using (Text.index_eq_some h).2
      rw [List.flatten_nil, Text.index_of_prefix (by simpa using hpre)] at h
      exact ⟨[], [], rfl, firstAt_nil.mpr ((flatten_prefix_iff hx hy).mp hpre),
        (Option.some.inj h).symm⟩
    · rintro ⟨before, rest, hys, hat, rfl⟩
      obtain ⟨rfl, rfl⟩ := List.append_eq_nil_iff.mp hys.symm
      exact Text.index_of_prefix ((flatten_prefix_iff hx hy).mpr hat.found)
  | cons y ys ih =>
    by_cases hpre : xs <+: y :: ys
    · -- found at once: a place further on would not be the first
      rw [Text.index_of_prefix ((flatten_prefix_iff hx hy).mpr hpre)]
      constructor
      · intro h
        exact ⟨[], y :: ys, rfl, firstAt_nil.mpr hpre, (Option.some.inj h).symm⟩
      · rintro ⟨before, rest, hys, hat, rfl⟩
        cases before with
        | nil => rfl
        | cons a before =>
          rw [List.cons_append] at hys
          exact absurd (hys ▸ hpre) (firstAt_cons.mp hat).1
    · have hy' : ∀ z ∈ ys, IsEncoded z := fun z hz => hy z (List.mem_cons_of_mem y hz)
      rw [index_flatten_cons hx hy hpre, Option.map_eq_some_iff]
      constructor
      · rintro ⟨j, hj, rfl⟩
        obtain ⟨before, rest, hys, hat, rfl⟩ := (ih hy' j).mp hj
        refine ⟨y :: before, rest, by rw [hys, List.cons_append],
          firstAt_cons.mpr ⟨hys ▸ hpre, hat⟩, ?_⟩
        rw [List.flatten_cons, List.length_append, Nat.add_comm]
      · rintro ⟨before, rest, hys, hat, rfl⟩
        cases before with
        | nil =>
          obtain rfl : y :: ys = rest := hys
          exact absurd hat.found hpre
        | cons a before =>
          obtain ⟨rfl, htail⟩ := List.cons.inj hys
          refine ⟨before.flatten.length,
            (ih hy' _).mpr ⟨before, rest, htail, (firstAt_cons.mp hat).2, rfl⟩, ?_⟩
          rw [List.flatten_cons, List.length_append, Nat.add_comm]

end Encoded

/-! ## Strings -/

/-- The bytes of a string of Unicode characters. A text is valid when it is
    the bytes of a string. -/
def utf8 (s : String) : Bytes :=
  s.toList.flatMap String.utf8EncodeChar

theorem utf8_ofList (cs : List Char) :
    utf8 (String.ofList cs) = cs.flatMap String.utf8EncodeChar := by
  rw [utf8, String.toList_ofList]

/-- A valid text is the bytes of one string only. -/
theorem utf8_inj {s t : String} : utf8 s = utf8 t ↔ s = t := by
  constructor
  · intro h
    rw [← String.toByteArray_inj, ← String.utf8Encode_toList, ← String.utf8Encode_toList]
    exact congrArg List.toByteArray h
  · rintro rfl
    rfl

/-- `encodeRune` is UTF-8. -/
theorem encodeRune_toNat (c : Char) : encodeRune c.toNat = String.utf8EncodeChar c := by
  have hvalid := c.valid
  simp only [UInt32.isValidChar, Nat.isValidChar] at hvalid
  have hcode : c.val.toNat = c.toNat := rfl
  rw [hcode] at hvalid
  unfold encodeRune String.utf8EncodeChar
  rw [hcode]
  generalize c.toNat = r at hvalid
  by_cases hone : r < 0x80
  · rw [if_pos hone, if_pos (by omega)]
  by_cases htwo : r < 0x800
  · rw [if_neg hone, if_pos htwo, if_neg (by omega), if_pos (by omega),
      show r / 64 % 0x20 = r / 64 by omega, Nat.add_comm, Nat.add_comm 0x80]
  by_cases hthree : r < 0x10000
  · rw [if_neg hone, if_neg htwo, if_neg (by omega), if_pos hthree, if_neg (by omega),
      if_neg (by omega), if_pos (by omega), show r / 4096 % 0x10 = r / 4096 by omega]
    simp only [Nat.add_comm]
  · rw [if_neg hone, if_neg htwo, if_neg (by omega), if_neg hthree, if_neg (by omega),
      if_neg (by omega), if_neg (by omega), show r / 262144 % 0x08 = r / 262144 by omega]
    simp only [Nat.add_comm]

end Utf8
