import JniLog.Framework.Utf8
import JniLog.Framework.Text

/-! # Painted text

    A text that remembers of every byte where it comes from: from what is
    shown, or from a colour sequence the painter put around it. Control
    bytes are welcome in colour sequences only, and nowhere when nothing
    is painted. -/

namespace Painted

open Utf8

/-- A byte, and whether it belongs to a colour sequence. -/
structure Cell where
  byte : UInt8
  color : Bool
  deriving DecidableEq, Repr

def isControl (c : UInt8) : Bool :=
  c < 0x20 || c == 0x7F

/-- No byte is a control byte. -/
def isPlain (s : Bytes) : Bool :=
  s.all fun c => !isControl c

def text (s : Bytes) : List Cell :=
  s.map fun c => ⟨c, false⟩

def colors (s : Bytes) : List Cell :=
  s.map fun c => ⟨c, true⟩

/-- Puts a colour sequence and the reset sequence around a text that is
    not empty. -/
def paint (on : Bool) (color reset : Bytes) (s : List Cell) : List Cell :=
  if !on || s.isEmpty then s else colors color ++ s ++ colors reset

/-- Everything that is written. -/
def bytes (s : List Cell) : Bytes :=
  s.map Cell.byte

/-- What is shown: the text without its colour sequences. -/
def unpainted (s : List Cell) : Bytes :=
  (s.filter fun c => !c.color).map Cell.byte

/-- No control byte, outside colour sequences when painting is on and
    anywhere when it is off. -/
def tidy (on : Bool) (s : List Cell) : Bool :=
  isPlain (if on then unpainted s else bytes s)

/-- `strings.TrimSpace` of everything that is written. -/
def trim (s : List Cell) : List Cell :=
  let front := s.length - (Text.trimLeft Text.whiteSpace s.length (bytes s)).length
  (s.drop front).take (Text.trimSpace (bytes s)).length

/-! ## Plain texts -/

section Plain

variable {s t : Bytes} {c : UInt8}

@[simp] theorem isPlain_nil : isPlain [] = true := rfl

@[simp] theorem isPlain_cons : isPlain (c :: s) = (!isControl c && isPlain s) := rfl

@[simp] theorem isPlain_append : isPlain (s ++ t) = (isPlain s && isPlain t) :=
  List.all_append

theorem isControl_eq_false (h : 0x20 ≤ c) (h' : c ≠ 0x7F) : isControl c = false := by
  unfold isControl
  rw [decide_eq_false (UInt8.not_lt.mpr h), Bool.false_or, beq_eq_false_iff_ne]
  exact h'

theorem isControl_of_ge (h : 0x80 ≤ c) : isControl c = false := by
  apply isControl_eq_false
  · exact UInt8.le_trans (by decide) h
  · rintro rfl
    exact absurd h (by decide)

theorem isPlain_eq_true (h : ∀ c ∈ s, isControl c = false) : isPlain s = true := by
  apply List.all_eq_true.mpr
  intro c hc
  rw [h c hc]
  rfl

theorem isPlain_of_subset (h : isPlain t = true) (hs : s ⊆ t) : isPlain s = true := by
  apply List.all_eq_true.mpr
  intro c hc
  exact List.all_eq_true.mp h c (hs hc)

/-- Replacing bytes that are no control bytes by such bytes. -/
theorem isPlain_map {g : UInt8 → UInt8} (hg : ∀ c, isControl (g c) = isControl c) :
    isPlain (s.map g) = isPlain s := by
  induction s with
  | nil => rfl
  | cons c s ih => rw [List.map_cons, isPlain_cons, isPlain_cons, hg, ih]

/-- Cutting a text at a byte that is no control byte. -/
theorem all_splitOn {b : UInt8} (hb : isControl b = false) (s : Bytes) :
    (s.splitOn b).all isPlain = isPlain s := by
  have hjoin (ps : List Bytes) : isPlain ([b].intercalate ps) = ps.all isPlain := by
    induction ps with
    | nil => rfl
    | cons p ps ih =>
      cases ps with
      | nil => simp
      | cons q ps =>
        rw [List.intercalate_cons_cons, isPlain_append, isPlain_append, isPlain_cons, hb, ih]
        simp
  rw [← hjoin, List.intercalate_splitOn]

/-- The control runes are the control bytes. -/
def isControlRune (r : Nat) : Bool :=
  r < 0x20 || r == 0x7F

theorem isControl_ofNat {r : Nat} (h : r < 0x80) : isControl (UInt8.ofNat r) = isControlRune r := by
  have hr : (UInt8.ofNat r).toNat = r := UInt8.toNat_ofNat_of_lt' (Nat.lt_trans h (by decide))
  have hlt : UInt8.ofNat r < 0x20 ↔ r < 0x20 := by
    rw [UInt8.lt_iff_toNat_lt, hr]
    rfl
  have heq : UInt8.ofNat r = 0x7F ↔ r = 0x7F := by
    rw [← UInt8.toNat_inj, hr]
    rfl
  simp [isControl, isControlRune, hlt, heq, Bool.beq_eq_decide_eq]

theorem isPlain_encodeRune (r : Nat) : isPlain (encodeRune r) = !isControlRune r := by
  by_cases hr : r < 0x80
  · rw [encodeRune, if_pos hr, isPlain_cons, isControl_ofNat hr, isPlain_nil, Bool.and_true]
  · have hge : 0x80 ≤ r := Nat.not_lt.mp hr
    have hfree : isControlRune r = false := by
      unfold isControlRune
      rw [decide_eq_false (by omega), Bool.false_or, beq_eq_false_iff_ne]
      omega
    rw [hfree]
    apply isPlain_eq_true
    intro c hc
    exact isControl_of_ge (encodeRune_ge hge c hc)

/-- A mapping of runes that makes no control rune, and keeps those there
    are, leaves a plain text plain and the others not. -/
theorem isPlain_mapRunes {f : Nat → Nat} (hf : ∀ r, isControlRune (f r) = isControlRune r)
    (s : Bytes) : isPlain (mapRunes f s) = isPlain s := by
  have hrune (r : Nat × Bytes) (hr : r ∈ runes s) :
      isPlain (encodeRune (f r.1)) = isPlain r.2 := by
    rw [isPlain_encodeRune, hf, ← isPlain_encodeRune]
    rcases mem_runes hr with ⟨b, hb, hr₁, hr₂⟩ | ⟨hge, hbs⟩
    · have hlt : b.toNat < 0x80 := UInt8.lt_iff_toNat_lt.mp hb
      rw [hr₁, hr₂, encodeRune, if_pos hlt, UInt8.ofNat_toNat]
    · have hleft : isPlain (encodeRune r.1) = true :=
        isPlain_eq_true fun c hc => isControl_of_ge (encodeRune_ge hge c hc)
      have hright : isPlain r.2 = true := isPlain_eq_true fun c hc => isControl_of_ge (hbs c hc)
      rw [hleft, hright]
  calc isPlain (mapRunes f s)
      = (runes s).all fun r => isPlain (encodeRune (f r.1)) := List.all_flatMap
    _ = (runes s).all fun r => isPlain r.2 := by
        rw [Bool.eq_iff_iff, List.all_eq_true, List.all_eq_true]
        exact forall₂_congr fun r hr => by rw [hrune r hr]
    _ = isPlain ((runes s).flatMap Prod.snd) := List.all_flatMap.symm
    _ = isPlain s := by rw [flatMap_runes]

end Plain

/-! ## Painted texts -/

section Cells

variable {on : Bool} {s t : List Cell}

@[simp] theorem bytes_append : bytes (s ++ t) = bytes s ++ bytes t :=
  List.map_append

@[simp] theorem unpainted_append : unpainted (s ++ t) = unpainted s ++ unpainted t := by
  simp [unpainted]

@[simp] theorem unpainted_nil : unpainted [] = [] := rfl

@[simp] theorem bytes_text (u : Bytes) : bytes (text u) = u := by
  simp [bytes, text, Function.comp_def]

@[simp] theorem unpainted_text (u : Bytes) : unpainted (text u) = u := by
  simp [unpainted, text, List.filter_map, Function.comp_def]

@[simp] theorem unpainted_colors (u : Bytes) : unpainted (colors u) = [] := by
  simp [unpainted, colors, List.filter_map, Function.comp_def]

/-- Painting changes nothing that is shown. -/
@[simp] theorem unpainted_paint (color reset : Bytes) :
    unpainted (paint on color reset s) = unpainted s := by
  unfold paint
  split
  · rfl
  · simp

@[simp] theorem tidy_nil : tidy on [] = true := by
  cases on <;> rfl

@[simp] theorem tidy_append : tidy on (s ++ t) = (tidy on s && tidy on t) := by
  cases on <;> simp [tidy]

@[simp] theorem tidy_text (u : Bytes) : tidy on (text u) = isPlain u := by
  cases on <;> simp [tidy]

@[simp] theorem tidy_paint (color reset : Bytes) :
    tidy on (paint on color reset s) = tidy on s := by
  cases on with
  | true => simp [tidy]
  | false => rfl

theorem unpainted_intercalate (sep : List Cell) (ps : List (List Cell)) :
    unpainted (sep.intercalate ps) = (unpainted sep).intercalate (ps.map unpainted) := by
  induction ps with
  | nil => rfl
  | cons p ps ih =>
    cases ps with
    | nil => simp
    | cons q ps =>
      rw [List.intercalate_cons_cons, List.map_cons, List.map_cons, List.intercalate_cons_cons,
        unpainted_append, unpainted_append, ih, List.map_cons]

/-- A text is tidy when its control bytes belong to colour sequences, and
    painting is on if there are any. -/
theorem tidy_iff : tidy on s = true ↔
    ∀ c ∈ s, isControl c.byte = true → on = true ∧ c.color = true := by
  cases on with
  | true =>
    have hcell (c : Cell) : (!c.color && isControl c.byte) = false ↔
        (isControl c.byte = true → c.color = true) := by
      cases c.color <;> cases isControl c.byte <;> decide
    simp only [tidy, isPlain, unpainted, if_true, List.all_map, List.all_filter, List.all_eq_true,
      Function.comp_apply, true_and]
    refine forall₂_congr fun c _ => ?_
    rw [← hcell]
    cases c.color <;> cases isControl c.byte <;> decide
  | false =>
    simp only [tidy, isPlain, bytes, Bool.false_eq_true, if_false, List.all_map, List.all_eq_true,
      Function.comp_apply, Bool.not_eq_true', false_and, imp_false, Bool.not_eq_true]

/-- Joining with a separator that is tidy. -/
theorem tidy_intercalate {sep : List Cell} (hsep : tidy on sep = true) (ps : List (List Cell)) :
    tidy on (sep.intercalate ps) = ps.all (tidy on) := by
  induction ps with
  | nil => simp
  | cons p ps ih =>
    cases ps with
    | nil => simp
    | cons q ps =>
      rw [List.intercalate_cons_cons, tidy_append, tidy_append, hsep, ih, Bool.and_true]
      rfl

end Cells

end Painted
