import JniLog.Logger.Format

/-! # Control characters in what is shown

    `escapeControlChars` works on bytes; what a terminal obeys are
    characters. Here its input and its output are strings of characters.

    * The C0 characters and DEL are one byte each and are escaped.
    * The C1 characters are two bytes each in UTF-8, both from 0x80 on,
      and are passed through. Among them is U+009B, which starts a control
      sequence as ESC and a bracket do.

    Main result: the output is free of control characters exactly when the
    input has no C1 character. -/

namespace JniLog.Logger

open Bytes Text Utf8 Painted

/-! ## Section 1: Characters -/

/-- U+0080 to U+009F. -/
def isC1 (c : Char) : Bool :=
  0x80 ≤ c.toNat && c.toNat ≤ 0x9F

/-- The C0 characters, DEL and the C1 characters. -/
def isControlChar (c : Char) : Bool :=
  isControlRune c.toNat || isC1 c

/-- What `escapeControlChars` is to make of a string. -/
structure Neutralised (s out : String) : Prop where
  clean : ∀ c ∈ out.toList, isControlChar c = false
  /-- control characters may become anything, all others stay where they are -/
  preserved : ∃ shown : Char → List Char,
    (∀ c, isControlChar c = false → shown c = [c]) ∧ out.toList = s.toList.flatMap shown
  unchanged : (∀ c ∈ s.toList, isControlChar c = false) → out = s

/-- One character of `escapeControlChars`. -/
def escapeChar (c : Char) : List Char :=
  if isControlRune c.toNat then (escapeByte (UInt8.ofNat c.toNat)).map fun b => Char.ofNat b.toNat
  else [c]

/-! ## Section 2: Bytes and characters -/

theorem escapeByte_of_plain {c : UInt8} (h : isControl c = false) : escapeByte c = [c] := by
  have hno : ¬ (c < 0x20 ∨ c = 0x7F) := by simpa [isControl] using h
  unfold escapeByte
  rw [if_neg, if_neg, if_neg, if_neg hno]
  all_goals
    rintro rfl
    exact absurd h (by decide)

theorem flatMap_escapeByte {s : Bytes} (h : isPlain s = true) : s.flatMap escapeByte = s := by
  calc s.flatMap escapeByte = s.flatMap fun c => [c] := by
        refine List.flatMap_congr fun c hc => escapeByte_of_plain ?_
        simpa using List.all_eq_true.mp h c hc
    _ = s := List.flatMap_singleton' s

/-- The two paths of `escapeControlChars` agree. -/
theorem escapeControlChars_eq (s : Bytes) : escapeControlChars s = s.flatMap escapeByte := by
  by_cases h : isPlain s = true
  · rw [escapeControlChars_eq_self h, flatMap_escapeByte h]
  · have hneeds : s.any (fun c => c < 0x20 || c == 0x7F) = true := by
      simpa [isPlain, isControl, List.any_eq_true, or_iff_not_imp_left] using h
    rw [escapeControlChars, hneeds]
    rfl

/-- A character is escaped as its bytes are. -/
theorem flatMap_escapeByte_char (c : Char) :
    (String.utf8EncodeChar c).flatMap escapeByte =
      (escapeChar c).flatMap String.utf8EncodeChar := by
  by_cases hascii : c.toNat < 0x80
  · have hall : ∀ n : Fin 0x80, (String.utf8EncodeChar (Char.ofNat n)).flatMap escapeByte =
        (escapeChar (Char.ofNat n)).flatMap String.utf8EncodeChar := by decide
    have hc := hall ⟨c.toNat, hascii⟩
    rwa [Char.ofNat_toNat] at hc
  · have hfree : isControlRune c.toNat = false := by
      rw [isControlRune, Bool.or_eq_false_iff, decide_eq_false_iff_not, beq_eq_false_iff_ne]
      omega
    have hplain : isPlain (String.utf8EncodeChar c) = true := by
      rw [← encodeRune_toNat, isPlain_encodeRune, hfree]
      rfl
    rw [flatMap_escapeByte hplain, escapeChar, hfree]
    exact (List.append_nil _).symm

/-- The output is a valid text again, escaped character by character. -/
theorem escapeControlChars_utf8 (s : String) :
    escapeControlChars (utf8 s) = utf8 (String.ofList (s.toList.flatMap escapeChar)) := by
  rw [escapeControlChars_eq, utf8_ofList, utf8, List.flatMap_assoc, List.flatMap_assoc]
  exact List.flatMap_congr fun c _ => flatMap_escapeByte_char c

theorem escapeChar_of_plain {c : Char} (h : isControlRune c.toNat = false) :
    escapeChar c = [c] := by
  rw [escapeChar, h]
  rfl

/-- An escape is made of printable characters. -/
theorem clean_escapeChar {c : Char} (h : isControlRune c.toNat = true) :
    ∀ d ∈ escapeChar c, isControlChar d = false := by
  have hall : ∀ n : Fin 0x80, isControlRune n = true →
      ((escapeChar (Char.ofNat n)).all fun d => !isControlChar d) = true := by decide
  have hascii : c.toNat < 0x80 := by
    rw [isControlRune, Bool.or_eq_true, decide_eq_true_eq, beq_iff_eq] at h
    omega
  have hc := hall ⟨c.toNat, hascii⟩ h
  rw [Char.ofNat_toNat] at hc
  simpa using List.all_eq_true.mp hc

/-! ## Section 3: The output -/

/-- The escaped text keeps what is no control character in place. -/
theorem neutralised_escape {s : String} (h : ∀ c ∈ s.toList, isC1 c = false) :
    Neutralised s (String.ofList (s.toList.flatMap escapeChar)) := by
  have hfree {c : Char} (hc : isControlChar c = false) : escapeChar c = [c] :=
    escapeChar_of_plain (Bool.or_eq_false_iff.mp hc).1
  refine ⟨?_, ⟨escapeChar, fun c => hfree, String.toList_ofList⟩, ?_⟩
  · rw [String.toList_ofList]
    intro d hd
    obtain ⟨c, hc, hdc⟩ := List.mem_flatMap.mp hd
    cases hrune : isControlRune c.toNat with
    | true => exact clean_escapeChar hrune d hdc
    | false =>
      rw [escapeChar_of_plain hrune, List.mem_singleton] at hdc
      rw [hdc, isControlChar, hrune, h c hc]
      rfl
  · intro hnone
    have hself : s.toList.flatMap escapeChar = s.toList := by
      calc s.toList.flatMap escapeChar = s.toList.flatMap fun c => [c] :=
            List.flatMap_congr fun c hc => hfree (hnone c hc)
        _ = s.toList := List.flatMap_singleton' _
    rw [hself, String.ofList_toList]

/-- **The output of `escapeControlChars` is free of control characters, and
    otherwise as the input, exactly when the input has no C1 character.** -/
theorem escapeControlChars_neutralises (s : String) :
    (∃ out : String, escapeControlChars (utf8 s) = utf8 out ∧ Neutralised s out) ↔
      ∀ c ∈ s.toList, isC1 c = false := by
  constructor
  · rintro ⟨out, hout, hneutral⟩ c hc
    rw [escapeControlChars_utf8, utf8_inj] at hout
    -- a C1 character is its own escape
    by_contra hc1
    have hc1 : isC1 c = true := by simpa using hc1
    have hrune : isControlRune c.toNat = false := by
      rw [isC1, Bool.and_eq_true, decide_eq_true_eq, decide_eq_true_eq] at hc1
      rw [isControlRune, Bool.or_eq_false_iff, decide_eq_false_iff_not, beq_eq_false_iff_ne]
      omega
    have hmem : c ∈ out.toList := by
      rw [← hout, String.toList_ofList]
      refine List.mem_flatMap.mpr ⟨c, hc, ?_⟩
      rw [escapeChar_of_plain hrune]
      exact List.mem_singleton_self c
    have hclean := hneutral.clean c hmem
    rw [isControlChar, hc1, Bool.or_true] at hclean
    cases hclean
  · intro h
    exact ⟨_, escapeControlChars_utf8 s, neutralised_escape h⟩

/-- The control sequence introducer goes through. -/
theorem escapeControlChars_passes_csi :
    ¬ ∃ out : String,
      escapeControlChars (utf8 (String.ofList [Char.ofNat 0x9B])) = utf8 out ∧
        Neutralised (String.ofList [Char.ofNat 0x9B]) out := by
  rintro ⟨out, hout, hneutral⟩
  have hsame : escapeControlChars (utf8 (String.ofList [Char.ofNat 0x9B])) =
      utf8 (String.ofList [Char.ofNat 0x9B]) := by
    rw [utf8_ofList]
    decide
  rw [hsame, utf8_inj] at hout
  have hmem : Char.ofNat 0x9B ∈ out.toList := by
    rw [← hout, String.toList_ofList]
    exact List.mem_singleton_self _
  have hclean := hneutral.clean _ hmem
  exact absurd hclean (by decide)

end JniLog.Logger
