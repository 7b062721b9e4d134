import JniLog.JlFmt
import JniLog.Framework.Cursor

/-! # The format loop by position

    `jl_vsnprintf` with the position its source has: a pointer into the
    format that steps over the conversions and once steps back, onto the
    NUL behind a trailing `%`. A read behind that NUL has no result.

    * Section 1 says which text a format stands for, without any sink.
    * Section 2: the conversions put that text into the sink.
    * Section 3 is the loop with the position; it does what the loop on
      the rest of the format does.

    Main result: the loop ends at the NUL, and the buffer holds what
    there is room for of the text, whose length is returned. -/

namespace JniLog.JlFmt

open Bytes Cursor

/-! ## Section 1: The text of a format -/

/-- The text of `jl_fmt_int`. -/
def signedText (val : Int64) (width prec : Int) (has_prec left zero plus space : Bool) : Bytes :=
  let mag := if val < 0 then (-(val + 1)).toUInt64 + 1 else val.toUInt64
  let pfx := if val < 0 then ascii "-" else if plus then ascii "+" else
    if space then ascii " " else []
  uintText mag 10 false width prec has_prec left zero pfx

/-- The text of a conversion, and the arguments it leaves. -/
def convertText (sp : Spec) (c : UInt8) (ap : List Arg) : Bytes × List Arg :=
  let f := sp.flags
  if c = 0x64 ∨ c = 0x69 then
    let (w, ap) := va_word ap
    let v := if sp.lng = 0 then (wordInt w).toInt64 else w.toInt64
    (signedText v sp.width sp.prec sp.has_prec f.left f.zero f.plus f.space, ap)
  else if c = 0x75 ∨ c = 0x6f ∨ c = 0x78 ∨ c = 0x58 then
    let (w, ap) := va_word ap
    let v := if sp.lng = 0 then w.toUInt32.toUInt64 else w
    let base := if c = 0x6f then 8 else if c = 0x75 then 10 else 16
    (uintText v base (c = 0x58) sp.width sp.prec sp.has_prec f.left f.zero
      (altPrefix f.alt c v), ap)
  else if c = 0x70 then
    let (w, ap) := va_word ap
    (uintText w 16 false sp.width 0 false f.left f.zero (ascii "0x"), ap)
  else if c = 0x63 then
    let (w, ap) := va_word ap
    (padded f.left sp.width [w.toUInt8], ap)
  else if c = 0x73 then
    let (str, ap) := va_str ap
    let str := match str with | none => ascii "(null)" | some str => str.val
    (padded f.left sp.width (if sp.has_prec then str.take sp.prec.toNat else str), ap)
  else if c = 0x65 ∨ c = 0x45 ∨ c = 0x66 ∨ c = 0x46 ∨ c = 0x67 ∨ c = 0x47 ∨ c = 0x61 ∨ c = 0x41 then
    let (b, ap) := va_double ap
    (padded f.left sp.width (jl_fmt_g b (if sp.has_prec then sp.prec else 6)), ap)
  else if c = 0x25 then ([0x25], ap)
  else ([0x25, c], ap)

/-- The text of the rest of a format: its characters, with the text of each
    conversion in its place. -/
def restText : Nat → Bytes → List Arg → Bytes
  | 0, _, _ => []
  | _, [], _ => []
  | k + 1, c :: p, ap =>
    if c ≠ 0x25 then c :: restText k p ap
    else
      let (sp, p, ap) := parseSpec p ap
      match p with
      -- a `%` at the end prints nothing
      | [] => []
      | c :: p => (convertText sp c ap).1 ++ restText k p (convertText sp c ap).2

/-- The full text of a format with its arguments. -/
def formatText (fmt : CStr) (ap : List Arg) : Bytes :=
  restText fmt.val.length fmt.val ap

/-! ## Section 2: What the conversions put -/

theorem jl_fmt_int_eq (s : jl_fmt_sink) (val : Int64) (width prec : Int)
    (has_prec left zero plus space : Bool) :
    jl_fmt_int s val width prec has_prec left zero plus space =
      puts s (signedText val width prec has_prec left zero plus space) :=
  jl_fmt_uint_eq s _ 10 false width prec has_prec left zero _

/-- A conversion puts its text and takes its arguments, whatever the sink. -/
theorem convert_eq (s : jl_fmt_sink) (sp : Spec) (c : UInt8) (ap : List Arg) :
    convert s sp c ap = (puts s (convertText sp c ap).1, (convertText sp c ap).2) := by
  unfold convert convertText
  simp only [jl_fmt_int_eq, jl_fmt_uint_eq]
  split_ifs <;> rfl

theorem writes_formatLoop (k : Nat) (p : Bytes) (ap : List Arg) :
    Writes (formatLoop k p ap) (restText k p ap) := by
  intro s
  induction k generalizing p ap s with
  | zero => cases p <;> rfl
  | succ k ih =>
    cases p with
    | nil => rfl
    | cons c p =>
      rw [formatLoop, restText]
      by_cases hc : c ≠ 0x25
      · rw [if_pos hc, if_pos hc, ih, puts_cons]
      · rw [if_neg hc, if_neg hc]
        obtain ⟨sp, p, ap⟩ := parseSpec p ap
        cases p with
        | nil => rfl
        | cons c p =>
          dsimp only
          rw [convert_eq, ih, puts_append]

/-! ## Section 3: The loop with its position -/

/-- One round of the flag loop. -/
def flagStep (f : Flags) (c : UInt8) : Option Flags :=
  if c = 0x2d then some { f with left := true }
  else if c = 0x30 then some { f with zero := true }
  else if c = 0x2b then some { f with plus := true }
  else if c = 0x20 then some { f with space := true }
  else if c = 0x23 then some { f with alt := true }
  else none

/-- One round of the loops over a width or a precision. -/
def digitStep (n : Int) (c : UInt8) : Option Int :=
  if 0x30 ≤ c ∧ c ≤ 0x39 then some (n * 10 + (c.toNat - 0x30)) else none

/-- One round of the loop over the length modifiers. -/
def lengthStep (lng : Nat) (c : UInt8) : Option Nat :=
  if c = 0x6c then some (if lng ≥ 1 then 2 else 1)
  else if c = 0x7a ∨ c = 0x6a ∨ c = 0x74 then some 3
  else if c = 0x68 then some lng
  else none

def widthAt (fmt : Bytes) (flags : Flags) (p : Nat) (ap : List Arg) :
    Option (Flags × Int × Nat × List Arg) := do
  let c ← read fmt p
  if c = 0x2a then
    let (w, ap) := va_word ap
    let width := (wordInt w).toInt
    if width < 0 then some ({ flags with left := true }, -width, p + 1, ap)
    else some (flags, width, p + 1, ap)
  else
    let (width, p) ← scan digitStep fmt 0 p
    some (flags, width, p, ap)

def precAt (fmt : Bytes) (p : Nat) (ap : List Arg) : Option (Int × Bool × Nat × List Arg) := do
  let c ← read fmt p
  if c = 0x2e then
    let c ← read fmt (p + 1)
    if c = 0x2a then
      let (w, ap) := va_word ap
      let prec := (wordInt w).toInt
      some (prec, decide (0 ≤ prec), p + 2, ap)
    else
      let (prec, p) ← scan digitStep fmt 0 (p + 1)
      some (prec, true, p, ap)
  else some (0, false, p, ap)

/-- The part of the loop body between `%` and the conversion character. -/
def parseSpecAt (fmt : Bytes) (p : Nat) (ap : List Arg) : Option (Spec × Nat × List Arg) := do
  let (flags, p) ← scan flagStep fmt {} p
  let (flags, width, p, ap) ← widthAt fmt flags p ap
  let (prec, has_prec, p, ap) ← precAt fmt p ap
  let (lng, p) ← scan lengthStep fmt 0 p
  some ({ flags, width, prec, has_prec, lng }, p, ap)

/-- The loop, with the position it ends at. There is no result when it
    reads behind the NUL, or runs for longer than the fuel. -/
def formatLoopAt (fmt : Bytes) : Nat → Nat → List Arg → jl_fmt_sink → Option (jl_fmt_sink × Nat)
  | 0, _, _, _ => none
  | k + 1, p, ap, s => do
    let c ← read fmt p
    if c = 0 then some (s, p)
    else if c ≠ 0x25 then formatLoopAt fmt k (p + 1) ap (jl_fmt_putc s c)
    else
      let (sp, p, ap) ← parseSpecAt fmt (p + 1) ap
      let c ← read fmt p
      -- `p--` in the switch, then the `p++` of the loop
      if c = 0 then formatLoopAt fmt k (p - 1 + 1) ap s
      else
        let (s, ap) := convert s sp c ap
        formatLoopAt fmt k (p + 1) ap s

/-- `jl_vsnprintf`: the memory afterwards, the returned length and the
    position in the format. -/
def jl_vsnprintfAt (buf : Nat → UInt8) (cap : Nat) (fmt : CStr) (ap : List Arg) :
    Option ((Nat → UInt8) × Int32 × Nat) := do
  let (s, p) ← formatLoopAt fmt.val (fmt.val.length + 1) 0 ap { buf, cap, len := 0 }
  let buf := if cap ≠ 0 then Function.update s.buf (if s.len < cap then s.len else cap - 1) 0
    else s.buf
  some (buf, Int32.ofNat s.len, p)

/-! ## Section 4: The position and the rest of the format -/

theorem parseFlags_eq (f : Flags) (rest : Bytes) :
    parseFlags f rest = scanText flagStep f rest := by
  induction rest generalizing f with
  | nil => rfl
  | cons c rest ih =>
    rw [parseFlags, scanText, flagStep]
    split_ifs <;> first | exact ih _ | rfl

theorem parseNumber_eq (n : Int) (rest : Bytes) :
    parseNumber n rest = scanText digitStep n rest := by
  induction rest generalizing n with
  | nil => rfl
  | cons c rest ih =>
    rw [parseNumber, scanText, digitStep]
    split_ifs <;> first | exact ih _ | rfl

theorem parseLength_eq (lng : Nat) (rest : Bytes) :
    parseLength lng rest = scanText lengthStep lng rest := by
  induction rest generalizing lng with
  | nil => rfl
  | cons c rest ih =>
    rw [parseLength, scanText, lengthStep]
    split_ifs <;> first | exact ih _ | rfl

/-- The width at the front of a text. -/
def widthText (flags : Flags) (p : Bytes) (ap : List Arg) : Flags × Int × Bytes × List Arg :=
  match p with
  | 0x2a :: p =>
    let (w, ap) := va_word ap
    let width := (wordInt w).toInt
    if width < 0 then ({ flags with left := true }, -width, p, ap) else (flags, width, p, ap)
  | p =>
    let (width, p) := parseNumber 0 p
    (flags, width, p, ap)

/-- The precision at the front of a text. -/
def precText (p : Bytes) (ap : List Arg) : Int × Bool × Bytes × List Arg :=
  match p with
  | 0x2e :: 0x2a :: p =>
    let (w, ap) := va_word ap
    let prec := (wordInt w).toInt
    (prec, decide (0 ≤ prec), p, ap)
  | 0x2e :: p =>
    let (prec, p) := parseNumber 0 p
    (prec, true, p, ap)
  | p => (0, false, p, ap)

theorem parseSpec_eq (p : Bytes) (ap : List Arg) :
    parseSpec p ap =
      let (flags, p) := parseFlags {} p
      let (flags, width, p, ap) := widthText flags p ap
      let (prec, has_prec, p, ap) := precText p ap
      let (lng, p) := parseLength 0 p
      ({ flags, width, prec, has_prec, lng }, p, ap) :=
  rfl

theorem widthText_star (flags : Flags) (p : Bytes) (ap : List Arg) :
    widthText flags (0x2a :: p) ap =
      if (wordInt (va_word ap).1).toInt < 0 then
        ({ flags with left := true }, -(wordInt (va_word ap).1).toInt, p, (va_word ap).2)
      else (flags, (wordInt (va_word ap).1).toInt, p, (va_word ap).2) :=
  rfl

theorem widthText_digits {rest : Bytes} (h : rest.headD 0 ≠ 0x2a) (flags : Flags) (ap : List Arg) :
    widthText flags rest ap =
      (flags, (scanText digitStep 0 rest).1, (scanText digitStep 0 rest).2, ap) := by
  rw [← parseNumber_eq]
  unfold widthText
  split
  · exact absurd rfl h
  · rfl

theorem precText_star (p : Bytes) (ap : List Arg) :
    precText (0x2e :: 0x2a :: p) ap = ((wordInt (va_word ap).1).toInt,
      decide (0 ≤ (wordInt (va_word ap).1).toInt), p, (va_word ap).2) :=
  rfl

theorem precText_digits {p : Bytes} (h : p.headD 0 ≠ 0x2a) (ap : List Arg) :
    precText (0x2e :: p) ap =
      ((scanText digitStep 0 p).1, true, (scanText digitStep 0 p).2, ap) := by
  rw [← parseNumber_eq]
  unfold precText
  split
  · rename_i heq
    cases heq
    exact absurd rfl h
  · rename_i heq
    cases heq
    rfl
  · rename_i hnot
    exact absurd rfl (hnot p)

theorem precText_none {rest : Bytes} (h : rest.headD 0 ≠ 0x2e) (ap : List Arg) :
    precText rest ap = (0, false, rest, ap) := by
  unfold precText
  split
  · exact absurd rfl h
  · exact absurd rfl h
  · rfl

section Position

variable {fmt rest : Bytes} {p : Nat}

theorem digitStep_nul (n : Int) : digitStep n 0 = none := rfl

/-- The width, read at a position or from the text behind it. -/
theorem widthAt_eq (h : At fmt p rest) (flags : Flags) (ap : List Arg) :
    let r := widthText flags rest ap
    ∃ q, widthAt fmt flags p ap = some (r.1, r.2.1, q, r.2.2.2) ∧ At fmt q r.2.2.1 := by
  dsimp only
  unfold widthAt
  rw [h.read_eq]
  by_cases hstar : rest.headD 0 = 0x2a
  · cases rest with
    | nil => exact absurd hstar (by decide)
    | cons c rest =>
      obtain rfl : c = 0x2a := hstar
      refine ⟨p + 1, ?_, ?_⟩
      · rw [widthText_star]
        show (if (wordInt (va_word ap).1).toInt < 0 then some _ else some _) = some _
        split_ifs <;> rfl
      · rw [widthText_star]
        split_ifs <;> exact h.next
  · obtain ⟨q, hscan, hq⟩ := h.scan digitStep_nul 0
    refine ⟨q, ?_, ?_⟩
    · show (if _ then _ else _) = some _
      rw [if_neg hstar, hscan, widthText_digits hstar]
      rfl
    · rw [widthText_digits hstar]
      exact hq

theorem precAt_eq (h : At fmt p rest) (ap : List Arg) :
    let r := precText rest ap
    ∃ q, precAt fmt p ap = some (r.1, r.2.1, q, r.2.2.2) ∧ At fmt q r.2.2.1 := by
  dsimp only
  unfold precAt
  rw [h.read_eq]
  by_cases hpoint : rest.headD 0 = 0x2e
  · cases rest with
    | nil => exact absurd hpoint (by decide)
    | cons c rest =>
      obtain rfl : c = 0x2e := hpoint
      rw [Option.bind_eq_bind, Option.bind_some, List.headD_cons, if_pos rfl, h.next.read_eq]
      by_cases hstar : rest.headD 0 = 0x2a
      · cases rest with
        | nil => exact absurd hstar (by decide)
        | cons c rest =>
          obtain rfl : c = 0x2a := hstar
          exact ⟨p + 2, rfl, h.next.next⟩
      · obtain ⟨q, hscan, hq⟩ := h.next.scan digitStep_nul 0
        refine ⟨q, ?_, ?_⟩
        · show (if _ then _ else _) = some _
          rw [if_neg hstar, hscan, precText_digits hstar]
          rfl
        · rw [precText_digits hstar]
          exact hq
  · refine ⟨p, ?_, ?_⟩
    · show (if _ then _ else _) = some _
      rw [if_neg hpoint, precText_none hpoint]
    · rw [precText_none hpoint]
      exact h

theorem parseSpecAt_eq (h : At fmt p rest) (ap : List Arg) :
    let r := parseSpec rest ap
    ∃ q, parseSpecAt fmt p ap = some (r.1, q, r.2.2) ∧ At fmt q r.2.1 := by
  dsimp only
  have hflag (f : Flags) : flagStep f 0 = none := rfl
  have hlength (lng : Nat) : lengthStep lng 0 = none := rfl
  -- each part ends where the next one begins
  obtain ⟨p₁, hflags, hat₁⟩ := h.scan hflag {}
  obtain ⟨p₂, hwidth, hat₂⟩ := widthAt_eq hat₁ (scanText flagStep {} rest).1 ap
  obtain ⟨p₃, hprec, hat₃⟩ := precAt_eq hat₂ _
  obtain ⟨p₄, hlng, hat₄⟩ := hat₃.scan hlength 0
  rw [parseSpec_eq, parseFlags_eq]
  dsimp only
  rw [parseLength_eq]
  refine ⟨p₄, ?_, hat₄⟩
  unfold parseSpecAt
  rw [hflags]
  show (do let (flags, width, p, ap) ← widthAt fmt _ p₁ ap; _) = _
  rw [hwidth]
  show (do let (prec, has_prec, p, ap) ← precAt fmt p₂ _; _) = _
  rw [hprec]
  show (do let (lng, p) ← scan lengthStep fmt 0 p₃; _) = _
  rw [hlng]
  rfl

theorem length_widthText_le (flags : Flags) (rest : Bytes) (ap : List Arg) :
    (widthText flags rest ap).2.2.1.length ≤ rest.length := by
  by_cases hstar : rest.headD 0 = 0x2a
  · cases rest with
    | nil => exact absurd hstar (by decide)
    | cons c rest =>
      obtain rfl : c = 0x2a := hstar
      rw [widthText_star]
      split_ifs <;> exact Nat.le_succ _
  · rw [widthText_digits hstar]
    exact length_scanText_le digitStep 0 rest

theorem length_precText_le (rest : Bytes) (ap : List Arg) :
    (precText rest ap).2.2.1.length ≤ rest.length := by
  by_cases hpoint : rest.headD 0 = 0x2e
  · cases rest with
    | nil => exact absurd hpoint (by decide)
    | cons c rest =>
      obtain rfl : c = 0x2e := hpoint
      by_cases hstar : rest.headD 0 = 0x2a
      · cases rest with
        | nil => exact absurd hstar (by decide)
        | cons c rest =>
          obtain rfl : c = 0x2a := hstar
          rw [precText_star]
          exact Nat.le_add_right _ 2
      · rw [precText_digits hstar]
        exact Nat.le_succ_of_le (length_scanText_le digitStep 0 rest)
  · rw [precText_none hpoint]

/-- A conversion is read forward only. -/
theorem length_parseSpec_le (rest : Bytes) (ap : List Arg) :
    (parseSpec rest ap).2.1.length ≤ rest.length := by
  rw [parseSpec_eq, parseFlags_eq]
  dsimp only
  rw [parseLength_eq]
  calc
    _ ≤ _ := length_scanText_le lengthStep 0 _
    _ ≤ _ := length_precText_le _ _
    _ ≤ _ := length_widthText_le _ _ _
    _ ≤ rest.length := length_scanText_le flagStep {} rest

theorem restText_nil (k : Nat) (ap : List Arg) : restText k [] ap = [] := by
  cases k <;> rfl

theorem At.eq_length (h : At fmt p []) : p = fmt.length :=
  Nat.le_antisymm h.le (List.drop_eq_nil_iff.mp h.drop_eq)

/-- The loop puts the text of the rest of the format and ends at the NUL. -/
theorem formatLoopAt_eq (hnul : (0 : UInt8) ∉ fmt) (h : At fmt p rest) {k j : Nat}
    (hk : rest.length < k) (hj : rest.length ≤ j) (ap : List Arg) (s : jl_fmt_sink) :
    formatLoopAt fmt k p ap s = some (puts s (restText j rest ap), fmt.length) := by
  induction k generalizing j p rest ap s with
  | zero => exact absurd hk (Nat.not_lt_zero _)
  | succ k ih =>
    rw [formatLoopAt, h.read_eq, Option.bind_eq_bind, Option.bind_some]
    cases rest with
    | nil =>
      rw [List.headD_nil, if_pos rfl, restText_nil, puts_nil, At.eq_length h]
    | cons c rest =>
      have hc : c ≠ 0 := fun h0 => hnul (h0 ▸ h.subset List.mem_cons_self)
      rw [List.length_cons] at hk hj
      obtain ⟨j, rfl⟩ : ∃ i, j = i + 1 := ⟨j - 1, by omega⟩
      rw [List.headD_cons, if_neg hc, restText]
      -- a character, or a conversion
      by_cases hpercent : c ≠ 0x25
      · rw [if_pos hpercent, if_pos hpercent, puts_cons]
        exact ih h.next (by omega) (by omega) ap _
      · rw [if_neg hpercent, if_neg hpercent]
        obtain ⟨q, hspec, hq⟩ := parseSpecAt_eq h.next ap
        have hle := length_parseSpec_le rest ap
        rw [hspec, Option.bind_eq_bind, Option.bind_some]
        revert hq hle
        obtain ⟨sp, rest', ap'⟩ := parseSpec rest ap
        intro hq hle
        dsimp only at hq hle ⊢
        rw [hq.read_eq, Option.bind_some]
        cases rest' with
        | nil =>
          -- the NUL is read again by the next round
          have hpos : q - 1 + 1 = q := by
            have hlen := h.next.le
            have hend := At.eq_length hq
            omega
          rw [List.headD_nil, if_pos rfl, hpos]
          have hnext := ih (j := j) hq (by rw [List.length_nil]; omega) (Nat.zero_le j) ap' s
          rw [hnext, restText_nil]
        | cons c' rest' =>
          have hc' : c' ≠ 0 := fun h0 => hnul (h0 ▸ hq.subset List.mem_cons_self)
          rw [List.length_cons] at hle
          -- the conversion's text, then the text of the rest
          rw [List.headD_cons, if_neg hc', convert_eq, puts_append]
          exact ih hq.next (by omega) (by omega) _ _

end Position

/-! ## Section 5: The buffer -/

theorem jl_vsnprintfAt_eq (buf : Nat → UInt8) (cap : Nat) (fmt : CStr) (ap : List Arg) :
    jl_vsnprintfAt buf cap fmt ap =
      some ((jl_vsnprintf buf cap fmt.val ap).1, (jl_vsnprintf buf cap fmt.val ap).2,
        fmt.val.length) := by
  have hloop := formatLoopAt_eq fmt.property (at_zero fmt.val) (Nat.lt_succ_self _)
    (Nat.le_refl _) ap { buf, cap, len := 0 }
  rw [jl_vsnprintfAt, hloop, jl_vsnprintf, writes_formatLoop]
  simp

/-- The memory afterwards: as much of the text as there is room for, a NUL
    behind it, and what was there before everywhere else. -/
theorem jl_vsnprintf_mem (buf : Nat → UInt8) (cap : Nat) (fmt : CStr) (ap : List Arg) (i : Nat) :
    (jl_vsnprintf buf cap fmt.val ap).1 i =
      if cap ≠ 0 ∧ i = min (formatText fmt ap).length (cap - 1) then 0
      else if i < cap - 1 then (formatText fmt ap)[i]?.getD (buf i)
      else buf i :=
  jl_vsnprintf_buf (writes_formatLoop _ _ _) buf i

/-- **The formatter is bounded and complete.** For every format and all
    arguments there is one text, whatever the buffer: the loop ends at the
    format's NUL, nothing is written outside the capacity, the text is in
    the buffer as far as it fits, with a NUL behind it, and its length is
    returned. -/
theorem jl_vsnprintfAt_spec (fmt : CStr) (ap : List Arg) (buf : Nat → UInt8) (cap : Nat) :
    let n := (formatText fmt ap).length
    ∃ buf' ret, jl_vsnprintfAt buf cap fmt ap = some (buf', ret, fmt.val.length) ∧
      (∀ i, cap ≤ i → buf' i = buf i) ∧
      (n < 2 ^ 31 → ret.toInt = n) ∧
      (0 < cap → (List.range (min n (cap - 1) + 1)).map buf' =
        (formatText fmt ap).take (min n (cap - 1)) ++ [0]) := by
  dsimp only
  refine ⟨_, _, jl_vsnprintfAt_eq buf cap fmt ap, ?_, ?_, ?_⟩
  · intro i hi
    rw [jl_vsnprintf_mem, if_neg (by omega), if_neg (by omega)]
  · intro hlt
    exact jl_vsnprintf_len (writes_formatLoop _ _ _) hlt
  · intro hcap
    -- the last byte is the NUL, the others are the text's
    rw [List.range_succ, List.map_append, List.map_singleton, jl_vsnprintf_mem,
      if_pos ⟨Nat.pos_iff_ne_zero.mp hcap, rfl⟩]
    congr 1
    apply List.ext_getElem?
    intro i
    rw [List.getElem?_map, List.getElem?_take]
    by_cases hi : i < min (formatText fmt ap).length (cap - 1)
    · have hlen : i < (formatText fmt ap).length := by omega
      rw [List.getElem?_range hi, Option.map_some, jl_vsnprintf_mem, if_neg (by omega),
        if_pos (by omega), if_pos hi, List.getElem?_eq_getElem hlen, Option.getD_some]
    · rw [if_neg hi, List.getElem?_eq_none (by rw [List.length_range]; omega), Option.map_none]

end JniLog.JlFmt
