import JniLog.FloatBits
import JniLog.Framework.Cursor
import JniLog.TypedArgs

/-! # Three scans of one descriptor

    The arguments of a method call arrive as a `va_list` or as an array
    of `jvalue`s. `extract_va_args` and `extract_jvalue_args` turn either
    into words by the types in the method's descriptor, and
    `vis_encode_typed_args` scans the descriptor once more to encode the
    words.

    * A `va_list` is the list of the promoted arguments that are still to
      be read; reading one as another type, or past the last one, is
      undefined. A `jvalue` is the eight bytes of the union.
    * The two extractors have the same loop and differ in how they fetch
      an argument. What the loop saw as the type is kept beside the word.
    * The encoder's scan is by position here, with a NUL behind the
      descriptor; `Visualize` has it on the rest of the text.

    Main result: on every descriptor, also a broken one, both extractors
    give as many words, the encoder sees the same types in them and reads
    nothing behind the NUL, and either words give the same text. -/

namespace JniLog.ExtractArgs

open Bytes JlFmt Visualize Cursor

/-! ## Section 1: Extracting -/

/-- `sig_advance_one`: `none` is -1. It is never called at the NUL. -/
def sig_advance_one : Bytes → Option Bytes
  | [] => none
  | c :: s =>
    if c = 0x4c then (cut 0x3b (c :: s)).map Prod.snd
    else if c = 0x5b then
      match skipBrackets s with
      | [] => none
      | e :: q => if e = 0x4c then (cut 0x3b (e :: q)).map Prod.snd else some q
    else some s

/-- What fetching an argument of a type leads to. -/
inductive Fetched (σ : Type) where
  | undefined
  /-- the `default` of the `switch` -/
  | unknown
  | word (w : UInt64) (rest : σ)

/-- The loop of both extractors, from a position in the descriptor on and
    with room for so many words. -/
def extractLoop {σ : Type} (fetch : UInt8 → σ → Fetched σ) :
    Nat → Bytes → σ → Option (List (UInt8 × UInt64))
  | 0, _, _ => some []
  | _ + 1, [], _ => some []
  | room + 1, k :: s, args =>
    if k = 0x29 then some []
    else if k = 0x4c ∨ k = 0x5b then
      match fetch k args with
      | .undefined => none
      | .unknown => some []
      | .word w args =>
        match sig_advance_one (k :: s) with
        | none => some [(k, w)]
        | some s => (extractLoop fetch room s args).map ((k, w) :: ·)
    else
      match sig_advance_one (k :: s) with
      | none => some []
      | some s =>
        match fetch k args with
        | .undefined => none
        | .unknown => some []
        | .word w args => (extractLoop fetch room s args).map ((k, w) :: ·)

/-- An argument as it is passed through a variadic call. -/
inductive VaArg where
  | int (i : Int32)
  | long (j : Int64)
  | double (bits : UInt64)
  | pointer (p : UInt64)

/-- The `va_arg`s of `extract_va_args`, with the conversion to `uintptr_t`. -/
def va_fetch (k : UInt8) (ap : List VaArg) : Fetched (List VaArg) :=
  if k = 0x4c ∨ k = 0x5b then
    match ap with
    | .pointer p :: ap => .word p ap
    | _ => .undefined
  else if k = 0x5a ∨ k = 0x42 ∨ k = 0x43 ∨ k = 0x53 ∨ k = 0x49 then
    match ap with
    | .int i :: ap => .word i.toInt64.toUInt64 ap
    | _ => .undefined
  else if k = 0x4a then
    match ap with
    | .long j :: ap => .word j.toUInt64 ap
    | _ => .undefined
  else if k = 0x46 then
    match ap with
    | .double d :: ap => .word (narrow d).toUInt64 ap
    | _ => .undefined
  else if k = 0x44 then
    match ap with
    | .double d :: ap => .word d ap
    | _ => .undefined
  else .unknown

/-- The letters the extractors know. -/
def kindChars : Bytes := ascii "L[ZBCSIJFD"

/-- The member of a `jvalue` that `extract_jvalue_args` reads, converted
    to `uintptr_t`. -/
def jvalueWord (k : UInt8) (v : UInt64) : UInt64 :=
  if k = 0x5a then v.toUInt8.toUInt64
  else if k = 0x42 then v.toUInt8.toInt8.toInt64.toUInt64
  else if k = 0x43 then v.toUInt16.toUInt64
  else if k = 0x53 then v.toUInt16.toInt16.toInt64.toUInt64
  else if k = 0x49 then v.toUInt32.toInt32.toInt64.toUInt64
  else if k = 0x46 then v.toUInt32.toUInt64
  else v

/-- `args[n]` of `extract_jvalue_args`. -/
def jvalue_fetch (k : UInt8) (args : List UInt64) : Fetched (List UInt64) :=
  if k ∈ kindChars then
    match args with
    | [] => .undefined
    | v :: args => .word (jvalueWord k v) args
  else .unknown

/-- `extract_va_args`; `sig` is `none` for NULL. -/
def extract_va_args (sig : Option Bytes) (ap : List VaArg) (max : Nat) :
    Option (List (UInt8 × UInt64)) :=
  match sig with
  | some (0x28 :: s) => extractLoop va_fetch max s ap
  | _ => some []

/-- `extract_jvalue_args`; `args` is `none` for NULL. -/
def extract_jvalue_args (sig : Option Bytes) (args : Option (List UInt64)) (max : Nat) :
    Option (List (UInt8 × UInt64)) :=
  match sig, args with
  | some (0x28 :: s), some args => extractLoop jvalue_fetch max s args
  | _, _ => some []

/-! ## Section 2: The scan of the encoder -/

/-- `while (*p && *p != ';') p++; if (*p == ';') p++;` -/
def skipClassAt (s : Bytes) (p : Nat) : Option Nat := do
  let p ← skipWhile (fun c => c ≠ 0 && c ≠ 0x3b) s p
  let c ← read s p
  if c = 0x3b then some (p + 1) else some p

/-- The scan past the type that begins with `kind_ch` at `p`. -/
def skipTypeAt (s : Bytes) (kind_ch : UInt8) (p : Nat) : Option Nat :=
  if kind_ch = 0x4c then skipClassAt s p
  else if kind_ch = 0x5b then do
    let p ← skipWhile (· = 0x5b) s (p + 1)
    let c ← read s p
    if c = 0x4c then skipClassAt s p else some (p + 1)
  else some (p + 1)

/-- `elem_sig`. -/
def elemSigAt (s : Bytes) (kind_ch : UInt8) (p : Nat) : Option UInt8 :=
  if kind_ch = 0x5b then do
    let peek ← skipWhile (· = 0x5b) s (p + 1)
    read s peek
  else some 0

/-- The argument loop of `vis_encode_typed_args` from a position on: the
    text, and the types it saw. It has a result when nothing behind the
    NUL is read. -/
def typedArgsAt (deref : UInt64 → Option JRef) (s : Bytes) :
    List UInt64 → Nat → Bytes → Option (Bytes × List UInt8)
  | [], _, buf => some (buf, [])
  | val :: extracted, p, buf => do
    let kind_ch ← read s p
    if kind_ch = 0 ∨ kind_ch = 0x29 then some (buf, [])
    else
      let elem_sig ← elemSigAt s kind_ch p
      let p ← skipTypeAt s kind_ch p
      let (buf, open_) := appendArg deref (buf ++ [kind_ch, 0x01]) kind_ch elem_sig val
      let buf := if open_ then buf ++ [0x02] else buf
      let (buf, kinds) ← typedArgsAt deref s extracted p buf
      some (buf, kind_ch :: kinds)

/-- `vis_encode_typed_args`, with the types it saw. -/
def encodeTypedArgsAt (deref : UInt64 → Option JRef) (sig : Option Bytes)
    (extracted : List UInt64) : Option (Bytes × List UInt8) :=
  match sig with
  | none => some ([], [])
  | some s =>
    if extracted = [] then some ([], [])
    else do
      let c ← read s 0
      typedArgsAt deref s extracted (if c = 0x28 then 1 else 0) []

/-! ## Section 3: The same arguments either way -/

/-- The types of the arguments from a position in a descriptor on: the
    scan of the extractors without the arguments. -/
def argKinds : Nat → Bytes → List UInt8
  | 0, _ => []
  | _ + 1, [] => []
  | room + 1, k :: s =>
    if k = 0x29 ∨ k ∉ kindChars then []
    else
      match sig_advance_one (k :: s) with
      | none => [k]
      | some s => k :: argKinds room s

/-- The types of the arguments of a whole descriptor. -/
def sigKinds (sig : Option Bytes) (max : Nat) : List UInt8 :=
  match sig with
  | some (0x28 :: s) => argKinds max s
  | _ => []

/-- A `jvalue` and a promoted argument that are the same argument of a
    type. Promoting a NaN gives some NaN. -/
inductive SameArg : UInt8 → UInt64 → VaArg → Prop where
  | boolean {v : UInt64} : SameArg 0x5a v (.int (Int32.ofNat v.toUInt8.toNat))
  | byte {v : UInt64} : SameArg 0x42 v (.int v.toUInt8.toInt8.toInt32)
  | char {v : UInt64} : SameArg 0x43 v (.int (Int32.ofNat v.toUInt16.toNat))
  | short {v : UInt64} : SameArg 0x53 v (.int v.toUInt16.toInt16.toInt32)
  | int {v : UInt64} : SameArg 0x49 v (.int v.toUInt32.toInt32)
  | long {v : UInt64} : SameArg 0x4a v (.long v.toInt64)
  | float {v : UInt64} (h : ¬ IsNaN32 v.toUInt32) : SameArg 0x46 v (.double (widen v.toUInt32))
  | nan {v d : UInt64} (h : IsNaN32 v.toUInt32) (hd : IsNaN64 d) : SameArg 0x46 v (.double d)
  | double {v : UInt64} : SameArg 0x44 v (.double v)
  | object {v : UInt64} : SameArg 0x4c v (.pointer v)
  | array {v : UInt64} : SameArg 0x5b v (.pointer v)

/-- The same arguments of these types, with any number of others behind. -/
inductive SameArgs : List UInt8 → List UInt64 → List VaArg → Prop where
  | nil {vs : List UInt64} {as : List VaArg} : SameArgs [] vs as
  | cons {k : UInt8} {v : UInt64} {a : VaArg} {ks : List UInt8} {vs : List UInt64}
      {as : List VaArg} (hhead : SameArg k v a) (htail : SameArgs ks vs as) :
      SameArgs (k :: ks) (v :: vs) (a :: as)

/-- Two words that an argument of this type shows alike for. -/
def SameText (k : UInt8) (x y : UInt64) : Prop :=
  ∀ deref buf elem_sig, appendArg deref buf k elem_sig x = appendArg deref buf k elem_sig y

theorem sameText_refl (k : UInt8) (x : UInt64) : SameText k x x :=
  fun _ _ _ => rfl

/-- Every NaN is written in the same way. -/
theorem jl_fmt_g_nan {d : UInt64} (h : IsNaN64 d) (prec : Int) : jl_fmt_g d prec = ascii "nan" := by
  have hexp : (d >>> 52) &&& 0x7ff = 0x7ff := by
    have hmask : (0x7ff : UInt64).toNat = 2 ^ 11 - 1 := rfl
    rw [← UInt64.toNat_inj, UInt64.toNat_and, hmask, Nat.and_two_pow_sub_one_eq_mod,
      UInt64.toNat_shiftRight, Nat.shiftRight_eq_div_pow]
    exact h.1
  have hman : d &&& 0xfffffffffffff ≠ 0 := by
    intro hzero
    have hmask : (0xfffffffffffff : UInt64).toNat = 2 ^ 52 - 1 := by decide
    rw [← UInt64.toNat_inj, UInt64.toNat_and, hmask, Nat.and_two_pow_sub_one_eq_mod] at hzero
    exact h.2 hzero
  unfold jl_fmt_g
  simp only [if_pos hexp, if_pos hman, if_neg fun hneg : _ ∧ _ => hman hneg.2]
  rfl

theorem fmtDouble_nan {d d' : UInt64} (h : IsNaN64 d) (h' : IsNaN64 d') :
    fmtDouble "%.9g" d = fmtDouble "%.9g" d' := by
  have hwritten (d : UInt64) : snprintf 64 (ascii "%.9g") [.dbl d] =
      ((jl_fmt_g d 9).take 63).takeWhile (· ≠ 0) := snprintf_eq (by decide) (writes_9g d)
  rw [fmtDouble, fmtDouble, hwritten, hwritten, jl_fmt_g_nan h, jl_fmt_g_nan h']

theorem sameText_nan {x y : UInt64} (hx : IsNaN32 x.toUInt32) (hy : IsNaN32 y.toUInt32) :
    SameText 0x46 x y := by
  intro deref buf elem_sig
  show (buf ++ fmtDouble "%.9g" (widen x.toUInt32), true) = _
  rw [fmtDouble_nan (isNaN64_widen hx) (isNaN64_widen hy)]
  rfl

/-- A small number is sign-extended like it is zero-extended. -/
theorem toUInt64_ofNat_int {n : Nat} (h : n < 2 ^ 31) :
    (Int32.ofNat n).toInt64.toUInt64 = UInt64.ofNat n := by
  have hval : (Int32.ofNat n).toInt64 = Int64.ofNat n := by
    rw [← Int64.toInt_inj, Int32.toInt_toInt64, Int32.toInt_ofNat_of_lt h,
      Int64.toInt_ofNat_of_lt (by omega)]
  rw [hval]
  rfl

/-- **Step.** The two fetches of one argument give words that show alike. -/
theorem fetch_same {k : UInt8} {v : UInt64} {a : VaArg} (h : SameArg k v a) (vs : List UInt64)
    (as : List VaArg) :
    ∃ x y, va_fetch k (a :: as) = .word x as ∧ jvalue_fetch k (v :: vs) = .word y vs ∧
      SameText k x y := by
  cases h with
  | boolean =>
    have hlt : v.toUInt8.toNat < 2 ^ 31 := Nat.lt_trans (UInt8.toNat_lt _) (by decide)
    have hword : UInt64.ofNat v.toUInt8.toNat = v.toUInt8.toUInt64 :=
      UInt64.ofNat_uInt8ToNat _
    refine ⟨_, _, rfl, rfl, ?_⟩
    rw [toUInt64_ofNat_int hlt, hword]
    exact sameText_refl _ _
  | byte =>
    refine ⟨_, _, rfl, rfl, ?_⟩
    rw [Int8.toInt64_toInt32]
    exact sameText_refl _ _
  | char =>
    have hlt : v.toUInt16.toNat < 2 ^ 31 := Nat.lt_trans (UInt16.toNat_lt _) (by decide)
    have hword : UInt64.ofNat v.toUInt16.toNat = v.toUInt16.toUInt64 :=
      UInt64.ofNat_uInt16ToNat _
    refine ⟨_, _, rfl, rfl, ?_⟩
    rw [toUInt64_ofNat_int hlt, hword]
    exact sameText_refl _ _
  | short =>
    refine ⟨_, _, rfl, rfl, ?_⟩
    rw [Int16.toInt64_toInt32]
    exact sameText_refl _ _
  | int => exact ⟨_, _, rfl, rfl, sameText_refl _ _⟩
  | long =>
    refine ⟨_, _, rfl, rfl, ?_⟩
    rw [UInt64.toUInt64_toInt64]
    exact sameText_refl _ _
  | float h =>
    refine ⟨_, _, rfl, rfl, ?_⟩
    rw [narrow_widen h]
    exact sameText_refl _ _
  | nan h hd =>
    -- the payload may have changed on the way
    refine ⟨_, _, rfl, rfl, sameText_nan ?_ ?_⟩
    · rw [UInt32.toUInt32_toUInt64]
      exact isNaN32_narrow hd
    · show IsNaN32 v.toUInt32.toUInt64.toUInt32
      rw [UInt32.toUInt32_toUInt64]
      exact h
  | double => exact ⟨_, _, rfl, rfl, sameText_refl _ _⟩
  | object => exact ⟨_, _, rfl, rfl, sameText_refl _ _⟩
  | array => exact ⟨_, _, rfl, rfl, sameText_refl _ _⟩

section Loop

variable {σ : Type} {fetch : UInt8 → σ → Fetched σ} {room : Nat} {k : UInt8} {s : Bytes}
  {w : UInt64} {args args' : σ}

/-- Types of one letter are passed in one step. -/
theorem sig_advance_one_letter (h : ¬ (k = 0x4c ∨ k = 0x5b)) :
    sig_advance_one (k :: s) = some s := by
  rw [not_or] at h
  rw [sig_advance_one, if_neg h.1, if_neg h.2]

theorem extractLoop_word (hend : k ≠ 0x29) (h : fetch k args = .word w args') :
    extractLoop fetch (room + 1) (k :: s) args =
      match sig_advance_one (k :: s) with
      | none => some [(k, w)]
      | some s => (extractLoop fetch room s args').map ((k, w) :: ·) := by
  rw [extractLoop, if_neg hend]
  by_cases hk : k = 0x4c ∨ k = 0x5b
  · simp only [if_pos hk, h]
  · simp only [if_neg hk, sig_advance_one_letter hk, h]

theorem extractLoop_unknown (hend : k ≠ 0x29) (hk : k ∉ kindChars) (h : fetch k args = .unknown) :
    extractLoop fetch (room + 1) (k :: s) args = some [] := by
  have hletter : ¬ (k = 0x4c ∨ k = 0x5b) := by
    rintro (rfl | rfl) <;> exact hk (by decide)
  rw [extractLoop, if_neg hend, if_neg hletter]
  simp only [sig_advance_one_letter hletter, h]

end Loop

theorem va_fetch_unknown {k : UInt8} (h : k ∉ kindChars) (as : List VaArg) :
    va_fetch k as = .unknown := by
  simp only [kindChars, show ascii "L[ZBCSIJFD" =
    [0x4c, 0x5b, 0x5a, 0x42, 0x43, 0x53, 0x49, 0x4a, 0x46, 0x44] by decide, List.mem_cons,
    List.not_mem_nil, or_false, not_or] at h
  obtain ⟨h1, h2, h3, h4, h5, h6, h7, h8, h9, h10⟩ := h
  simp [va_fetch, h1, h2, h3, h4, h5, h6, h7, h8, h9, h10]

theorem jvalue_fetch_unknown {k : UInt8} (h : k ∉ kindChars) (vs : List UInt64) :
    jvalue_fetch k vs = .unknown :=
  if_neg h

/-- **Run.** Over a whole descriptor the two loops give the same types,
    and words that show alike. -/
theorem extract_run {room : Nat} {s : Bytes} {vs : List UInt64} {as : List VaArg}
    (h : SameArgs (argKinds room s) vs as) :
    ∃ ps ps', extractLoop va_fetch room s as = some ps ∧
      extractLoop jvalue_fetch room s vs = some ps' ∧
      ps.map Prod.fst = argKinds room s ∧ ps'.map Prod.fst = argKinds room s ∧
      List.Forall₂ (fun a b => SameText a.1 a.2 b.2) ps ps' := by
  induction room generalizing s vs as with
  | zero => exact ⟨[], [], rfl, rfl, rfl, rfl, .nil⟩
  | succ room ih =>
    cases s with
    | nil => exact ⟨[], [], rfl, rfl, rfl, rfl, .nil⟩
    | cons k s =>
      by_cases hend : k = 0x29
      · subst hend
        exact ⟨[], [], rfl, rfl, rfl, rfl, .nil⟩
      · by_cases hk : k ∈ kindChars
        · have hstop : ¬ (k = 0x29 ∨ k ∉ kindChars) := not_or.mpr ⟨hend, not_not.mpr hk⟩
          rw [argKinds, if_neg hstop] at h ⊢
          rcases hadv : sig_advance_one (k :: s) with _ | s'
          · -- the last type is broken off
            rw [hadv] at h
            cases h with
            | @cons _ v a _ vs as hhead htail =>
              obtain ⟨x, y, hva, hjv, hsame⟩ := fetch_same hhead vs as
              refine ⟨[(k, x)], [(k, y)], ?_, ?_, rfl, rfl, .cons hsame .nil⟩
              · rw [extractLoop_word hend hva, hadv]
              · rw [extractLoop_word hend hjv, hadv]
          · rw [hadv] at h
            cases h with
            | @cons _ v a _ vs as hhead htail =>
              obtain ⟨x, y, hva, hjv, hsame⟩ := fetch_same hhead vs as
              obtain ⟨ps, ps', hps, hps', hkinds, hkinds', hall⟩ := ih htail
              refine ⟨(k, x) :: ps, (k, y) :: ps', ?_, ?_, ?_, ?_, .cons hsame hall⟩
              · rw [extractLoop_word hend hva, hadv]
                show (extractLoop va_fetch room s' as).map _ = _
                rw [hps]
                rfl
              · rw [extractLoop_word hend hjv, hadv]
                show (extractLoop jvalue_fetch room s' vs).map _ = _
                rw [hps']
                rfl
              · rw [List.map_cons, hkinds]
              · rw [List.map_cons, hkinds']
        · -- the `default` of both switches
          have hstop : argKinds (room + 1) (k :: s) = [] := if_pos (.inr hk)
          rw [hstop]
          exact ⟨[], [], extractLoop_unknown hend hk (va_fetch_unknown hk as),
            extractLoop_unknown hend hk (jvalue_fetch_unknown hk vs), rfl, rfl, .nil⟩

/-! ## Section 4: The scan by position -/

section Scan

variable {s rest : Bytes} {p : Nat} {k : UInt8}

theorem skipBrackets_eq (s : Bytes) : skipBrackets s = s.dropWhile (· = 0x5b) := by
  induction s with
  | nil => rfl
  | cons c s ih =>
    rw [skipBrackets, List.dropWhile_cons, ih]
    by_cases hc : c = 0x5b
    · rw [if_pos hc, if_pos (decide_eq_true hc)]
    · rw [if_neg hc, if_neg (by simpa using hc)]

/-- Up to the semicolon, or up to the end without one. -/
theorem dropWhile_class (h : (0 : UInt8) ∉ rest) :
    (rest.dropWhile (fun c => c ≠ 0 && c ≠ 0x3b) = [] ∧ skipClass rest = []) ∨
      rest.dropWhile (fun c => c ≠ 0 && c ≠ 0x3b) = 0x3b :: skipClass rest := by
  induction rest with
  | nil => exact .inl ⟨rfl, rfl⟩
  | cons c rest ih =>
    simp only [List.mem_cons, not_or] at h
    rw [List.dropWhile_cons, skipClass]
    by_cases hc : c = 0x3b
    · subst hc
      exact .inr rfl
    · rw [if_neg hc, if_pos (by simp [Ne.symm h.1, hc])]
      exact ih h.2

theorem skipClassAt_spec (hs : (0 : UInt8) ∉ s) (h : At s p rest) :
    ∃ q, skipClassAt s p = some q ∧ At s q (skipClass rest) := by
  have hrest : (0 : UInt8) ∉ rest := fun hmem => hs (h.subset hmem)
  obtain ⟨q, hq, hat⟩ := h.skipWhile (fun c => c ≠ 0 && c ≠ 0x3b) rfl
  rw [skipClassAt, hq]
  show ∃ q', (read s q).bind _ = some q' ∧ _
  rw [hat.read_eq]
  rcases dropWhile_class hrest with ⟨hnil, hclass⟩ | hcons
  · rw [hnil] at hat ⊢
    rw [hclass]
    exact ⟨q, rfl, hat⟩
  · rw [hcons] at hat ⊢
    exact ⟨q + 1, rfl, hat.next⟩

theorem elemSigAt_eq (h : At s p (k :: rest)) :
    elemSigAt s k p = some (if k = 0x5b then (skipBrackets rest).headD 0 else 0) := by
  unfold elemSigAt
  split
  · obtain ⟨q, hq, hat⟩ := h.next.skipWhile (· = 0x5b) rfl
    rw [skipBrackets_eq]
    show (skipWhile _ s (p + 1)).bind _ = _
    rw [hq]
    exact hat.read_eq
  · rfl

theorem skipClass_of_cut {c : UInt8} {q : Bytes × Bytes} (h : cut 0x3b (c :: rest) = some q) :
    skipClass (c :: rest) = q.2 := by
  obtain ⟨hfree, heq⟩ := cut_eq_some h
  rw [heq]
  exact TypedArgs.skipClass_name hfree

/-- Where the extractors find the next argument, the encoder does, too. -/
theorem skipType_of_advance {s' : Bytes} (h : sig_advance_one (k :: rest) = some s') :
    skipType (k :: rest) = s' := by
  rw [sig_advance_one] at h
  rw [skipType]
  by_cases hL : k = 0x4c
  · rw [if_pos hL] at h ⊢
    obtain ⟨q, hcut, rfl⟩ := Option.map_eq_some_iff.mp h
    exact skipClass_of_cut hcut
  · rw [if_neg hL] at h ⊢
    by_cases hB : k = 0x5b
    · rw [if_pos hB] at h ⊢
      rcases hsb : skipBrackets rest with _ | ⟨e, t⟩
      · rw [hsb] at h
        cases h
      · rw [hsb] at h
        simp only at h ⊢
        by_cases he : e = 0x4c
        · rw [if_pos he] at h ⊢
          obtain ⟨q, hcut, rfl⟩ := Option.map_eq_some_iff.mp h
          exact skipClass_of_cut hcut
        · rw [if_neg he] at h ⊢
          exact Option.some.inj h
    · rw [if_neg hB] at h ⊢
      exact Option.some.inj h

/-- The position behind a type, unless nothing but brackets is left. -/
theorem skipTypeAt_spec (hs : (0 : UInt8) ∉ s) (h : At s p (k :: rest)) :
    ∃ q, skipTypeAt s k p = some q ∧
      ∀ s', sig_advance_one (k :: rest) = some s' → At s q s' := by
  have hat' {q : Nat} (hat : At s q (skipType (k :: rest))) (s' : Bytes)
      (hadv : sig_advance_one (k :: rest) = some s') : At s q s' := by
    rw [← skipType_of_advance hadv]
    exact hat
  unfold skipTypeAt
  by_cases hL : k = 0x4c
  · obtain ⟨q, hq, hat⟩ := skipClassAt_spec hs h
    rw [if_pos hL]
    refine ⟨q, hq, hat' ?_⟩
    rw [skipType, if_pos hL]
    exact hat
  · rw [if_neg hL]
    by_cases hB : k = 0x5b
    · -- the element type is read where the brackets end
      obtain ⟨q, hq, hat⟩ := h.next.skipWhile (· = 0x5b) rfl
      rw [← skipBrackets_eq] at hat
      rw [if_pos hB]
      show ∃ q', (skipWhile _ s (p + 1)).bind _ = some q' ∧ _
      rw [hq]
      show ∃ q', (read s q).bind _ = some q' ∧ _
      rw [hat.read_eq]
      rcases hsb : skipBrackets rest with _ | ⟨e, t⟩
      · -- the position is behind the NUL now
        refine ⟨q + 1, rfl, ?_⟩
        intro s' hadv
        rw [sig_advance_one, if_neg hL, if_pos hB, hsb] at hadv
        cases hadv
      · rw [hsb] at hat
        show ∃ q', (if e = 0x4c then skipClassAt s q else some (q + 1)) = some q' ∧ _
        by_cases he : e = 0x4c
        · obtain ⟨q', hq', hat''⟩ := skipClassAt_spec hs hat
          rw [if_pos he]
          refine ⟨q', hq', hat' ?_⟩
          rw [skipType, if_neg hL, if_pos hB, hsb]
          simpa only [if_pos he] using hat''
        · rw [if_neg he]
          refine ⟨q + 1, rfl, hat' ?_⟩
          rw [skipType, if_neg hL, if_pos hB, hsb]
          simpa only [if_neg he] using hat.next
    · rw [if_neg hB]
      refine ⟨p + 1, rfl, hat' ?_⟩
      rw [skipType, if_neg hL, if_neg hB]
      exact h.next

end Scan

section Encode

variable (deref : UInt64 → Option JRef) {s : Bytes}

/-- The buffer after the record of one argument. -/
def appendRecord (buf : Bytes) (k elem_sig : UInt8) (w : UInt64) :
    Bytes :=
  let (buf, open_) := appendArg deref (buf ++ [k, 0x01]) k elem_sig w
  if open_ then buf ++ [0x02] else buf

theorem appendRecord_same {k elem_sig : UInt8} {x y : UInt64} (h : SameText k x y) (buf : Bytes) :
    appendRecord deref buf k elem_sig x = appendRecord deref buf k elem_sig y := by
  unfold appendRecord
  rw [h]

theorem typedArgsLoop_cons {k : UInt8} (hend : k ≠ 0x29) (buf rest : Bytes) (w : UInt64)
    (ws : List UInt64) :
    typedArgsLoop deref buf (k :: rest) (w :: ws) =
      typedArgsLoop deref
        (appendRecord deref buf k (if k = 0x5b then (skipBrackets rest).headD 0 else 0) w)
        (skipType (k :: rest)) ws := by
  rw [typedArgsLoop, if_neg hend]
  rfl

theorem typedArgsLoop_nil (buf rest : Bytes) : typedArgsLoop deref buf rest [] = buf := by
  cases rest <;> rfl

/-- **Step.** One round of the loop by position. -/
theorem typedArgsAt_cons (hs : (0 : UInt8) ∉ s) {p : Nat} {k : UInt8} {rest : Bytes}
    (h : At s p (k :: rest)) (hend : k ≠ 0x29) (buf : Bytes) (w : UInt64) (ws : List UInt64) :
    ∃ q, (∀ s', sig_advance_one (k :: rest) = some s' → At s q s') ∧
      typedArgsAt deref s (w :: ws) p buf =
        (typedArgsAt deref s ws q
          (appendRecord deref buf k (if k = 0x5b then (skipBrackets rest).headD 0 else 0) w)).map
          fun r => (r.1, k :: r.2) := by
  have hnul : k ≠ 0 := by
    rintro rfl
    exact hs (h.subset List.mem_cons_self)
  obtain ⟨q, hq, hadv⟩ := skipTypeAt_spec hs h
  refine ⟨q, hadv, ?_⟩
  have hread : read s p = some k := h.read_eq
  rw [typedArgsAt, hread]
  show (if k = 0 ∨ k = 0x29 then _ else _) = _
  rw [if_neg (not_or.mpr ⟨hnul, hend⟩), elemSigAt_eq h]
  show (skipTypeAt s k p).bind _ = _
  rw [hq]
  show Option.bind _ _ = Option.map _ _
  rw [Option.map_eq_bind]
  rfl

theorem typedArgsAt_none {ws : List UInt64} (hlen : ws.length = ([] : List UInt8).length) (p : Nat)
    (buf rest : Bytes) :
    typedArgsAt deref s ws p buf = some (typedArgsLoop deref buf rest ws, []) := by
  rw [List.length_eq_zero_iff.mp hlen, typedArgsLoop_nil]
  rfl

/-- **Run.** With a word for each type of the descriptor the loop by
    position stays in the descriptor, sees these types, and writes what
    the loop over the rest of the text writes. -/
theorem typedArgsAt_run (hs : (0 : UInt8) ∉ s) {room p : Nat} {rest : Bytes} (h : At s p rest)
    {ws : List UInt64} (hlen : ws.length = (argKinds room rest).length) (buf : Bytes) :
    typedArgsAt deref s ws p buf =
      some (typedArgsLoop deref buf rest ws, argKinds room rest) := by
  induction room generalizing p rest ws buf with
  | zero => exact typedArgsAt_none deref hlen p buf rest
  | succ room ih =>
    cases rest with
    | nil => exact typedArgsAt_none deref hlen p buf []
    | cons k rest =>
      by_cases hstop : k = 0x29 ∨ k ∉ kindChars
      · have hnone : argKinds (room + 1) (k :: rest) = [] := if_pos hstop
        rw [hnone] at hlen ⊢
        exact typedArgsAt_none deref hlen p buf (k :: rest)
      · have hend : k ≠ 0x29 := fun hk => hstop (.inl hk)
        rw [argKinds, if_neg hstop] at hlen ⊢
        rcases hadv : sig_advance_one (k :: rest) with _ | s'
        · -- the last argument: its type need not end in the descriptor
          rw [hadv] at hlen
          obtain ⟨w, rfl⟩ := List.length_eq_one_iff.mp hlen
          obtain ⟨q, -, hround⟩ := typedArgsAt_cons deref hs h hend buf w []
          rw [hround, typedArgsLoop_cons deref hend, typedArgsLoop_nil]
          rfl
        · rw [hadv] at hlen
          cases ws with
          | nil => exact absurd hlen.symm (Nat.succ_ne_zero _)
          | cons w ws =>
            obtain ⟨q, hq, hround⟩ := typedArgsAt_cons deref hs h hend buf w ws
            have hat := hq s' hadv
            have hskip := skipType_of_advance hadv
            have hrest : ws.length = (argKinds room s').length := Nat.succ.inj hlen
            rw [hround, typedArgsLoop_cons deref hend, hskip, ih hat hrest]
            rfl

/-- Words that show alike give the same text. -/
theorem typedArgsLoop_same {room : Nat} {rest : Bytes} {ps ps' : List (UInt8 × UInt64)}
    (hkinds : ps.map Prod.fst = argKinds room rest)
    (h : List.Forall₂ (fun a b => SameText a.1 a.2 b.2) ps ps') (buf : Bytes) :
    typedArgsLoop deref buf rest (ps.map Prod.snd) =
      typedArgsLoop deref buf rest (ps'.map Prod.snd) := by
  induction room generalizing rest ps ps' buf with
  | zero =>
    rw [List.map_eq_nil_iff.mp hkinds] at h ⊢
    cases h
    rfl
  | succ room ih =>
    cases h with
    | nil => rfl
    | @cons a b ps ps' hab h =>
      cases rest with
      | nil => rfl
      | cons k rest =>
        by_cases hstop : k = 0x29 ∨ k ∉ kindChars
        · rw [argKinds, if_pos hstop] at hkinds
          exact absurd hkinds (List.cons_ne_nil _ _)
        · have hend : k ≠ 0x29 := fun hk => hstop (.inl hk)
          rw [argKinds, if_neg hstop] at hkinds
          simp only [List.map_cons, typedArgsLoop_cons deref hend]
          rcases hadv : sig_advance_one (k :: rest) with _ | s'
          · -- the last type is broken off
            rw [hadv] at hkinds
            obtain ⟨rfl, hnil⟩ := List.cons.inj hkinds
            rw [List.map_eq_nil_iff.mp hnil] at h ⊢
            cases h
            simp only [List.map_nil, typedArgsLoop_nil]
            exact appendRecord_same deref hab buf
          · rw [hadv] at hkinds
            have hskip := skipType_of_advance hadv
            obtain ⟨rfl, htail⟩ := List.cons.inj hkinds
            rw [appendRecord_same deref hab, hskip]
            exact ih htail h _

end Encode

/-! ## Section 5: All three together -/

section Agree

variable {sig : Option CStr} {max : Nat}

/-- Without an opening parenthesis there is nothing to extract. -/
theorem sigKinds_cases (sig : Option Bytes) (max : Nat) :
    (∃ s, sig = some (0x28 :: s)) ∨
      (∀ ap, extract_va_args sig ap max = some []) ∧
        (∀ args, extract_jvalue_args sig args max = some []) ∧ sigKinds sig max = [] := by
  unfold extract_va_args extract_jvalue_args sigKinds
  split
  · next s => exact .inl ⟨s, rfl⟩
  · next hsig =>
    refine .inr ⟨fun _ => rfl, ?_, rfl⟩
    intro args
    split
    · next s _ => exact absurd rfl (hsig s)
    · rfl

/-- Both extractors from a descriptor, or from none. -/
theorem extract_eq {args : Option (List UInt64)} {ap : List VaArg} {sig : Option Bytes}
    (h : SameArgs (sigKinds sig max) (args.getD []) ap) :
    ∃ va jv, extract_va_args sig ap max = some va ∧ extract_jvalue_args sig args max = some jv ∧
      va.map Prod.fst = sigKinds sig max ∧ jv.map Prod.fst = sigKinds sig max ∧
      List.Forall₂ (fun a b => SameText a.1 a.2 b.2) va jv := by
  obtain ⟨s, rfl⟩ | ⟨hva, hjv, hkinds⟩ := sigKinds_cases sig max
  · have hkinds : sigKinds (some (0x28 :: s)) max = argKinds max s := rfl
    rw [hkinds] at h ⊢
    obtain ⟨va, jv, hva, hjv, hks, hks', hall⟩ := extract_run h
    cases args with
    | some vs => exact ⟨va, jv, hva, hjv, hks, hks', hall⟩
    | none =>
      -- no array of arguments: the descriptor has no types, either
      have hnone : argKinds max s = [] := by
        generalize argKinds max s = ks at h
        cases h
        rfl
      rw [hnone, List.map_eq_nil_iff] at hks
      subst hks
      exact ⟨[], [], hva, rfl, hnone.symm, hnone.symm, .nil⟩
  · rw [hkinds]
    exact ⟨[], [], hva ap, hjv args, rfl, rfl, .nil⟩

/-- The encoder on a word for each type of the descriptor. -/
theorem encodeTypedArgsAt_eq (deref : UInt64 → Option JRef) {ws : List UInt64}
    (hlen : ws.length = (sigKinds (sig.map Subtype.val) max).length) :
    encodeTypedArgsAt deref (sig.map Subtype.val) ws =
      some (vis_encode_typed_args deref (sig.map Subtype.val) ws,
        sigKinds (sig.map Subtype.val) max) := by
  cases sig with
  | none => rfl
  | some sig =>
    obtain ⟨s, hs⟩ := sig
    by_cases hws : ws = []
    · subst hws
      have hnone := List.length_eq_zero_iff.mp hlen.symm
      rw [hnone]
      show some ([], []) = some (typedArgsLoop deref [] _ [], [])
      rw [typedArgsLoop_nil]
    · obtain ⟨t, ht⟩ | ⟨-, -, hnone⟩ := sigKinds_cases (some s) max
      · obtain rfl := Option.some.inj ht
        have hrun := typedArgsAt_run deref hs (at_zero (0x28 :: t)).next hlen []
        show (if ws = [] then _ else _) = _
        rw [if_neg hws]
        exact hrun
      · exact absurd (List.length_eq_zero_iff.mp (hlen.trans (congrArg List.length hnone))) hws

/-- Words that show alike are encoded alike. -/
theorem vis_encode_typed_args_same (deref : UInt64 → Option JRef) {sig : Option Bytes}
    {va jv : List (UInt8 × UInt64)} (hkinds : va.map Prod.fst = sigKinds sig max)
    (h : List.Forall₂ (fun a b => SameText a.1 a.2 b.2) va jv) :
    vis_encode_typed_args deref sig (va.map Prod.snd) =
      vis_encode_typed_args deref sig (jv.map Prod.snd) := by
  obtain ⟨s, rfl⟩ | ⟨-, -, hnone⟩ := sigKinds_cases sig max
  · exact typedArgsLoop_same deref hkinds h []
  · rw [hnone, List.map_eq_nil_iff] at hkinds
    subst hkinds
    cases h
    rfl

end Agree

/-- **Main result.** The same arguments as a `va_list` and as `jvalue`s:
    both extractors give as many words, they and the encoder see the same
    types, nothing behind the NUL is read, and the text is the same. -/
theorem extractors_agree (deref : UInt64 → Option JRef) (sig : Option CStr) (max : Nat)
    (args : Option (List UInt64)) (ap : List VaArg)
    (h : SameArgs (sigKinds (sig.map Subtype.val) max) (args.getD []) ap) :
    ∃ va jv, extract_va_args (sig.map Subtype.val) ap max = some va ∧
      extract_jvalue_args (sig.map Subtype.val) args max = some jv ∧
      va.length = jv.length ∧
      ∃ text, vis_encode_typed_args deref (sig.map Subtype.val) (va.map Prod.snd) = text ∧
        vis_encode_typed_args deref (sig.map Subtype.val) (jv.map Prod.snd) = text ∧
        encodeTypedArgsAt deref (sig.map Subtype.val) (va.map Prod.snd) =
          some (text, va.map Prod.fst) ∧
        encodeTypedArgsAt deref (sig.map Subtype.val) (jv.map Prod.snd) =
          some (text, jv.map Prod.fst) := by
  obtain ⟨va, jv, hva, hjv, hkinds, hkinds', hall⟩ := extract_eq h
  have hsame := vis_encode_typed_args_same deref hkinds hall
  have hlen : (va.map Prod.snd).length = (sigKinds (sig.map Subtype.val) max).length := by
    rw [← hkinds, List.length_map, List.length_map]
  have hlen' : (jv.map Prod.snd).length = (sigKinds (sig.map Subtype.val) max).length := by
    rw [← hkinds', List.length_map, List.length_map]
  refine ⟨va, jv, hva, hjv, hall.length_eq, _, rfl, hsame.symm, ?_, ?_⟩
  · rw [encodeTypedArgsAt_eq deref hlen, hkinds]
  · rw [encodeTypedArgsAt_eq deref hlen', hkinds', hsame]

/-- A descriptor that ends in the middle of an array type. -/
theorem extractors_agree_broken :
    let sig : Option CStr := some ⟨ascii "(IF[", by decide⟩
    let args : List UInt64 := [0xffffffff, 0x3f800000, 0x10]
    let ap : List VaArg := [.int (-1), .double (widen 0x3f800000), .pointer 0x10]
    sigKinds (sig.map Subtype.val) 16 = ascii "IF[" ∧
      ∃ va jv, extract_va_args (sig.map Subtype.val) ap 16 = some va ∧
        extract_jvalue_args (sig.map Subtype.val) (some args) 16 = some jv ∧
        va.length = jv.length ∧
        ∃ text, vis_encode_typed_args (fun _ => none) (sig.map Subtype.val) (va.map Prod.snd) =
            text ∧
          vis_encode_typed_args (fun _ => none) (sig.map Subtype.val) (jv.map Prod.snd) = text ∧
          encodeTypedArgsAt (fun _ => none) (sig.map Subtype.val) (va.map Prod.snd) =
            some (text, va.map Prod.fst) ∧
          encodeTypedArgsAt (fun _ => none) (sig.map Subtype.val) (jv.map Prod.snd) =
            some (text, jv.map Prod.fst) := by
  have hkinds : sigKinds (some (ascii "(IF[")) 16 = ascii "IF[" := by decide
  have hnum : ¬ IsNaN32 (0x3f800000 : UInt64).toUInt32 := by decide
  refine ⟨hkinds, extractors_agree _ _ _ (some _) _ ?_⟩
  show SameArgs (sigKinds (some (ascii "(IF[")) 16) _ _
  rw [hkinds]
  exact .cons .int (.cons (.float hnum) (.cons .array .nil))

end JniLog.ExtractArgs
