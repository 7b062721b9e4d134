import JniLog.Logger.Format
import JniLog.RegisterNatives

/-! # Signatures

    Model of `signature.go`: the readable form of a type or method
    descriptor.

    The parser comes twice. With a cursor it is the source's; on the text
    behind the cursor it is what everything else works with, and the two
    agree.

    Main result: every text of the grammar the parser knows is shown as the
    list of its parameter types and its return type, whatever its names are
    made of; a text outside it is shown as it is. -/

namespace JniLog.Logger

open Bytes Painted RegisterNatives

/-! ## Section 1: Parsing -/

/-- The one-letter cases of `parseJNITypePlain`'s `switch`. -/
def primitiveName (c : UInt8) : Option Bytes :=
  [((0x56 : UInt8), ascii "void"), (0x5A, ascii "boolean"), (0x42, ascii "byte"),
    (0x43, ascii "char"), (0x53, ascii "short"), (0x49, ascii "int"), (0x4A, ascii "long"),
    (0x46, ascii "float"), (0x44, ascii "double")].lookup c

/-- `parseJNITypePlain`: the type at the front of a text and the text
    behind it. An error is `none`. -/
def parseJNITypePlain : Bytes → Option (Bytes × Bytes)
  | [] => none
  | c :: s =>
    match primitiveName c with
    | some name => some (name, s)
    | none =>
      if c = 0x5B then (parseJNITypePlain s).map fun (inner, rest) => (inner ++ ascii "[]", rest)
      else if c = 0x4C then (cut 0x3B s).map fun (name, rest) => (normalizeDots name, rest)
      else none

/-- The loop over the parameters, up to the closing bracket or the end.
    A parameter takes at least one byte, so the length of the text is
    fuel enough. -/
def parseParams : Nat → Bytes → Option (List Bytes × Bytes)
  | 0, s => some ([], s)
  | _ + 1, [] => some ([], [])
  | n + 1, c :: s =>
    if c = 0x29 then some ([], c :: s)
    else
      match parseJNITypePlain (c :: s) with
      | none => none
      | some (param, next) => (parseParams n next).map fun (params, rest) => (param :: params, rest)

namespace LineFormatter

variable (f : LineFormatter)

def formatType (name : Bytes) : List Cell := f.colorize ansiCyan (text name)

@[simp] theorem unpainted_formatType (name : Bytes) : unpainted (f.formatType name) = name := by
  rw [formatType, unpainted_colorize, unpainted_text]

def formatMethodType (params : List Bytes) (ret : Bytes) : List Cell :=
  f.colorize ansiBlue (lit "(") ++
    (f.colorize ansiGray (lit ", ")).intercalate (params.map f.formatType) ++
    f.colorize ansiBlue (lit "): ") ++ f.formatType ret

/-- `parseJNISignature`. What does not parse is shown as it is. -/
def parseJNISignature (sig : Bytes) : List Cell :=
  match sig with
  | [] => []
  | c :: s =>
    if c = 0x28 then
      match parseParams s.length s with
      | some (params, d :: s) =>
        match if d = 0x29 then parseJNITypePlain s else none with
        | some (ret, _) => f.formatMethodType params ret
        | none => text sig
      | _ => text sig
    else
      match parseJNITypePlain sig with
      | some (t, _) => f.formatType t
      | none => text sig

end LineFormatter

/-! ## Section 2: The cursor -/

/-- What `parseJNITypePlain` reports: an "unexpected end of signature", an
    "unterminated object type" or an "unknown type". -/
inductive TypeError where
  | unexpectedEnd
  | unterminatedObject
  | unknownType (c : UInt8)
  deriving DecidableEq, Repr

/-- `parseJNITypePlain` with the index of the source: the type at `idx` and
    the index behind it. -/
def parseJNITypePlainAt (sig : Bytes) (idx : Nat) : Except TypeError (Bytes × Nat) :=
  if h : idx < sig.length then
    match primitiveName sig[idx] with
    | some name => .ok (name, idx + 1)
    | none =>
      if sig[idx] = 0x5B then
        (parseJNITypePlainAt sig (idx + 1)).map fun (inner, next) => (inner ++ ascii "[]", next)
      else if sig[idx] = 0x4C then
        match (sig.drop idx).idxOf? 0x3B with
        | none => .error .unterminatedObject
        | some len =>
          .ok (normalizeDots ((sig.take (idx + len)).drop (idx + 1)), idx + len + 1)
      else .error (.unknownType sig[idx])
  else .error .unexpectedEnd
termination_by sig.length - idx

namespace LineFormatter

variable (f : LineFormatter)

/-- The loop of `parseJNISignature`, with the parameters found so far. -/
def parseParamsAt (sig : Bytes) : Nat → Nat → List (List Cell) → Option (List (List Cell) × Nat)
  | 0, idx, params => some (params, idx)
  | n + 1, idx, params =>
    if h : idx < sig.length then
      if sig[idx] = 0x29 then some (params, idx)
      else
        match parseJNITypePlainAt sig idx with
        | .error _ => none
        | .ok (param, next) => parseParamsAt sig n next (params ++ [f.formatType param])
    else some (params, idx)

/-- `parseJNISignature` with the index of the source. -/
def parseJNISignatureAt (sig : Bytes) : List Cell :=
  if sig = [] then []
  else if sig[0]? ≠ some 0x28 then
    match parseJNITypePlainAt sig 0 with
    | .error _ => text sig
    | .ok (t, _) => f.formatType t
  else
    match f.parseParamsAt sig (sig.length - 1) 1 [] with
    | none => text sig
    | some (params, idx) =>
      if sig.length ≤ idx ∨ sig[idx]? ≠ some 0x29 then text sig
      else
        match parseJNITypePlainAt sig (idx + 1) with
        | .error _ => text sig
        | .ok (ret, _) =>
          f.colorize ansiBlue (lit "(") ++ (f.colorize ansiGray (lit ", ")).intercalate params ++
            f.colorize ansiBlue (lit "): ") ++ f.formatType ret

end LineFormatter

/-- A result with the index replaced by the text behind it. -/
def behind {α : Type} (sig : Bytes) (r : α × Nat) : α × Bytes :=
  (r.1, sig.drop r.2)

/-- The semicolon is looked for from the type character on. -/
theorem idxOf_object (s : Bytes) : (0x4C :: s).idxOf? 0x3B = (s.idxOf? 0x3B).map (· + 1) := by
  rw [List.idxOf?_cons]
  rfl

/-- The parser with the cursor reads what the parser on the text behind
    the cursor reads. -/
theorem parseJNITypePlainAt_behind (sig : Bytes) (idx : Nat) :
    (parseJNITypePlainAt sig idx).toOption.map (behind sig) = parseJNITypePlain (sig.drop idx) := by
  fun_induction parseJNITypePlainAt sig idx with
  | case1 idx h name hname =>
    rw [List.drop_eq_getElem_cons h, parseJNITypePlain, hname]
    rfl
  | case2 idx h hname hc ih =>
    rw [List.drop_eq_getElem_cons h, parseJNITypePlain, hname]
    dsimp only
    rw [if_pos hc, ← ih]
    cases parseJNITypePlainAt sig (idx + 1) <;> rfl
  | case3 idx h hname hc hl hfind =>
    rw [List.drop_eq_getElem_cons h, hl, idxOf_object, Option.map_eq_none_iff] at hfind
    rw [List.drop_eq_getElem_cons h, parseJNITypePlain, hname]
    dsimp only
    rw [if_neg hc, if_pos hl, cut_eq_map_idxOf, hfind]
    rfl
  | case4 idx h hname hc hl len hfind =>
    rw [List.drop_eq_getElem_cons h, hl, idxOf_object, Option.map_eq_some_iff] at hfind
    obtain ⟨i, hi, rfl⟩ := hfind
    have hname' : (sig.take (idx + (i + 1))).drop (idx + 1) = (sig.drop (idx + 1)).take i := by
      rw [List.drop_take]
      congr 1
      omega
    have hnext : sig.drop (idx + (i + 1) + 1) = (sig.drop (idx + 1)).drop (i + 1) := by
      rw [List.drop_drop]
      congr 1
      omega
    rw [List.drop_eq_getElem_cons h, parseJNITypePlain, hname]
    dsimp only
    rw [if_neg hc, if_pos hl, cut_eq_map_idxOf, hi, hname']
    show some (_, sig.drop (idx + (i + 1) + 1)) = _
    rw [hnext]
    rfl
  | case5 idx h hname hc hl =>
    rw [List.drop_eq_getElem_cons h, parseJNITypePlain, hname]
    dsimp only
    rw [if_neg hc, if_neg hl]
    rfl
  | case6 idx h =>
    rw [List.drop_eq_nil_of_le (Nat.le_of_not_lt h)]
    rfl

/-- A type takes at least one byte, and all its bytes are there. -/
theorem parseJNITypePlainAt_bounds {sig t : Bytes} {idx next : Nat}
    (h : parseJNITypePlainAt sig idx = .ok (t, next)) : idx < next ∧ next ≤ sig.length := by
  fun_induction parseJNITypePlainAt sig idx generalizing t next with
  | case1 idx hidx name hname =>
    cases h
    exact ⟨Nat.lt_succ_self idx, hidx⟩
  | case2 idx hidx hname hc ih =>
    cases hinner : parseJNITypePlainAt sig (idx + 1) with
    | error e =>
      rw [hinner] at h
      cases h
    | ok r =>
      rw [hinner] at h
      cases h
      obtain ⟨hlt, hle⟩ := ih hinner
      exact ⟨Nat.lt_of_succ_lt hlt, hle⟩
  | case4 idx hidx hname hc hl len hfind =>
    cases h
    obtain ⟨hlen, -⟩ := List.idxOf?_eq_some_iff.mp hfind
    rw [List.length_drop] at hlen
    constructor <;> omega
  | case3 | case5 | case6 => cases h

/-- The index a type ends at, from the text behind it. -/
theorem parseJNITypePlainAt_eq_ok (pre : Bytes) {s t rest : Bytes}
    (h : parseJNITypePlain s = some (t, rest)) :
    parseJNITypePlainAt (pre ++ s) pre.length = .ok (t, pre.length + (s.length - rest.length)) := by
  have hbehind := parseJNITypePlainAt_behind (pre ++ s) pre.length
  rw [List.drop_left, h] at hbehind
  cases hat : parseJNITypePlainAt (pre ++ s) pre.length with
  | error e =>
    rw [hat] at hbehind
    cases hbehind
  | ok r =>
    obtain ⟨t', next⟩ := r
    obtain ⟨hlt, hle⟩ := parseJNITypePlainAt_bounds hat
    rw [hat] at hbehind
    obtain ⟨rfl, rfl⟩ := Prod.mk.inj (Option.some.inj hbehind)
    rw [List.length_append] at hle
    rw [List.length_drop, List.length_append]
    congr 2
    omega

namespace LineFormatter

variable (f : LineFormatter)

theorem parseParamsAt_behind (sig : Bytes) (n idx : Nat) (acc : List (List Cell)) :
    (f.parseParamsAt sig n idx acc).map (behind sig) =
      (parseParams n (sig.drop idx)).map fun (params, rest) =>
        (acc ++ params.map f.formatType, rest) := by
  have hstop (idx : Nat) (acc : List (List Cell)) : (some (acc, idx)).map (behind sig) =
      (some (([] : List Bytes), sig.drop idx)).map fun (params, rest) =>
        (acc ++ params.map f.formatType, rest) := by
    simp [behind]
  induction n generalizing idx acc with
  | zero =>
    rw [parseParamsAt, parseParams]
    exact hstop idx acc
  | succ n ih =>
    rw [parseParamsAt]
    by_cases h : idx < sig.length
    · rw [dif_pos h, List.drop_eq_getElem_cons h, parseParams]
      by_cases hc : sig[idx] = 0x29
      · rw [if_pos hc, if_pos hc, ← List.drop_eq_getElem_cons h]
        exact hstop idx acc
      · rw [if_neg hc, if_neg hc, ← List.drop_eq_getElem_cons h, ← parseJNITypePlainAt_behind]
        cases parseJNITypePlainAt sig idx with
        | error e => rfl
        | ok r =>
          show (f.parseParamsAt sig n r.2 (acc ++ [f.formatType r.1])).map (behind sig) =
            ((parseParams n (sig.drop r.2)).map fun (params, rest) => (r.1 :: params, rest)).map _
          rw [ih, Option.map_map]
          simp [Function.comp_def]
    · have hend := hstop idx acc
      rw [List.drop_eq_nil_of_le (Nat.le_of_not_lt h)] at hend ⊢
      rw [dif_neg h, parseParams]
      exact hend

/-- The two forms of the parser show every text the same way. -/
theorem parseJNISignatureAt_eq (sig : Bytes) :
    f.parseJNISignatureAt sig = f.parseJNISignature sig := by
  cases sig with
  | nil => rfl
  | cons c s =>
    have hfirst := parseJNITypePlainAt_behind (c :: s) 0
    have hparams := f.parseParamsAt_behind (c :: s) s.length 1 []
    rw [List.drop_zero] at hfirst
    rw [List.drop_one, List.tail_cons] at hparams
    rw [parseJNISignatureAt, parseJNISignature, if_neg (List.cons_ne_nil c s)]
    by_cases hc : c = 0x28
    · subst hc
      rw [if_neg (by simp), if_pos rfl]
      rw [show (0x28 :: s).length - 1 = s.length from rfl]
      cases hat : f.parseParamsAt (0x28 :: s) s.length 1 [] with
      | none =>
        rw [hat, Option.map_none, eq_comm, Option.map_eq_none_iff] at hparams
        rw [hparams]
      | some r =>
        obtain ⟨params, idx⟩ := r
        rw [hat, Option.map_some, eq_comm, Option.map_eq_some_iff] at hparams
        obtain ⟨⟨names, rest⟩, hnames, hrest⟩ := hparams
        obtain ⟨rfl, rfl⟩ := Prod.mk.inj hrest
        rw [hnames]
        dsimp only
        by_cases hidx : idx < (0x28 :: s).length
        · have hget : (0x28 :: s)[idx]? = some (0x28 :: s)[idx] := List.getElem?_eq_getElem hidx
          rw [List.drop_eq_getElem_cons hidx, hget]
          dsimp only
          by_cases hclose : (0x28 :: s)[idx] = 0x29
          · rw [if_neg (by simpa [hclose] using hidx), if_pos hclose,
              ← parseJNITypePlainAt_behind]
            cases parseJNITypePlainAt (0x28 :: s) (idx + 1) <;> rfl
          · rw [if_pos (Or.inr (by simpa using hclose)), if_neg hclose]
        · rw [if_pos (Or.inl (Nat.le_of_not_lt hidx)),
            List.drop_eq_nil_of_le (Nat.le_of_not_lt hidx)]
    · rw [if_pos (by simpa using hc), if_neg hc, ← hfirst]
      cases parseJNITypePlainAt (c :: s) 0 <;> rfl

end LineFormatter

/-! ## Section 3: Well-formed descriptors -/

def javaBaseType : BaseType → Bytes
  | .byte => ascii "byte"
  | .char => ascii "char"
  | .double => ascii "double"
  | .float => ascii "float"
  | .int => ascii "int"
  | .long => ascii "long"
  | .short => ascii "short"
  | .boolean => ascii "boolean"

/-- What the parser takes for a type: a letter of its table, an object with
    any name that has no semicolon in it, or an array. That `void` is a
    return type only is not its business. -/
inductive TypeDescriptor where
  | void
  | primitive (t : BaseType)
  | object (name : {s : Bytes // (0x3B : UInt8) ∉ s})
  | array (elem : TypeDescriptor)

namespace TypeDescriptor

def text : TypeDescriptor → Bytes
  | void => [0x56]
  | primitive t => [t.letter]
  | object name => 0x4C :: (name.val ++ [0x3B])
  | array elem => 0x5B :: elem.text

/-- The type as Java writes it. -/
def java : TypeDescriptor → Bytes
  | void => ascii "void"
  | primitive t => javaBaseType t
  | object name => normalizeDots name.val
  | array elem => elem.java ++ ascii "[]"

end TypeDescriptor

/-- A list of parameter types and a return type. -/
structure SignatureDescriptor where
  params : List TypeDescriptor
  ret : TypeDescriptor

namespace SignatureDescriptor

def text (d : SignatureDescriptor) : Bytes :=
  0x28 :: (d.params.flatMap TypeDescriptor.text ++ 0x29 :: d.ret.text)

def java (d : SignatureDescriptor) : Bytes :=
  ascii "(" ++ (ascii ", ").intercalate (d.params.map TypeDescriptor.java) ++ ascii "): " ++
    d.ret.java

end SignatureDescriptor

/-! ## Section 4: What parses -/

theorem primitiveName_letter (t : BaseType) : primitiveName t.letter = some (javaBaseType t) := by
  cases t <;> decide

theorem primitiveName_object : primitiveName 0x4C = none := by
  decide

theorem primitiveName_array : primitiveName 0x5B = none := by
  decide

theorem parseJNITypePlain_object (s : Bytes) : parseJNITypePlain (0x4C :: s) =
    (cut 0x3B s).map fun (name, rest) => (normalizeDots name, rest) := by
  rw [parseJNITypePlain, primitiveName_object]
  rfl

theorem parseJNITypePlain_array (s : Bytes) : parseJNITypePlain (0x5B :: s) =
    (parseJNITypePlain s).map fun (inner, rest) => (inner ++ ascii "[]", rest) := by
  rw [parseJNITypePlain, primitiveName_array]
  rfl

/-- A type is read to its end, whatever follows it. -/
theorem parseJNITypePlain_text (t : TypeDescriptor) (rest : Bytes) :
    parseJNITypePlain (t.text ++ rest) = some (t.java, rest) := by
  induction t with
  | void => rfl
  | primitive t =>
    show parseJNITypePlain (t.letter :: rest) = _
    rw [parseJNITypePlain, primitiveName_letter]
    rfl
  | object name =>
    have hcut : cut 0x3B (name.val ++ 0x3B :: rest) = some (name.val, rest) :=
      cut_append name.property
    show parseJNITypePlain (0x4C :: ((name.val ++ [0x3B]) ++ rest)) = _
    rw [parseJNITypePlain_object, List.append_assoc, List.singleton_append, hcut]
    rfl
  | array elem ih =>
    show parseJNITypePlain (0x5B :: (elem.text ++ rest)) = _
    rw [parseJNITypePlain_array, ih]
    rfl

/-- A type does not begin with the bracket that ends the parameters. -/
theorem text_eq_cons (t : TypeDescriptor) : ∃ c s, t.text = c :: s ∧ c ≠ 0x29 := by
  cases t with
  | void => exact ⟨0x56, [], rfl, by decide⟩
  | primitive t => exact ⟨t.letter, [], rfl, by cases t <;> decide⟩
  | object name => exact ⟨0x4C, name.val ++ [0x3B], rfl, by decide⟩
  | array elem => exact ⟨0x5B, elem.text, rfl, by decide⟩

/-- One round of the loop. -/
theorem parseParams_type (n : Nat) (t : TypeDescriptor) (rest : Bytes) :
    parseParams (n + 1) (t.text ++ rest) =
      (parseParams n rest).map fun (names, next) => (t.java :: names, next) := by
  obtain ⟨c, s, htext, hc⟩ := text_eq_cons t
  have hparse := parseJNITypePlain_text t rest
  rw [htext, List.cons_append] at hparse ⊢
  rw [parseParams, if_neg hc, hparse]

/-- The loop reads one type after the other. -/
theorem parseParams_text (n : Nat) (params : List TypeDescriptor) (rest : Bytes) :
    parseParams (n + params.length) (params.flatMap TypeDescriptor.text ++ rest) =
      (parseParams n rest).map fun (names, next) =>
        (params.map TypeDescriptor.java ++ names, next) := by
  induction params with
  | nil =>
    show parseParams n rest = _
    simp
  | cons t params ih =>
    rw [List.flatMap_cons, List.append_assoc, List.length_cons, ← Nat.add_assoc, parseParams_type,
      ih, Option.map_map]
    rfl

/-- Every type takes a byte, so the bytes are rounds enough. -/
theorem length_le_flatMap_text (params : List TypeDescriptor) :
    params.length ≤ (params.flatMap TypeDescriptor.text).length := by
  induction params with
  | nil => exact Nat.le_refl 0
  | cons t params ih =>
    obtain ⟨c, s, htext, -⟩ := text_eq_cons t
    rw [List.flatMap_cons, List.length_append, htext]
    simp only [List.length_cons]
    omega

theorem parseParams_close (n : Nat) (s : Bytes) :
    parseParams n (0x29 :: s) = some ([], 0x29 :: s) := by
  cases n <;> rfl

namespace LineFormatter

variable (f : LineFormatter)

theorem unpainted_formatMethodType (params : List Bytes) (ret : Bytes) :
    unpainted (f.formatMethodType params ret) =
      ascii "(" ++ (ascii ", ").intercalate params ++ ascii "): " ++ ret := by
  have hnames (names : List Bytes) : (names.map f.formatType).map unpainted = names := by
    simp [Function.comp_def]
  simp only [formatMethodType, unpainted_append, unpainted_intercalate, unpainted_colorize,
    unpainted_lit, unpainted_formatType, hnames]

/-- A type descriptor is shown as Java writes the type. -/
theorem parseJNISignature_type (t : TypeDescriptor) :
    unpainted (f.parseJNISignature t.text) = t.java := by
  have hparse := parseJNITypePlain_text t []
  rw [List.append_nil] at hparse
  obtain ⟨c, s, htext, hc⟩ : ∃ c s, t.text = c :: s ∧ c ≠ 0x28 := by
    cases t with
    | void => exact ⟨0x56, [], rfl, by decide⟩
    | primitive t => exact ⟨t.letter, [], rfl, by cases t <;> decide⟩
    | object name => exact ⟨0x4C, name.val ++ [0x3B], rfl, by decide⟩
    | array elem => exact ⟨0x5B, elem.text, rfl, by decide⟩
  rw [htext] at hparse ⊢
  rw [parseJNISignature, if_neg hc, hparse]
  exact f.unpainted_formatType t.java

/-- A method descriptor is shown as its parameter types and return type. -/
theorem parseJNISignature_signature (d : SignatureDescriptor) :
    unpainted (f.parseJNISignature d.text) = d.java := by
  have hret := parseJNITypePlain_text d.ret []
  rw [List.append_nil] at hret
  have hlen := length_le_flatMap_text d.params
  obtain ⟨n, hn⟩ : ∃ n, (d.params.flatMap TypeDescriptor.text ++ 0x29 :: d.ret.text).length =
      n + d.params.length := by
    apply Nat.exists_eq_add_of_le'
    rw [List.length_append]
    omega
  rw [SignatureDescriptor.text, parseJNISignature, if_pos rfl, hn, parseParams_text,
    parseParams_close, Option.map_some]
  dsimp only
  rw [if_pos rfl, hret, List.append_nil]
  exact f.unpainted_formatMethodType _ _

end LineFormatter

/-! ## Section 5: What does not parse -/

/-- The characters a type can begin with. -/
def typeCharacters : Bytes :=
  ascii "VZBCSIJFD[L"

/-- The first type of the text has no end, or there is an unknown character
    in its place. -/
inductive BrokenType : Bytes → Prop where
  | ended : BrokenType []
  | unknown {c : UInt8} {s : Bytes} (h : c ∉ typeCharacters) : BrokenType (c :: s)
  | object {s : Bytes} (h : (0x3B : UInt8) ∉ s) : BrokenType (0x4C :: s)
  | array {s : Bytes} (h : BrokenType s) : BrokenType (0x5B :: s)

/-- Behind the opening bracket: the text ends, or a type in it is broken,
    before the closing bracket. -/
inductive BrokenParams : Bytes → Prop where
  | ended : BrokenParams []
  | type {s : Bytes} (h : BrokenType s) (hopen : s.head? ≠ some 0x29) : BrokenParams s
  | param (t : TypeDescriptor) {s : Bytes} (h : BrokenParams s) : BrokenParams (t.text ++ s)

inductive BrokenSignature : Bytes → Prop where
  | type {sig : Bytes} (h : BrokenType sig) (hopen : sig.head? ≠ some 0x28) : BrokenSignature sig
  | params {s : Bytes} (h : BrokenParams s) : BrokenSignature (0x28 :: s)

theorem primitiveName_unknown {c : UInt8} (h : c ∉ typeCharacters) :
    primitiveName c = none ∧ c ≠ 0x5B ∧ c ≠ 0x4C := by
  have hne {x : UInt8} (hx : x ∈ typeCharacters) : (c == x) = false := by
    apply beq_false_of_ne
    rintro rfl
    exact h hx
  refine ⟨?_, ne_of_beq_false (hne (by decide)), ne_of_beq_false (hne (by decide))⟩
  apply List.lookup_eq_none_iff.mpr
  intro p hp
  have hmem : p.1 ∈ typeCharacters := by
    simp only [List.mem_cons, List.not_mem_nil, or_false] at hp
    obtain rfl | rfl | rfl | rfl | rfl | rfl | rfl | rfl | rfl := hp <;> decide
  rw [bne, hne hmem]
  rfl

theorem parseJNITypePlain_broken {s : Bytes} (h : BrokenType s) : parseJNITypePlain s = none := by
  induction h with
  | ended => rfl
  | unknown h =>
    obtain ⟨hname, hbracket, hell⟩ := primitiveName_unknown h
    rw [parseJNITypePlain, hname]
    dsimp only
    rw [if_neg hbracket, if_neg hell]
  | object h => rw [parseJNITypePlain_object, cut_eq_none h, Option.map_none]
  | array h ih => rw [parseJNITypePlain_array, ih, Option.map_none]

theorem mem_typeCharacters {c : UInt8} (h : c ∈ typeCharacters) :
    (∃ t : TypeDescriptor, t.text = [c]) ∨ c = 0x5B ∨ c = 0x4C := by
  have hchars : typeCharacters =
      [0x56, 0x5A, 0x42, 0x43, 0x53, 0x49, 0x4A, 0x46, 0x44, 0x5B, 0x4C] := by
    decide
  rw [hchars] at h
  simp only [List.mem_cons, List.not_mem_nil, or_false] at h
  obtain rfl | rfl | rfl | rfl | rfl | rfl | rfl | rfl | rfl | h := h
  · exact Or.inl ⟨.void, rfl⟩
  · exact Or.inl ⟨.primitive .boolean, rfl⟩
  · exact Or.inl ⟨.primitive .byte, rfl⟩
  · exact Or.inl ⟨.primitive .char, rfl⟩
  · exact Or.inl ⟨.primitive .short, rfl⟩
  · exact Or.inl ⟨.primitive .int, rfl⟩
  · exact Or.inl ⟨.primitive .long, rfl⟩
  · exact Or.inl ⟨.primitive .float, rfl⟩
  · exact Or.inl ⟨.primitive .double, rfl⟩
  · exact Or.inr h

/-- A text that is not broken begins with a type. -/
theorem broken_or_type (s : Bytes) :
    BrokenType s ∨ ∃ (t : TypeDescriptor) (rest : Bytes), s = t.text ++ rest := by
  induction s with
  | nil => exact Or.inl .ended
  | cons c s ih =>
    by_cases hc : c ∈ typeCharacters
    · obtain ⟨t, ht⟩ | rfl | rfl := mem_typeCharacters hc
      · exact Or.inr ⟨t, s, by rw [ht, List.singleton_append]⟩
      · obtain hs | ⟨t, rest, rfl⟩ := ih
        · exact Or.inl (.array hs)
        · exact Or.inr ⟨.array t, rest, rfl⟩
      · cases hcut : cut 0x3B s with
        | none =>
          rw [cut_eq_map_idxOf, Option.map_eq_none_iff, List.idxOf?_eq_none_iff] at hcut
          exact Or.inl (.object hcut)
        | some p =>
          obtain ⟨hname, rfl⟩ := cut_eq_some hcut
          exact Or.inr ⟨.object ⟨p.1, hname⟩, p.2, by simp [TypeDescriptor.text]⟩
    · exact Or.inl (.unknown hc)

/-- A parameter list that is not broken is closed. -/
theorem broken_or_params (s : Bytes) :
    BrokenParams s ∨ ∃ (params : List TypeDescriptor) (rest : Bytes),
      s = params.flatMap TypeDescriptor.text ++ 0x29 :: rest := by
  -- the rest behind a type is shorter, but not by one byte
  induction hn : s.length using Nat.strong_induction_on generalizing s with
  | _ n ih =>
    by_cases hopen : s.head? = some 0x29
    · obtain ⟨rest, rfl⟩ := List.head?_eq_some_iff.mp hopen
      exact Or.inr ⟨[], rest, rfl⟩
    obtain hs | ⟨t, rest, rfl⟩ := broken_or_type s
    · exact Or.inl (.type hs hopen)
    obtain ⟨c, u, htext, -⟩ := text_eq_cons t
    have hlt : rest.length < n := by
      rw [← hn, htext, List.length_append, List.length_cons]
      omega
    obtain hrest | ⟨params, rest, rfl⟩ := ih rest.length hlt rest rfl
    · exact Or.inl (.param t hrest)
    · exact Or.inr ⟨t :: params, rest, by rw [List.flatMap_cons, List.append_assoc]⟩

/-- A signature that is not broken begins with a type, or with a list of
    types in brackets. -/
theorem broken_or_readable (sig : Bytes) :
    BrokenSignature sig ∨ (∃ (t : TypeDescriptor) (rest : Bytes), sig = t.text ++ rest) ∨
      ∃ (params : List TypeDescriptor) (rest : Bytes),
        sig = 0x28 :: (params.flatMap TypeDescriptor.text ++ 0x29 :: rest) := by
  by_cases hopen : sig.head? = some 0x28
  · obtain ⟨s, rfl⟩ := List.head?_eq_some_iff.mp hopen
    obtain hs | ⟨params, rest, rfl⟩ := broken_or_params s
    · exact Or.inl (.params hs)
    · exact Or.inr (Or.inr ⟨params, rest, rfl⟩)
  · obtain hs | htype := broken_or_type sig
    · exact Or.inl (.type hs hopen)
    · exact Or.inr (Or.inl htype)

/-- The loop reports a broken type, or gets to the end of the text. -/
theorem parseParams_broken {s : Bytes} (h : BrokenParams s) {n : Nat} (hn : s.length ≤ n) :
    parseParams n s = none ∨ ∃ names, parseParams n s = some (names, []) := by
  induction h generalizing n with
  | ended =>
    right
    cases n <;> exact ⟨[], rfl⟩
  | @type s h hopen =>
    cases s with
    | nil =>
      right
      cases n <;> exact ⟨[], rfl⟩
    | cons c s =>
      left
      obtain ⟨n, rfl⟩ := Nat.exists_eq_add_one_of_ne_zero (Nat.pos_iff_ne_zero.mp
        (Nat.lt_of_lt_of_le (Nat.succ_pos s.length) hn))
      rw [parseParams, if_neg (by simpa using hopen), parseJNITypePlain_broken h]
  | @param t s h ih =>
    obtain ⟨c, u, htext, -⟩ := text_eq_cons t
    have hpos : t.text.length = u.length + 1 := by
      rw [htext, List.length_cons]
    rw [List.length_append] at hn
    obtain ⟨n, rfl⟩ : ∃ m, n = m + 1 := ⟨n - 1, by omega⟩
    rw [parseParams_type]
    have hrest : s.length ≤ n := by omega
    obtain hnone | ⟨names, hnames⟩ := ih hrest
    · left
      rw [hnone, Option.map_none]
    · right
      exact ⟨t.java :: names, by rw [hnames, Option.map_some]⟩

/-- A broken signature is shown as it is. -/
theorem parseJNISignature_broken (f : LineFormatter) {sig : Bytes} (h : BrokenSignature sig) :
    f.parseJNISignature sig = text sig := by
  cases h with
  | type h hopen =>
    cases sig with
    | nil => rfl
    | cons c s =>
      rw [LineFormatter.parseJNISignature, if_neg (by simpa using hopen),
        parseJNITypePlain_broken h]
  | @params s h =>
    rw [LineFormatter.parseJNISignature, if_pos rfl]
    obtain hnone | ⟨names, hnames⟩ := parseParams_broken h (Nat.le_refl s.length)
    · rw [hnone]
    · rw [hnames]

/-- Every type and method descriptor is shown as Java writes it, a type takes
    exactly the bytes of its descriptor, and a text whose first type or
    parameter list is broken is shown as it is. -/
theorem parseJNISignatureAt_spec (f : LineFormatter) :
    (∀ t : TypeDescriptor, unpainted (f.parseJNISignatureAt t.text) = t.java) ∧
    (∀ d : SignatureDescriptor, unpainted (f.parseJNISignatureAt d.text) = d.java) ∧
    (∀ (t : TypeDescriptor) (front rest : Bytes),
      parseJNITypePlainAt (front ++ t.text ++ rest) front.length =
        .ok (t.java, front.length + t.text.length)) ∧
    ∀ sig, BrokenSignature sig → f.parseJNISignatureAt sig = text sig := by
  refine ⟨?_, ?_, ?_, ?_⟩
  · intro t
    rw [f.parseJNISignatureAt_eq]
    exact f.parseJNISignature_type t
  · intro d
    rw [f.parseJNISignatureAt_eq]
    exact f.parseJNISignature_signature d
  · intro t front rest
    have hat := parseJNITypePlainAt_eq_ok front (parseJNITypePlain_text t rest)
    rw [List.append_assoc, hat, List.length_append, Nat.add_sub_cancel]
  · intro sig h
    rw [f.parseJNISignatureAt_eq]
    exact parseJNISignature_broken f h

/-- A list with an object type that has no end. -/
theorem parseJNISignatureAt_spec_unterminated :
    (LineFormatter.mk true).parseJNISignatureAt (ascii "(ILa/B") = text (ascii "(ILa/B") :=
  (parseJNISignatureAt_spec (.mk true)).2.2.2 (ascii "(ILa/B")
    (.params (.param (.primitive .int) (.type (.object (by decide)) (by decide))))

end JniLog.Logger
