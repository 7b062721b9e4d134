import JniLog.TypedArgs
import JniLog.RegisterNatives
import JniLog.EventPipe.Datagram
import JniLog.Framework.CutShort

/-! # Arguments that are cut

    The encoded arguments of a call travel in one string, which
    `append_str_max` cuts at a cap. `decodeArgs` asks for no terminator
    behind a record, so the record the cut falls into is decoded like a
    whole one.

    * `strconv.ParseFloat` is a parameter: nothing is said about which
      texts read as the same number.
    * The descriptor is any method descriptor, and the argument words and
      what they point to are arbitrary.

    Main result: the exact condition on the cut under which the decoded
    list is that of the whole encoding, cut short. -/

namespace JniLog.Truncation

open Bytes JlFmt Visualize TypedArgs EventPipe RegisterNatives

/-! ## Section 1: Values cut short -/

section Values

variable {F : Type} (ParseFloat : Bytes → F)

/-- The same number, by what `strconv.ParseFloat` answers. -/
def SameNumber : FloatVal → FloatVal → Prop
  | .parsed s, .parsed t => ParseFloat t = ParseFloat s
  | x, y => y = x

/-- `w` is `v` with its content cut to a prefix; the text of `toString`
    comes after the class name. A number is the same number. -/
structure ShortContent (v w : JNIValue) : Prop where
  kind : w.kind = v.kind
  int : w.int = v.int
  float : SameNumber ParseFloat v.float w.float
  str : w.str <+: v.str
  extra : w.extra <+: v.extra
  order : w.extra = [] ∨ w.str = v.str
  items : w.items = v.items

/-- `w` is the array `v` with its items cut short. The number of elements
    left out is the same, or gone. -/
structure ShortArray (v w : JNIValue) : Prop where
  array : v.kind = .KindArray
  kind : w.kind = v.kind
  int : w.int = v.int ∨ w.int = 0
  float : w.float = v.float
  str : w.str <+: v.str
  extra : w.extra = v.extra
  items : CutShort (ShortContent ParseFloat) v.items w.items

/-- What may become of the last value when its record is cut. -/
def Shortened (v w : JNIValue) : Prop :=
  ShortContent ParseFloat v w ∨ ShortArray ParseFloat v w

/-- The decoded arguments are those of the whole encoding, cut short. -/
def Faithful (whole : Bytes) (cap : Nat) : Prop :=
  CutShort (Shortened ParseFloat) (decodeArgs whole) (decodeArgs (clip cap whole))

end Values

theorem SameNumber.refl {F : Type} (ParseFloat : Bytes → F) (x : FloatVal) :
    SameNumber ParseFloat x x := by
  cases x <;> rfl

theorem ShortContent.refl {F : Type} (ParseFloat : Bytes → F) (v : JNIValue) :
    ShortContent ParseFloat v v :=
  ⟨rfl, rfl, SameNumber.refl _ _, List.prefix_refl _, List.prefix_refl _, .inr rfl, rfl⟩

/-! ## Section 2: Where a cut does no harm -/

section Condition

variable {F : Type} (ParseFloat : Bytes → F)

/-- A cut inside the text of a value that is not an array: it does no
    harm to a string or a class; a float has to read as the same number;
    an object must not become, or stop being, the bare word `null`; an
    integer has to be kept whole or be 0. -/
def KeptContent (kind : JNIKind) (whole kept : Bytes) : Prop :=
  match kind with
  | .KindString | .KindClass => True
  | .KindFloat | .KindDouble => ParseFloat kept = ParseFloat whole
  | .KindObject => kept = whole ∨ kept ≠ ascii "null" ∧ whole ≠ ascii "null"
  | _ => kept = whole ∨ whole = ascii "0"

/-- A cut inside the text of an array: nothing of the items is kept, or
    the last piece kept reads as a count `+N` only when `N` is 0 or the
    array's own count, and is otherwise the beginning of an item whose
    cut does no harm, and not of the array's count. -/
def KeptArray (whole kept : Bytes) : Prop :=
  let pieces := (whole.drop 2).splitOn 0x04
  let keptPieces := (kept.drop 2).splitOn 0x04
  kept.length ≤ 2 ∨
    match overflowMarker (keptPieces.getLastD []) with
    | some n => n = 0 ∨ overflowMarker (pieces.getLastD []) = some n
    | none =>
      ¬ (keptPieces.length = pieces.length ∧ (overflowMarker (pieces.getLastD [])).isSome) ∧
        KeptContent ParseFloat (JNIKindFromSigChar (whole.headD 0))
          (pieces.getD (keptPieces.length - 1) []) (keptPieces.getLastD [])

/-- The cut falls between two records, before the value of a record, or
    inside a value where it does no harm. -/
def CutOk (whole : Bytes) (cap : Nat) : Prop :=
  let records := whole.splitOn 0x02
  let keptRecords := (clip cap whole).splitOn 0x02
  let record := records.getD (keptRecords.length - 1) []
  let kept := keptRecords.getLastD []
  let kind := JNIKindFromSigChar (record.headD 0)
  kept.length < 2 ∨
    if kind = .KindArray then KeptArray ParseFloat (record.drop 2) (kept.drop 2)
    else KeptContent ParseFloat kind (record.drop 2) (kept.drop 2)

end Condition

/-! ## Section 3: The texts of values -/

/-- The texts an encoder writes for a value that is not an array. -/
inductive ContentText : JNIKind → Bytes → Prop where
  | int {kind : JNIKind} (hk : kind.IsIntegral) (n : Int) (hlo : -2 ^ 63 ≤ n) (hhi : n < 2 ^ 63) :
    ContentText kind (intText n)
  | float {kind : JNIKind} (hk : kind = .KindFloat ∨ kind = .KindDouble) {s : Bytes}
    (hs : Graphic s) : ContentText kind s
  | string (s : Bytes) : ContentText .KindString (wireCode.escape s)
  | clazz (s : Bytes) : ContentText .KindClass (wireCode.escape s)
  | object (name : Bytes) (text : Option Bytes) : ContentText .KindObject (objectText name text)

/-- The texts an encoder writes behind the signature character of an
    argument. -/
inductive ValueText : UInt8 → Bytes → Prop where
  | content {sig : UInt8} {s : Bytes} (h : ContentText (JNIKindFromSigChar sig) s) :
    ValueText sig s
  | nullArray : ValueText 0x5b []
  | array {elem : UInt8} (helem : JNIKindFromSigChar elem ≠ .KindArray) (hend : elem ≠ 0x02)
    {items : List Bytes} (hitems : ∀ p ∈ items, ContentText (JNIKindFromSigChar elem) p)
    {total : Nat} (htotal : total < 2 ^ 31) :
    ValueText 0x5b (arrayText elem (items ++ overflowParts total))

section Content

variable {F : Type} {ParseFloat : Bytes → F} {kind : JNIKind} {whole kept : Bytes}

theorem shortContent_int {k : JNIKind} {n m : Int} :
    ShortContent ParseFloat { kind := k, int := n } { kind := k, int := m } ↔ m = n := by
  constructor
  · intro h
    exact h.int
  · rintro rfl
    exact ShortContent.refl _ _

theorem shortContent_float {k : JNIKind} {s t : Bytes} :
    ShortContent ParseFloat { kind := k, float := .parsed s } { kind := k, float := .parsed t } ↔
      ParseFloat t = ParseFloat s := by
  constructor
  · intro h
    exact h.float
  · intro h
    exact ⟨rfl, rfl, h, List.prefix_refl _, List.prefix_refl _, .inr rfl, rfl⟩

theorem shortContent_text {k : JNIKind} {s t : Bytes} (h : t <+: s) :
    ShortContent ParseFloat { kind := k, str := s } { kind := k, str := t } :=
  ⟨rfl, rfl, SameNumber.refl _ _, h, List.prefix_refl _, .inl rfl, rfl⟩

theorem normalizeDots_isPrefix {s t : Bytes} (h : t <+: s) : normalizeDots t <+: normalizeDots s :=
  h.map _

/-- A text of an integer and its beginnings. -/
theorem shortContent_intText (hk : kind.IsIntegral) {n : Int} (hlo : -2 ^ 63 ≤ n)
    (hhi : n < 2 ^ 63) (hpre : kept <+: intText n) :
    ShortContent ParseFloat (buildJNIValue kind (intText n)) (buildJNIValue kind kept) ↔
      kept = intText n ∨ intText n = ascii "0" := by
  have hbuild : ∀ s, buildJNIValue kind s = { kind, int := (ParseInt s).1 } := by
    intro s
    cases kind <;>
      first | exact absurd hk (by decide) | simp only [buildJNIValue, buildJNIValueFuel]
  rw [hbuild, hbuild, shortContent_int, ParseInt_intText hlo hhi]
  by_cases hn : n = 0
  · subst hn
    have hzero : intText 0 = ascii "0" := by decide
    rw [hzero] at hpre ⊢
    refine ⟨fun _ => .inr rfl, fun _ => ?_⟩
    -- of the one digit either nothing is left, or all
    rcases List.prefix_cons_iff.mp hpre with rfl | ⟨t, rfl, ht⟩
    · rfl
    · rw [List.prefix_nil.mp ht]
      decide
  · have hne : intText n ≠ ascii "0" := by
      intro h
      have hparse := ParseInt_intText hlo hhi
      rw [h] at hparse
      exact hn (congrArg Prod.fst hparse).symm
    rw [ParseInt_isPrefix hlo hhi hpre hn, or_iff_left hne]

/-- What is kept of the text of an object is again one. -/
theorem exists_objectText_of_isPrefix {name : Bytes} {text : Option Bytes}
    (hpre : kept <+: objectText name text) (hlast : kept.getLast? ≠ some wireEscByte) :
    ∃ name' text', kept = objectText name' text' ∧ name' <+: name ∧
      text'.getD [] <+: text.getD [] ∧ (text'.getD [] = [] ∨ name' = name) := by
  rcases List.prefix_or_prefix_of_prefix hpre (List.prefix_append _ _) with hname | ⟨u, rfl⟩
  · -- the cut falls into the class name
    obtain ⟨name', hname', rfl⟩ :=
      EscapeCode.exists_escape_of_isPrefix (c := wireCode) hname hlast
    exact ⟨name', none, by simp [objectText, extraText], hname', List.nil_prefix, .inl rfl⟩
  · have hu : u <+: extraText text := (List.prefix_append_right_inj _).mp hpre
    cases u with
    | nil =>
      exact ⟨name, none, by simp [objectText, extraText], List.prefix_refl _, List.nil_prefix,
        .inl rfl⟩
    | cons c u =>
      cases text with
      | none => exact absurd (List.prefix_nil.mp hu) (List.cons_ne_nil c u)
      | some t =>
        obtain ⟨rfl, hu'⟩ := List.cons_prefix_cons.mp hu
        have hend : u <:+ wireCode.escape name ++ 0x03 :: u :=
          ⟨wireCode.escape name ++ [0x03], by simp⟩
        have hlast' : u.getLast? ≠ some wireEscByte := fun h => hlast (hend.getLast?_eq h)
        obtain ⟨t', ht', rfl⟩ :=
          EscapeCode.exists_escape_of_isPrefix (c := wireCode) hu' hlast'
        exact ⟨name, some t', rfl, List.prefix_refl _, ht', .inr rfl⟩

/-- A text under `L`, decoded as an object, is a null when it is `null`. -/
theorem shortContent_objectText {name : Bytes} {text : Option Bytes}
    (hpre : kept <+: objectText name text) (hlast : kept.getLast? ≠ some wireEscByte) :
    ShortContent ParseFloat (buildJNIValue .KindObject (objectText name text))
        (buildJNIValue .KindObject kept) ↔
      kept = objectText name text ∨
        kept ≠ ascii "null" ∧ objectText name text ≠ ascii "null" := by
  by_cases hall : kept = objectText name text
  · rw [hall]
    exact ⟨fun _ => .inl rfl, fun _ => ShortContent.refl _ _⟩
  -- what is kept is again the text of an object, so only `null` can differ
  rw [or_iff_right hall]
  obtain ⟨name', text', rfl, hname, htext, horder⟩ := exists_objectText_of_isPrefix hpre hlast
  have hnull : (buildJNIValue .KindObject (ascii "null")).kind = .KindNull := rfl
  have hobject {n : Bytes} {t : Option Bytes} (h : objectText n t ≠ ascii "null") :
      buildJNIValue .KindObject (objectText n t) =
        { kind := .KindObject, str := normalizeDots n, extra := t.getD [] } :=
    buildJNIValue_object (mt objectText_eq_null.mpr h)
  by_cases hkept : objectText name' text' = ascii "null"
  · -- the rest of the text would be lost in a null
    have hwhole : objectText name text ≠ ascii "null" := fun h => hall (hkept.trans h.symm)
    refine iff_of_false (fun h => ?_) fun h => h.1 hkept
    have hkind := h.kind
    rw [hkept, hnull, hobject hwhole] at hkind
    cases hkind
  · by_cases hwhole : objectText name text = ascii "null"
    · refine iff_of_false (fun h => ?_) fun h => h.2 hwhole
      have hkind := h.kind
      rw [hwhole, hnull, hobject hkept] at hkind
      cases hkind
    · refine iff_of_true ?_ ⟨hkept, hwhole⟩
      rw [hobject hkept, hobject hwhole]
      exact ⟨rfl, rfl, rfl, normalizeDots_isPrefix hname, htext,
        horder.imp_right (congrArg normalizeDots), rfl⟩

/-- **Exactness for a value that is not an array.** -/
theorem shortContent_iff (h : ContentText kind whole) (hpre : kept <+: whole)
    (hlast : kept.getLast? ≠ some wireEscByte) :
    ShortContent ParseFloat (buildJNIValue kind whole) (buildJNIValue kind kept) ↔
      KeptContent ParseFloat kind whole kept := by
  cases h with
  | int hk n hlo hhi =>
    rw [shortContent_intText hk hlo hhi hpre]
    cases kind <;> first | exact absurd hk (by decide) | rfl
  | float hk hs =>
    rcases hk with rfl | rfl
    · simp only [buildJNIValue, buildJNIValueFuel]
      exact shortContent_float
    · simp only [buildJNIValue, buildJNIValueFuel]
      exact shortContent_float
  | string s =>
    obtain ⟨s', hs', rfl⟩ := EscapeCode.exists_escape_of_isPrefix (c := wireCode) hpre hlast
    rw [buildJNIValue_string, buildJNIValue_string]
    exact iff_of_true (shortContent_text hs') trivial
  | clazz s =>
    obtain ⟨s', hs', rfl⟩ := EscapeCode.exists_escape_of_isPrefix (c := wireCode) hpre hlast
    rw [buildJNIValue_class, buildJNIValue_class]
    exact iff_of_true (shortContent_text (normalizeDots_isPrefix hs')) trivial
  | object name text => exact shortContent_objectText hpre hlast

end Content

/-! ## Section 4: Arrays -/

section Arrays

variable {F : Type} {ParseFloat : Bytes → F} {elem : UInt8} {whole kept : Bytes}

/-- The value of an array with the given text and pieces. -/
def arrayValue (elem : UInt8) (raw : Bytes) (pieces : List Bytes) : JNIValue :=
  let marker := overflowMarker (pieces.getLastD [])
  { kind := .KindArray
    int := marker.getD 0
    str := raw
    items := (if marker.isSome then pieces.dropLast else pieces).map
      (buildJNIValue (JNIKindFromSigChar elem)) }

theorem buildJNIValue_pieces (helem : JNIKindFromSigChar elem ≠ .KindArray) {t : Bytes}
    (ht : t ≠ []) :
    buildJNIValue .KindArray (elem :: 0x04 :: t) =
      arrayValue elem (elem :: 0x04 :: t) (t.splitOn 0x04) := by
  rw [buildJNIValue_split helem ht]
  split
  · rename_i n hn
    rw [arrayValue, hn]
    rfl
  · rename_i hn
    rw [arrayValue, hn]
    rfl

/-- An array text of two bytes at most has no items. -/
theorem buildJNIValue_short (h : kept.length ≤ 2) :
    buildJNIValue .KindArray kept = { kind := .KindArray, str := kept } := by
  match kept, h with
  | [], _ => rfl
  | [_], _ => rfl
  | [_, _], _ => rfl

theorem getLastD_concat (init : List Bytes) (q : Bytes) : (init ++ [q]).getLastD [] = q := by
  rw [List.getLastD_eq_getLast?, List.getLast?_concat]
  rfl

/-- What is kept up to a piece that reads as a count. -/
theorem arrayValue_of_some {raw : Bytes} {init : List Bytes} {q : Bytes} {n : Int}
    (hq : overflowMarker q = some n) :
    arrayValue elem raw (init ++ [q]) =
      { kind := .KindArray, int := n, str := raw,
        items := init.map (buildJNIValue (JNIKindFromSigChar elem)) } := by
  rw [arrayValue, getLastD_concat, hq]
  simp

/-- What is kept up to a piece that reads as an item. -/
theorem arrayValue_of_none {raw : Bytes} {init : List Bytes} {q : Bytes}
    (hq : overflowMarker q = none) :
    arrayValue elem raw (init ++ [q]) =
      { kind := .KindArray, str := raw,
        items := init.map (buildJNIValue (JNIKindFromSigChar elem)) ++
          [buildJNIValue (JNIKindFromSigChar elem) q] } := by
  rw [arrayValue, getLastD_concat, hq]
  simp

/-- The items in front of a piece are items of the whole array. -/
theorem prefix_items_arrayValue (raw : Bytes) (init : List Bytes) (p : Bytes) (rest : List Bytes) :
    init.map (buildJNIValue (JNIKindFromSigChar elem)) <+:
      (arrayValue elem raw (init ++ p :: rest)).items := by
  apply List.IsPrefix.map
  split
  · rw [List.dropLast_append_of_ne_nil (List.cons_ne_nil p rest)]
    exact List.prefix_append _ _
  · exact List.prefix_append _ _

/-- A piece is an item of the whole array unless it is its count. -/
theorem exists_items_arrayValue {raw : Bytes} {init rest : List Bytes} {p : Bytes}
    (h : ¬ (rest = [] ∧ (overflowMarker p).isSome)) :
    ∃ rest', (arrayValue elem raw (init ++ p :: rest)).items =
      init.map (buildJNIValue (JNIKindFromSigChar elem)) ++
        buildJNIValue (JNIKindFromSigChar elem) p :: rest' := by
  rcases List.eq_nil_or_concat rest with rfl | ⟨rest, r, rfl⟩
  · have hp : overflowMarker p = none := by
      simpa using h
    rw [arrayValue_of_none hp]
    exact ⟨[], rfl⟩
  · rw [List.concat_eq_append, ← List.cons_append, ← List.append_assoc]
    cases hr : overflowMarker r with
    | some n =>
      rw [arrayValue_of_some hr]
      exact ⟨rest.map (buildJNIValue (JNIKindFromSigChar elem)), by simp⟩
    | none =>
      rw [arrayValue_of_none hr]
      exact ⟨rest.map (buildJNIValue (JNIKindFromSigChar elem)) ++
        [buildJNIValue (JNIKindFromSigChar elem) r], by simp⟩

/-- The pieces of a text and of its beginning, as items of an array. -/
theorem shortened_arrayValue_iff {init rest : List Bytes} {p q : Bytes} (hpre : kept <+: whole)
    (hitem : ¬ (rest = [] ∧ (overflowMarker p).isSome) →
      (ShortContent ParseFloat (buildJNIValue (JNIKindFromSigChar elem) p)
          (buildJNIValue (JNIKindFromSigChar elem) q) ↔
        KeptContent ParseFloat (JNIKindFromSigChar elem) p q)) :
    Shortened ParseFloat (arrayValue elem whole (init ++ p :: rest))
        (arrayValue elem kept (init ++ [q])) ↔
      match overflowMarker q with
      | some n => n = 0 ∨ overflowMarker ((init ++ p :: rest).getLastD []) = some n
      | none =>
        ¬ (rest = [] ∧ (overflowMarker p).isSome) ∧
          KeptContent ParseFloat (JNIKindFromSigChar elem) p q := by
  cases hq : overflowMarker q with
  | some n =>
    rw [arrayValue_of_some hq]
    -- the last piece kept reads as a count
    have hint : (arrayValue elem whole (init ++ p :: rest)).int =
        (overflowMarker ((init ++ p :: rest).getLastD [])).getD 0 := rfl
    constructor
    · -- the count shown is the array's, or 0
      have hcount : n = (arrayValue elem whole (init ++ p :: rest)).int ∨ n = 0 →
          n = 0 ∨ overflowMarker ((init ++ p :: rest).getLastD []) = some n := by
        rintro (h | h)
        · rw [hint] at h
          cases hlast : overflowMarker ((init ++ p :: rest).getLastD []) with
          | none =>
            rw [hlast] at h
            exact .inl h
          | some m =>
            rw [hlast] at h
            exact .inr (congrArg some h.symm)
        · exact .inl h
      rintro (h | h)
      · exact hcount (.inl h.int)
      · exact hcount h.int
    · intro h
      refine .inr ⟨rfl, rfl, ?_, rfl, hpre, rfl, .of_isPrefix (prefix_items_arrayValue _ _ _ _)⟩
      rcases h with h | h
      · exact .inr h
      · left
        rw [hint, h]
        rfl
  | none =>
    rw [arrayValue_of_none hq]
    by_cases hover : rest = [] ∧ (overflowMarker p).isSome
    · -- the count of the whole array shows as one more item
      refine iff_of_false ?_ fun h => h.1 hover
      obtain ⟨rfl, hp⟩ := hover
      obtain ⟨n, hn⟩ := Option.isSome_iff_exists.mp hp
      rw [arrayValue_of_some hn]
      rintro (h | h)
      · have hlen := congrArg List.length h.items
        simp at hlen
      · have hlen := h.items.length_le
        simp at hlen
    -- the last piece kept is an item in the place of `p`
    · have hex : ∃ rest', (arrayValue elem whole (init ++ p :: rest)).items =
          init.map (buildJNIValue (JNIKindFromSigChar elem)) ++
            buildJNIValue (JNIKindFromSigChar elem) p :: rest' := exists_items_arrayValue hover
      obtain ⟨rest', hitems⟩ := hex
      rw [← hitem hover, and_iff_right hover]
      constructor
      · rintro (h | h)
        · have heq : buildJNIValue (JNIKindFromSigChar elem) q =
              buildJNIValue (JNIKindFromSigChar elem) p := by
            have hsame := h.items
            rw [hitems] at hsame
            exact (List.cons.inj (List.append_cancel_left hsame)).1
          rw [heq]
          exact ShortContent.refl _ _
        · have hcut := h.items
          rw [hitems] at hcut
          exact (CutShort.append_iff (ShortContent.refl _ _)).mp hcut
      · intro h
        refine .inr ⟨rfl, rfl, .inr rfl, rfl, hpre, rfl, ?_⟩
        rw [hitems]
        exact (CutShort.append_iff (ShortContent.refl _ _)).mpr h

/-- What `KeptArray` asks of the pieces of two texts. -/
theorem keptArray_iff {t t' : Bytes} (hne : t' ≠ []) {init rest : List Bytes} {p q : Bytes}
    (hkept : t'.splitOn 0x04 = init ++ [q]) (hwhole : t.splitOn 0x04 = init ++ p :: rest) :
    KeptArray ParseFloat (elem :: 0x04 :: t) (elem :: 0x04 :: t') ↔
      match overflowMarker q with
      | some n => n = 0 ∨ overflowMarker ((init ++ p :: rest).getLastD []) = some n
      | none =>
        ¬ (rest = [] ∧ (overflowMarker p).isSome) ∧
          KeptContent ParseFloat (JNIKindFromSigChar elem) p q := by
  have hlong : ¬ (elem :: 0x04 :: t').length ≤ 2 := by
    have hpos := List.length_pos_of_ne_nil hne
    simp only [List.length_cons]
    omega
  have hpiece : (init ++ p :: rest).getD ((init ++ [q]).length - 1) [] = p := by
    simp [List.getD]
  have hcount : ((init ++ [q]).length = (init ++ p :: rest).length ∧
      (overflowMarker ((init ++ p :: rest).getLastD [])).isSome) ↔
        (rest = [] ∧ (overflowMarker p).isSome) := by
    cases rest with
    | nil => rw [getLastD_concat]; simp
    | cons r rest => simp
  rw [KeptArray, or_iff_right hlong]
  simp only [List.drop_succ_cons, List.drop_zero, List.headD_cons, hkept, hwhole, getLastD_concat,
    hpiece]
  cases overflowMarker q with
  | some n => exact Iff.rfl
  | none => exact and_congr_left' (not_congr hcount)

theorem exists_arrayValue (raw : Bytes) :
    ∃ int items, buildJNIValue .KindArray raw = { kind := .KindArray, int, str := raw, items } := by
  unfold buildJNIValue buildJNIValueFuel
  simp only
  split
  · split
    · split
      · exact ⟨_, _, rfl⟩
      · exact ⟨0, _, rfl⟩
    · exact ⟨0, [], rfl⟩
  · exact ⟨0, [], rfl⟩

/-- Nothing of the items is kept. -/
theorem shortened_short (h : kept.length ≤ 2) (hpre : kept <+: whole) :
    Shortened ParseFloat (buildJNIValue .KindArray whole) (buildJNIValue .KindArray kept) := by
  obtain ⟨int, items, hwhole⟩ := exists_arrayValue whole
  rw [buildJNIValue_short h, hwhole]
  exact .inr ⟨rfl, rfl, .inr rfl, rfl, hpre, rfl, .of_isPrefix List.nil_prefix⟩

/-- The parts of an array are free of the byte between them. -/
theorem notMem_contentText {b : UInt8} (hb : wireByteNeedsEscape b = true) (hne : b ≠ wireEscByte)
    (hsep : b ≠ 0x03) (hlow : b < 0x2b) {kind : JNIKind} {s : Bytes} (h : ContentText kind s) :
    b ∉ s := by
  cases h with
  | int hk n hlo hhi =>
    have hdash : b ≠ 0x2d := by
      rintro rfl
      exact absurd hlow (by decide)
    exact notMem_intText (UInt8.lt_trans hlow (by decide)) hdash n
  | float hk hs => exact fun hmem => absurd (hs b hmem) (UInt8.not_le.mpr hlow)
  | string s => exact notMem_wireCode hb hne s
  | clazz s => exact notMem_wireCode hb hne s
  | object name text =>
    intro hmem
    rcases List.mem_append.mp hmem with h | h
    · exact notMem_wireCode hb hne name h
    · cases text with
      | none => exact absurd h List.not_mem_nil
      | some t =>
        rcases List.mem_cons.mp h with h | h
        · exact hsep h
        · exact notMem_wireCode hb hne t h

theorem isSome_overflowParts {total : Nat} (htotal : total < 2 ^ 31) {p : Bytes}
    (hp : p ∈ overflowParts total) : (overflowMarker p).isSome := by
  unfold overflowParts at hp
  split at hp
  · rw [List.mem_singleton.mp hp, overflowMarker_plus (by omega) (by omega)]
    rfl
  · exact absurd hp List.not_mem_nil

/-- The count is the only piece of its list. -/
theorem overflowParts_cases {init rest : List Bytes} {p : Bytes} {total : Nat}
    (htotal : total < 2 ^ 31) (h : overflowParts total = init ++ p :: rest) :
    rest = [] ∧ (overflowMarker p).isSome := by
  have hmem : p ∈ overflowParts total := by
    rw [h]
    simp
  have hlen : (overflowParts total).length ≤ 1 := by
    unfold overflowParts
    split
    · exact Nat.le_refl 1
    · exact Nat.zero_le 1
  rw [h, List.length_append, List.length_cons] at hlen
  exact ⟨List.length_eq_zero_iff.mp (by omega), isSome_overflowParts htotal hmem⟩

/-- A piece of an array's text is an item, or the count at the end. -/
theorem piece_cases {items init rest : List Bytes} {p : Bytes} {total : Nat}
    (htotal : total < 2 ^ 31) (h : items ++ overflowParts total = init ++ p :: rest) :
    p ∈ items ∨ rest = [] ∧ (overflowMarker p).isSome := by
  rcases List.append_eq_append_iff.mp h with ⟨u, hu, hover⟩ | ⟨u, hu, hover⟩
  · -- the piece stands behind the items
    exact .inr (overflowParts_cases htotal hover)
  · cases u with
    | nil =>
      have hfirst : overflowParts total = [] ++ p :: rest := hover.symm
      exact .inr (overflowParts_cases htotal hfirst)
    | cons x u =>
      left
      rw [hu, (List.cons.inj hover).1]
      simp

theorem exists_of_long {s : Bytes} (h : ¬ s.length ≤ 2) : ∃ a b c t, s = a :: b :: c :: t := by
  match s, h with
  | [], h => exact absurd (Nat.zero_le 2) h
  | [_], h => exact absurd (Nat.le_succ 1) h
  | [_, _], h => exact absurd (Nat.le_refl 2) h
  | a :: b :: c :: t, _ => exact ⟨a, b, c, t, rfl⟩

/-- **Exactness for an array.** -/
theorem shortened_array_iff (helem : JNIKindFromSigChar elem ≠ .KindArray) {items : List Bytes}
    (hitems : ∀ p ∈ items, ContentText (JNIKindFromSigChar elem) p) {total : Nat}
    (htotal : total < 2 ^ 31) (hpre : kept <+: arrayText elem (items ++ overflowParts total))
    (hlast : kept.getLast? ≠ some wireEscByte) :
    Shortened ParseFloat
        (buildJNIValue .KindArray (arrayText elem (items ++ overflowParts total)))
        (buildJNIValue .KindArray kept) ↔
      KeptArray ParseFloat (arrayText elem (items ++ overflowParts total)) kept := by
  by_cases hshort : kept.length ≤ 2
  · exact iff_of_true (shortened_short hshort hpre) (.inl hshort)
  generalize hparts : items ++ overflowParts total = parts at hpre ⊢
  have hfree : ∀ p ∈ parts, (0x04 : UInt8) ∉ p := by
    intro p hp
    rw [← hparts] at hp
    rcases List.mem_append.mp hp with hp | hp
    · exact notMem_contentText (by decide) (by decide) (by decide) (by decide) (hitems p hp)
    · exact notMem_overflowParts (by decide) (by decide) (by decide) p hp
  cases parts with
  | nil =>
    have hle := hpre.length_le
    simp only [arrayText, List.flatMap_nil, List.length_singleton] at hle
    omega
  | cons p ps =>
    have htext : arrayText elem (p :: ps) = elem :: 0x04 :: joined 0x04 p ps := by
      simp [arrayText, joined]
    have hsplit : (joined 0x04 p ps).splitOn 0x04 = p :: ps :=
      splitOn_joined (hfree p (by simp)) fun x hx => hfree x (by simp [hx])
    rw [htext] at hpre ⊢
    generalize joined 0x04 p ps = t at hpre hsplit ⊢
    obtain ⟨a, b, c, t', rfl⟩ := exists_of_long hshort
    obtain ⟨rfl, hsep⟩ := List.cons_prefix_cons.mp hpre
    obtain ⟨rfl, ht'⟩ := List.cons_prefix_cons.mp hsep
    have ht : t ≠ [] := by
      rintro rfl
      exact absurd (List.prefix_nil.mp ht') (List.cons_ne_nil c t')
    obtain ⟨init, q, r, rest, hkept, hwhole, hq⟩ := exists_splitOn_isPrefix (b := 0x04) ht'
    rw [buildJNIValue_pieces helem ht, buildJNIValue_pieces helem (List.cons_ne_nil c t'),
      keptArray_iff (List.cons_ne_nil c t') hkept hwhole, hkept, hwhole]
    apply shortened_arrayValue_iff hpre
    intro hitem
    have hr : r ∈ items :=
      (piece_cases htotal (hparts.trans (hsplit.symm.trans hwhole))).resolve_right hitem
    apply shortContent_iff (hitems r hr) hq
    -- the piece ends where the text does
    intro hend
    exact hlast (((suffix_of_splitOn hkept).trans ⟨[a, 0x04], rfl⟩).getLast?_eq hend)

end Arrays

/-! ## Section 5: Records -/

section Records

variable {F : Type} {ParseFloat : Bytes → F} {sig : UInt8} {raw kept : Bytes}

/-- A record an encoder writes for an argument. -/
def RecordText (r : Bytes) : Prop :=
  ∃ sig raw, r = sig :: 0x01 :: raw ∧ sig ≠ 0x01 ∧ sig ≠ 0x02 ∧ ValueText sig raw

theorem ContentText.kind_ne {kind : JNIKind} {s : Bytes} (h : ContentText kind s) :
    kind ≠ .KindArray := by
  cases h with
  | int hk => exact fun h => absurd (h ▸ hk) (by decide)
  | float hk => rcases hk with rfl | rfl <;> decide
  | string => decide
  | clazz => decide
  | object => decide

theorem kind_buildJNIValue_ne {kind : JNIKind} (h : kind ≠ .KindArray) (raw : Bytes) :
    (buildJNIValue kind raw).kind ≠ .KindArray := by
  cases kind with
  | KindArray => exact absurd rfl h
  | KindObject =>
    simp only [buildJNIValue, buildJNIValueFuel]
    split
    · decide
    · split <;> exact h
  | _ => simp only [buildJNIValue, buildJNIValueFuel]; decide

/-- **Exactness for a value.** -/
theorem shortened_iff (h : ValueText sig raw) (hpre : kept <+: raw)
    (hlast : kept.getLast? ≠ some wireEscByte) :
    Shortened ParseFloat (buildJNIValue (JNIKindFromSigChar sig) raw)
        (buildJNIValue (JNIKindFromSigChar sig) kept) ↔
      if JNIKindFromSigChar sig = .KindArray then KeptArray ParseFloat raw kept
      else KeptContent ParseFloat (JNIKindFromSigChar sig) raw kept := by
  have harray : JNIKindFromSigChar 0x5b = .KindArray := by decide
  cases h with
  | content h =>
    rw [if_neg h.kind_ne, ← shortContent_iff h hpre hlast]
    refine or_iff_left fun hshort => ?_
    exact kind_buildJNIValue_ne h.kind_ne raw hshort.array
  | nullArray =>
    obtain rfl := List.prefix_nil.mp hpre
    rw [harray, if_pos rfl]
    exact iff_of_true (shortened_short (by decide) hpre) (.inl (by decide))
  | array helem hend hitems htotal =>
    rw [harray, if_pos rfl]
    exact shortened_array_iff helem hitems htotal hpre hlast

/-- No text of a value holds the byte that ends records. -/
theorem ValueText.notMem (h : ValueText sig raw) : (0x02 : UInt8) ∉ raw := by
  cases h with
  | content h => exact notMem_contentText (by decide) (by decide) (by decide) (by decide) h
  | nullArray => exact List.not_mem_nil
  | array helem hend hitems htotal =>
    apply notMem_arrayText (Ne.symm hend) (by decide)
    intro p hp
    rcases List.mem_append.mp hp with hp | hp
    · exact notMem_contentText (by decide) (by decide) (by decide) (by decide) (hitems p hp)
    · exact notMem_overflowParts (by decide) (by decide) (by decide) p hp

theorem RecordText.notMem {r : Bytes} (h : RecordText r) : (0x02 : UInt8) ∉ r := by
  obtain ⟨sig, raw, rfl, -, hsig, hraw⟩ := h
  simp [Ne.symm hsig, hraw.notMem]

/-- A text that is cut does not end in half an escape. -/
theorem getLast?_clip {s : Bytes} {cap : Nat} (h : ¬ s.length ≤ cap) :
    (clip cap s).getLast? ≠ some wireEscByte := by
  have hdrop : ∀ n ≤ s.length, (s.take (dropHalves s n)).getLast? ≠ some wireEscByte := by
    intro n hn
    induction n with
    | zero => simp [dropHalves]
    | succ n ih =>
      rw [dropHalves]
      split
      · exact ih (Nat.le_of_succ_le hn)
      · rename_i hb
        have hget : s[n]? = some (s.getD n 0) := by
          rw [List.getD_eq_getElem?_getD, List.getElem?_eq_getElem hn]
          rfl
        rw [List.getLast?_take, if_neg (Nat.succ_ne_zero n), Nat.add_sub_cancel, hget]
        intro hesc
        exact hb (.inr (Option.some.inj hesc))
  rw [clip, if_neg h]
  apply hdrop
  have hle := backToBoundary_le s cap
  omega

/-- A record of less than two bytes decodes to nothing. -/
theorem decodeRecord_short {q : Bytes} (h : q.length < 2) : decodeRecord q = none := by
  match q, h with
  | [], _ => rfl
  | [c], _ =>
    by_cases hc : c = 0x01
    · rw [hc]
      rfl
    · rw [decodeRecord, cut_cons_of_ne hc]
      rfl

theorem faithful_iff_of_records {rs : List Bytes} (h : ∀ r ∈ rs, RecordText r) (cap : Nat) :
    Faithful ParseFloat (terminated 0x02 rs) cap ↔ CutOk ParseFloat (terminated 0x02 rs) cap := by
  have hsplit : (terminated 0x02 rs).splitOn 0x02 = rs ++ [[]] :=
    splitOn_terminated fun r hr => (h r hr).notMem
  generalize terminated 0x02 rs = whole at hsplit ⊢
  by_cases hlen : whole.length ≤ cap
  · -- nothing is cut
    have hclip : clip cap whole = whole := if_pos hlen
    refine iff_of_true ?_ (.inl ?_)
    · rw [Faithful, hclip]
      exact CutShort.refl _
    · rw [hclip, hsplit, getLastD_concat]
      exact Nat.zero_lt_succ 1
  have hlast := getLast?_clip hlen
  obtain ⟨init, q, p, rest, hkept, hwhole, hq⟩ :=
    exists_splitOn_isPrefix (b := 0x02) (clip_isPrefix cap whole)
  have hrecord : (init ++ p :: rest).getD ((init ++ [q]).length - 1) [] = p := by
    simp [List.getD]
  rw [Faithful, CutOk, decodeArgs_eq, decodeArgs_eq, hkept, hwhole, getLastD_concat, hrecord]
  by_cases hshort : q.length < 2
  · refine iff_of_true (.of_isPrefix ?_) (.inl hshort)
    rw [List.filterMap_append, List.filterMap_append, List.filterMap_cons_none
      (decodeRecord_short hshort)]
    simp
  rw [or_iff_right hshort]
  -- the cut falls into the value of a record
  have hp : RecordText p := by
    have hmem : p ∈ rs ++ [[]] := by
      rw [← hsplit, hwhole]
      simp
    rcases List.mem_append.mp hmem with hp | hp
    · exact h p hp
    · have hnil : p = [] := List.mem_singleton.mp hp
      have hle := hq.length_le
      rw [hnil] at hle
      exact absurd (Nat.lt_of_le_of_lt hle (Nat.zero_lt_succ 1)) hshort
  obtain ⟨sig, raw, rfl, hsig, -, hraw⟩ := hp
  match q, hshort with
  | [], hshort => exact absurd (Nat.zero_lt_succ 1) hshort
  | [_], hshort => exact absurd (Nat.lt_succ_self 1) hshort
  | c :: d :: kept, _ =>
    obtain ⟨rfl, hrest⟩ := List.cons_prefix_cons.mp hq
    obtain ⟨rfl, hpre⟩ := List.cons_prefix_cons.mp hrest
    have hend : kept <:+ clip cap whole :=
      List.IsSuffix.trans ⟨[c, 0x01], rfl⟩ (suffix_of_splitOn hkept)
    simp only [List.filterMap_append, List.filterMap_cons, decodeRecord_cons hsig,
      List.filterMap_nil]
    rw [CutShort.append_iff (.inl (ShortContent.refl _ _)),
      shortened_iff hraw hpre fun h => hlast (hend.getLast?_eq h)]
    rfl

end Records

/-! ## Section 6: The encoder -/

section Encoder

variable {deref : UInt64 → Option JRef}

/-- The characters a type may have behind its dimensions. -/
def elemChars : Bytes := ascii "BCDFIJLSZ"

theorem elemChars_spec {e : UInt8} (h : e ∈ elemChars) :
    JNIKindFromSigChar e ≠ .KindArray ∧ e ≠ 0x02 ∧ e ≠ 0x5b := by
  have hall : elemChars.all fun e =>
      JNIKindFromSigChar e != .KindArray && (e != 0x02 && e != 0x5b) := by decide
  simpa using List.all_eq_true.mp hall e h

theorem contentText_d {kind : JNIKind} (hk : kind.IsIntegral) (x : Int32) :
    ContentText kind (fmtWord "%d" (intWord x)) := by
  have hlo := Int32.le_toInt x
  have hhi := Int32.toInt_lt x
  rw [fmtWord_d]
  exact .int hk _ (by omega) (by omega)

theorem contentText_u {kind : JNIKind} (hk : kind.IsIntegral) (c : UInt16) :
    ContentText kind (fmtWord "%u" c.toUInt64) := by
  have hlt := c.toNat_lt
  rw [fmtWord_u]
  exact .int hk _ (by omega) (by omega)

theorem contentText_lld {kind : JNIKind} (hk : kind.IsIntegral) (w : UInt64) :
    ContentText kind (fmtWord "%lld" w) := by
  rw [fmtWord_lld]
  exact .int hk _ (Int64.le_toInt _) (Int64.toInt_lt _)

theorem contentText_elemText (e : Option JObj) : ContentText .KindObject (elemText e) := by
  match e with
  | none =>
    have hnull : elemText none = objectText (ascii "null") none := by decide
    rw [hnull]
    exact .object _ none
  | some (.string content) =>
    have hs : elemText (some (.string content)) = objectText content.val none :=
      (List.append_nil _).symm
    rw [hs]
    exact .object _ none
  | some (.clazz name text) => exact .object _ _
  | some (.object name text) => exact .object _ _

/-- The text of an array of primitives; there are items when the element
    character is that of the array. -/
theorem exists_items_prim {α : Type} {e c : UInt8} (text : α → Bytes)
    (htext : ∀ x, ContentText (JNIKindFromSigChar c) (text x)) (a : JArray α) :
    ∃ items, (∀ p ∈ items, ContentText (JNIKindFromSigChar e) p) ∧
      (let buf :=
        if e = c then
          appendItems text
            (if a.elems.length > VIS_MAX_ARRAY_ITEMS then VIS_MAX_ARRAY_ITEMS
              else a.elems.length) a.elems [e]
        else [e]
      if a.elems.length > VIS_MAX_ARRAY_ITEMS then
        buf ++ [0x04] ++
          fmtWord "+%d" (intWord (Int32.ofNat (a.elems.length - VIS_MAX_ARRAY_ITEMS)))
      else buf) = arrayText e (items ++ overflowParts a.elems.length) := by
  -- under another element character the encoder writes no items
  by_cases he : e = c
  · subst he
    refine ⟨(a.elems.take VIS_MAX_ARRAY_ITEMS).map text, ?_, ?_⟩
    · intro p hp
      obtain ⟨x, -, rfl⟩ := List.mem_map.mp hp
      exact htext x
    · rw [if_pos rfl]
      exact items_text e text a
  · refine ⟨[], fun p hp => absurd hp List.not_mem_nil, ?_⟩
    simp only [if_neg he, append_marker _ a.length_lt]
    rfl

theorem exists_items (e : UInt8) (arr : JArr) :
    ∃ items, (∀ p ∈ items, ContentText (JNIKindFromSigChar e) p) ∧
      vis_encode_array_items (some arr) e = arrayText e (items ++ overflowParts arr.length) := by
  cases arr with
  | Z a =>
    apply exists_items_prim _ _ a
    intro z
    split
    · exact contentText_d (by decide) 1
    · exact contentText_d (by decide) 0
  | B a => exact exists_items_prim _ (fun b => contentText_d (by decide) _) a
  | C a => exact exists_items_prim _ (fun c => contentText_u (by decide) _) a
  | S a => exact exists_items_prim _ (fun s => contentText_d (by decide) _) a
  | I a => exact exists_items_prim _ (fun i => contentText_d (by decide) _) a
  | J a => exact exists_items_prim _ (fun j => contentText_lld (by decide) _) a
  | F a => exact exists_items_prim _ (fun f => .float (by decide) (graphic_snprintf_9g _)) a
  | D a => exact exists_items_prim _ (fun d => .float (by decide) (graphic_snprintf_17g _)) a
  | L a =>
    by_cases he : e = 0x4c
    · subst he
      refine ⟨(a.elems.take VIS_MAX_ARRAY_ITEMS).map elemText, ?_, vis_encode_array_items_L a⟩
      intro p hp
      obtain ⟨x, -, rfl⟩ := List.mem_map.mp hp
      exact contentText_elemText x
    · refine ⟨[], fun p hp => absurd hp List.not_mem_nil, ?_⟩
      have hlen : (JArr.L a).length = a.elems.length := rfl
      simp only [vis_encode_array_items, if_neg he, append_marker _ (hlen ▸ a.length_lt)]
      rfl

theorem JArr.length_lt (arr : JArr) : arr.length < 2 ^ 31 := by
  cases arr <;> exact JArray.length_lt _

theorem valueText_items {e : UInt8} (he : e ∈ elemChars) (arr : Option JArr) :
    ValueText 0x5b (vis_encode_array_items arr e) := by
  cases arr with
  | none => exact .nullArray
  | some arr =>
    obtain ⟨items, hitems, htext⟩ := exists_items e arr
    have hspec := elemChars_spec he
    rw [htext]
    exact .array hspec.1 hspec.2.1 hitems (JArr.length_lt arr)

theorem RecordText.mk {sig : UInt8} {raw : Bytes} (hsig : sig ∈ ascii "BCDFIJLSZsc[")
    (h : ValueText sig raw) : RecordText (sig :: 0x01 :: raw) := by
  have hall : (ascii "BCDFIJLSZsc[").all fun c => c != 0x01 && c != 0x02 := by decide
  have hne : sig ≠ 0x01 ∧ sig ≠ 0x02 := by simpa using List.all_eq_true.mp hall sig hsig
  exact ⟨sig, raw, rfl, hne.1, hne.2, h⟩

/-- The text of a primitive argument. -/
def baseText (t : BaseType) (w : UInt64) : Bytes :=
  match t with
  | .boolean => fmtWord "%d" (intWord (w &&& 1).toUInt32.toInt32)
  | .byte => fmtWord "%d" (intWord w.toUInt8.toInt8.toInt32)
  | .char => fmtWord "%u" w.toUInt16.toUInt64
  | .short => fmtWord "%d" (intWord w.toUInt16.toInt16.toInt32)
  | .int => fmtWord "%d" (intWord w.toUInt32.toInt32)
  | .long => fmtWord "%lld" w
  | .float => fmtDouble "%.9g" (widen w.toUInt32)
  | .double => fmtDouble "%.17g" w

theorem appendArg_base (buf : Bytes) (t : BaseType) (e : UInt8) (w : UInt64) :
    appendArg deref buf t.letter e w = (buf ++ baseText t w, true) := by
  cases t <;> rfl

theorem contentText_base (t : BaseType) (w : UInt64) :
    ContentText (JNIKindFromSigChar t.letter) (baseText t w) := by
  cases t with
  | boolean => exact contentText_d (by decide) _
  | byte => exact contentText_d (by decide) _
  | char => exact contentText_u (by decide) _
  | short => exact contentText_d (by decide) _
  | int => exact contentText_d (by decide) _
  | long => exact contentText_lld (by decide) _
  | float => exact .float (by decide) (graphic_snprintf_9g _)
  | double => exact .float (by decide) (graphic_snprintf_17g _)

theorem record_base (buf : Bytes) (t : BaseType) (e : UInt8) (w : UInt64) :
    ∃ r, RecordText r ∧
      closeRecord (appendArg deref (buf ++ [t.letter, 0x01]) t.letter e w) =
        buf ++ (r ++ [0x02]) := by
  refine ⟨t.letter :: 0x01 :: baseText t w, ?_, ?_⟩
  · exact .mk (by cases t <;> decide) (.content (contentText_base t w))
  · rw [appendArg_base]
    simp [closeRecord]

/-- The record of a reference, whatever the word points to. -/
theorem record_ref (buf : Bytes) (w : UInt64) :
    ∃ r, RecordText r ∧
      closeRecord (appendArg deref (buf ++ [0x4c, 0x01]) 0x4c 0 w) = buf ++ (r ++ [0x02]) := by
  have hobject (name : Bytes) (text : Option Bytes) :
      RecordText (0x4c :: 0x01 :: objectText name text) :=
    .mk (by decide) (.content (.object name text))
  -- without an object the text of the value is empty
  have hempty : RecordText [0x4c, 0x01] := hobject [] none
  by_cases hw : w = 0
  · exact ⟨_, hempty, by simp [appendArg, closeRecord, hw]⟩
  rcases hd : deref w with _ | (o | a)
  · exact ⟨_, hempty, by simp [appendArg, closeRecord, hw, hd]⟩
  · cases o with
    | string content =>
      have hrec : RecordText (0x73 :: 0x01 :: wireCode.escape content.val) :=
        .mk (by decide) (.content (.string _))
      refine ⟨_, hrec, ?_⟩
      simp [appendArg, closeRecord, hw, hd, vis_is_string, vis_string_value_raw,
        patchSigChar_pair]
    | clazz name text =>
      have hrec : RecordText (0x63 :: 0x01 :: wireCode.escape name.val) :=
        .mk (by decide) (.content (.clazz _))
      refine ⟨_, hrec, ?_⟩
      simp [appendArg, closeRecord, hw, hd, vis_is_string, vis_is_class, vis_class_name,
        patchSigChar_pair]
    | object name text =>
      refine ⟨_, hobject name.val (text.map Subtype.val), ?_⟩
      cases text with
      | none =>
        simp [appendArg, closeRecord, hw, hd, vis_is_string, vis_is_class, vis_object_class_name,
          vis_object_tostring_safe, objectText, extraText]
      | some text =>
        simp [appendArg, closeRecord, hw, hd, vis_is_string, vis_is_class, vis_object_class_name,
          vis_object_tostring_safe, objectText, extraText]
  · exact ⟨_, hempty, by simp [appendArg, closeRecord, hw, hd]⟩

/-- The record of an array with the element character `e`. -/
theorem record_array (buf : Bytes) {e : UInt8} (he : e ∈ elemChars) (w : UInt64) :
    ∃ r, RecordText r ∧
      closeRecord (appendArg deref (buf ++ [0x5b, 0x01]) 0x5b e w) = buf ++ (r ++ [0x02]) := by
  by_cases hw : w = 0
  · have hnull : RecordText [0x5b, 0x01] := .mk (by decide) .nullArray
    exact ⟨_, hnull, by simp [appendArg, closeRecord, hw]⟩
  · -- arrays of arrays are encoded as objects, but the scan never stops at `[`
    have hel : (if e = 0x4c ∨ e = 0x5b then 0x4c else e) = e := by
      split
      · rename_i hcase
        exact (hcase.resolve_right (elemChars_spec he).2.2).symm
      · rfl
    have harr : ∃ arr, appendArg deref (buf ++ [0x5b, 0x01]) 0x5b e w =
        (buf ++ [0x5b, 0x01] ++ vis_encode_array_items arr e ++ [0x02], false) := by
      simp only [appendArg, if_neg hw, hel]
      exact ⟨_, rfl⟩
    obtain ⟨arr, harr⟩ := harr
    refine ⟨_, .mk (by decide) (valueText_items he arr), ?_⟩
    rw [harr]
    simp [closeRecord]

/-- The scan past the dimensions of a type stops at its element
    character, and the rest of the scan moves past the type. -/
theorem skipBrackets_text (t : FieldType) (rest : Bytes) :
    ∃ e q, skipBrackets (t.text ++ rest) = e :: q ∧ e ∈ elemChars ∧
      (if e = 0x4c then skipClass (e :: q) else q) = rest := by
  induction t with
  | base t =>
    refine ⟨t.letter, rest, ?_, by cases t <;> decide, ?_⟩
    · cases t <;> rfl
    · cases t <;> rfl
  | object cls =>
    have hname : (0x3b : UInt8) ∉ cls.text :=
      notMem_of_splitOn (by decide) fun u hu => (cls.unqualified u hu).2.2.1
    refine ⟨0x4c, cls.text ++ 0x3b :: rest, ?_, by decide, ?_⟩
    · simp [FieldType.text, skipBrackets]
    · exact skipClass_L ⟨cls.text, hname⟩ rest
  | array elem ih => exact ih

theorem skipType_text (t : FieldType) (rest : Bytes) : skipType (t.text ++ rest) = rest := by
  cases t with
  | base t => cases t <;> rfl
  | object cls =>
    obtain ⟨e, q, hskip, -, hrest⟩ := skipBrackets_text (.object cls) rest
    have hL : (0x4c : UInt8) ≠ 0x5b := by decide
    rw [FieldType.text, List.cons_append, skipBrackets, if_neg hL] at hskip
    obtain ⟨rfl, rfl⟩ := List.cons.inj hskip
    exact hrest
  | array elem =>
    obtain ⟨e, q, hskip, -, hrest⟩ := skipBrackets_text elem rest
    have hA : (0x5b : UInt8) ≠ 0x4c := by decide
    rw [FieldType.text, List.cons_append, skipType, if_neg hA, if_pos rfl, hskip]
    exact hrest

/-- **Step.** A round of the loop appends a record, and moves past the
    type it stands at. -/
theorem typedArgsLoop_text (buf : Bytes) (t : FieldType) (rest : Bytes) (w : UInt64)
    (ws : List UInt64) :
    ∃ r, RecordText r ∧
      typedArgsLoop deref buf (t.text ++ rest) (w :: ws) =
        typedArgsLoop deref (buf ++ (r ++ [0x02])) rest ws := by
  have hscan := skipType_text t rest
  cases t with
  | base t =>
    have hc : t.letter ≠ 0x29 ∧ t.letter ≠ 0x5b := by cases t <;> decide
    obtain ⟨r, hr, hrec⟩ := record_base buf t 0 w
    refine ⟨r, hr, ?_⟩
    rw [FieldType.text, List.cons_append] at hscan ⊢
    rw [typedArgsLoop_cons buf hc.1, hscan, if_neg hc.2, hrec]
  | object cls =>
    obtain ⟨r, hr, hrec⟩ := record_ref buf w
    refine ⟨r, hr, ?_⟩
    rw [FieldType.text, List.cons_append] at hscan ⊢
    rw [typedArgsLoop_cons buf (by decide), hscan, if_neg (by decide), hrec]
  | array elem =>
    obtain ⟨e, q, hskip, he, -⟩ := skipBrackets_text elem rest
    obtain ⟨r, hr, hrec⟩ := record_array buf he w
    refine ⟨r, hr, ?_⟩
    rw [FieldType.text, List.cons_append] at hscan ⊢
    rw [typedArgsLoop_cons buf (by decide), hscan, if_pos rfl, hskip, List.headD_cons, hrec]

/-- **Run.** Over the parameters of a descriptor the loop writes records. -/
theorem typedArgsLoop_params (buf : Bytes) (params : List FieldType) (ret : Bytes)
    (ws : List UInt64) :
    ∃ rs, (∀ r ∈ rs, RecordText r) ∧
      typedArgsLoop deref buf (params.flatMap FieldType.text ++ 0x29 :: ret) ws =
        buf ++ terminated 0x02 rs := by
  induction params generalizing buf ws with
  | nil =>
    refine ⟨[], fun r hr => absurd hr List.not_mem_nil, ?_⟩
    cases ws <;> simp [typedArgsLoop]
  | cons t params ih =>
    rw [List.flatMap_cons, List.append_assoc]
    -- no words are left: the loop stops
    cases ws with
    | nil =>
      refine ⟨[], fun r hr => absurd hr List.not_mem_nil, ?_⟩
      cases t <;> simp [FieldType.text, typedArgsLoop]
    | cons w ws =>
      obtain ⟨r, hr, heq⟩ := typedArgsLoop_text buf t
        (params.flatMap FieldType.text ++ 0x29 :: ret) w ws
      obtain ⟨rs, hrs, hrun⟩ := ih (buf ++ (r ++ [0x02])) ws
      refine ⟨r :: rs, List.forall_mem_cons.mpr ⟨hr, hrs⟩, ?_⟩
      rw [heq, hrun]
      simp

theorem exists_records (d : Option MethodDescriptor) (ws : List UInt64) :
    ∃ rs, (∀ r ∈ rs, RecordText r) ∧
      vis_encode_typed_args deref (d.map MethodDescriptor.text) ws = terminated 0x02 rs := by
  cases d with
  | none => exact ⟨[], fun r hr => absurd hr List.not_mem_nil, rfl⟩
  | some d => exact typedArgsLoop_params [] d.params d.resultText ws

end Encoder

/-! ## Section 7: Main theorem -/

/-- **Main result.** The arguments that reach the daemon are those of the
    whole encoding, cut short, just when the cut does no harm. -/
theorem decodeArgs_clip_iff {F : Type} (ParseFloat : Bytes → F)
    (deref : UInt64 → Option JRef) (d : Option MethodDescriptor) (ws : List UInt64) (cap : Nat) :
    Faithful ParseFloat (vis_encode_typed_args deref (d.map MethodDescriptor.text) ws) cap ↔
      CutOk ParseFloat (vis_encode_typed_args deref (d.map MethodDescriptor.text) ws) cap := by
  obtain ⟨rs, hrs, htext⟩ := exists_records d ws
  rw [htext]
  exact faithful_iff_of_records hrs cap

/-! ### A number cut in two -/

/-- A string that fills a datagram slot almost to its end. -/
def longString : CStr := ⟨List.replicate 505 0x61, by decide +kernel⟩

/-- `(Ljava/lang/String;I)V` -/
def stringIntDesc : MethodDescriptor where
  params := [.object ⟨ascii "java/lang/String", by decide +kernel⟩, .base .int]
  result := none

/-- The arguments `longString` and 12345. -/
def stringIntText : Bytes :=
  vis_encode_typed_args (fun _ => some (.obj (.string longString))) (some stringIntDesc.text)
    [0x7000, 12345]

/-- The 12345 passed is shown as 12. -/
theorem int_cut_in_two :
    decodeArgs stringIntText =
        [{ kind := .KindString, str := longString.val }, { kind := .KindInt, int := 12345 }] ∧
      decodeArgs (clip EV_STR_MAX_BYTES stringIntText) =
        [{ kind := .KindString, str := longString.val }, { kind := .KindInt, int := 12 }] ∧
      ¬ Faithful (fun s => s) stringIntText EV_STR_MAX_BYTES := by
  have hwhole : decodeArgs stringIntText =
      [{ kind := .KindString, str := longString.val }] ++ [{ kind := .KindInt, int := 12345 }] := by
    decide +kernel
  have hkept : decodeArgs (clip EV_STR_MAX_BYTES stringIntText) =
      [{ kind := .KindString, str := longString.val }] ++ [{ kind := .KindInt, int := 12 }] := by
    decide +kernel
  refine ⟨hwhole, hkept, ?_⟩
  rw [Faithful, hwhole, hkept, CutShort.append_iff (.inl (ShortContent.refl _ _))]
  rintro (h | h)
  · exact absurd h.int (by decide)
  · exact absurd h.array (by decide)

end JniLog.Truncation
