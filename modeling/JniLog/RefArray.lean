import JniLog.Visualize

/-! # Arrays of references

    `vis_encode_array_items` writes every element of a reference array
    under the one signature character `L`, with the in-band texts `null`
    and `+N`. `buildJNIValue` therefore cannot tell a string from an
    object named like it.

    Main result: the exact condition on the elements under which the
    decoded array shows what the encoded one held. -/

namespace JniLog.RefArray

open Bytes JlFmt Visualize

/-! ## Section 1: What an element shows -/

/-- What a log reader is to learn about an element. -/
inductive ElemView where
  | null
  | string (content : Bytes)
  | object (className toString : Bytes)
  deriving DecidableEq, Repr

/-- The view of an element of the array. Class names are dotted. -/
def elemView : Option JObj → ElemView
  | none => .null
  | some (.string content) => .string content
  | some o =>
    .object (normalizeDots (vis_object_class_name o)) ((vis_object_tostring_safe o).getD [])

/-- The view a decoded item gives. -/
def readItem (v : JNIValue) : Option ElemView :=
  match v.kind with
  | .KindNull => some .null
  | .KindString => some (.string v.str)
  | .KindObject => some (.object v.str v.extra)
  | _ => none

/-- The decoded array. -/
def decoded (a : JArray (Option JObj)) : JNIValue :=
  buildJNIValue .KindArray (vis_encode_array_items (some (.L a)) 0x4c)

/-- The decoded array shows the first elements, each as what it is, and
    counts the others. -/
def Shown (a : JArray (Option JObj)) : Prop :=
  (decoded a).items.map readItem =
      (a.elems.take VIS_MAX_ARRAY_ITEMS).map (fun e => some (elemView e)) ∧
    (decoded a).int = (a.elems.length - VIS_MAX_ARRAY_ITEMS : Nat)

instance (a : JArray (Option JObj)) : Decidable (Shown a) :=
  inferInstanceAs (Decidable (_ ∧ _))

/-! ## Section 2: Single elements -/

/-- An element whose item reads as what it is: not a string, and not an
    object that shows the bare class name `null`. -/
def Plain : Option JObj → Prop
  | none => True
  | some o =>
    vis_is_string o = false ∧
      ¬ (vis_object_class_name o = ascii "null" ∧ vis_object_tostring_safe o = none)

/-- An object that shows a bare class name of the form `+N`. -/
def LooksLikeMarker : Option JObj → Prop
  | none => False
  | some o =>
    vis_object_tostring_safe o = none ∧ (overflowMarker (vis_object_class_name o)).isSome

theorem elemText_of_not_string {o : JObj} (h : vis_is_string o = false) :
    elemText (some o) = objectText (vis_object_class_name o) (vis_object_tostring_safe o) := by
  cases o with
  | string _ => simp [vis_is_string] at h
  | clazz _ _ => rfl
  | object _ _ => rfl

theorem elemView_of_not_string {o : JObj} (h : vis_is_string o = false) :
    elemView (some o) =
      .object (normalizeDots (vis_object_class_name o)) ((vis_object_tostring_safe o).getD []) := by
  cases o with
  | string _ => simp [vis_is_string] at h
  | clazz _ _ => rfl
  | object _ _ => rfl

/-- The item of a text under `L` is a null or an object. -/
theorem buildJNIValue_object_kind (raw : Bytes) :
    (buildJNIValue .KindObject raw).kind = .KindNull ∨
      (buildJNIValue .KindObject raw).kind = .KindObject := by
  simp only [buildJNIValue, buildJNIValueFuel]
  split
  · exact .inl rfl
  · split <;> exact .inr rfl

/-- **Exactness for one element.** -/
theorem readItem_elemText (e : Option JObj) :
    readItem (buildJNIValue .KindObject (elemText e)) = some (elemView e) ↔ Plain e := by
  cases e with
  | none => simp [Plain]; decide
  | some o =>
    cases hstr : vis_is_string o with
    | true =>
      -- a string never reads as a string
      have hview : ∃ s, elemView (some o) = .string s := by
        cases o with
        | string s => exact ⟨s, rfl⟩
        | clazz _ _ => simp [vis_is_string] at hstr
        | object _ _ => simp [vis_is_string] at hstr
      obtain ⟨s, hs⟩ := hview
      simp only [Plain, hstr, hs]
      rcases buildJNIValue_object_kind (elemText (some o)) with hk | hk <;>
        simp [readItem, hk]
    | false =>
      rw [elemText_of_not_string hstr, elemView_of_not_string hstr]
      simp only [Plain, hstr, true_and]
      by_cases hnull : vis_object_class_name o = ascii "null" ∧ vis_object_tostring_safe o = none
      · have hitem : buildJNIValue .KindObject (objectText (vis_object_class_name o)
            (vis_object_tostring_safe o)) = NullValue := by
          rw [hnull.1, hnull.2]
          rfl
        rw [hitem]
        simp [readItem, NullValue, hnull]
      · rw [buildJNIValue_object hnull]
        simp [readItem, hnull]

/-! ## Section 3: Markers -/

/-- A marker holds no byte that is escaped. -/
theorem overflowMarker_free {s : Bytes} (h : (overflowMarker s).isSome) :
    ∀ c ∈ s, wireCode.reserved c = false := by
  have hfree : ∀ c : UInt8, 0x2b ≤ c → wireCode.reserved c = false := by
    intro c hc
    rw [← Bool.not_eq_true]
    intro hres
    simp only [wireCode, wireByteNeedsEscape, Bool.or_eq_true, beq_iff_eq] at hres
    rcases hres with ((((rfl | rfl) | rfl) | rfl) | rfl) | rfl <;> exact absurd hc (by decide)
  cases s with
  | nil => simp
  | cons x t =>
    rw [overflowMarker] at h
    split at h
    · rename_i hx
      cases hp : ParseInt t with
      | mk n err =>
        cases err with
        | some e => simp [hp] at h
        | none =>
          intro c hc
          rcases List.mem_cons.mp hc with rfl | hc
          · exact hfree c (by rw [hx]; decide)
          · exact hfree c (ParseInt_ok hp c hc)
    · simp at h

/-- Escaping neither makes nor breaks a marker. -/
theorem overflowMarker_escape (s : Bytes) :
    (overflowMarker (wireCode.escape s)).isSome ↔ (overflowMarker s).isSome := by
  constructor
  · intro h
    -- escaped text without reserved bytes is plain text
    have hfree := overflowMarker_free h
    have hlead : wireEscByte ∉ wireCode.escape s := by
      intro hmem
      have := hfree _ hmem
      simp [wireCode, wireByteNeedsEscape, wireEscByte] at this
    have hself : wireCode.escape s = s := by
      rw [← EscapeCode.unescape_eq_self (c := wireCode) hlead, EscapeCode.unescape_escape]
    rwa [hself] at h
  · intro h
    rwa [EscapeCode.escape_eq_self (overflowMarker_free h)]

/-- The separator of an object's parts keeps its text from being a marker. -/
theorem overflowMarker_objectText (name : Bytes) (text : Option Bytes) :
    (overflowMarker (objectText name text)).isSome ↔
      text = none ∧ (overflowMarker name).isSome := by
  cases text with
  | none => simp [objectText, extraText, overflowMarker_escape]
  | some t =>
    simp only [reduceCtorEq, false_and, iff_false]
    intro h
    have hmem : (0x03 : UInt8) ∈ objectText name (some t) := by simp [objectText, extraText]
    exact absurd (overflowMarker_free h _ hmem) (by decide)

/-! ## Section 4: Whole arrays -/

/-- The arrays that are shown as they are: no string among the first
    elements, no object shown as a bare `null`, not a single object shown
    as the empty text, and no object shown as a `+N` in the last place of
    an array that is not cut. -/
structure Readable (a : JArray (Option JObj)) : Prop where
  plain : ∀ e ∈ a.elems.take VIS_MAX_ARRAY_ITEMS, Plain e
  not_empty : ∀ o, a.elems = [some o] →
    ¬ (vis_object_class_name o = [] ∧ vis_object_tostring_safe o = none)
  not_marker : a.elems.length ≤ VIS_MAX_ARRAY_ITEMS →
    ∀ e, a.elems.getLast? = some e → ¬ LooksLikeMarker e

theorem map_readItem_iff (es : List (Option JObj)) :
    ((es.map elemText).map (buildJNIValue .KindObject)).map readItem =
        es.map (fun e => some (elemView e)) ↔ ∀ e ∈ es, Plain e := by
  rw [List.map_map, List.map_map, List.map_inj_left]
  exact forall₂_congr fun e _ => readItem_elemText e

theorem notMem_elemTexts (es : List (Option JObj)) :
    ∀ p ∈ es.map elemText, (0x04 : UInt8) ∉ p := by
  intro p hp
  obtain ⟨e, -, rfl⟩ := List.mem_map.mp hp
  exact notMem_elemText (by decide) (by decide) (by decide) e

theorem elemText_eq_nil {e : Option JObj} (hplain : Plain e) (h : elemText e = []) :
    ∃ o, e = some o ∧ vis_object_class_name o = [] ∧ vis_object_tostring_safe o = none := by
  cases e with
  | none => exact absurd h (by decide)
  | some o =>
    rw [elemText_of_not_string hplain.1, objectText, List.append_eq_nil_iff] at h
    refine ⟨o, rfl, EscapeCode.escape_eq_nil (c := wireCode) h.1, ?_⟩
    cases ht : vis_object_tostring_safe o with
    | none => rfl
    | some t => simp [ht, extraText] at h

theorem overflowMarker_elemText {e : Option JObj} (hplain : Plain e) :
    (overflowMarker (elemText e)).isSome ↔ LooksLikeMarker e := by
  cases e with
  | none => simp [LooksLikeMarker]; decide
  | some o =>
    rw [elemText_of_not_string hplain.1, overflowMarker_objectText]
    rfl

/-- Arrays over the item limit: the marker is the encoder's own. -/
theorem shown_iff_of_cut {a : JArray (Option JObj)} (hover : a.elems.length > VIS_MAX_ARRAY_ITEMS) :
    Shown a ↔ ∀ e ∈ a.elems.take VIS_MAX_ARRAY_ITEMS, Plain e := by
  rw [Shown, decoded, vis_encode_array_items_L,
    buildJNIValue_overflow (by decide) (notMem_elemTexts _) hover a.length_lt]
  exact (and_iff_left rfl).trans (map_readItem_iff _)

/-- Arrays within the limit whose only part is empty. -/
theorem not_shown_of_empty {a : JArray (Option JObj)}
    (hle : a.elems.length ≤ VIS_MAX_ARRAY_ITEMS) (h : a.elems.map elemText = [[]]) :
    ¬ Shown a := by
  have hlen : a.elems.length = 1 := by simpa using congrArg List.length h
  have hitems : (decoded a).items = [] := by
    rw [decoded, vis_encode_array_items_L, List.take_of_length_le hle, h, overflowParts,
      if_neg (by omega), List.append_nil, buildJNIValue_array_empty]
  intro hs
  have hmap := congrArg List.length hs.1
  rw [hitems] at hmap
  simp [hlen, VIS_MAX_ARRAY_ITEMS] at hmap

/-- Arrays within the limit with other parts: the last part decides. -/
theorem decoded_of_le {a : JArray (Option JObj)} (hle : a.elems.length ≤ VIS_MAX_ARRAY_ITEMS)
    {e : Option JObj} (hlast : a.elems.getLast? = some e) (h : a.elems.map elemText ≠ [[]]) :
    ((decoded a).items, (decoded a).int) =
      match overflowMarker (elemText e) with
      | some n => (((a.elems.dropLast).map elemText).map (buildJNIValue .KindObject), n)
      | none => ((a.elems.map elemText).map (buildJNIValue .KindObject), 0) := by
  have hne : a.elems.map elemText ≠ [] := by
    intro hnil
    rw [List.map_eq_nil_iff] at hnil
    simp [hnil] at hlast
  have hlastText : (a.elems.map elemText).getLastD [] = elemText e := by
    rw [List.getLastD_eq_getLast?, List.getLast?_map, hlast]
    rfl
  have hkind : JNIKindFromSigChar 0x4c = .KindObject := by decide
  rw [decoded, vis_encode_array_items_L, List.take_of_length_le hle, overflowParts,
    if_neg (by omega), List.append_nil,
    buildJNIValue_array (by decide) (notMem_elemTexts _) hne h, hlastText, hkind]
  cases overflowMarker (elemText e) <;> simp [List.map_dropLast]

/-- Arrays within the limit. -/
theorem shown_iff_of_le {a : JArray (Option JObj)} (hle : a.elems.length ≤ VIS_MAX_ARRAY_ITEMS) :
    Shown a ↔ (∀ e ∈ a.elems, Plain e) ∧ a.elems.map elemText ≠ [[]] ∧
      ∀ e, a.elems.getLast? = some e → overflowMarker (elemText e) = none := by
  have htake : a.elems.take VIS_MAX_ARRAY_ITEMS = a.elems := List.take_of_length_le hle
  have hint : (a.elems.length - VIS_MAX_ARRAY_ITEMS : Nat) = 0 := by omega
  by_cases hempty : a.elems.map elemText = [[]]
  · exact iff_of_false (not_shown_of_empty hle hempty) fun h => h.2.1 hempty
  · cases hlast : a.elems.getLast? with
    | none =>
      have hnil : a.elems = [] := List.getLast?_eq_none_iff.mp hlast
      have hdec : decoded a = { kind := .KindArray, str := [0x4c] } := by
        rw [decoded, vis_encode_array_items_L, hnil]
        rfl
      simp [Shown, hdec, hnil]
    | some e =>
      have hdec := decoded_of_le hle hlast hempty
      cases hmark : overflowMarker (elemText e) with
      | some n =>
        -- the last element is taken for the marker
        rw [hmark] at hdec
        have hitems : (decoded a).items =
            ((a.elems.dropLast).map elemText).map (buildJNIValue .KindObject) :=
          congrArg Prod.fst hdec
        have hpos : a.elems ≠ [] := by
          intro hnil
          simp [hnil] at hlast
        refine iff_of_false ?_ (fun h => ?_)
        · intro hs
          have hlen := congrArg List.length hs.1
          have hne := List.length_pos_iff.mpr hpos
          rw [hitems, htake] at hlen
          simp only [List.length_map, List.length_dropLast] at hlen
          omega
        · have hnone := h.2.2 e rfl
          simp [hmark] at hnone
      | none =>
        rw [hmark] at hdec
        have hitems : (decoded a).items =
            (a.elems.map elemText).map (buildJNIValue .KindObject) := congrArg Prod.fst hdec
        have hzero : (decoded a).int = 0 := congrArg Prod.snd hdec
        rw [Shown, hitems, hzero, htake, map_readItem_iff, hint]
        simp [hempty, hmark]

/-- **Exactness.** An array is shown as it is precisely when it is readable. -/
theorem shown_iff_readable (a : JArray (Option JObj)) : Shown a ↔ Readable a := by
  by_cases hover : a.elems.length > VIS_MAX_ARRAY_ITEMS
  · rw [shown_iff_of_cut hover]
    constructor
    · intro h
      refine ⟨h, ?_, fun hle => absurd hover (by omega)⟩
      intro o ho
      simp [ho, VIS_MAX_ARRAY_ITEMS] at hover
    · exact fun h => h.plain
  · have hle : a.elems.length ≤ VIS_MAX_ARRAY_ITEMS := by omega
    have htake : a.elems.take VIS_MAX_ARRAY_ITEMS = a.elems := List.take_of_length_le hle
    rw [shown_iff_of_le hle]
    constructor
    · rintro ⟨hplain, hempty, hmark⟩
      refine ⟨by rwa [htake], ?_, ?_⟩
      -- one empty item is no item at all
      · rintro o ho ⟨hname, htext⟩
        refine hempty ?_
        have hstr := (hplain (some o) (by simp [ho])).1
        rw [ho, List.map_singleton, elemText_of_not_string hstr, hname, htext]
        rfl
      -- a last element that looks like a marker would be taken for one
      · intro _ e he hlook
        have hp := hplain e (List.mem_of_getLast? he)
        have hsome := (overflowMarker_elemText hp).mpr hlook
        simp [hmark e he] at hsome
    · intro h
      have hplain : ∀ e ∈ a.elems, Plain e := by
        have := h.plain
        rwa [htake] at this
      refine ⟨hplain, ?_, ?_⟩
      · intro hempty
        obtain ⟨e, he, htext⟩ := List.map_eq_singleton_iff.mp hempty
        obtain ⟨o, rfl, hname, hnone⟩ := elemText_eq_nil (hplain e (by simp [he])) htext
        exact h.not_empty o he ⟨hname, hnone⟩
      · intro e he
        have hp := hplain e (List.mem_of_getLast? he)
        rw [← Option.not_isSome_iff_eq_none, overflowMarker_elemText hp]
        exact h.not_marker hle e he

/-- The array `{"+5"}`. -/
def plusFive : JArray (Option JObj) := ⟨[some (.string ⟨ascii "+5", by decide⟩)], by decide⟩

/-- Its one string is taken for the marker: no item, and five elements
    left out. -/
theorem plusFive_not_shown : ¬ Shown plusFive := by
  decide

end JniLog.RefArray
