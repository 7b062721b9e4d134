import JniLog.EventPipe.Deferred

/-! # Substituting rendered references

    A placeholder is the marker and a slot byte, and slot bytes are
    framing bytes as well: that of slot 1 ends a record. The reader puts
    the chunks in before it decodes, so what it decodes is framed by the
    chunks alone.

    * A reference is rendered to any kind and any two texts, also to a
      string or a class with an extra text, which
      `event_pipe_render_obj` never does.

    Main result: a text made of segments and placeholders becomes the
    same segments with the chunks between them, a placeholder on its own
    gives back all of its reference, and one that stands for a whole
    record decodes to exactly one value. -/

namespace JniLog.EventPipe

open Bytes Visualize

/-! ## Section 1: Rendered references -/

inductive RefKind where
  | STRING | CLASS | OBJECT
  deriving DecidableEq, Repr

/-- The constant of `wire_kind_t`. -/
def RefKind.wireKind : RefKind → Int
  | STRING => WIRE_KIND_STRING
  | CLASS => WIRE_KIND_CLASS
  | OBJECT => WIRE_KIND_OBJECT

/-- `sig` in `renderRefChunk`. -/
def RefKind.sig : RefKind → UInt8
  | STRING => 0x73
  | CLASS => 0x63
  | OBJECT => 0x4c

/-- What rendering a reference gives. -/
structure RenderedRef where
  kind : RefKind
  str : CStr
  extra : CStr

namespace RenderedRef

/-- The chunk `renderRefChunk` makes of it. -/
def chunk (r : RenderedRef) : Bytes := EventPipe.chunk r.kind.sig r.str r.extra

/-- The extra text, when there is one. -/
def text (r : RenderedRef) : Option Bytes := if r.extra.val = [] then none else some r.extra

/-- Both texts as one. -/
def joinedText (r : RenderedRef) : Bytes :=
  r.str ++ (r.text.map fun extra => 0x03 :: extra).getD []

/-- The value `decodeArgs` makes of the chunk. -/
def value (r : RenderedRef) : JNIValue :=
  match r.kind with
  | .STRING => { kind := .KindString, str := r.joinedText }
  | .CLASS => { kind := .KindClass, str := normalizeDots r.joinedText }
  | .OBJECT =>
    if r.str.val = ascii "null" ∧ r.extra.val = [] then NullValue
    else { kind := .KindObject, str := normalizeDots r.str, extra := r.extra }

/-- A live object, as `event_pipe_render_obj` renders it. -/
def ofObj : JObj → RenderedRef
  | .string content => ⟨.STRING, content, default⟩
  | .clazz name _ => ⟨.CLASS, name, default⟩
  | .object className toString => ⟨.OBJECT, className, toString.getD default⟩

end RenderedRef

/-- Every reference that is not null renders to such a chunk. -/
theorem renderRefChunk_eq_chunk {heap : UInt64 → JObj} {gref : UInt64} (h : gref ≠ 0) :
    (renderRefChunk heap true gref).1 = (RenderedRef.ofObj (heap gref)).chunk := by
  unfold renderRefChunk event_pipe_render_obj
  cases heap gref with
  | string content =>
    simp [h, vis_is_string, vis_string_value_raw]
    rfl
  | clazz name toString =>
    simp [h, vis_is_string, vis_is_class, vis_class_name, WIRE_KIND_STRING, WIRE_KIND_CLASS]
    rfl
  | object className toString =>
    simp [h, vis_is_string, vis_is_class, vis_object_class_name, vis_object_tostring_safe,
      WIRE_KIND_STRING, WIRE_KIND_CLASS, WIRE_KIND_OBJECT]
    cases toString <;> rfl

/-- What `dispatchEvent` substitutes into the strings of an event. -/
theorem substituted_eq_chunks {heap : UInt64 → JObj} {ev : Event} (h : ∀ gref ∈ ev.refs, gref ≠ 0) :
    substituted heap true ev =
      ev.strs.map fun s => substitutePlaceholders s
        ((ev.refs.map fun gref => RenderedRef.ofObj (heap gref)).map RenderedRef.chunk) := by
  have hchunks : (ev.refs.map fun gref => (renderRefChunk heap true gref).1) =
      (ev.refs.map fun gref => RenderedRef.ofObj (heap gref)).map RenderedRef.chunk := by
    rw [List.map_map]
    exact List.map_congr_left fun gref hgref => renderRefChunk_eq_chunk (h gref hgref)
  rw [substituted, hchunks]

/-! ## Section 2: Decoding a chunk -/

section Decode

variable {r : RenderedRef} {pre rest : Bytes}

theorem RenderedRef.chunk_eq (r : RenderedRef) :
    r.chunk = r.kind.sig :: 0x01 :: objectText r.str r.text ++ [0x02] := by
  unfold RenderedRef.chunk EventPipe.chunk RenderedRef.text objectText extraText
  simp only [escapeWireContent_eq]
  by_cases hextra : r.extra.val = []
  · simp [hextra]
  · simp [hextra]

theorem notMem_objectText (name : Bytes) (text : Option Bytes) :
    (0x02 : UInt8) ∉ objectText name text := by
  have hfree (s : Bytes) : (0x02 : UInt8) ∉ wireCode.escape s := notMem_wireCode rfl (by decide) s
  cases text with
  | none => simp [objectText, extraText, hfree]
  | some t => simp [objectText, extraText, hfree]

/-- Both texts in one, for the kinds that do not look for a separator. -/
theorem unescape_objectText (name : Bytes) (text : Option Bytes) :
    unescapeWireContent (objectText name text) =
      name ++ (text.map fun extra => 0x03 :: extra).getD [] := by
  rw [unescapeWireContent_eq, objectText, EscapeCode.unescape_escape_append]
  cases text with
  | none => simp [extraText]
  | some t =>
    have hsep : (0x03 : UInt8) ≠ wireCode.lead := by decide
    rw [extraText, EscapeCode.unescape_cons_of_ne hsep, EscapeCode.unescape_escape]
    rfl

theorem buildJNIValue_chunk (r : RenderedRef) :
    buildJNIValue (JNIKindFromSigChar r.kind.sig) (objectText r.str r.text) = r.value := by
  obtain ⟨kind, str, extra⟩ := r
  cases kind with
  | STRING =>
    show buildJNIValue .KindString _ = _
    simp only [buildJNIValue, buildJNIValueFuel, unescape_objectText]
    rfl
  | CLASS =>
    show buildJNIValue .KindClass _ = _
    simp only [buildJNIValue, buildJNIValueFuel, unescape_objectText]
    rfl
  | OBJECT =>
    show buildJNIValue .KindObject _ = _
    by_cases hnull : str.val = ascii "null" ∧ extra.val = []
    · -- the bare name is the marker of a null object
      simp only [RenderedRef.value, RenderedRef.text, if_pos hnull, if_pos hnull.2]
      rw [objectText_eq_null.mpr ⟨hnull.1, rfl⟩]
      rfl
    · have hne : ¬ (str.val = ascii "null" ∧ RenderedRef.text ⟨.OBJECT, str, extra⟩ = none) := by
        simpa [RenderedRef.text] using hnull
      rw [buildJNIValue_object hne]
      simp only [RenderedRef.value, if_neg hnull, RenderedRef.text]
      by_cases hextra : extra.val = []
      · simp [hextra]
      · simp [hextra]

/-- A chunk at the front is a record of its own. -/
theorem decodeArgs_chunk_append (r : RenderedRef) (rest : Bytes) :
    decodeArgs (r.chunk ++ rest) = r.value :: decodeArgs rest := by
  have hsig : r.kind.sig ≠ 0x02 ∧ r.kind.sig ≠ 0x01 := by cases r.kind <;> decide
  have hfree : (0x02 : UInt8) ∉ r.kind.sig :: 0x01 :: objectText r.str r.text := by
    simp only [List.mem_cons, not_or]
    exact ⟨hsig.1.symm, by decide, notMem_objectText _ _⟩
  rw [r.chunk_eq, List.append_assoc, List.singleton_append, decodeArgs_append hfree,
    decodeRecord_cons hsig.2, buildJNIValue_chunk]
  rfl

/-- `parseRenderedChunk` gets both texts back, of every kind. -/
theorem parseRenderedChunk_refChunk (r : RenderedRef) :
    parseRenderedChunk r.chunk = (r.kind.wireKind, r.str.val, r.extra.val) := by
  have hkind : chunkKind r.kind.sig = some r.kind.wireKind ∧ r.kind.wireKind ≠ WIRE_KIND_NULL := by
    cases r.kind <;> decide
  exact parseRenderedChunk_chunk hkind.1 hkind.2 r.str r.extra

/-- Records that are all ended leave no trace in what follows them. -/
theorem decodeArgs_append_of_ended (h : pre = [] ∨ pre.getLast? = some 0x02) (rest : Bytes) :
    decodeArgs (pre ++ rest) = decodeArgs pre ++ decodeArgs rest := by
  rcases h with rfl | h
  · rfl
  · obtain ⟨init, rfl⟩ := List.getLast?_eq_some_iff.mp h
    have hempty : decodeRecord [] = none := rfl
    rw [List.append_assoc, List.singleton_append]
    simp only [decodeArgs_eq, List.splitOn_append_cons_self, List.filterMap_append,
      List.splitOn_nil, List.filterMap_cons, hempty, List.filterMap_nil, List.append_nil]

/-- Each chunk between ended records is one value more. -/
theorem decodeArgs_chunks {refs : List RenderedRef} (pieces : List (Bytes × Fin refs.length))
    (last : Bytes) (h : ∀ p ∈ pieces, p.1 = [] ∨ p.1.getLast? = some 0x02) :
    decodeArgs ((pieces.flatMap fun p => p.1 ++ (refs.get p.2).chunk) ++ last) =
      (pieces.flatMap fun p => decodeArgs p.1 ++ [(refs.get p.2).value]) ++ decodeArgs last := by
  induction pieces with
  | nil => rfl
  | cons p pieces ih =>
    rw [List.forall_mem_cons] at h
    simp only [List.flatMap_cons, List.append_assoc]
    rw [decodeArgs_append_of_ended h.1, decodeArgs_chunk_append, ih h.2]
    simp only [List.singleton_append]

end Decode

/-! ## Section 3: Segments and placeholders -/

/-- Segments, each with the placeholder behind it, and a last segment. -/
def wireText {n : Nat} (pieces : List (Bytes × Fin n)) (last : Bytes) : Bytes :=
  (pieces.flatMap fun p => p.1 ++ placeholder p.2) ++ last

/-- There are no other placeholders, and every slot has a byte. A marker
    at the end of a segment may not pair up with the one behind it, whose
    value is that of a slot when there are more than 25. -/
structure Segmented {n : Nat} (pieces : List (Bytes × Fin n)) (last : Bytes) : Prop where
  segments : ∀ p ∈ pieces, noPlaceholder n (p.1 ++ [0x1A])
  last : noPlaceholder n last
  slots : ∀ p ∈ pieces, p.2.val < 255

section Substitute

variable {rendered : List Bytes}

/-- A segment is passed over. -/
theorem substituteLoop_segment {s : Bytes} (h : noPlaceholder rendered.length (s ++ [0x1A]))
    (rest : Bytes) :
    substituteLoop rendered (s ++ 0x1A :: rest) = s ++ substituteLoop rendered (0x1A :: rest) := by
  have hstep {b c : UInt8} (hb : ¬ (b = 0x1A ∧ 1 ≤ c.toNat ∧ c.toNat ≤ rendered.length))
      (s : Bytes) :
      substituteLoop rendered (b :: c :: s) = b :: substituteLoop rendered (c :: s) := by
    rw [substituteLoop, if_neg]
    rintro ⟨hmark, hpos, hlt⟩
    exact hb ⟨hmark, hpos, by omega⟩
  -- the last byte of the segment is checked with the marker behind it
  induction s with
  | nil => rfl
  | cons b s ih =>
    cases s with
    | nil => exact hstep h.1 rest
    | cons c s =>
      rw [List.cons_append, List.cons_append, hstep h.1, ← List.cons_append, ih h.2]
      rfl

/-- A placeholder is replaced, and the loop goes on behind it. -/
theorem substituteLoop_placeholder {slot : Nat} (h : slot < rendered.length) (hbyte : slot < 255)
    (rest : Bytes) :
    substituteLoop rendered (placeholder slot ++ rest) =
      rendered[slot] ++ substituteLoop rendered rest := by
  have hslot : (UInt8.ofNat (slot + 1)).toNat = slot + 1 := by
    rw [UInt8.toNat_ofNat']
    omega
  have hgo : 0x1A = (0x1A : UInt8) ∧ 1 ≤ (UInt8.ofNat (slot + 1)).toNat ∧
      (UInt8.ofNat (slot + 1)).toNat - 1 < rendered.length := by
    rw [hslot]
    exact ⟨rfl, Nat.le_add_left 1 slot, h⟩
  show substituteLoop rendered (0x1A :: UInt8.ofNat (slot + 1) :: rest) = _
  rw [substituteLoop, if_pos hgo, hslot, Nat.add_sub_cancel, List.getD_eq_getElem?_getD,
    List.getElem?_eq_getElem h, Option.getD_some]

/-- **Substitution.** Every placeholder becomes its chunk, whatever is in
    it, and the segments stay what they are. -/
theorem substitutePlaceholders_wireText {n : Nat} (hn : rendered.length = n)
    {pieces : List (Bytes × Fin n)} {last : Bytes} (h : Segmented pieces last) :
    substitutePlaceholders (wireText pieces last) rendered =
      (pieces.flatMap fun p => p.1 ++ rendered.getD p.2 []) ++ last := by
  subst hn
  rw [substitutePlaceholders_eq]
  obtain ⟨hsegs, hlast, hslots⟩ := h
  induction pieces with
  | nil => exact substituteLoop_of_noPlaceholder hlast
  | cons p pieces ih =>
    rw [List.forall_mem_cons] at hsegs hslots
    have hrest := ih hsegs.2 hslots.2
    have htext : wireText (p :: pieces) last =
        p.1 ++ (placeholder p.2 ++ wireText pieces last) := by
      simp only [wireText, List.flatMap_cons, List.append_assoc]
    rw [htext]
    show substituteLoop rendered (p.1 ++ 0x1A :: _) = _
    rw [substituteLoop_segment hsegs.1]
    show p.1 ++ substituteLoop rendered (placeholder p.2 ++ wireText pieces last) = _
    rw [substituteLoop_placeholder p.2.isLt hslots.1, hrest, List.flatMap_cons,
      List.getD_eq_getElem?_getD, List.getElem?_eq_getElem p.2.isLt, Option.getD_some]
    simp only [List.append_assoc]

end Substitute

/-- With 25 references or fewer a segment is free when its own bytes are. -/
theorem noPlaceholder_concat_marker {n : Nat} (hn : n ≤ 25) {s : Bytes} (h : noPlaceholder n s) :
    noPlaceholder n (s ++ [0x1A]) := by
  induction s using noPlaceholder.induct with
  | case1 => trivial
  | case2 b =>
    refine ⟨?_, trivial⟩
    intro hb
    exact absurd hb.2.2 (Nat.not_le.mpr (Nat.lt_of_le_of_lt hn (by decide)))
  | case3 b c s ih => exact ⟨h.1, ih h.2⟩

/-! ## Section 4: Main theorem -/

/-- **Main result.** Substitution replaces the placeholders and nothing
    else; one that is all there is gives back its reference; and chunks
    put between ended records decode to one value each. This is what
    `dispatchEvent` does with the strings of an event. -/
theorem substituted_decodes (refs : List RenderedRef) (pieces : List (Bytes × Fin refs.length))
    (last : Bytes) (h : Segmented pieces last) :
    substitutePlaceholders (wireText pieces last) (refs.map RenderedRef.chunk) =
        (pieces.flatMap fun p => p.1 ++ (refs.get p.2).chunk) ++ last ∧
      (∀ slot : Fin refs.length, slot.val < 255 →
        parseRenderedChunk (substitutePlaceholders (placeholder slot)
            (refs.map RenderedRef.chunk)) =
          ((refs.get slot).kind.wireKind, (refs.get slot).str.val, (refs.get slot).extra.val)) ∧
      ((∀ p ∈ pieces, p.1 = [] ∨ p.1.getLast? = some 0x02) →
        decodeArgs (substitutePlaceholders (wireText pieces last) (refs.map RenderedRef.chunk)) =
          (pieces.flatMap fun p => decodeArgs p.1 ++ [(refs.get p.2).value]) ++
            decodeArgs last) ∧
      ∀ (heap : UInt64 → JObj) (ev : Event), (∀ gref ∈ ev.refs, gref ≠ 0) →
        ev.refs.map (fun gref => RenderedRef.ofObj (heap gref)) = refs →
        substituted heap true ev =
          ev.strs.map fun s => substitutePlaceholders s (refs.map RenderedRef.chunk) := by
  have hget (slot : Fin refs.length) :
      (refs.map RenderedRef.chunk).getD slot [] = (refs.get slot).chunk := by
    simp [List.getD_eq_getElem?_getD]
  have hsubst := substitutePlaceholders_wireText (List.length_map RenderedRef.chunk) h
  simp only [hget] at hsubst
  refine ⟨hsubst, ?_, ?_, ?_⟩
  · -- a placeholder alone is a wire text with one empty segment
    intro slot hslot
    have hone : Segmented [(([] : Bytes), slot)] [] :=
      ⟨by simp [noPlaceholder], trivial, by simpa using hslot⟩
    have hchunk := substitutePlaceholders_wireText (List.length_map RenderedRef.chunk) hone
    simp only [wireText, hget, List.flatMap_singleton, List.nil_append, List.append_nil] at hchunk
    rw [hchunk]
    exact parseRenderedChunk_refChunk (refs.get slot)
  · intro hended
    rw [hsubst]
    exact decodeArgs_chunks pieces last hended
  · rintro heap ev hev rfl
    exact substituted_eq_chunks hev

/-- A number, a string, right behind it an object, and another number. -/
theorem substituted_decodes_mixed :
    decodeArgs (substitutePlaceholders
        (ascii "I" ++ [0x01] ++ ascii "5" ++ [0x02, 0x1A, 0x02, 0x1A, 0x01] ++ ascii "I" ++
          [0x01] ++ ascii "7" ++ [0x02])
        ([⟨.OBJECT, ⟨ascii "p/Q", by decide⟩, ⟨[0x1A, 0x01], by decide⟩⟩,
          ⟨.STRING, ⟨[0x02, 0x05], by decide⟩, ⟨[], by decide⟩⟩].map RenderedRef.chunk)) =
      [{ kind := .KindInt, int := 5 }, { kind := .KindString, str := [0x02, 0x05] },
        { kind := .KindObject, str := ascii "p.Q", extra := [0x1A, 0x01] },
        { kind := .KindInt, int := 7 }] := by
  have h := (substituted_decodes
    [⟨.OBJECT, ⟨ascii "p/Q", by decide⟩, ⟨[0x1A, 0x01], by decide⟩⟩,
      ⟨.STRING, ⟨[0x02, 0x05], by decide⟩, ⟨[], by decide⟩⟩]
    [(ascii "I" ++ [0x01] ++ ascii "5" ++ [0x02], 1), ([], 0)]
    (ascii "I" ++ [0x01] ++ ascii "7" ++ [0x02])
    ⟨by decide, by decide, by decide⟩).2.2.1 (by decide)
  refine Eq.trans h ?_
  decide

/-- As decoded, an object of class `null` is a null, the name of a class is
    dotted, a string with an extra text is one text, and a chunk behind an
    open record is part of it; and with 26 references the marker at the end
    of a segment pairs up with the next one. -/
theorem chunk_not_always_recovered :
    decodeArgs (substitutePlaceholders [0x1A, 0x01]
        [RenderedRef.chunk ⟨.OBJECT, ⟨ascii "null", by decide⟩, ⟨[], by decide⟩⟩]) = [NullValue] ∧
      decodeArgs (substitutePlaceholders [0x1A, 0x01]
          [RenderedRef.chunk ⟨.CLASS, ⟨ascii "a/B", by decide⟩, ⟨[], by decide⟩⟩]) =
        [{ kind := .KindClass, str := ascii "a.B" }] ∧
      decodeArgs (substitutePlaceholders [0x1A, 0x01]
          [RenderedRef.chunk ⟨.STRING, ⟨ascii "a", by decide⟩, ⟨ascii "b", by decide⟩⟩]) =
        [{ kind := .KindString, str := ascii "a" ++ [0x03] ++ ascii "b" }] ∧
      decodeArgs (substitutePlaceholders (ascii "s" ++ [0x01] ++ ascii "a" ++ [0x1A, 0x01])
          [RenderedRef.chunk ⟨.STRING, ⟨ascii "b", by decide⟩, ⟨[], by decide⟩⟩]) =
        [{ kind := .KindString, str := ascii "as" ++ [0x01] ++ ascii "b" }] ∧
      substitutePlaceholders [0x1A, 0x1A, 0x01] ((List.range 26).map fun i =>
          RenderedRef.chunk ⟨.STRING,
            if i = 0 then ⟨ascii "a", by decide⟩ else ⟨ascii "b", by decide⟩, ⟨[], by decide⟩⟩) =
        ascii "s" ++ [0x01] ++ ascii "b" ++ [0x02] ++ [0x01] := by
  decide

end JniLog.EventPipe
