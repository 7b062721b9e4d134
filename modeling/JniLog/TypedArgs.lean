import JniLog.Visualize

/-! # Round trip of typed arguments

    `vis_encode_typed_args` writes one record for each argument of a
    method descriptor, and `decodeArgs` reads one value from each record:

    * step: one round of the encoder's loop appends the record of the
      argument whose type the descriptor starts with;
    * run: over a whole descriptor the encoder writes the records of the
      arguments, in order;
    * the decoder reads the kind and the value of every argument back,
      whatever bytes the contents, class names and `toString`s hold. -/

namespace JniLog.TypedArgs

open Bytes JlFmt Visualize

/-! ## Section 1: Arguments and descriptors -/

/-- A class name as it stands in a descriptor. -/
abbrev DescName := {s : Bytes // (0x3b : UInt8) ∉ s}

/-- The values of an argument of an integral type. -/
abbrev Val : IntPrim → Type
  | .Z => Bool
  | .B => Int8
  | .C => UInt16
  | .S => Int16
  | .I => Int32
  | .J => Int64

def Val.toInt : (p : IntPrim) → Val p → Int
  | .Z, z => if z then 1 else 0
  | .B, b => Int8.toInt b
  | .C, c => UInt16.toNat c
  | .S, s => Int16.toInt s
  | .I, i => Int32.toInt i
  | .J, j => Int64.toInt j

theorem Val.toInt_mem_range (p : IntPrim) (x : Val p) :
    -2 ^ 63 ≤ Val.toInt p x ∧ Val.toInt p x < 2 ^ 63 := by
  cases p with
  | Z => cases x <;> decide
  | B => exact IntPrim.toInt_mem_range .B x
  | C => exact IntPrim.toInt_mem_range .C x
  | S => exact IntPrim.toInt_mem_range .S x
  | I => exact IntPrim.toInt_mem_range .I x
  | J => exact IntPrim.toInt_mem_range .J x

/-- The argument word `w` holds the value in its low bits. -/
def Val.HeldBy : (p : IntPrim) → Val p → UInt64 → Prop
  | .Z, z, w => w &&& 1 = if z then 1 else 0
  | .B, b, w => w.toUInt8.toInt8 = b
  | .C, c, w => w.toUInt16 = c
  | .S, s, w => w.toUInt16.toInt16 = s
  | .I, i, w => w.toUInt32.toInt32 = i
  | .J, j, w => w.toInt64 = j

/-- An argument with the type its descriptor gives it. References may be
    null. -/
inductive TypedArg where
  | prim (p : IntPrim) (x : Val p)
  | ref (cls : DescName) (o : Option JObj)
  | primArray (p : IntPrim) (a : Option (JArray p.Elem))
  /-- an array of `depth + 1` dimensions with a class as element type -/
  | refArray (depth : Nat) (cls : DescName) (a : Option (JArray (Option JObj)))

/-- The type of an argument in a descriptor. -/
def TypedArg.desc : TypedArg → Bytes
  | prim p _ => [p.sigChar]
  | ref cls _ => 0x4c :: cls.val ++ [0x3b]
  | primArray p _ => [0x5b, p.sigChar]
  | refArray depth cls _ => List.replicate (depth + 1) 0x5b ++ 0x4c :: cls.val ++ [0x3b]

/-- The method descriptor of an argument list; `ret` is its return type. -/
def methodDesc (args : List TypedArg) (ret : Bytes) : Bytes :=
  0x28 :: args.flatMap TypedArg.desc ++ 0x29 :: ret

/-- `w` is the extracted word of an argument: the bits of a primitive, 0
    for null, and else a pointer to the object or array. -/
def TypedArg.ExtractedAs (deref : UInt64 → Option JRef) : TypedArg → UInt64 → Prop
  | prim p x, w => Val.HeldBy p x w
  | ref _ none, w => w = 0
  | ref _ (some o), w => w ≠ 0 ∧ deref w = some (.obj o)
  | primArray _ none, w => w = 0
  | primArray p (some a), w => w ≠ 0 ∧ deref w = some (.arr (p.arr a))
  | refArray _ _ none, w => w = 0
  | refArray _ _ (some a), w => w ≠ 0 ∧ deref w = some (.arr (.L a))

/-- The signature character of an argument's record. -/
def TypedArg.sig : TypedArg → UInt8
  | prim p _ => p.sigChar
  | ref _ none => 0x4c
  | ref _ (some (.string _)) => 0x73
  | ref _ (some (.clazz ..)) => 0x63
  | ref _ (some (.object ..)) => 0x4c
  | primArray .. => 0x5b
  | refArray .. => 0x5b

/-- The text of an argument's record after the separator. -/
def TypedArg.raw : TypedArg → Bytes
  | prim p x => intText (Val.toInt p x)
  | ref _ none => []
  | ref _ (some (.string content)) => wireCode.escape content
  | ref _ (some (.clazz name _)) => wireCode.escape name
  | ref _ (some (.object name text)) => objectText name (text.map Subtype.val)
  | primArray p a => vis_encode_array_items (a.map p.arr) p.sigChar
  | refArray _ _ a => vis_encode_array_items (a.map .L) 0x4c

def TypedArg.record (a : TypedArg) : Bytes := a.sig :: 0x01 :: a.raw

/-- The value a reader should see for an argument. -/
def TypedArg.value : TypedArg → JNIValue
  | prim p x => { kind := p.kind, int := Val.toInt p x }
  | ref _ none => { kind := .KindObject }
  | ref _ (some (.string content)) => { kind := .KindString, str := content }
  | ref _ (some (.clazz name _)) => { kind := .KindClass, str := normalizeDots name }
  | ref _ (some (.object name text)) =>
    { kind := .KindObject, str := normalizeDots name, extra := (text.map Subtype.val).getD [] }
  | primArray _ none => { kind := .KindArray }
  | primArray p (some a) =>
    { kind := .KindArray, int := (a.elems.length - VIS_MAX_ARRAY_ITEMS : Nat),
      str := vis_encode_array_items (some (p.arr a)) p.sigChar,
      items := (a.elems.take VIS_MAX_ARRAY_ITEMS).map fun x =>
        { kind := p.kind, int := p.toInt x } }
  | refArray _ _ a => buildJNIValue .KindArray (vis_encode_array_items (a.map .L) 0x4c)

/-- No plain object has a class named `null`. -/
def TypedArg.Named : TypedArg → Prop
  | ref _ (some (.object name _)) => name.val ≠ ascii "null"
  | _ => True

/-! ## Section 2: The descriptor scan -/

section Scan

variable {rest : Bytes}

theorem skipClass_name {s : Bytes} (h : (0x3b : UInt8) ∉ s) :
    skipClass (s ++ 0x3b :: rest) = rest := by
  induction s with
  | nil => simp [skipClass]
  | cons c s ih =>
    simp only [List.mem_cons, not_or] at h
    rw [List.cons_append, skipClass, if_neg (Ne.symm h.1), ih h.2]

theorem skipClass_L (cls : DescName) (rest : Bytes) :
    skipClass (0x4c :: cls.val ++ 0x3b :: rest) = rest :=
  skipClass_name (by simpa using cls.property)

theorem skipBrackets_replicate (n : Nat) {c : UInt8} (h : c ≠ 0x5b) :
    skipBrackets (List.replicate n 0x5b ++ c :: rest) = c :: rest := by
  induction n with
  | zero => simp [skipBrackets, h]
  | succ n ih => rw [List.replicate_succ, List.cons_append, skipBrackets, if_pos rfl, ih]

theorem IntPrim.sigChar_ne (p : IntPrim) :
    p.sigChar ≠ 0x4c ∧ p.sigChar ≠ 0x5b ∧ p.sigChar ≠ 0x29 := by
  cases p <;> decide

/-- The scan moves past the type of the argument it stands at. -/
theorem skipType_desc (a : TypedArg) (rest : Bytes) : skipType (a.desc ++ rest) = rest := by
  cases a with
  | prim p x => simp [TypedArg.desc, skipType, IntPrim.sigChar_ne p]
  | ref cls o =>
    have hc := skipClass_L cls rest
    simpa [TypedArg.desc, skipType] using hc
  | primArray p a =>
    have hb : skipBrackets (p.sigChar :: rest) = p.sigChar :: rest := by
      simp [skipBrackets, IntPrim.sigChar_ne p]
    simp [TypedArg.desc, skipType, hb, IntPrim.sigChar_ne p]
  | refArray depth cls a =>
    have hb : skipBrackets (List.replicate depth 0x5b ++ 0x4c :: (cls.val ++ 0x3b :: rest)) =
        0x4c :: (cls.val ++ 0x3b :: rest) := skipBrackets_replicate depth (by decide)
    have hc := skipClass_L cls rest
    simp only [List.cons_append] at hc
    simp [TypedArg.desc, skipType, List.replicate_succ, hb, hc]

end Scan

/-! ## Section 3: One round of the loop -/

section Step

variable {deref : UInt64 → Option JRef} {w : UInt64} {rest : Bytes}

theorem patchSigChar_pair (buf : Bytes) (k c : UInt8) :
    patchSigChar (buf ++ [k, 0x01]) c = buf ++ [c, 0x01] := by
  simp [patchSigChar]

/-- The text written for a primitive is that of its value. -/
theorem appendArg_prim (buf : Bytes) (p : IntPrim) (x : Val p) (h : Val.HeldBy p x w) :
    appendArg deref buf p.sigChar 0 w = (buf ++ intText (Val.toInt p x), true) := by
  cases p with
  | Z =>
    have hw : intWord (w &&& 1).toUInt32.toInt32 = intWord (if x then 1 else 0) := by
      rw [show w &&& 1 = if x then 1 else 0 from h]
      cases x <;> decide
    have hv : (if x then (1 : Int32) else 0).toInt = Val.toInt .Z x := by cases x <;> decide
    simp only [appendArg, IntPrim.sigChar, if_true, hw, fmtWord_d, hv]
  | B =>
    have hw : w.toUInt8.toInt8 = x := h
    simp [appendArg, IntPrim.sigChar, fmtWord_d, Val.toInt, hw]
  | C =>
    have hw : w.toUInt16 = x := h
    simp [appendArg, IntPrim.sigChar, fmtWord_u, Val.toInt, hw]
  | S =>
    have hw : w.toUInt16.toInt16 = x := h
    simp [appendArg, IntPrim.sigChar, fmtWord_d, Val.toInt, hw]
  | I =>
    have hw : w.toUInt32.toInt32 = x := h
    simp [appendArg, IntPrim.sigChar, fmtWord_d, Val.toInt, hw]
  | J =>
    have hw : w.toInt64 = x := h
    simp [appendArg, IntPrim.sigChar, fmtWord_lld, Val.toInt, hw]

/-- The end of a round: a record left open is ended. -/
def closeRecord (r : Bytes × Bool) : Bytes := if r.2 then r.1 ++ [0x02] else r.1

theorem typedArgsLoop_cons (buf : Bytes) {c : UInt8} (hc : c ≠ 0x29) (p : Bytes)
    (ws : List UInt64) :
    typedArgsLoop deref buf (c :: p) (w :: ws) =
      typedArgsLoop deref
        (closeRecord (appendArg deref (buf ++ [c, 0x01]) c
          (if c = 0x5b then (skipBrackets p).headD 0 else 0) w))
        (skipType (c :: p)) ws := by
  rw [typedArgsLoop, if_neg hc]
  rfl

/-- The record of a reference argument. -/
theorem appendArg_ref (buf : Bytes) (cls : DescName) (o : Option JObj)
    (h : (TypedArg.ref cls o).ExtractedAs deref w) :
    closeRecord (appendArg deref (buf ++ [0x4c, 0x01]) 0x4c 0 w) =
      buf ++ (TypedArg.ref cls o).record ++ [0x02] := by
  match o with
  | none =>
    have hw : w = 0 := h
    simp [appendArg, closeRecord, hw, TypedArg.record, TypedArg.sig, TypedArg.raw]
  | some (.string content) =>
    -- the signature character is patched to `s`
    simp [appendArg, closeRecord, h.1, h.2, vis_is_string, vis_string_value_raw,
      patchSigChar_pair, TypedArg.record, TypedArg.sig, TypedArg.raw]
  | some (.clazz name text) =>
    -- the signature character is patched to `c`
    simp [appendArg, closeRecord, h.1, h.2, vis_is_string, vis_is_class, vis_class_name,
      patchSigChar_pair, TypedArg.record, TypedArg.sig, TypedArg.raw]
  | some (.object name none) =>
    simp [appendArg, closeRecord, h.1, h.2, vis_is_string, vis_is_class, vis_object_class_name,
      vis_object_tostring_safe, TypedArg.record, TypedArg.sig, TypedArg.raw, objectText, extraText]
  | some (.object name (some text)) =>
    simp [appendArg, closeRecord, h.1, h.2, vis_is_string, vis_is_class, vis_object_class_name,
      vis_object_tostring_safe, TypedArg.record, TypedArg.sig, TypedArg.raw, objectText, extraText]

/-- The record of an array argument; `el` is the element character. -/
theorem appendArg_array (buf : Bytes) {el : UInt8} (hel : el ≠ 0x5b) (arr : Option JArr)
    (h : match arr with
      | none => w = 0
      | some a => w ≠ 0 ∧ deref w = some (.arr a)) :
    closeRecord (appendArg deref (buf ++ [0x5b, 0x01]) 0x5b el w) =
      buf ++ 0x5b :: 0x01 :: vis_encode_array_items arr el ++ [0x02] := by
  have hel' : (if el = 0x4c ∨ el = 0x5b then 0x4c else el) = el := by
    split
    · rename_i hcase
      exact (hcase.resolve_right hel).symm
    · rfl
  match arr with
  | none =>
    have hw : w = 0 := h
    simp [appendArg, closeRecord, hw, vis_encode_array_items]
  | some a => simp [appendArg, closeRecord, h.1, h.2, hel']

/-- **Step.** A round of the loop appends the record of the argument the
    descriptor starts with, and moves past its type. -/
theorem typedArgsLoop_step (buf : Bytes) (a : TypedArg) (h : a.ExtractedAs deref w)
    (ws : List UInt64) :
    typedArgsLoop deref buf (a.desc ++ rest) (w :: ws) =
      typedArgsLoop deref (buf ++ a.record ++ [0x02]) rest ws := by
  have hskip := skipType_desc a rest
  cases a with
  | prim p x =>
    have hp := IntPrim.sigChar_ne p
    simp only [TypedArg.desc, List.singleton_append] at hskip ⊢
    rw [typedArgsLoop_cons buf hp.2.2, hskip, if_neg hp.2.1, appendArg_prim _ p x h]
    simp [closeRecord, TypedArg.record, TypedArg.sig, TypedArg.raw]
  | ref cls o =>
    simp only [TypedArg.desc, List.cons_append] at hskip ⊢
    rw [typedArgsLoop_cons buf (by decide), hskip, if_neg (by decide), appendArg_ref buf cls o h]
  | primArray p a =>
    have hp := IntPrim.sigChar_ne p
    have hel : (skipBrackets (p.sigChar :: rest)).headD 0 = p.sigChar := by
      simp [skipBrackets, hp]
    have harr : closeRecord (appendArg deref (buf ++ [0x5b, 0x01]) 0x5b p.sigChar w) =
        buf ++ 0x5b :: 0x01 :: vis_encode_array_items (a.map p.arr) p.sigChar ++ [0x02] :=
      appendArg_array buf hp.2.1 _ (by cases a <;> exact h)
    simp only [TypedArg.desc, List.cons_append, List.nil_append] at hskip ⊢
    rw [typedArgsLoop_cons buf (by decide), hskip, if_pos rfl, hel, harr]
    rfl
  | refArray depth cls a =>
    have hel : (skipBrackets (List.replicate depth 0x5b ++ 0x4c :: (cls.val ++ 0x3b :: rest))).headD
        0 = 0x4c := by
      rw [skipBrackets_replicate depth (by decide)]
      rfl
    have harr : closeRecord (appendArg deref (buf ++ [0x5b, 0x01]) 0x5b 0x4c w) =
        buf ++ 0x5b :: 0x01 :: vis_encode_array_items (a.map .L) 0x4c ++ [0x02] :=
      appendArg_array buf (by decide) _ (by cases a <;> exact h)
    simp only [TypedArg.desc, List.replicate_succ, List.cons_append, List.append_assoc,
      List.nil_append] at hskip ⊢
    rw [typedArgsLoop_cons buf (by decide), hskip, if_pos rfl, hel, harr, List.append_assoc]
    rfl

/-- **Run.** Over the parameters of a descriptor the loop writes the
    records of the arguments, in order. -/
theorem typedArgsLoop_run (buf : Bytes) {args : List TypedArg} {ws : List UInt64}
    (h : List.Forall₂ (TypedArg.ExtractedAs deref) args ws) (ret : Bytes) :
    typedArgsLoop deref buf (args.flatMap TypedArg.desc ++ 0x29 :: ret) ws =
      buf ++ terminated 0x02 (args.map TypedArg.record) := by
  induction h generalizing buf with
  | nil => simp [typedArgsLoop]
  | cons ha _ ih =>
    rw [List.flatMap_cons, List.append_assoc, typedArgsLoop_step buf _ ha, ih]
    simp

theorem vis_encode_typed_args_eq {args : List TypedArg} {ws : List UInt64}
    (h : List.Forall₂ (TypedArg.ExtractedAs deref) args ws) (ret : Bytes) :
    vis_encode_typed_args deref (some (methodDesc args ret)) ws =
      terminated 0x02 (args.map TypedArg.record) := by
  have hrun := typedArgsLoop_run [] h ret
  simpa [vis_encode_typed_args, methodDesc] using hrun

end Step

/-! ## Section 4: Reading the records back -/

theorem sig_ne (a : TypedArg) : a.sig ≠ 0x01 ∧ a.sig ≠ 0x02 := by
  have hmem : a.sig ∈ ascii "ZBCSIJLsc[" := by
    match a with
    | .prim p _ => cases p <;> simp only [TypedArg.sig, IntPrim.sigChar] <;> decide
    | .ref _ none => simp only [TypedArg.sig]; decide
    | .ref _ (some (.string _)) => simp only [TypedArg.sig]; decide
    | .ref _ (some (.clazz ..)) => simp only [TypedArg.sig]; decide
    | .ref _ (some (.object ..)) => simp only [TypedArg.sig]; decide
    | .primArray .. => simp only [TypedArg.sig]; decide
    | .refArray .. => simp only [TypedArg.sig]; decide
  have hall : (ascii "ZBCSIJLsc[").all fun c => c != 0x01 && c != 0x02 := by decide
  simpa using List.all_eq_true.mp hall _ hmem

/-- No record holds the byte that ends records. -/
theorem notMem_record (a : TypedArg) : (0x02 : UInt8) ∉ a.record := by
  have hraw : (0x02 : UInt8) ∉ a.raw := by
    match a with
    | .prim p x => exact notMem_intText (by decide) (by decide) _
    | .ref _ none => simp [TypedArg.raw]
    | .ref _ (some (.string _)) => exact notMem_wireCode (by decide) (by decide) _
    | .ref _ (some (.clazz ..)) => exact notMem_wireCode (by decide) (by decide) _
    | .ref _ (some (.object name text)) =>
      exact notMem_elemText (by decide) (by decide) (by decide) (some (.object name text))
    | .primArray p none => simp [TypedArg.raw, vis_encode_array_items]
    | .primArray p (some a) =>
      have hsig : (0x02 : UInt8) ≠ p.sigChar := by cases p <;> decide
      simp only [TypedArg.raw, Option.map_some, vis_encode_array_items_prim]
      refine notMem_arrayText hsig (by decide) fun q hq => ?_
      rcases List.mem_append.mp hq with hq | hq
      · obtain ⟨x, -, rfl⟩ := List.mem_map.mp hq
        exact notMem_intText (by decide) (by decide) _
      · exact notMem_overflowParts (by decide) (by decide) (by decide) q hq
    | .refArray _ _ none => simp [TypedArg.raw, vis_encode_array_items]
    | .refArray _ _ (some a) =>
      simp only [TypedArg.raw, Option.map_some, vis_encode_array_items_L]
      refine notMem_arrayText (by decide) (by decide) fun q hq => ?_
      rcases List.mem_append.mp hq with hq | hq
      · obtain ⟨e, -, rfl⟩ := List.mem_map.mp hq
        exact notMem_elemText (by decide) (by decide) (by decide) e
      · exact notMem_overflowParts (by decide) (by decide) (by decide) q hq
  simp [TypedArg.record, (sig_ne a).2.symm, hraw]

/-- The record of an argument reads back as its value. -/
theorem decodeRecord_record (a : TypedArg) (h : a.Named) :
    decodeRecord a.record = some a.value := by
  have hkind : ∀ {k}, JNIKindFromSigChar a.sig = k →
      decodeRecord a.record = some (buildJNIValue k a.raw) := by
    rintro k rfl
    exact decodeRecord_cons (sig_ne a).1 a.raw
  match a with
  | .prim p x =>
    have hrange := Val.toInt_mem_range p x
    rw [hkind p.kind_sigChar, TypedArg.raw,
      buildJNIValue_integral p.kind_isIntegral hrange.1 hrange.2]
    rfl
  | .ref _ none =>
    rw [hkind (k := .KindObject) rfl]
    rfl
  | .ref _ (some (.string content)) =>
    rw [hkind (k := .KindString) rfl, TypedArg.raw, buildJNIValue_string]
    rfl
  | .ref _ (some (.clazz name _)) =>
    rw [hkind (k := .KindClass) rfl, TypedArg.raw, buildJNIValue_class]
    rfl
  | .ref _ (some (.object name text)) =>
    rw [hkind (k := .KindObject) rfl, TypedArg.raw,
      buildJNIValue_object fun hnull => h hnull.1]
    rfl
  | .primArray p none =>
    rw [hkind (k := .KindArray) rfl]
    rfl
  | .primArray p (some a) =>
    rw [hkind (k := .KindArray) rfl, TypedArg.raw, Option.map_some, buildJNIValue_prim]
    rfl
  | .refArray _ _ a =>
    rw [hkind (k := .KindArray) rfl]
    rfl

/-- **Round trip.** Decoding the encoded arguments of a method gives one
    value for each argument, in order, with its kind and value. -/
theorem decodeArgs_vis_encode_typed_args (deref : UInt64 → Option JRef) {args : List TypedArg}
    {ws : List UInt64} (hargs : List.Forall₂ (TypedArg.ExtractedAs deref) args ws)
    (hnamed : ∀ a ∈ args, a.Named) (ret : Bytes) :
    decodeArgs (vis_encode_typed_args deref (some (methodDesc args ret)) ws) =
      args.map TypedArg.value := by
  have hfree : ∀ r ∈ args.map TypedArg.record, (0x02 : UInt8) ∉ r := by
    intro r hr
    obtain ⟨a, -, rfl⟩ := List.mem_map.mp hr
    exact notMem_record a
  have hread : ∀ a ∈ args, (decodeRecord ∘ TypedArg.record) a = (some ∘ TypedArg.value) a :=
    fun a ha => decodeRecord_record a (hnamed a ha)
  rw [vis_encode_typed_args_eq hargs, decodeArgs_terminated hfree, List.filterMap_map,
    List.filterMap_congr hread, List.filterMap_eq_map]

/-- The argument list of the run below: an `int`, a string and an object
    with framing bytes in their texts, a null and a `long` array. -/
def mixedArgs : List TypedArg :=
  [.prim .I (-5),
    .ref ⟨ascii "java/lang/String", by decide⟩ (some (.string ⟨[0x61, 0x02, 0x1a], by decide⟩)),
    .ref ⟨ascii "a/B", by decide⟩
      (some (.object ⟨ascii "a/B", by decide⟩ (some ⟨[0x05, 0x03], by decide⟩))),
    .ref ⟨ascii "a/B", by decide⟩ none,
    .primArray .J (some ⟨[7, -1], by decide⟩)]

/-- The memory of the run: where the references of `mixedArgs` point. -/
def mixedDeref : UInt64 → Option JRef
  | 0x10 => some (.obj (.string ⟨[0x61, 0x02, 0x1a], by decide⟩))
  | 0x20 => some (.obj (.object ⟨ascii "a/B", by decide⟩ (some ⟨[0x05, 0x03], by decide⟩)))
  | 0x30 => some (.arr (.J ⟨[7, -1], by decide⟩))
  | _ => none

theorem decodeArgs_mixedArgs :
    decodeArgs (vis_encode_typed_args mixedDeref (some (methodDesc mixedArgs (ascii "V")))
      [0xfffffffb, 0x10, 0x20, 0, 0x30]) = mixedArgs.map TypedArg.value := by
  refine decodeArgs_vis_encode_typed_args mixedDeref ?_ ?_ (ascii "V")
  · refine .cons ?_ (.cons ⟨by decide, rfl⟩ (.cons ⟨by decide, rfl⟩
      (.cons rfl (.cons ⟨by decide, rfl⟩ .nil))))
    show (0xfffffffb : UInt64).toUInt32.toInt32 = -5
    decide
  · intro a ha
    simp only [mixedArgs, List.mem_cons, List.not_mem_nil, or_false] at ha
    rcases ha with rfl | rfl | rfl | rfl | rfl <;> simp [TypedArg.Named]
    decide

end JniLog.TypedArgs
