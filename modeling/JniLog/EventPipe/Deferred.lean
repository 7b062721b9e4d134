import JniLog.EventPipe.Reader

/-! # Deferred and in-thread rendering of an object

    Model of how the hooks hand an object to the consumer:
    `event_pipe_defer_render_push` of `event_pipe.c`, `classify_object`
    and `fill_object_strings` of `hook_logging.c`, `field_obj_parts` of
    `hook_fields.c`, at the five places of an event where an object can
    stand.

    When the sidecar takes the object, the event carries a placeholder
    and the consumer renders the reference. When it does not (no consumer,
    a full sidecar, no global reference), the hook renders the object in
    its own thread, as far as JNI calls are allowed there. `Agrees`
    compares the values the reader builds of the two.

    Main results:

    * a rendered chunk parses back to the object's kind, text and extra;
    * the two ways agree for receivers the reader does not look at, and
      for the values of `Set…ObjectField` that pass through their slots
      unchanged; for the receiver of an instance method and for returned
      objects the in-thread text is read as a chunk. -/

namespace JniLog.EventPipe

open Bytes Visualize

/-! ## Section 1: Handing an object over -/

/-- There is room for one more reference when the sidecar is not full. -/
theorem RenderRefs.room_push (tls : RenderRefs) (hfull : ¬ tls.refs.length ≥ EVENT_PIPE_MAX_REFS)
    (gref : UInt64) : (tls.refs ++ [gref]).length ≤ EVENT_PIPE_MAX_REFS := by
  rw [List.length_append, List.length_singleton]
  omega

/-- `event_pipe_defer_render_push` of a non-NULL object with a non-NULL
    `env`; `newGlobalRef` is the answer of `NewGlobalRef`, when asked. -/
def event_pipe_defer_render_push (consumer_ready : Bool) (newGlobalRef : Option UInt64)
    (tls : RenderRefs) : Option Nat × RenderRefs :=
  if consumer_ready = false then (none, tls)
  else if hfull : tls.refs.length ≥ EVENT_PIPE_MAX_REFS then (none, tls)
  else
    match newGlobalRef with
    | none => (none, tls)
    | some gref => (some tls.refs.length, ⟨tls.refs ++ [gref], true, tls.room_push hfull gref⟩)

/-- The kind sentinel of a deferred object. -/
def FIELD_KIND_DEFERRED_OBJECT : Int32 := 0xFE

/-- `classify_object` of a non-NULL object. -/
def classify_object (_ : JObj) : Int32 :=
  FIELD_KIND_DEFERRED_OBJECT

/-- The placeholder of a sidecar slot: `"\x1A"` and the slot plus one. -/
def placeholder (slotn : Nat) : Bytes :=
  [0x1A, UInt8.ofNat (slotn + 1)]

/-- `fill_object_strings` of a non-NULL object, given the answer of the
    push. `safe` is the answer of `vis_safe_to_call`, without which the
    helpers give nothing. -/
def fill_object_strings (safe : Bool) (slotn : Option Nat) (obj : JObj) : Bytes × Bytes :=
  match slotn with
  | some slotn => (placeholder slotn, [])
  | none =>
    if safe = false then ([], [])
    else if vis_is_string obj then (vis_string_value_raw obj, [])
    else if vis_is_class obj then (vis_class_name obj, [])
    else (vis_object_class_name obj, (vis_object_tostring_safe obj).getD [])

/-- `field_obj_parts` of a non-NULL object, given the answers of the push
    and of `vis_safe_to_call`: the kind and the two texts. -/
def field_obj_parts (safe : Bool) (slotn : Option Nat) (obj : JObj) : Int32 × Bytes × Bytes :=
  match slotn with
  | some slotn => (FIELD_KIND_DEFERRED_OBJECT, placeholder slotn, [])
  | none =>
    if safe = false then (12, [], [])
    else if vis_is_string obj then (10, vis_string_value obj, [])
    else if vis_is_class obj then (11, vis_class_name obj, [])
    else (12, vis_object_class_name obj, (vis_object_tostring_safe obj).getD [])

/-- The C string at the start of a byte string. -/
def cstr (s : Bytes) : CStr :=
  ⟨s.takeWhile (· ≠ 0), fun h => by simpa using List.mem_takeWhile_imp h⟩

theorem cstr_val {s : Bytes} (h : (0 : UInt8) ∉ s) : (cstr s).val = s :=
  List.takeWhile_eq_self_iff.mpr fun b hb => by
    have hne : b ≠ 0 := fun heq => h (heq ▸ hb)
    simpa using hne

/-! ## Section 2: The places of an event that carry an object -/

/-- Where an object stands in an event. -/
inductive Site where
  /-- the receiver of a method call; of a static one, the class -/
  | receiver (is_static : Bool)
  /-- the value a method returns -/
  | returnValue
  /-- the receiver of a field access; of a static one, the class, and what
      the field cache has as its name -/
  | fieldReceiver (is_static : Bool) (clazz_name : Option CStr)
  /-- the value a `Get…ObjectField` returns -/
  | getFieldValue
  /-- the value given to a `Set…ObjectField` -/
  | setFieldValue

/-- The class name that a static field access shows for its receiver. -/
def Site.knownClass : Site → Option CStr
  | fieldReceiver true clazz_name => clazz_name.filter fun name => name.val ≠ []
  | _ => none

/-- The push of the object; a receiver shown by its class name is not pushed. -/
def Site.push (site : Site) (consumer_ready : Bool) (newGlobalRef : Option UInt64)
    (tls : RenderRefs) : Option Nat × RenderRefs :=
  match site.knownClass with
  | some _ => (none, tls)
  | none => event_pipe_defer_render_push consumer_ready newGlobalRef tls

/-- The kind and the texts the hook puts into the event. -/
def Site.parts (site : Site) (safe : Bool) (slotn : Option Nat) (obj : JObj) :
    Int32 × Bytes × Bytes :=
  match site.knownClass with
  | some name => (11, name, [])
  | none =>
    match site with
    -- a static call keeps the texts but not the kind
    | receiver true => (0, fill_object_strings safe slotn obj)
    | setFieldValue => field_obj_parts safe slotn obj
    | receiver false | returnValue | fieldReceiver _ _ | getFieldValue =>
      (classify_object obj, fill_object_strings safe slotn obj)

/-- The rest of the event. `handle` is the object's own reference. -/
structure EventRest where
  call_id : UInt64
  offset : Int32
  kind : Int32
  raw : UInt64
  handle : UInt64
  s₁ : Option CStr
  s₂ : Option CStr
  s₃ : Option CStr
  s₄ : Option CStr
  s₅ : Option CStr
  handle_ne : handle ≠ 0

theorem one_ne_null : (1 : UInt64) ≠ 0 := by decide

instance : Inhabited EventRest :=
  ⟨⟨0, 0, 0, 0, 1, none, none, none, none, none, one_ne_null⟩⟩

/-- The event with the object's parts at its place. -/
def Site.emit (site : Site) (rest : EventRest) (parts : Int32 × Bytes × Bytes) : EmitCall :=
  let (kind, str, extra) := parts
  match site with
  | receiver _ =>
    .call rest.call_id rest.offset kind rest.raw rest.s₁ (cstr str) (cstr extra) rest.s₂ rest.s₃
      rest.s₄ rest.s₅
  | returnValue =>
    .return rest.call_id rest.offset kind rest.handle rest.s₁ (cstr str) (cstr extra)
  | fieldReceiver _ _ =>
    .field_access rest.offset rest.s₁ kind (cstr str) (cstr extra) rest.s₂ rest.kind rest.raw
      rest.s₃ rest.s₄ rest.s₅
  | getFieldValue | setFieldValue =>
    .field_access rest.offset rest.s₁ rest.kind rest.s₂ rest.s₃ rest.s₄ kind rest.handle (cstr str)
      (cstr extra) rest.s₅

/-- The value the reader builds of a kind, a text and an extra. -/
def Site.build (site : Site) (raw : UInt64) (o : Int × Bytes × Bytes) : JNIValue :=
  match site with
  | receiver _ | fieldReceiver _ _ => decodeSingleReceiver o.1 o.2.1 o.2.2
  | returnValue | getFieldValue | setFieldValue => buildReturnValue o.1 raw o.2.1 o.2.2

/-- How the reader takes a site's slots. The kind of a field receiver is
    taken as it is, the sentinel included. -/
def Site.read (site : Site) (raw : UInt64) (kind : Nat) (str extra : Bytes) : JNIValue :=
  match site with
  | fieldReceiver _ _ => site.build raw (kind, str, extra)
  | _ => site.build raw (unpackDeferred kind str extra)

/-- The value the reader has of the object. -/
def Site.obtained (site : Site) (heap : UInt64 → JObj) (consumerEnv : Bool) (ev : Event) :
    JNIValue :=
  let strs := substituted heap consumerEnv ev
  match site with
  | receiver _ | fieldReceiver _ _ =>
    site.read ev.midOrRaw ev.receiverKind (strs.getD 1 []) (strs.getD 2 [])
  | returnValue => site.read ev.midOrRaw ev.retKind (strs.getD 1 []) (strs.getD 2 [])
  | getFieldValue | setFieldValue =>
    site.read ev.midOrRaw ev.retKind (strs.getD 4 []) (strs.getD 5 [])

/-- What the reader obtains from a datagram. -/
def Site.obtainedFrom (site : Site) (heap : UInt64 → JObj) (consumerEnv : Bool) (d : Bytes) :
    Option JNIValue :=
  match readDatagram d with
  | .ok (some ev) => some (site.obtained heap consumerEnv ev)
  | _ => none

section Dispatch

variable {heap : UInt64 → JObj} {order : RangeOrder} {r : Reader} {ev : Event}

/-- `dispatchCall` stores the receiver obtained. -/
theorem dispatchEvent_receiver (is_static : Bool) (hty : ev.eventType = evCall)
    (hlen : ev.strs.length = 7) :
    ∃ pc, (dispatchEvent heap order r ev).reader = (pendingStore order r ev.callID pc).1 ∧
      pc.frame.receiver = (Site.receiver is_static).obtained heap r.consumerEnv ev := by
  match hs : substituted heap r.consumerEnv ev, (length_substituted r.consumerEnv).trans hlen with
  | [s₁, s₂, s₃, s₄, s₅, s₆, s₇], _ =>
    rw [dispatchEvent_call hty hs]
    refine ⟨_, rfl, ?_⟩
    simp [callFrameOf, Site.obtained, Site.read, Site.build, hs]

/-- `dispatchReturn` reports the result obtained. -/
theorem dispatchEvent_returnValue (hty : ev.eventType = evReturn) (hlen : ev.strs.length = 3) :
    ∃ name, (dispatchEvent heap order r ev).lines =
      (finishReturn r ev.callID ev.offset name
        (Site.returnValue.obtained heap r.consumerEnv ev)).2 := by
  match hs : substituted heap r.consumerEnv ev, (length_substituted r.consumerEnv).trans hlen with
  | [s₁, s₂, s₃], _ =>
    rw [dispatchEvent_return hty hs]
    refine ⟨s₁, ?_⟩
    simp [dispatchReturn, Site.obtained, Site.read, Site.build, hs]

/-- The field-access case reports the receiver and the value obtained. -/
theorem dispatchEvent_field (is_static : Bool) (clazz_name : Option CStr)
    (hty : ev.eventType = evFieldAccess) (hlen : ev.strs.length = 7) :
    ∃ name fieldName caller, (dispatchEvent heap order r ev).lines =
      [.emitFieldAccess ev.offset name
        ((Site.fieldReceiver is_static clazz_name).obtained heap r.consumerEnv ev) fieldName
        (Site.setFieldValue.obtained heap r.consumerEnv ev) caller] ∧
      Site.getFieldValue.obtained heap r.consumerEnv ev =
        Site.setFieldValue.obtained heap r.consumerEnv ev := by
  match hs : substituted heap r.consumerEnv ev, (length_substituted r.consumerEnv).trans hlen with
  | [s₁, s₂, s₃, s₄, s₅, s₆, s₇], _ =>
    rw [dispatchEvent_fieldAccess hty hs]
    refine ⟨s₁, s₄, s₇, ?_, rfl⟩
    simp [dispatchFieldAccess, Site.obtained, Site.read, Site.build, hs]

end Dispatch

/-! ## Section 3: A rendered chunk parses back -/

/-- The kind, text and extra an object should be shown with. -/
def objParts : JObj → Int × Bytes × Bytes
  | .string content => (WIRE_KIND_STRING, content, [])
  | .clazz name _ => (WIRE_KIND_CLASS, name, [])
  | .object className toString => (WIRE_KIND_OBJECT, className, (toString.map Subtype.val).getD [])

theorem parseRenderedChunk_chunk {sig : UInt8} {kind : Int} (hkind : chunkKind sig = some kind)
    (hne : kind ≠ WIRE_KIND_NULL) (str extra : Bytes) :
    parseRenderedChunk (chunk sig str extra) = (kind, str, extra) := by
  have hstr : (0x03 : UInt8) ∉ wireCode.escape str := notMem_wireCode rfl (by decide) str
  unfold chunk
  simp only [escapeWireContent_eq]
  by_cases hextra : extra = []
  · subst hextra
    simp [parseRenderedChunk, hkind, parseChunkBody, cut_eq_none hstr, hne]
  · have hcut : cut 0x03 (wireCode.escape str ++ [0x03] ++ wireCode.escape extra)
        = some (wireCode.escape str, wireCode.escape extra) := by
      rw [List.append_assoc]
      exact cut_append hstr
    simp [parseRenderedChunk, hkind, parseChunkBody, hne, hextra, hcut, -List.append_assoc,
      -List.cons_append]

/-- **Deferred rendering loses nothing.** -/
theorem parseRenderedChunk_renderRefChunk {heap : UInt64 → JObj} {gref : UInt64} (h : gref ≠ 0) :
    parseRenderedChunk (renderRefChunk heap true gref).1 = objParts (heap gref) := by
  unfold renderRefChunk event_pipe_render_obj
  cases heap gref with
  | string content =>
    simp [h, vis_is_string, vis_string_value_raw, objParts]
    exact parseRenderedChunk_chunk rfl (by decide) _ _
  | clazz name toString =>
    simp [h, vis_is_string, vis_is_class, vis_class_name, objParts, WIRE_KIND_STRING,
      WIRE_KIND_CLASS]
    exact parseRenderedChunk_chunk rfl (by decide) _ _
  | object className toString =>
    simp [h, vis_is_string, vis_is_class, vis_object_class_name, vis_object_tostring_safe,
      objParts, WIRE_KIND_STRING, WIRE_KIND_CLASS, WIRE_KIND_OBJECT]
    exact parseRenderedChunk_chunk rfl (by decide) _ _

/-! ## Section 4: What a slot does to a text -/

/-- `s` has no marker byte followed by one of the slot bytes `1 … k`. -/
def noPlaceholder (k : Nat) : Bytes → Prop
  | [] => True
  | [_] => True
  | b :: c :: s => ¬ (b = 0x1A ∧ 1 ≤ c.toNat ∧ c.toNat ≤ k) ∧ noPlaceholder k (c :: s)

def noPlaceholder.dec (k : Nat) : (s : Bytes) → Decidable (noPlaceholder k s)
  | [] => isTrue trivial
  | [_] => isTrue trivial
  | _ :: c :: s => @instDecidableAnd _ _ inferInstance (noPlaceholder.dec k (c :: s))

instance (k : Nat) : DecidablePred (noPlaceholder k) := noPlaceholder.dec k

theorem noPlaceholder_of_notMem {k : Nat} {s : Bytes} (h : (0x1A : UInt8) ∉ s) :
    noPlaceholder k s := by
  induction s using noPlaceholder.induct with
  | case1 => trivial
  | case2 b => trivial
  | case3 b c s ih =>
    simp only [List.mem_cons, not_or] at h
    refine ⟨fun hb => h.1 hb.1.symm, ih ?_⟩
    simp [h.2]

/-- With no slot there is no placeholder. -/
theorem noPlaceholder_of_zero (s : Bytes) : noPlaceholder 0 s := by
  induction s using noPlaceholder.induct with
  | case1 => trivial
  | case2 b => trivial
  | case3 b c s ih => exact ⟨fun hb => by omega, ih⟩

theorem noPlaceholder_mono {k m : Nat} (hkm : k ≤ m) {s : Bytes} (h : noPlaceholder m s) :
    noPlaceholder k s := by
  induction s using noPlaceholder.induct with
  | case1 => trivial
  | case2 b => trivial
  | case3 b c s ih => exact ⟨fun hb => h.1 ⟨hb.1, hb.2.1, by omega⟩, ih h.2⟩

/-- Chunks start with a byte that is not the marker. -/
def Unmarked (rendered : List Bytes) : Prop :=
  ∀ c ∈ rendered, ∃ b bs, c = b :: bs ∧ b ≠ 0x1A

section Substitute

variable {rendered : List Bytes}

theorem substituteLoop_of_noPlaceholder {s : Bytes} (h : noPlaceholder rendered.length s) :
    substituteLoop rendered s = s := by
  induction s using noPlaceholder.induct with
  | case1 => rfl
  | case2 b => rfl
  | case3 b c s ih =>
    have hneg : ¬ (b = 0x1A ∧ 1 ≤ c.toNat ∧ c.toNat - 1 < rendered.length) :=
      fun hb => h.1 ⟨hb.1, hb.2.1, by omega⟩
    rw [substituteLoop, if_neg hneg, ih h.2]

/-- The shortcut of `substitutePlaceholders` changes nothing. -/
theorem substitutePlaceholders_eq (s : Bytes) :
    substitutePlaceholders s rendered = substituteLoop rendered s := by
  unfold substitutePlaceholders
  split
  · rename_i h
    rcases h with h | h
    · exact (substituteLoop_of_noPlaceholder (h ▸ noPlaceholder_of_zero s)).symm
    · match s, h with
      | [], _ => rfl
      | [b], _ => rfl
  · rfl

/-- A substitution that goes through puts a chunk where the marker was. -/
theorem exists_chunk (hr : Unmarked rendered) {c : UInt8}
    (hlt : c.toNat - 1 < rendered.length) :
    ∃ b bs, rendered.getD (c.toNat - 1) [] = b :: bs ∧ b ≠ 0x1A := by
  have hget : rendered.getD (c.toNat - 1) [] = rendered[c.toNat - 1] := by
    simp [List.getD, hlt]
  rw [hget]
  exact hr _ (List.getElem_mem hlt)

/-- A substitution leaves nothing only of nothing. -/
theorem substitutePlaceholders_eq_nil_iff (hr : Unmarked rendered) {s : Bytes} :
    substitutePlaceholders s rendered = [] ↔ s = [] := by
  rw [substitutePlaceholders_eq]
  match s with
  | [] => simp [substituteLoop]
  | [b] => simp [substituteLoop]
  | b :: c :: s =>
    rw [substituteLoop]
    split
    · rename_i hb
      obtain ⟨x, xs, hx, -⟩ := exists_chunk hr hb.2.2
      rw [hx]
      simp
    · simp

/-- A prefix of `n` is substituted into `n`, up to a change of bytes that
    keeps the marker apart, only when it is `n` and there is nothing to
    substitute: the first chunk would differ from `n` at the marker. -/
theorem substituteLoop_of_isPrefix (hr : Unmarked rendered) {g : UInt8 → UInt8}
    (hg : ∀ b, g b = g 0x1A → b = 0x1A) {t n : Bytes} (hpre : t <+: n)
    (h : (substituteLoop rendered t).map g = n.map g) :
    t = n ∧ noPlaceholder rendered.length t := by
  induction t using noPlaceholder.induct generalizing n with
  | case1 => exact ⟨(List.map_eq_nil_iff.mp h.symm).symm, trivial⟩
  | case2 b =>
    refine ⟨hpre.eq_of_length ?_, trivial⟩
    simpa [substituteLoop] using congrArg List.length h
  | case3 b c s ih =>
    obtain ⟨u, rfl⟩ := hpre
    by_cases hb : b = 0x1A ∧ 1 ≤ c.toNat ∧ c.toNat - 1 < rendered.length
    · obtain ⟨x, xs, hx, hne⟩ := exists_chunk hr hb.2.2
      rw [substituteLoop, if_pos hb, hx] at h
      simp only [List.cons_append, List.map_cons, List.cons.injEq] at h
      exact absurd (hg x (hb.1 ▸ h.1)) hne
    · rw [substituteLoop, if_neg hb] at h
      simp only [List.cons_append, List.map_cons, List.cons.injEq, true_and] at h
      obtain ⟨heq, hno⟩ := ih (List.prefix_append (c :: s) u) (by simpa using h)
      exact ⟨congrArg (b :: ·) heq, fun hp => hb ⟨hp.1, hp.2.1, by omega⟩, hno⟩

/-- A prefix of a text between two quotes is substituted into the text
    only when all of it is quotes and there is nothing to substitute. -/
theorem substituteLoop_eq_of_quoted {q : UInt8} (hq : q ≠ 0x1A)
    {t c : Bytes} (hpre : t <+: q :: (c ++ [q])) (h : substituteLoop rendered t = c) :
    t = c ∧ ∀ b ∈ c, b = q := by
  induction t using noPlaceholder.induct generalizing c with
  | case1 =>
    subst h
    exact ⟨rfl, by simp [substituteLoop]⟩
  | case2 b =>
    have hb : b = q := by
      obtain ⟨u, hu⟩ := hpre
      simp only [List.cons_append, List.cons.injEq] at hu
      exact hu.1
    subst hb
    subst h
    exact ⟨rfl, by simp [substituteLoop]⟩
  | case3 b b' s ih =>
    have hb : b = q ∧ b' :: s <+: c ++ [q] := by
      obtain ⟨u, hu⟩ := hpre
      simp only [List.cons_append, List.cons.injEq] at hu
      exact ⟨hu.1, ⟨u, hu.2⟩⟩
    obtain ⟨rfl, hrest⟩ := hb
    -- the first byte is the quote, so the text starts with it as well
    rw [substituteLoop, if_neg fun hp => hq hp.1] at h
    subst h
    obtain ⟨heq, hall⟩ := ih (c := substituteLoop rendered (b' :: s)) (by simpa using hrest) rfl
    refine ⟨by rw [← heq], ?_⟩
    intro x hx
    rcases List.mem_cons.mp hx with rfl | hx
    · rfl
    · exact hall x hx

end Substitute

theorem unmarked_rendered (heap : UInt64 → JObj) (consumerEnv : Bool) (refs : List UInt64) :
    Unmarked (refs.map fun gref => (renderRefChunk heap consumerEnv gref).1) := by
  have hchunk (sig : UInt8) (hsig : sig ≠ 0x1A) (str extra : Bytes) :
      ∃ b bs, chunk sig str extra = b :: bs ∧ b ≠ 0x1A := by
    unfold chunk
    split
    · exact ⟨sig, _, rfl, hsig⟩
    · exact ⟨sig, _, rfl, hsig⟩
  intro c hc
  obtain ⟨gref, -, rfl⟩ := List.mem_map.mp hc
  unfold renderRefChunk
  split
  · exact ⟨0x70, _, rfl, by decide⟩
  · simp only
    split
    · exact hchunk _ (by decide) _ _
    · split
      · exact hchunk _ (by decide) _ _
      · split
        · exact hchunk _ (by decide) _ _
        · exact ⟨0x70, _, rfl, by decide⟩

/-! ## Section 5: The two ways compared -/

/-- An event whose sidecar takes the object at reference `gref`. -/
structure Accepted (obj : JObj) where
  tls : RenderRefs
  gref : UInt64
  later : List UInt64
  heap : UInt64 → JObj
  safe : Bool
  rest : EventRest
  gref_ne : gref ≠ 0
  heap_gref : heap gref = obj
  room : tls.refs.length + 1 + later.length ≤ EVENT_PIPE_MAX_REFS

/-- An event whose sidecar refuses the object: no consumer is ready, the
    sidecar is full, or there is no global reference to be had. -/
structure Refused where
  tls : RenderRefs
  consumer_ready : Bool
  newGlobalRef : Option UInt64
  later : List UInt64
  heap : UInt64 → JObj
  consumerEnv : Bool
  safe : Bool
  rest : EventRest
  refused : (event_pipe_defer_render_push consumer_ready newGlobalRef tls).1 = none
  room : tls.refs.length + later.length ≤ EVENT_PIPE_MAX_REFS

/-- What the reader obtains of the object from the event that defers it. -/
def Accepted.obtained {obj : JObj} (a : Accepted obj) (site : Site) : Option JNIValue :=
  let push := site.push true (some a.gref) a.tls
  let refs := push.2.refs ++ a.later
  site.obtainedFrom a.heap true ((site.emit a.rest (site.parts a.safe push.1 obj)).datagram refs)

/-- What the reader obtains of the object from the event that renders it
    in the hook's thread. -/
def Refused.obtained (b : Refused) (site : Site) (obj : JObj) : Option JNIValue :=
  let push := site.push b.consumer_ready b.newGlobalRef b.tls
  let refs := push.2.refs ++ b.later
  site.obtainedFrom b.heap b.consumerEnv
    ((site.emit b.rest (site.parts b.safe push.1 obj)).datagram refs)

/-- The reader obtains the same whether the sidecar takes the object or
    refuses it, whatever else the two events carry. `safe` says whether the
    thread that is refused may make JNI calls. -/
def Agrees (safe : Bool) (site : Site) (obj : JObj) : Prop :=
  ∀ (a : Accepted obj) (b : Refused), b.safe = safe → b.obtained site obj = a.obtained site

/-- A slot carries the text unchanged, whatever the sidecar holds. -/
def Unchanged (s : Bytes) : Prop :=
  s.length ≤ EV_STR_MAX_BYTES ∧ noPlaceholder EVENT_PIPE_MAX_REFS s

/-- An object whose class has no name. -/
def Unnamed : JObj → Prop
  | .object className _ => className.val = []
  | _ => False

/-- A field value that the in-thread rendering gets right. -/
def CarriedValue (safe : Bool) : JObj → Prop
  | .string content => safe = true ∧ content.val = List.replicate EV_STR_MAX_BYTES 0x22
  | .clazz name _ => safe = true ∧ Unchanged name
  | .object className toString =>
    let text := (toString.map Subtype.val).getD []
    (safe = true ∨ (className.val = [] ∧ text = [])) ∧ Unchanged className ∧ Unchanged text

/-- Where and for which objects the two ways agree. -/
def Site.Agreeable (site : Site) (safe : Bool) (obj : JObj) : Prop :=
  match site with
  | receiver true => True
  | receiver false => Unnamed obj
  | returnValue | getFieldValue => False
  | fieldReceiver _ _ =>
    ∀ name ∈ site.knownClass, noPlaceholder EVENT_PIPE_MAX_REFS (clip EV_STR_MAX_BYTES name)
  | setFieldValue => CarriedValue safe obj

/-- What stands in the raw slot of a site's event. -/
def Site.raw (site : Site) (rest : EventRest) : UInt64 :=
  match site with
  | receiver _ | fieldReceiver _ _ => rest.raw
  | returnValue | getFieldValue | setFieldValue => rest.handle

theorem Site.obtainedFrom_emit (site : Site) (heap : UInt64 → JObj) (consumerEnv : Bool)
    {refs : List UInt64} (hrefs : refs.length ≤ EVENT_PIPE_MAX_REFS) (rest : EventRest)
    (kind : Int32) {str extra : Bytes} (hstr : (0 : UInt8) ∉ str) (hextra : (0 : UInt8) ∉ extra) :
    site.obtainedFrom heap consumerEnv ((site.emit rest (kind, str, extra)).datagram refs) =
      let rendered := refs.map fun gref => (renderRefChunk heap consumerEnv gref).1
      some (site.read (site.raw rest) (kindByte kind).toNat
        (substituteLoop rendered (clip EV_STR_MAX_BYTES str))
        (substituteLoop rendered (clip EV_STR_MAX_BYTES extra))) := by
  rw [Site.obtainedFrom, EmitCall.readDatagram_datagram _ hrefs]
  cases site <;>
    simp [Site.obtained, substituted, Site.emit, EmitCall.event, slot, text, cstr_val hstr,
      cstr_val hextra, Site.raw, substitutePlaceholders_eq]

/-- The two texts of the in-thread rendering. -/
theorem fill_object_strings_none (obj : JObj) :
    fill_object_strings true none obj = (objParts obj).2 := by
  cases obj <;> rfl

theorem zero_notMem_objParts (obj : JObj) :
    (0 : UInt8) ∉ (objParts obj).2.1 ∧ (0 : UInt8) ∉ (objParts obj).2.2 := by
  cases obj with
  | string content => exact ⟨content.property, by simp [objParts]⟩
  | clazz name _ => exact ⟨name.property, by simp [objParts]⟩
  | object className toString =>
    refine ⟨className.property, ?_⟩
    cases toString with
    | none => simp [objParts]
    | some text => exact text.property

theorem placeholder_eq {slotn : Nat} (h : slotn < EVENT_PIPE_MAX_REFS) (rendered : List Bytes)
    (hlen : slotn < rendered.length) :
    (0 : UInt8) ∉ placeholder slotn ∧
      substituteLoop rendered (clip EV_STR_MAX_BYTES (placeholder slotn)) =
        rendered.getD slotn [] := by
  have hmax : EVENT_PIPE_MAX_REFS = 8 := rfl
  have hbyte : (UInt8.ofNat (slotn + 1)).toNat = slotn + 1 := by
    simp
    omega
  have hne : UInt8.ofNat (slotn + 1) ≠ 0 := by
    intro h0
    rw [h0] at hbyte
    simp at hbyte
  have hclip : clip EV_STR_MAX_BYTES (placeholder slotn) = placeholder slotn :=
    if_pos (by simp [placeholder, EV_STR_MAX_BYTES])
  constructor
  · simp only [placeholder, List.mem_cons, List.not_mem_nil, or_false, not_or]
    exact ⟨by decide, Ne.symm hne⟩
  · rw [hclip, placeholder, substituteLoop, if_pos ⟨rfl, by omega, by omega⟩, hbyte]
    simp [substituteLoop]

theorem push_none {consumer_ready : Bool} {newGlobalRef : Option UInt64} {tls : RenderRefs}
    (h : (event_pipe_defer_render_push consumer_ready newGlobalRef tls).1 = none) :
    event_pipe_defer_render_push consumer_ready newGlobalRef tls = (none, tls) := by
  unfold event_pipe_defer_render_push at h ⊢
  split
  · rfl
  · split
    · rfl
    · cases newGlobalRef with
      | none => rfl
      | some gref => simp_all

/-- The kind a site announces for a deferred object. -/
def Site.announced : Site → Int32
  | receiver true => 0
  | _ => FIELD_KIND_DEFERRED_OBJECT

/-- **The deferred way**: the rendered chunk stands in the text's slot. -/
theorem Accepted.obtained_eq {obj : JObj} (a : Accepted obj) {site : Site}
    (hunknown : site.knownClass = none) :
    a.obtained site = some (site.read (site.raw a.rest) (kindByte site.announced).toNat
      (renderRefChunk a.heap true a.gref).1 []) := by
  have hmax : EVENT_PIPE_MAX_REFS = 8 := rfl
  have hroom := a.room
  have hpush : site.push true (some a.gref) a.tls =
      (some a.tls.refs.length, ⟨a.tls.refs ++ [a.gref], true, by simp; omega⟩) := by
    simp only [Site.push, hunknown]
    rw [event_pipe_defer_render_push, if_neg (by decide), dif_neg (by omega)]
  have hparts : site.parts a.safe (some a.tls.refs.length) obj =
      (site.announced, placeholder a.tls.refs.length, []) := by
    simp only [Site.parts, hunknown]
    cases site with
    | receiver is_static => cases is_static <;> rfl
    | _ => rfl
  have hslot : a.tls.refs.length < EVENT_PIPE_MAX_REFS := by omega
  obtain ⟨hzero, hsubst⟩ := placeholder_eq hslot ((a.tls.refs ++ [a.gref] ++ a.later).map
    fun gref => (renderRefChunk a.heap true gref).1) (by simp)
  have hclip : clip EV_STR_MAX_BYTES [] = [] := rfl
  simp only [Accepted.obtained, hpush, hparts]
  rw [site.obtainedFrom_emit a.heap true (by simp; omega) a.rest _ hzero (by simp)]
  simp only [hsubst, hclip, substituteLoop]
  congr 2
  simp [List.getD]

/-- The chunks the consumer renders for a refused object's event. -/
def Refused.rendered (b : Refused) : List Bytes :=
  (b.tls.refs ++ b.later).map fun gref => (renderRefChunk b.heap b.consumerEnv gref).1

theorem zero_notMem_parts (site : Site) (safe : Bool) (obj : JObj) :
    (0 : UInt8) ∉ (site.parts safe none obj).2.1 ∧
      (0 : UInt8) ∉ (site.parts safe none obj).2.2 := by
  have hfill : (0 : UInt8) ∉ (fill_object_strings safe none obj).1 ∧
      (0 : UInt8) ∉ (fill_object_strings safe none obj).2 := by
    cases safe with
    | false => exact ⟨List.not_mem_nil, List.not_mem_nil⟩
    | true =>
      rw [fill_object_strings_none]
      exact zero_notMem_objParts obj
  unfold Site.parts
  split
  · rename_i name _
    exact ⟨name.property, List.not_mem_nil⟩
  · split
    · exact hfill
    · cases safe with
      | false => exact ⟨List.not_mem_nil, List.not_mem_nil⟩
      | true =>
        cases obj with
        | string content =>
          refine ⟨?_, List.not_mem_nil⟩
          simpa [field_obj_parts, vis_is_string, vis_string_value, vis_string_value_raw,
            ascii] using content.property
        | clazz name _ => exact hfill
        | object className toString => exact hfill
    all_goals exact hfill

/-- **The in-thread way**: the texts go through their slots. -/
theorem Refused.obtained_eq (b : Refused) (site : Site) (obj : JObj) :
    b.obtained site obj =
      let parts := site.parts b.safe none obj
      some (site.read (site.raw b.rest) (kindByte parts.1).toNat
        (substituteLoop b.rendered (clip EV_STR_MAX_BYTES parts.2.1))
        (substituteLoop b.rendered (clip EV_STR_MAX_BYTES parts.2.2))) := by
  have hzero := zero_notMem_parts site b.safe obj
  have hpush : site.push b.consumer_ready b.newGlobalRef b.tls = (none, b.tls) := by
    unfold Site.push
    split
    · rfl
    · exact push_none b.refused
  simp only [Refused.obtained, hpush]
  exact site.obtainedFrom_emit b.heap b.consumerEnv (by simpa using b.room) b.rest _ hzero.1 hzero.2

/-! ## Section 6: What is built of a chunk -/

theorem chunkKind_cases {sig : UInt8} {kind : Int} (h : chunkKind sig = some kind) :
    kind = WIRE_KIND_NULL ∨ kind ∈ [WIRE_KIND_STRING, WIRE_KIND_CLASS, WIRE_KIND_OBJECT] := by
  unfold chunkKind at h
  split at h
  · obtain rfl := Option.some.inj h
    exact .inr (by decide)
  split at h
  · obtain rfl := Option.some.inj h
    exact .inr (by decide)
  split at h
  · obtain rfl := Option.some.inj h
    exact .inr (by decide)
  split at h
  · exact .inl (Option.some.inj h).symm
  · cases h

/-- The text of a chunk is an unescaped piece of its body. -/
theorem length_parseChunkBody (kind : Int) (body : Bytes) :
    (parseChunkBody kind body).2.1.length ≤ body.length := by
  have hlen (s : Bytes) : (unescapeWireContent s).length ≤ s.length := by
    rw [unescapeWireContent_eq]
    exact wireCode.length_unescape_le s
  have hstrip : (if body.getLast? = some 0x02 then body.dropLast else body).length ≤
      body.length := by
    split <;> simp
  unfold parseChunkBody
  generalize (if body.getLast? = some 0x02 then body.dropLast else body) = body' at hstrip ⊢
  simp only
  split
  · exact Nat.zero_le _
  · cases hcut : cut 0x03 body' with
    | none => exact (hlen body').trans hstrip
    | some p =>
      have hp := (cut_eq_some hcut).2
      have hpiece := hlen p.1
      rw [hp, List.length_append] at hstrip
      simp only
      omega

/-- A text read as a chunk is null, or a string, a class or an object that
    lost its first two bytes. -/
theorem parseRenderedChunk_cases (t : Bytes) :
    (parseRenderedChunk t).1 = WIRE_KIND_NULL ∨
      (parseRenderedChunk t).1 ∈ [WIRE_KIND_STRING, WIRE_KIND_CLASS, WIRE_KIND_OBJECT] ∧
        (parseRenderedChunk t).2.1.length + 2 ≤ t.length := by
  match t with
  | [] => exact .inl rfl
  | [_] => exact .inl rfl
  | sig :: sep :: body =>
    cases hkind : chunkKind sig with
    | none =>
      have heq : parseRenderedChunk (sig :: sep :: body) = (WIRE_KIND_NULL, [], []) := by
        simp only [parseRenderedChunk, hkind]
      rw [heq]
      exact .inl rfl
    | some kind =>
      have heq : parseRenderedChunk (sig :: sep :: body) =
          if body ≠ [] ∧ sep = 0x01 then parseChunkBody kind body else (kind, [], []) := by
        simp only [parseRenderedChunk, hkind]
      have hbody := length_parseChunkBody kind body
      rw [heq, List.length_cons, List.length_cons]
      split
      · exact (chunkKind_cases hkind).imp id fun h => ⟨h, Nat.add_le_add_right hbody 2⟩
      · exact (chunkKind_cases hkind).imp id fun h => ⟨h, Nat.le_add_left 2 _⟩

theorem objParts_kind (obj : JObj) :
    (objParts obj).1 ∈ [WIRE_KIND_STRING, WIRE_KIND_CLASS, WIRE_KIND_OBJECT] := by
  cases obj <;> simp [objParts]

namespace Site

variable (site : Site) (raw : UInt64)

theorem build_null (str extra : Bytes) :
    site.build raw (WIRE_KIND_NULL, str, extra) = NullValue := by
  cases site <;> rfl

/-- The text of a string, a class or an object is as long as what it is
    built of, unless it is shown as null. -/
theorem build_cases {o : Int × Bytes × Bytes}
    (h : o.1 ∈ [WIRE_KIND_STRING, WIRE_KIND_CLASS, WIRE_KIND_OBJECT]) :
    site.build raw o = NullValue ∨
      (site.build raw o).kind ≠ .KindNull ∧ (site.build raw o).str.length = o.2.1.length := by
  obtain ⟨kind, str, extra⟩ := o
  simp only [List.mem_cons, List.not_mem_nil, or_false] at h
  have hshown (kind : JNIKind) (hkind : kind ≠ .KindNull) {s : Bytes} (hs : s.length = str.length)
      (extra : Bytes) : ({ kind, str := s, extra } : JNIValue).kind ≠ .KindNull ∧
        ({ kind, str := s, extra } : JNIValue).str.length = str.length := ⟨hkind, hs⟩
  have hstring := hshown .KindString (by decide) rfl []
  have hclass := hshown .KindClass (by decide) (length_normalizeDots str) []
  have hobject := hshown .KindObject (by decide) (length_normalizeDots str) extra
  -- an object is shown as null under a condition that depends on the place
  have hnullable (c : Prop) [Decidable c] :
      let v : JNIValue :=
        if c then NullValue else { kind := .KindObject, str := normalizeDots str, extra }
      v = NullValue ∨ v.kind ≠ .KindNull ∧ v.str.length = str.length := by
    split
    · exact .inl rfl
    · exact .inr hobject
  have hreceiver : decodeSingleReceiver kind str extra = NullValue ∨
      (decodeSingleReceiver kind str extra).kind ≠ .KindNull ∧
        (decodeSingleReceiver kind str extra).str.length = str.length := by
    rcases h with rfl | rfl | rfl
    · exact .inr hstring
    · exact .inr hclass
    · exact hnullable (str = [])
  have hvalue : buildReturnValue kind raw str extra = NullValue ∨
      (buildReturnValue kind raw str extra).kind ≠ .KindNull ∧
        (buildReturnValue kind raw str extra).str.length = str.length := by
    rcases h with rfl | rfl | rfl
    · exact .inr hstring
    · exact .inr hclass
    · exact hnullable (str = [] ∧ raw = 0)
  cases site with
  | receiver _ => exact hreceiver
  | fieldReceiver _ _ => exact hreceiver
  | returnValue => exact hvalue
  | getFieldValue => exact hvalue
  | setFieldValue => exact hvalue

end Site

theorem safe_trunc_len_replicate {m len : Nat} (h : len < m) :
    safe_trunc_len (List.replicate m 0x22) len = len := by
  have hget (i : Nat) (hi : i < m) : (List.replicate m (0x22 : UInt8)).getD i 0 = 0x22 := by
    simp [List.getD, hi]
  cases len with
  | zero => rfl
  | succ n =>
    have hback : backToBoundary (List.replicate m 0x22) (n + 1) = n + 1 := by
      rw [backToBoundary, hget _ h, if_neg (by decide)]
    rw [safe_trunc_len, hback, dropHalves, hget n (by omega), if_neg (by decide)]

/-- The consumer is not there, and the sidecar is empty. -/
def noConsumer (safe : Bool) : Refused where
  tls := RenderRefs.empty
  consumer_ready := false
  newGlobalRef := none
  later := []
  heap := fun _ => .string default
  consumerEnv := false
  safe := safe
  rest := default
  refused := rfl
  room := by decide

/-- The sidecar is full. -/
def fullSidecar (safe : Bool) : Refused where
  tls := ⟨List.replicate EVENT_PIPE_MAX_REFS 1, true, by simp⟩
  consumer_ready := true
  newGlobalRef := none
  later := []
  heap := fun _ => .string default
  consumerEnv := true
  safe := safe
  rest := default
  refused := rfl
  room := by decide

/-- The object alone in the sidecar. -/
def onlyOne (obj : JObj) : Accepted obj where
  tls := RenderRefs.empty
  gref := 1
  later := []
  heap := fun _ => obj
  safe := true
  rest := default
  gref_ne := one_ne_null
  heap_gref := rfl
  room := by decide

/-- The deferred object itself, where the reader unpacks the sentinel. -/
theorem Accepted.obtained_unpacked {obj : JObj} (a : Accepted obj) {site : Site}
    (hsite : site = .receiver false ∨ site = .returnValue ∨ site = .getFieldValue ∨
      site = .setFieldValue) :
    a.obtained site = some (site.build (site.raw a.rest) (objParts obj)) := by
  have hchunk : parseRenderedChunk (renderRefChunk a.heap true a.gref).1 =
      objParts (a.heap a.gref) :=
    parseRenderedChunk_renderRefChunk a.gref_ne
  rw [a.heap_gref] at hchunk
  have hkind : (kindByte FIELD_KIND_DEFERRED_OBJECT).toNat = 0xFE := by decide
  rcases hsite with rfl | rfl | rfl | rfl <;>
    rw [a.obtained_eq rfl] <;>
    simp only [Site.read, Site.announced, hkind, unpackDeferred, if_true, hchunk]

/-- Where the sentinel is announced for a text, the reader shows null, or a
    text that is shorter than the object's. -/
theorem null_of_agrees {site : Site} {safe : Bool} {obj : JObj}
    (hsite : site = .receiver false ∨ site = .returnValue ∨ site = .getFieldValue)
    (h : Agrees safe site obj) :
    site.build (site.raw (onlyOne obj).rest) (objParts obj) = NullValue := by
  have hparts : site.parts safe none obj =
      (FIELD_KIND_DEFERRED_OBJECT, fill_object_strings safe none obj) := by
    rcases hsite with rfl | rfl | rfl <;> rfl
  have hkind : (kindByte FIELD_KIND_DEFERRED_OBJECT).toNat = 0xFE := by decide
  have hself (s : Bytes) : substituteLoop (noConsumer safe).rendered s = s :=
    substituteLoop_of_noPlaceholder (noPlaceholder_of_zero s)
  -- the text in the slot is a part of the object's
  generalize ht : clip EV_STR_MAX_BYTES (fill_object_strings safe none obj).1 = t
  have hle : t.length ≤ (objParts obj).2.1.length := by
    rw [← ht]
    refine (clip_isPrefix EV_STR_MAX_BYTES _).length_le.trans ?_
    cases safe with
    | false => exact Nat.zero_le _
    | true => rw [fill_object_strings_none]
  have heq := h (onlyOne obj) (noConsumer safe) rfl
  have hread : (noConsumer safe).obtained site obj =
      some (site.build (site.raw (noConsumer safe).rest) (parseRenderedChunk t)) := by
    have hsafe : (noConsumer safe).safe = safe := rfl
    rw [Refused.obtained_eq, hsafe, hparts]
    simp only [hkind, hself, ht]
    rcases hsite with rfl | rfl | rfl <;>
      simp only [Site.read, unpackDeferred, if_true]
  rw [hread, (onlyOne obj).obtained_unpacked (by tauto), Option.some.injEq] at heq
  rw [← heq]
  rcases parseRenderedChunk_cases t with hnull | ⟨hkinds, hshort⟩
  · have hp : parseRenderedChunk t =
        (WIRE_KIND_NULL, (parseRenderedChunk t).2.1, (parseRenderedChunk t).2.2) := by
      rw [← hnull]
    rw [hp]
    exact site.build_null _ _ _
  · rcases site.build_cases (site.raw (noConsumer safe).rest) hkinds with hnull | ⟨-, hstr⟩
    · exact hnull
    · -- the object's own text would be as short
      rcases site.build_cases (site.raw (onlyOne obj).rest) (objParts_kind obj) with
        hnull | ⟨-, hstr'⟩
      · rw [heq]
        exact hnull
      · rw [heq, hstr'] at hstr
        omega

theorem length_rendered (b : Refused) : b.rendered.length ≤ EVENT_PIPE_MAX_REFS := by
  simpa [Refused.rendered] using b.room

theorem unmarked (b : Refused) : Unmarked b.rendered :=
  unmarked_rendered b.heap b.consumerEnv _

/-- A text passes through its slot exactly when it is `Unchanged`. -/
theorem substitute_clip_of_unchanged (b : Refused) {s : Bytes} (h : Unchanged s) :
    substituteLoop b.rendered (clip EV_STR_MAX_BYTES s) = s := by
  rw [clip, if_pos h.1]
  exact substituteLoop_of_noPlaceholder (noPlaceholder_mono (length_rendered b) h.2)

theorem unchanged_of_substitute_clip {safe : Bool} {g : UInt8 → UInt8}
    (hg : ∀ b, g b = g 0x1A → b = 0x1A) {s : Bytes}
    (h : (substituteLoop (fullSidecar safe).rendered (clip EV_STR_MAX_BYTES s)).map g = s.map g) :
    Unchanged s := by
  obtain ⟨heq, hno⟩ :=
    substituteLoop_of_isPrefix (unmarked (fullSidecar safe)) hg (clip_isPrefix _ s) h
  have hfull : (fullSidecar safe).rendered.length = EVENT_PIPE_MAX_REFS := rfl
  rw [heq, hfull] at hno
  refine ⟨?_, hno⟩
  have hlen := clipLen_le EV_STR_MAX_BYTES s
  rwa [← length_clip, heq] at hlen

/-- The change of bytes in a class name keeps the marker apart. -/
theorem dots_marker (b : UInt8)
    (h : (if b = 0x2f then (0x2e : UInt8) else b) = if (0x1A : UInt8) = 0x2f then 0x2e else 0x1A) :
    b = 0x1A := by
  rw [if_neg (by decide : ¬ (0x1A : UInt8) = 0x2f)] at h
  split at h
  · exact absurd h (by decide)
  · exact h

/-- A quoted text is cut to its content only when it is nothing but quotes
    and the cut takes the last two away. -/
theorem quoted_eq_iff (b : Refused) (content : Bytes) :
    substituteLoop b.rendered (clip EV_STR_MAX_BYTES (0x22 :: (content ++ [0x22]))) = content ↔
      content = List.replicate EV_STR_MAX_BYTES 0x22 := by
  have hmax : EV_STR_MAX_BYTES = 512 := rfl
  constructor
  · intro h
    -- a text that loses its quotes is nothing but quotes; its length says how many
    obtain ⟨heq, hall⟩ := substituteLoop_eq_of_quoted (by decide) (clip_isPrefix _ _) h
    have hcontent : content = List.replicate content.length 0x22 := List.eq_replicate_iff.mpr
      ⟨rfl, hall⟩
    have hquoted : 0x22 :: (content ++ [0x22]) = List.replicate (content.length + 2) 0x22 := by
      apply List.eq_replicate_iff.mpr
      refine ⟨by simp, ?_⟩
      intro x hx
      simp only [List.mem_cons, List.mem_append, List.not_mem_nil, or_false] at hx
      rcases hx with rfl | hx | rfl
      · rfl
      · exact hall x hx
      · rfl
    have hlen := congrArg List.length heq
    rw [hquoted, length_clip, clipLen, List.length_replicate] at hlen
    have h512 : content.length = EV_STR_MAX_BYTES := by
      by_cases hlong : content.length + 2 > EV_STR_MAX_BYTES
      · rw [if_pos hlong, safe_trunc_len_replicate hlong] at hlen
        exact hlen.symm
      · rw [if_neg hlong] at hlen
        omega
    rw [hcontent, h512]
  · rintro rfl
    have hquoted : 0x22 :: (List.replicate EV_STR_MAX_BYTES (0x22 : UInt8) ++ [0x22])
        = List.replicate (EV_STR_MAX_BYTES + 2) 0x22 := by
      rw [List.replicate_succ', List.replicate_succ, List.cons_append]
    have hclip : clip EV_STR_MAX_BYTES (List.replicate (EV_STR_MAX_BYTES + 2) (0x22 : UInt8))
        = List.replicate EV_STR_MAX_BYTES 0x22 := by
      rw [clip, if_neg (by simp), safe_trunc_len_replicate (by omega), List.take_replicate]
      congr 1
    rw [hquoted, hclip]
    exact substituteLoop_of_noPlaceholder (noPlaceholder_of_notMem (by simp))

/-! ## Section 7: Where the two ways agree -/

section Agree

variable {safe : Bool} {obj : JObj}

/-- The reader does not look at the receiver of a static call. -/
theorem agrees_staticReceiver : Agrees safe (.receiver true) obj := by
  intro a b _
  have hkind : (kindByte 0).toNat = 0 := by decide
  rw [Refused.obtained_eq, a.obtained_eq rfl]
  simp only [Site.read, Site.parts, Site.knownClass, Site.announced, hkind, unpackDeferred,
    OfNat.zero_ne_ofNat, if_false]
  exact congrArg some ((Site.build_null _ _ _ _).trans (Site.build_null _ _ _ _).symm)

/-- Only an object whose class has no name is shown as null as a receiver. -/
theorem receiver_eq_null_iff (obj : JObj) :
    decodeSingleReceiver (objParts obj).1 (objParts obj).2.1 (objParts obj).2.2 = NullValue ↔
      Unnamed obj := by
  cases obj with
  | string content => exact iff_of_false (fun h => by cases congrArg JNIValue.kind h) id
  | clazz name toString => exact iff_of_false (fun h => by cases congrArg JNIValue.kind h) id
  | object className toString =>
    refine ⟨fun h => ?_, fun h => if_pos h⟩
    by_contra hne
    have heq : decodeSingleReceiver WIRE_KIND_OBJECT className
        ((toString.map Subtype.val).getD []) =
        { kind := .KindObject, str := normalizeDots className,
          extra := (toString.map Subtype.val).getD [] } := if_neg hne
    cases (congrArg JNIValue.kind heq).symm.trans (congrArg JNIValue.kind h)

/-- The receiver of an instance method is shown as null in both ways, or
    differently. -/
theorem agrees_instanceReceiver_iff : Agrees safe (.receiver false) obj ↔ Unnamed obj := by
  constructor
  · intro h
    exact (receiver_eq_null_iff obj).mp (null_of_agrees (.inl rfl) h)
  · intro hobj a b _
    -- the text in the slot is the empty class name
    have htext : ((Site.receiver false).parts b.safe none obj).2.1 = [] := by
      cases obj with
      | string content => exact hobj.elim
      | clazz name toString => exact hobj.elim
      | object className toString =>
        cases hsafe : b.safe with
        | false => rfl
        | true => exact hobj
    have hkind : (kindByte FIELD_KIND_DEFERRED_OBJECT).toNat = 0xFE := by decide
    rw [Refused.obtained_eq, a.obtained_unpacked (.inl rfl)]
    simp only [htext, show clip EV_STR_MAX_BYTES [] = [] from rfl, substituteLoop]
    simp only [Site.read, Site.parts, Site.knownClass, classify_object, hkind, unpackDeferred,
      if_true]
    refine congrArg some ((Site.build_null _ _ _ _).trans ?_)
    exact ((receiver_eq_null_iff obj).mpr hobj).symm

theorem buildReturnValue_object {raw : UInt64} (h : raw ≠ 0) (str extra : Bytes) :
    buildReturnValue WIRE_KIND_OBJECT raw str extra =
      { kind := .KindObject, str := normalizeDots str, extra } :=
  if_neg fun hzero => h hzero.2

/-- A value with a handle is not shown as null. -/
theorem buildReturnValue_ne_null (obj : JObj) {raw : UInt64} (h : raw ≠ 0) (str extra : Bytes) :
    buildReturnValue (objParts obj).1 raw str extra ≠ NullValue := by
  intro hnull
  cases obj with
  | string content => cases congrArg JNIValue.kind hnull
  | clazz name toString => cases congrArg JNIValue.kind hnull
  | object className toString =>
    have hobject := (buildReturnValue_object h str extra).symm.trans hnull
    cases congrArg JNIValue.kind hobject

/-- A handle only says that there is an object. -/
theorem buildReturnValue_handle (obj : JObj) {raw raw' : UInt64} (h : raw ≠ 0) (h' : raw' ≠ 0)
    (str extra : Bytes) :
    buildReturnValue (objParts obj).1 raw str extra =
      buildReturnValue (objParts obj).1 raw' str extra := by
  cases obj with
  | string content => rfl
  | clazz name toString => rfl
  | object className toString =>
    exact (buildReturnValue_object h str extra).trans (buildReturnValue_object h' str extra).symm

/-- An object that is returned is never shown as null when it is deferred. -/
theorem not_agrees_value {site : Site} (hsite : site = .returnValue ∨ site = .getFieldValue) :
    ¬ Agrees safe site obj := by
  intro h
  have hnull := null_of_agrees (by tauto) h
  rcases hsite with rfl | rfl
  · exact buildReturnValue_ne_null obj one_ne_null _ _ hnull
  · exact buildReturnValue_ne_null obj one_ne_null _ _ hnull

/-- The sentinel of a field receiver is not unpacked: both ways show null.
    A class that is shown by its name shows it unless its slot changes it. -/
theorem agrees_fieldReceiver_iff {is_static : Bool} {clazz_name : Option CStr} :
    Agrees safe (.fieldReceiver is_static clazz_name) obj ↔
      ∀ name ∈ (Site.fieldReceiver is_static clazz_name).knownClass,
        noPlaceholder EVENT_PIPE_MAX_REFS (clip EV_STR_MAX_BYTES name) := by
  cases hknown : (Site.fieldReceiver is_static clazz_name).knownClass with
  | none =>
    -- the sentinel is no kind the reader knows
    refine iff_of_true (fun a b _ => ?_) fun name h => by cases h
    have hkind : (kindByte FIELD_KIND_DEFERRED_OBJECT).toNat = 0xFE := by decide
    rw [Refused.obtained_eq, a.obtained_eq hknown]
    simp only [Site.read, Site.build, Site.parts, hknown, Site.announced, classify_object, hkind]
    rfl
  | some name =>
    simp only [Option.mem_some_iff, forall_eq']
    have hclass (b : Refused) : b.obtained (.fieldReceiver is_static clazz_name) obj =
        some { kind := .KindClass,
               str := normalizeDots (substituteLoop b.rendered (clip EV_STR_MAX_BYTES name)) } := by
      rw [Refused.obtained_eq]
      simp only [Site.parts, hknown]
      rfl
    have hclass' (a : Accepted obj) : a.obtained (.fieldReceiver is_static clazz_name) =
        some { kind := .KindClass,
               str := normalizeDots (substituteLoop ((a.tls.refs ++ a.later).map fun gref =>
                 (renderRefChunk a.heap true gref).1) (clip EV_STR_MAX_BYTES name)) } := by
      have hroom := a.room
      simp only [Accepted.obtained, Site.push, Site.parts, hknown]
      rw [Site.obtainedFrom_emit _ a.heap true (by simp; omega) a.rest _ name.property (by simp)]
      rfl
    constructor
    · intro h
      have heq := h (onlyOne obj) (fullSidecar safe) rfl
      rw [hclass, hclass'] at heq
      have hself : substituteLoop (((onlyOne obj).tls.refs ++ (onlyOne obj).later).map fun gref =>
          (renderRefChunk (onlyOne obj).heap true gref).1) (clip EV_STR_MAX_BYTES name) =
          clip EV_STR_MAX_BYTES name := substituteLoop_of_noPlaceholder (noPlaceholder_of_zero _)
      rw [hself] at heq
      exact (substituteLoop_of_isPrefix (unmarked (fullSidecar safe)) dots_marker
        (List.prefix_refl _) (congrArg JNIValue.str (Option.some.inj heq))).2
    · intro h a b _
      have hroom := a.room
      rw [hclass, hclass',
        substituteLoop_of_noPlaceholder (noPlaceholder_mono (length_rendered b) h),
        substituteLoop_of_noPlaceholder (noPlaceholder_mono (by simp; omega) h)]

/-- A field value rendered in the hook's thread has its kind, and goes
    through its slots. -/
theorem Refused.obtained_setFieldValue (b : Refused) (obj : JObj) {kind : Int32} {wire : Int}
    {str extra : Bytes} (hparts : field_obj_parts b.safe none obj = (kind, str, extra))
    (hwire : ((kindByte kind).toNat : Int) = wire) (hkind : (kindByte kind).toNat ≠ 0xFE) :
    b.obtained .setFieldValue obj = some (buildReturnValue wire b.rest.handle
      (substituteLoop b.rendered (clip EV_STR_MAX_BYTES str))
      (substituteLoop b.rendered (clip EV_STR_MAX_BYTES extra))) := by
  rw [Refused.obtained_eq]
  simp only [Site.parts, Site.knownClass, hparts, Site.read, Site.build, Site.raw, unpackDeferred,
    hkind, if_false, hwire]

/-- What is obtained of a deferred field value. -/
theorem Accepted.obtained_setFieldValue (a : Accepted obj) :
    a.obtained .setFieldValue = some (buildReturnValue (objParts obj).1 a.rest.handle
      (objParts obj).2.1 (objParts obj).2.2) :=
  a.obtained_unpacked (by simp)

/-- Where no JNI call is allowed, a field value is an object without texts. -/
theorem agrees_unsafeValue_iff : Agrees false .setFieldValue obj ↔
    ∃ className toString, obj = .object className toString ∧ className.val = [] ∧
      (toString.map Subtype.val).getD [] = [] := by
  have hempty (b : Refused) (hsafe : b.safe = false) :
      b.obtained .setFieldValue obj = some { kind := .KindObject } := by
    have hparts : field_obj_parts b.safe none obj = (12, [], []) := by rw [hsafe]; rfl
    have hwire : ((kindByte 12).toNat : Int) = WIRE_KIND_OBJECT := by decide
    rw [b.obtained_setFieldValue obj hparts hwire (by decide)]
    exact congrArg some (buildReturnValue_object b.rest.handle_ne [] [])
  constructor
  · intro h
    have heq := h (onlyOne obj) (noConsumer false) rfl
    rw [hempty _ rfl, Accepted.obtained_setFieldValue, Option.some.injEq] at heq
    cases obj with
    | string content => cases congrArg JNIValue.kind heq
    | clazz name toString => cases congrArg JNIValue.kind heq
    | object className toString =>
      rw [show (objParts (.object className toString)).1 = WIRE_KIND_OBJECT from rfl,
        buildReturnValue_object (onlyOne _).rest.handle_ne] at heq
      refine ⟨className, toString, rfl, ?_, (congrArg JNIValue.extra heq).symm⟩
      exact List.map_eq_nil_iff.mp (congrArg JNIValue.str heq).symm
  · rintro ⟨className, toString, rfl, hname, htext⟩ a b hsafe
    rw [hempty b hsafe, a.obtained_setFieldValue,
      show (objParts (.object className toString)).1 = WIRE_KIND_OBJECT from rfl,
      buildReturnValue_object a.rest.handle_ne]
    simp only [objParts, hname, htext]
    rfl

/-- Where JNI calls are allowed, the kind is the object's own. -/
theorem Refused.obtained_safeValue (b : Refused) (hsafe : b.safe = true) (obj : JObj) :
    b.obtained .setFieldValue obj = some (buildReturnValue (objParts obj).1 b.rest.handle
      (substituteLoop b.rendered (clip EV_STR_MAX_BYTES (field_obj_parts true none obj).2.1))
      (substituteLoop b.rendered (clip EV_STR_MAX_BYTES (objParts obj).2.2))) := by
  have hparts : field_obj_parts b.safe none obj =
      ((field_obj_parts true none obj).1, (field_obj_parts true none obj).2.1,
        (objParts obj).2.2) := by
    rw [hsafe]
    cases obj with
    | string content => rfl
    | clazz name toString => rfl
    | object className toString => rfl
  cases obj with
  | string content =>
    have hkind : (kindByte 10).toNat ≠ 0xFE := by decide
    exact b.obtained_setFieldValue _ hparts rfl hkind
  | clazz name toString =>
    have hkind : (kindByte 11).toNat ≠ 0xFE := by decide
    exact b.obtained_setFieldValue _ hparts rfl hkind
  | object className toString =>
    have hkind : (kindByte 12).toNat ≠ 0xFE := by decide
    exact b.obtained_setFieldValue _ hparts rfl hkind

/-- With a sidecar full of chunks, what has gone through the slots is shown
    like the object's own texts. -/
theorem shown_of_agrees (h : Agrees true .setFieldValue obj) :
    buildReturnValue (objParts obj).1 1
        (substituteLoop (fullSidecar true).rendered
          (clip EV_STR_MAX_BYTES (field_obj_parts true none obj).2.1))
        (substituteLoop (fullSidecar true).rendered (clip EV_STR_MAX_BYTES (objParts obj).2.2)) =
      buildReturnValue (objParts obj).1 1 (objParts obj).2.1 (objParts obj).2.2 := by
  have heq := h (onlyOne obj) (fullSidecar true) rfl
  rw [Refused.obtained_safeValue _ rfl, Accepted.obtained_setFieldValue] at heq
  exact Option.some.inj heq

theorem agrees_of_carried
    (hstr : ∀ b : Refused, substituteLoop b.rendered
      (clip EV_STR_MAX_BYTES (field_obj_parts true none obj).2.1) = (objParts obj).2.1)
    (hextra : Unchanged (objParts obj).2.2) : Agrees true .setFieldValue obj := by
  intro a b hsafe
  rw [b.obtained_safeValue hsafe, a.obtained_setFieldValue, hstr b,
    substitute_clip_of_unchanged b hextra]
  exact congrArg some (buildReturnValue_handle obj b.rest.handle_ne a.rest.handle_ne _ _)

theorem unchanged_nil : Unchanged [] :=
  ⟨Nat.zero_le _, trivial⟩

/-- A string is sent in quotes: they have to be cut. -/
theorem agrees_stringValue_iff {content : CStr} : Agrees true .setFieldValue (.string content) ↔
    content.val = List.replicate EV_STR_MAX_BYTES 0x22 := by
  constructor
  · intro h
    exact (quoted_eq_iff (fullSidecar true) content).mp
      (congrArg JNIValue.str (shown_of_agrees h))
  · intro h
    exact agrees_of_carried (fun b => (quoted_eq_iff b content).mpr h) unchanged_nil

theorem agrees_classValue_iff {name : CStr} {toString : Option CStr} :
    Agrees true .setFieldValue (.clazz name toString) ↔ Unchanged name := by
  constructor
  · intro h
    exact unchanged_of_substitute_clip dots_marker (congrArg JNIValue.str (shown_of_agrees h))
  · intro h
    exact agrees_of_carried (fun b => substitute_clip_of_unchanged b h) unchanged_nil

theorem agrees_objectValue_iff {className : CStr} {toString : Option CStr} :
    Agrees true .setFieldValue (.object className toString) ↔
      Unchanged className ∧ Unchanged ((toString.map Subtype.val).getD []) := by
  constructor
  · intro h
    have hshown := shown_of_agrees h
    rw [show (objParts (.object className toString)).1 = WIRE_KIND_OBJECT from rfl,
      buildReturnValue_object one_ne_null, buildReturnValue_object one_ne_null] at hshown
    refine ⟨unchanged_of_substitute_clip dots_marker (congrArg JNIValue.str hshown), ?_⟩
    have htext := congrArg (fun v => v.extra.map id) hshown
    exact unchanged_of_substitute_clip (fun _ hb => hb) htext
  · rintro ⟨hname, htext⟩
    exact agrees_of_carried (fun b => substitute_clip_of_unchanged b hname) htext

theorem agrees_setFieldValue_iff : Agrees safe .setFieldValue obj ↔ CarriedValue safe obj := by
  cases safe with
  | true =>
    cases obj with
    | string content => simp [agrees_stringValue_iff, CarriedValue]
    | clazz name toString => simp [agrees_classValue_iff, CarriedValue]
    | object className toString => simp [agrees_objectValue_iff, CarriedValue]
  | false =>
    rw [agrees_unsafeValue_iff]
    cases obj with
    | string content => simp [CarriedValue]
    | clazz name toString => simp [CarriedValue]
    | object className toString =>
      constructor
      · rintro ⟨_, _, heq, hname, htext⟩
        obtain ⟨rfl, rfl⟩ := JObj.object.inj heq
        refine ⟨.inr ⟨hname, htext⟩, ?_, ?_⟩
        · rw [hname]
          exact unchanged_nil
        · rw [htext]
          exact unchanged_nil
      · rintro ⟨hor, -⟩
        obtain ⟨hname, htext⟩ := hor.resolve_left (by decide)
        exact ⟨className, toString, rfl, hname, htext⟩

end Agree

end JniLog.EventPipe
