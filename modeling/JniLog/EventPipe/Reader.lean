import JniLog.EventPipe.Datagram
import JniLog.Visualize

/-! # The event reader

    Model of what `dispatchEvent` in `event_pipe.go` does with a parsed
    datagram: rendering the deferred references and substituting their
    placeholders, pairing calls with returns through the pending map with
    its eviction backstop, and handing the result to the emit functions
    of the logger.

    * `heap` says which object a global reference denotes.
    * `Range` over the pending map visits its entries in any order.
    * A `Line` is a call of one of the logger's emit functions.

    Main results: what each dispatch function adds to and takes from the
    pending map. -/

namespace JniLog.EventPipe

open Bytes Visualize

/-! ## Section 1: Rendering deferred references -/

def WIRE_KIND_NULL : Int := 0
def WIRE_KIND_STRING : Int := 10
def WIRE_KIND_CLASS : Int := 11
def WIRE_KIND_OBJECT : Int := 12

/-- What `event_pipe_render_obj` gives back, with NULL texts empty, and
    the references it deletes. -/
structure Rendered where
  kind : Int
  str : Bytes
  extra : Bytes
  deleted : List UInt64
  deriving DecidableEq, Repr

/-- `consumer_env` is whether the consumer has a `JNIEnv`. -/
def event_pipe_render_obj (heap : UInt64 → JObj) (consumer_env : Bool) (gref : UInt64) : Rendered :=
  if consumer_env = false ∨ gref = 0 then ⟨WIRE_KIND_NULL, [], [], []⟩
  else
    let obj := heap gref
    if vis_is_string obj then ⟨WIRE_KIND_STRING, vis_string_value_raw obj, [], [gref]⟩
    else if vis_is_class obj then ⟨WIRE_KIND_CLASS, vis_class_name obj, [], [gref]⟩
    else
      ⟨WIRE_KIND_OBJECT, vis_object_class_name obj, (vis_object_tostring_safe obj).getD [], [gref]⟩

/-- The chunk `"p\x01null\x02"`. -/
def nullChunk : Bytes :=
  ascii "p" ++ [0x01] ++ ascii "null" ++ [0x02]

/-- The chunk `renderRefChunk` builds of a signature character and texts. -/
def chunk (sig : UInt8) (str extra : Bytes) : Bytes :=
  let str := escapeWireContent str
  if extra ≠ [] then [sig, 0x01] ++ str ++ [0x03] ++ escapeWireContent extra ++ [0x02]
  else [sig, 0x01] ++ str ++ [0x02]

/-- The chunk, and the references deleted. -/
def renderRefChunk (heap : UInt64 → JObj) (consumerEnv : Bool) (gref : UInt64) :
    Bytes × List UInt64 :=
  if consumerEnv = false ∨ gref = 0 then (nullChunk, [])
  else
    let r := event_pipe_render_obj heap consumerEnv gref
    if r.kind = WIRE_KIND_STRING then (chunk 0x73 r.str r.extra, r.deleted)
    else if r.kind = WIRE_KIND_CLASS then (chunk 0x63 r.str r.extra, r.deleted)
    else if r.kind = WIRE_KIND_OBJECT then (chunk 0x4c r.str r.extra, r.deleted)
    else (nullChunk, r.deleted)

/-- The kind `parseRenderedChunk` reads from a chunk's first byte. -/
def chunkKind (sig : UInt8) : Option Int :=
  if sig = 0x73 then some WIRE_KIND_STRING
  else if sig = 0x63 then some WIRE_KIND_CLASS
  else if sig = 0x4c then some WIRE_KIND_OBJECT
  else if sig = 0x70 then some WIRE_KIND_NULL
  else none

/-- The part of `parseRenderedChunk` behind the two leading bytes. -/
def parseChunkBody (kind : Int) (body : Bytes) : Int × Bytes × Bytes :=
  let body := if body.getLast? = some 0x02 then body.dropLast else body
  let (str, extra) :=
    match cut 0x03 body with
    | some (str, extra) => (unescapeWireContent str, unescapeWireContent extra)
    | none => (unescapeWireContent body, [])
  (kind, if kind = WIRE_KIND_NULL then [] else str, extra)

def parseRenderedChunk (chunk : Bytes) : Int × Bytes × Bytes :=
  match chunk with
  | sig :: sep :: body =>
    match chunkKind sig with
    | none => (WIRE_KIND_NULL, [], [])
    | some kind =>
      if body ≠ [] ∧ sep = 0x01 then parseChunkBody kind body else (kind, [], [])
  | _ => (WIRE_KIND_NULL, [], [])

/-- The loop of `substitutePlaceholders`. -/
def substituteLoop (rendered : List Bytes) : Bytes → Bytes
  | [] => []
  | [b] => [b]
  | b :: c :: s =>
    if b = 0x1A ∧ 1 ≤ c.toNat ∧ c.toNat - 1 < rendered.length then
      rendered.getD (c.toNat - 1) [] ++ substituteLoop rendered s
    else b :: substituteLoop rendered (c :: s)

def substitutePlaceholders (s : Bytes) (rendered : List Bytes) : Bytes :=
  if rendered.length = 0 ∨ s.length < 2 then s else substituteLoop rendered s

/-! ## Section 2: The pending map -/

/-- `callFrame`. -/
structure CallFrame where
  jniName : Bytes
  mid : UInt64
  className : Bytes
  methodName : Bytes
  receiver : JNIValue
  args : List JNIValue
  caller : Bytes
  deriving DecidableEq

/-- `pendingCall`. -/
structure PendingCall where
  frame : CallFrame
  offset : Int
  deriving DecidableEq

/-- A call of a logger function. -/
inductive Line where
  | emitCallFull (offset : Int) (frame : CallFrame) (result : JNIValue) (id : Nat)
  | emitStandaloneReturn (offset : Int) (name : Bytes) (result : JNIValue) (id : Nat)
  | emitJNILookup (lookupType name sig : Bytes) (clazz : UInt64) (className caller : Bytes)
  | emitFieldAccess (offset : Int) (name : Bytes) (receiver : JNIValue) (fieldName : Bytes)
      (value : JNIValue) (caller : Bytes)
  | emitRegisterNatives (clazz : UInt64) (className methods caller : Bytes)
  deriving DecidableEq

/-- The reader goroutine's state. -/
structure Reader where
  consumerEnv : Bool
  pendingCalls : List (Nat × PendingCall)
  pendingNewest : Nat
  pendingLen : Int
  pendingEvicted : Nat

def Reader.init : Reader :=
  ⟨false, [], 0, 0, 0⟩

/-- The order in which `Range` visits the entries. -/
abbrev RangeOrder :=
  {order : List (Nat × PendingCall) → List (Nat × PendingCall) // ∀ es, (order es).Perm es}

def pendingWindow : Nat := 4096
def pendingEvictTrigger : Nat := 2 * pendingWindow

/-- `LoadAndDelete`. -/
def loadAndDelete (es : List (Nat × PendingCall)) (callID : Nat) :
    Option (PendingCall × List (Nat × PendingCall)) :=
  (es.lookup callID).map fun pc => (pc, es.filter fun e => e.1 ≠ callID)

/-- `Store`. -/
def mapStore (es : List (Nat × PendingCall)) (callID : Nat) (pc : PendingCall) :
    List (Nat × PendingCall) :=
  (callID, pc) :: es.filter fun e => e.1 ≠ callID

/-- The callback of `evictStalePending`'s `Range`. -/
def evictEntry (cutoff : Nat) (st : Reader × List Line) (e : Nat × PendingCall) :
    Reader × List Line :=
  let (r, lines) := st
  if e.1 < cutoff then
    match loadAndDelete r.pendingCalls e.1 with
    | some (_, es) =>
      ({ r with pendingCalls := es, pendingLen := r.pendingLen - 1,
                pendingEvicted := r.pendingEvicted + 1 },
        lines ++ [.emitCallFull e.2.offset e.2.frame VoidValue e.1])
    | none => (r, lines)
  else (r, lines)

def evictStalePending (order : RangeOrder) (r : Reader) : Reader × List Line :=
  if r.pendingNewest ≤ pendingWindow then (r, [])
  else (order.val r.pendingCalls).foldl (evictEntry (r.pendingNewest - pendingWindow)) (r, [])

def pendingStore (order : RangeOrder) (r : Reader) (callID : Nat) (pc : PendingCall) :
    Reader × List Line :=
  let r := { r with
    pendingCalls := mapStore r.pendingCalls callID pc
    pendingLen := r.pendingLen + 1
    pendingNewest := if callID > r.pendingNewest then callID else r.pendingNewest }
  if r.pendingLen > (pendingEvictTrigger : Int) then evictStalePending order r else (r, [])

def pendingTake (r : Reader) (callID : Nat) : Option (PendingCall × Reader) :=
  (loadAndDelete r.pendingCalls callID).map fun (pc, es) =>
    (pc, { r with pendingCalls := es, pendingLen := r.pendingLen - 1 })

/-! ## Section 3: Dispatch -/

/-- What a dispatch did. `deleted` are the event's own reference, when it
    carries one, and the sidecar's. -/
structure Dispatched where
  reader : Reader
  lines : List Line
  deleted : List UInt64

/-- The kind, text and extra a dispatch reads from a slot pair: the
    sentinel 0xFE says that the text is a rendered chunk. -/
def unpackDeferred (kind : Nat) (str extra : Bytes) : Int × Bytes × Bytes :=
  if kind = 0xFE then parseRenderedChunk str else (kind, str, extra)

/-- The frame `dispatchCall` stores. -/
def callFrameOf (offset : Int) (receiverKind : Nat) (mid : UInt64)
    (jni_name receiver_str receiver_extra class_name method_name encoded_args caller : Bytes) :
    PendingCall :=
  let (receiverKind, receiver_str, receiver_extra) :=
    unpackDeferred receiverKind receiver_str receiver_extra
  { offset
    frame :=
      { jniName := jni_name
        mid
        className := normalizeDots class_name
        methodName := method_name
        receiver := decodeSingleReceiver receiverKind receiver_str receiver_extra
        args := decodeArgs encoded_args
        caller } }

def dispatchCall (order : RangeOrder) (r : Reader) (callID : Nat) (offset : Int)
    (receiverKind : Nat) (mid : UInt64)
    (jni_name receiver_str receiver_extra class_name method_name encoded_args caller : Bytes) :
    Reader × List Line :=
  pendingStore order r callID (callFrameOf offset receiverKind mid jni_name receiver_str
    receiver_extra class_name method_name encoded_args caller)

/-- The end of a return's dispatch: with its call when that is pending,
    else alone. -/
def finishReturn (r : Reader) (callID : Nat) (offset : Int) (name : Bytes) (result : JNIValue) :
    Reader × List Line :=
  match pendingTake r callID with
  | none => (r, [.emitStandaloneReturn offset name result callID])
  | some (pc, r) => (r, [.emitCallFull pc.offset pc.frame result callID])

def dispatchReturn (r : Reader) (callID : Nat) (offset : Int) (retKind : Nat) (retRaw : UInt64)
    (name ret_str ret_extra : Bytes) : Reader × List Line :=
  let (retKind, ret_str, ret_extra) := unpackDeferred retKind ret_str ret_extra
  finishReturn r callID offset name (buildReturnValue retKind retRaw ret_str ret_extra)

def dispatchObjReturn (heap : UInt64 → JObj) (r : Reader) (callID : Nat) (offset : Int)
    (gref : UInt64) (name : Bytes) : Dispatched :=
  if r.consumerEnv = false then
    match pendingTake r callID with
    | none => ⟨r, [], []⟩
    | some (pc, r) =>
      ⟨r, [.emitCallFull pc.offset pc.frame (buildReturnValue WIRE_KIND_NULL 0 [] []) callID], []⟩
  else
    let o := event_pipe_render_obj heap r.consumerEnv gref
    let (r, lines) := finishReturn r callID offset name (buildReturnValue o.kind gref o.str o.extra)
    ⟨r, lines, o.deleted⟩

def dispatchLookup (heap : UInt64 → JObj) (r : Reader) (clazz : UInt64)
    (lookup_type name sig class_name caller : Bytes) : Dispatched :=
  if class_name = [] ∧ clazz ≠ 0 ∧ r.consumerEnv = true then
    let o := event_pipe_render_obj heap r.consumerEnv clazz
    ⟨r, [.emitJNILookup lookup_type name sig clazz o.str caller], o.deleted⟩
  else ⟨r, [.emitJNILookup lookup_type name sig clazz class_name caller], []⟩

/-- The `evFieldAccess` case of `dispatchEvent`. -/
def dispatchFieldAccess (offset : Int) (receiverKind retKind : Nat) (midOrRaw : UInt64)
    (name receiver_str receiver_extra field_name value_str value_extra caller : Bytes) : Line :=
  let (retKind, value_str, value_extra) := unpackDeferred retKind value_str value_extra
  .emitFieldAccess offset name (decodeSingleReceiver receiverKind receiver_str receiver_extra)
    field_name (buildReturnValue retKind midOrRaw value_str value_extra) caller

/-- The strings of an event with their placeholders substituted. -/
def substituted (heap : UInt64 → JObj) (consumerEnv : Bool) (ev : Event) : List Bytes :=
  let rendered := ev.refs.map fun gref => (renderRefChunk heap consumerEnv gref).1
  ev.strs.map fun s => substitutePlaceholders s rendered

/-- The references deleted by rendering the sidecar. -/
def sidecarDeleted (heap : UInt64 → JObj) (consumerEnv : Bool) (ev : Event) : List UInt64 :=
  ev.refs.flatMap fun gref => (renderRefChunk heap consumerEnv gref).2

/-- The routing of `dispatchEvent`: a wrong number of strings drops the
    event. -/
def routeEvent (heap : UInt64 → JObj) (order : RangeOrder) (r : Reader) (ev : Event)
    (strs : List Bytes) : Dispatched :=
  if ev.eventType = evCall then
    match strs with
    | [s₁, s₂, s₃, s₄, s₅, s₆, s₇] =>
      let (r, lines) := dispatchCall order r ev.callID ev.offset ev.receiverKind ev.midOrRaw
        s₁ s₂ s₃ s₄ s₅ s₆ s₇
      ⟨r, lines, []⟩
    | _ => ⟨r, [], []⟩
  else if ev.eventType = evReturn then
    match strs with
    | [s₁, s₂, s₃] =>
      let (r, lines) := dispatchReturn r ev.callID ev.offset ev.retKind ev.midOrRaw s₁ s₂ s₃
      ⟨r, lines, []⟩
    | _ => ⟨r, [], []⟩
  else if ev.eventType = evLookup then
    match strs with
    | [s₁, s₂, s₃, s₄, s₅] => dispatchLookup heap r ev.midOrRaw s₁ s₂ s₃ s₄ s₅
    | _ => ⟨r, [], []⟩
  else if ev.eventType = evObjReturn then
    match strs with
    | [s₁] => dispatchObjReturn heap r ev.callID ev.offset ev.midOrRaw s₁
    | _ => ⟨r, [], []⟩
  else if ev.eventType = evFieldAccess then
    match strs with
    | [s₁, s₂, s₃, s₄, s₅, s₆, s₇] =>
      ⟨r, [dispatchFieldAccess ev.offset ev.receiverKind ev.retKind ev.midOrRaw
        s₁ s₂ s₃ s₄ s₅ s₆ s₇], []⟩
    | _ => ⟨r, [], []⟩
  else if ev.eventType = evRegisterNatives then
    match strs with
    | [s₁, s₂, s₃] => ⟨r, [.emitRegisterNatives ev.midOrRaw s₁ s₂ s₃], []⟩
    | _ => ⟨r, [], []⟩
  else ⟨r, [], []⟩

/-- `dispatchEvent` behind the parsing: the sidecar is rendered and
    substituted, then the event is routed. -/
def dispatchEvent (heap : UInt64 → JObj) (order : RangeOrder) (r : Reader) (ev : Event) :
    Dispatched :=
  let d := routeEvent heap order r ev (substituted heap r.consumerEnv ev)
  ⟨d.reader, d.lines, sidecarDeleted heap r.consumerEnv ev ++ d.deleted⟩

section Routes

variable {heap : UInt64 → JObj} {order : RangeOrder} {r : Reader} {ev : Event}

theorem dispatchEvent_call {s₁ s₂ s₃ s₄ s₅ s₆ s₇ : Bytes} (hty : ev.eventType = evCall)
    (hs : substituted heap r.consumerEnv ev = [s₁, s₂, s₃, s₄, s₅, s₆, s₇]) :
    dispatchEvent heap order r ev =
      let p := pendingStore order r ev.callID
        (callFrameOf ev.offset ev.receiverKind ev.midOrRaw s₁ s₂ s₃ s₄ s₅ s₆ s₇)
      ⟨p.1, p.2, sidecarDeleted heap r.consumerEnv ev⟩ := by
  simp [dispatchEvent, routeEvent, hty, hs, dispatchCall]

theorem dispatchEvent_return {s₁ s₂ s₃ : Bytes} (hty : ev.eventType = evReturn)
    (hs : substituted heap r.consumerEnv ev = [s₁, s₂, s₃]) :
    dispatchEvent heap order r ev =
      let p := dispatchReturn r ev.callID ev.offset ev.retKind ev.midOrRaw s₁ s₂ s₃
      ⟨p.1, p.2, sidecarDeleted heap r.consumerEnv ev⟩ := by
  have hne : evReturn ≠ evCall := by decide
  simp [dispatchEvent, routeEvent, hty, hs, hne]

theorem dispatchEvent_objReturn {s₁ : Bytes} (hty : ev.eventType = evObjReturn)
    (hs : substituted heap r.consumerEnv ev = [s₁]) :
    dispatchEvent heap order r ev =
      let d := dispatchObjReturn heap r ev.callID ev.offset ev.midOrRaw s₁
      ⟨d.reader, d.lines, sidecarDeleted heap r.consumerEnv ev ++ d.deleted⟩ := by
  have h₁ : evObjReturn ≠ evCall := by decide
  have h₂ : evObjReturn ≠ evReturn := by decide
  have h₃ : evObjReturn ≠ evLookup := by decide
  simp [dispatchEvent, routeEvent, hty, hs, h₁, h₂, h₃]

theorem dispatchEvent_fieldAccess {s₁ s₂ s₃ s₄ s₅ s₆ s₇ : Bytes}
    (hty : ev.eventType = evFieldAccess)
    (hs : substituted heap r.consumerEnv ev = [s₁, s₂, s₃, s₄, s₅, s₆, s₇]) :
    dispatchEvent heap order r ev =
      ⟨r, [dispatchFieldAccess ev.offset ev.receiverKind ev.retKind ev.midOrRaw
        s₁ s₂ s₃ s₄ s₅ s₆ s₇], sidecarDeleted heap r.consumerEnv ev⟩ := by
  have h₁ : evFieldAccess ≠ evCall := by decide
  have h₂ : evFieldAccess ≠ evReturn := by decide
  have h₃ : evFieldAccess ≠ evLookup := by decide
  have h₄ : evFieldAccess ≠ evObjReturn := by decide
  simp [dispatchEvent, routeEvent, hty, hs, h₁, h₂, h₃, h₄]

/-- A rendered reference is deleted. -/
theorem deleted_event_pipe_render_obj {gref : UInt64} (h : gref ≠ 0) :
    (event_pipe_render_obj heap true gref).deleted = [gref] := by
  rw [event_pipe_render_obj, if_neg (by simp [h])]
  dsimp only
  split_ifs <;> rfl

@[simp] theorem length_substituted (consumerEnv : Bool) :
    (substituted heap consumerEnv ev).length = ev.strs.length := by
  simp [substituted]

end Routes

/-! ## Section 4: The pending map loses and duplicates nothing -/

/-- The keys of a map are distinct. -/
def DistinctKeys (es : List (Nat × PendingCall)) : Prop :=
  (es.map Prod.fst).Nodup

/-- The line a pending call becomes when it is evicted. -/
def evictLine (e : Nat × PendingCall) : Line :=
  .emitCallFull e.2.offset e.2.frame VoidValue e.1

theorem filter_key_ne_of_notMem {es : List (Nat × PendingCall)} {k : Nat}
    (h : k ∉ es.map Prod.fst) : (es.filter fun e => e.1 ≠ k) = es := by
  apply List.filter_eq_self.mpr
  intro e he
  have hne : e.1 ≠ k := fun heq => h (heq ▸ List.mem_map_of_mem he)
  simpa using hne

/-- **Take rule**: a successful `LoadAndDelete` takes one entry out. -/
theorem loadAndDelete_perm {es es' : List (Nat × PendingCall)} {k : Nat} {pc : PendingCall}
    (hd : DistinctKeys es) (h : loadAndDelete es k = some (pc, es')) :
    es.Perm ((k, pc) :: es') := by
  induction es generalizing es' with
  | nil => simp [loadAndDelete] at h
  | cons e es ih =>
    obtain ⟨k', pc'⟩ := e
    have hd' : k' ∉ es.map Prod.fst ∧ DistinctKeys es := by
      simpa [DistinctKeys] using hd
    simp only [loadAndDelete, Option.map_eq_some_iff, Prod.mk.injEq] at h
    obtain ⟨v, hv, rfl, rfl⟩ := h
    by_cases hk : k' = k
    · -- the entry is the first one, and no other has its key
      subst hk
      have hpc : pc' = v := by simpa using hv
      subst hpc
      rw [List.filter_cons_of_neg (by simp), filter_key_ne_of_notMem hd'.1]
    · have hlookup : es.lookup k = some v := by
        have hbeq : (k == k') = false := by simpa using Ne.symm hk
        simpa [List.lookup_cons, hbeq] using hv
      have hrest : loadAndDelete es k = some (v, es.filter fun e => e.1 ≠ k) := by
        simp [loadAndDelete, hlookup]
      rw [List.filter_cons_of_pos (by simpa using hk)]
      exact ((ih hd'.2 hrest).cons _).trans (List.Perm.swap ..)

theorem DistinctKeys.perm {es es' : List (Nat × PendingCall)} (hd : DistinctKeys es)
    (h : es.Perm es') : DistinctKeys es' :=
  (h.map Prod.fst).nodup_iff.mp hd

/-- A distinct-key map holds one value for a key. -/
theorem DistinctKeys.eq_of_mem {es : List (Nat × PendingCall)} (hd : DistinctKeys es) {k : Nat}
    {pc pc' : PendingCall} (h : (k, pc) ∈ es) (h' : (k, pc') ∈ es) : pc = pc' := by
  have heq : ((k, pc) : Nat × PendingCall) = (k, pc') :=
    List.inj_on_of_nodup_map hd h h' rfl
  simpa using heq

/-- What an eviction pass did to the entries `es`: some of them became
    lines, the others stayed. -/
def Evicts (es : List (Nat × PendingCall)) (r' : Reader) (lines : List Line) : Prop :=
  ∃ evicted, lines = evicted.map evictLine ∧ es.Perm (evicted ++ r'.pendingCalls)

/-- The callback's loop, over entries whose keys still hold their values. -/
theorem foldl_evictEntry (cutoff : Nat) (vs : List (Nat × PendingCall)) (r : Reader)
    (lines : List Line) (hd : DistinctKeys r.pendingCalls)
    (hvs : ∀ e ∈ vs, ∀ pc, (e.1, pc) ∈ r.pendingCalls → pc = e.2) :
    ∃ evicted, (vs.foldl (evictEntry cutoff) (r, lines)).2 = lines ++ evicted.map evictLine ∧
      r.pendingCalls.Perm
        (evicted ++ (vs.foldl (evictEntry cutoff) (r, lines)).1.pendingCalls) ∧
      (vs.foldl (evictEntry cutoff) (r, lines)).1.consumerEnv = r.consumerEnv := by
  induction vs generalizing r lines with
  | nil => exact ⟨[], by simp, by simp, rfl⟩
  | cons e vs ih =>
    have hvs' : ∀ e' ∈ vs, ∀ pc, (e'.1, pc) ∈ r.pendingCalls → pc = e'.2 :=
      fun e' he' => hvs e' (by simp [he'])
    rw [List.foldl_cons]
    by_cases hcut : e.1 < cutoff
    · cases htake : loadAndDelete r.pendingCalls e.1 with
      | none =>
        have hstep : evictEntry cutoff (r, lines) e = (r, lines) := by
          simp [evictEntry, hcut, htake]
        rw [hstep]
        exact ih r lines hd hvs'
      | some p =>
        obtain ⟨pc, es⟩ := p
        have hperm := loadAndDelete_perm hd htake
        -- the value deleted is the one visited
        have hpc : pc = e.2 := hvs e (by simp) pc (hperm.symm.subset (by simp))
        have hdes : DistinctKeys es := by
          have h := hd.perm hperm
          simp only [DistinctKeys, List.map_cons, List.nodup_cons] at h
          exact h.2
        have hstep : evictEntry cutoff (r, lines) e =
            ({ r with pendingCalls := es, pendingLen := r.pendingLen - 1,
                      pendingEvicted := r.pendingEvicted + 1 }, lines ++ [evictLine e]) := by
          simp [evictEntry, hcut, htake, evictLine]
        rw [hstep]
        obtain ⟨evicted, hlines, hrest, henv⟩ := ih { r with
            pendingCalls := es, pendingLen := r.pendingLen - 1,
            pendingEvicted := r.pendingEvicted + 1 } (lines ++ [evictLine e]) hdes
          fun e' he' pc' hmem => hvs' e' he' pc' (hperm.symm.subset (by simp [hmem]))
        refine ⟨e :: evicted, ?_, ?_, henv⟩
        · rw [hlines]
          simp
        · rw [hpc] at hperm
          exact hperm.trans (hrest.cons e)
    · have hstep : evictEntry cutoff (r, lines) e = (r, lines) := by
        simp [evictEntry, hcut]
      rw [hstep]
      exact ih r lines hd hvs'

theorem evictStalePending_evicts (order : RangeOrder) {r : Reader}
    (hd : DistinctKeys r.pendingCalls) :
    Evicts r.pendingCalls (evictStalePending order r).1 (evictStalePending order r).2 ∧
      (evictStalePending order r).1.consumerEnv = r.consumerEnv := by
  unfold evictStalePending
  split
  · exact ⟨⟨[], rfl, List.Perm.refl _⟩, rfl⟩
  · have hvs : ∀ e ∈ order.val r.pendingCalls, ∀ pc, (e.1, pc) ∈ r.pendingCalls → pc = e.2 :=
      fun e he pc hpc => hd.eq_of_mem hpc ((order.property _).subset he)
    obtain ⟨evicted, hlines, hperm, henv⟩ :=
      foldl_evictEntry (r.pendingNewest - pendingWindow) _ r [] hd hvs
    exact ⟨⟨evicted, by simpa using hlines, hperm⟩, henv⟩

/-- **Store rule**: with a new id, storing a call adds its entry, and what
    an eviction takes out it emits. -/
theorem pendingStore_evicts (order : RangeOrder) {r : Reader} {callID : Nat} (pc : PendingCall)
    (hd : DistinctKeys r.pendingCalls) (hnew : callID ∉ r.pendingCalls.map Prod.fst) :
    Evicts ((callID, pc) :: r.pendingCalls) (pendingStore order r callID pc).1
        (pendingStore order r callID pc).2 ∧
      (pendingStore order r callID pc).1.consumerEnv = r.consumerEnv := by
  have hstore : mapStore r.pendingCalls callID pc = (callID, pc) :: r.pendingCalls := by
    rw [mapStore, filter_key_ne_of_notMem hnew]
  have hd' : DistinctKeys ((callID, pc) :: r.pendingCalls) := by
    simpa [DistinctKeys] using ⟨by simpa using hnew, hd⟩
  simp only [pendingStore, hstore]
  split
  · exact evictStalePending_evicts order hd'
  · exact ⟨⟨[], rfl, List.Perm.refl _⟩, rfl⟩

/-- **Take rule** for the reader. -/
theorem pendingTake_perm {r r' : Reader} {callID : Nat} {pc : PendingCall}
    (hd : DistinctKeys r.pendingCalls) (h : pendingTake r callID = some (pc, r')) :
    r.pendingCalls.Perm ((callID, pc) :: r'.pendingCalls) ∧ r'.consumerEnv = r.consumerEnv := by
  simp only [pendingTake, Option.map_eq_some_iff, Prod.mk.injEq] at h
  obtain ⟨⟨pc', es⟩, htake, rfl, rfl⟩ := h
  exact ⟨loadAndDelete_perm hd htake, rfl⟩

end JniLog.EventPipe
