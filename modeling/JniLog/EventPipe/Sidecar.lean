import JniLog.EventPipe.Deferred
import JniLog.EventPipe.CallIds
import JniLog.Framework.Ledger
import JniLog.Framework.System

/-! # The sidecar of a hook thread

    Model of one hook thread and its consumer, as far as the global
    references of the deferred-render sidecar go: the logging functions
    of `bridge.c` and the helpers of `hooks.c`, `hook_logging.c` and
    `hook_fields.c` that push objects before they call them.

    * An operation of the machine is one helper from start to end, run
      for a caller the hooks log. Calls from the payload itself are never
      logged, so `DeleteGlobalRef` in `event_pipe_render_refs_drop` goes
      straight to the runtime.
    * What the runtime answers is part of the operation: whether the
      consumer's readiness reads 1 at a push, whether `NewGlobalRef` is
      out of memory there, whether a send is delivered. A consumer is
      ready only after it attached.
    * The ledger records every reference the sidecar mints. `building`
      is what was pushed since the last event was sent.

    Main results:

    * a helper its gate admits leaves the sidecar empty and the ledger
      balanced;
    * a run does so throughout exactly when no helper is refused by its
      gate after a push was accepted. -/

namespace JniLog.EventPipe

open Bytes Visualize

/-! ## Section 1: References -/

/-- The runtime's `NewGlobalRef`, given the live references minted here:
    NULL, or a reference other than these. -/
structure Vm where
  NewGlobalRef : List UInt64 → Option UInt64
  fresh : ∀ live gref, NewGlobalRef live = some gref → gref ≠ 0 ∧ gref ∉ live

/-- A non-NULL object at a push; `safe` is the answer of `vis_safe_to_call`
    in the hook's thread. -/
structure Obj where
  obj : JObj
  consumer_ready : Bool
  oom : Bool
  safe : Bool

/-- The sidecar and everything its references pass through. -/
structure RefState where
  tls : RenderRefs
  building : List UInt64
  ledger : List (Ledger.Entry UInt64)
  channel : List Bytes
  emitted : List (List UInt64 × List UInt64)
  consumerEnv : Bool

def RefState.initial : RefState :=
  ⟨RenderRefs.empty, [], [], [], [], false⟩

/-- The references a datagram carries. -/
def datagramRefs (d : Bytes) : List UInt64 :=
  match readDatagram d with
  | .ok (some ev) => ev.refs
  | _ => []

/-- The references on their way to the consumer. -/
def channelRefs (channel : List Bytes) : List UInt64 :=
  channel.flatMap datagramRefs

section Refs

variable (vm : Vm) (buf : StackBuf)

/-- The answer of `NewGlobalRef` at a push. -/
def RefState.answer (s : RefState) (o : Obj) : Option UInt64 :=
  if o.oom then none else vm.NewGlobalRef (Ledger.keys Ledger.Entry.live s.ledger)

/-- `event_pipe_defer_render_push`. -/
def RefState.defer (s : RefState) (o : Obj) : Option Nat × RefState :=
  let (slotn, tls) :=
    event_pipe_defer_render_push (s.consumerEnv && o.consumer_ready) (s.answer vm o) s.tls
  match slotn, s.answer vm o with
  | some slotn, some gref =>
    (some slotn, { s with
      tls
      building := s.building ++ [gref]
      ledger := Ledger.acquire gref s.ledger })
  | _, _ => (none, s)

/-- One of the `event_pipe_emit_*` functions. -/
def RefState.emit (s : RefState) (e : EmitCall) (send : Bool) : RefState :=
  let r := e.run (fun _ => send) s.tls buf
  { s with
    tls := r.tls
    building := []
    ledger :=
      if r.delivered then Ledger.handOver s.tls.refs s.ledger
      else r.deleted.foldl Ledger.releaseByOwner s.ledger
    channel := if r.delivered then s.channel ++ r.datagram.toList else s.channel
    emitted := s.emitted ++ r.datagram.toList.map fun d => (s.building, datagramRefs d) }

/-- The consumer reads a datagram and renders its sidecar. -/
def RefState.consume (heap : UInt64 → JObj) (s : RefState) : RefState :=
  match s.channel with
  | [] => s
  | d :: channel =>
    let deleted :=
      match readDatagram d with
      | .ok (some ev) => sidecarDeleted heap s.consumerEnv ev
      | _ => []
    { s with channel, ledger := deleted.foldl Ledger.releaseByPeer s.ledger }

end Refs

/-! ## Section 2: The logging functions of `bridge.c` -/

/-- A hook thread. -/
structure Hook where
  refs : RefState
  call_ids : CallIds UInt64
  g_call_id_counter : UInt64
  logging_ready : Bool

def Hook.initial : Hook :=
  ⟨RefState.initial, CallIds.initial, 0, false⟩

section Bridge

variable (config_is_allowed : Bytes → Bool) (buf : StackBuf) (s : Hook) (send : Bool)

def Hook.emit (e : EmitCall) : Hook :=
  { s with refs := s.refs.emit buf e send }

def log_jni_call (offset : Int32) (jni_name : CStr) (receiver_kind : Int32)
    (receiver_str receiver_extra class_name method_name encoded_args : Bytes) (mid : UInt64)
    (caller : CStr) : Hook :=
  if s.logging_ready = false then s
  else if config_is_allowed jni_name = false then s
  else
    let cid := s.g_call_id_counter + 1
    let s := { s with g_call_id_counter := cid, call_ids := tls_push_call_id s.call_ids cid }
    s.emit buf send (.call cid offset receiver_kind mid jni_name (cstr receiver_str)
      (cstr receiver_extra) (cstr class_name) (cstr method_name) (cstr encoded_args) caller)

def log_jni_return (offset : Int32) (name : CStr) (ret_kind : Int32) (ret_raw : UInt64)
    (ret_str ret_extra : Bytes) : Hook :=
  if s.logging_ready = false then s
  else if config_is_allowed name = false then s
  else
    let (cid, call_ids) := tls_pop_call_id s.call_ids
    let s := { s with call_ids }
    s.emit buf send
      (.return cid offset ret_kind ret_raw name (cstr ret_str) (cstr ret_extra))

def log_jni_lookup (lookup_type name sig : CStr) (clazz : UInt64) (class_name caller : CStr) :
    Hook :=
  if s.logging_ready = false then s
  else if config_is_allowed lookup_type = false then s
  else s.emit buf send (.lookup clazz lookup_type name sig class_name caller)

/-- `gref` is the reference minted for the class when a consumer is
    ready; it does not pass through the sidecar. -/
def log_jni_lookup_deferred (lookup_type name sig : CStr) (clazz : UInt64) (gref : Option UInt64)
    (caller : CStr) : Hook :=
  if s.logging_ready = false then s
  else if config_is_allowed lookup_type = false then s
  else
    match gref with
    | some gref => s.emit buf send (.lookup gref lookup_type name sig (cstr []) caller)
    | none =>
      s.emit buf send (.lookup clazz lookup_type name sig (cstr (ascii "<unresolved>")) caller)

/-- `methods` is the list the function builds. -/
def log_jni_register_natives (clazz : UInt64) (class_name : CStr) (methods : Bytes)
    (caller : CStr) : Hook :=
  if s.logging_ready = false then s
  else if config_is_allowed (ascii "RegisterNatives") = false then s
  else s.emit buf send (.register_natives clazz class_name (cstr methods) caller)

def log_jni_field_access (offset : Int32) (name : CStr) (receiver_kind : Int32)
    (receiver_str receiver_extra : Bytes) (field_name : CStr) (value_kind : Int32)
    (value_raw : UInt64) (value_str value_extra : Bytes) (caller : CStr) : Hook :=
  if s.logging_ready = false then s
  else if config_is_allowed name = false then s
  else
    s.emit buf send (.field_access offset name receiver_kind (cstr receiver_str)
      (cstr receiver_extra) field_name value_kind value_raw (cstr value_str) (cstr value_extra)
      caller)

end Bridge

/-! ## Section 3: The helpers that push -/

/-- A value a hook logs: bits, or an object. -/
inductive Value where
  | prim (kind : Int32) (raw : UInt64)
  | object (raw : UInt64) (o : Option Obj)

/-- The receiver of a field access: a static field whose class is known
    shows the class, any other access defers its receiver. -/
inductive FieldReceiver where
  | declaringClass (name : CStr)
  | deferred (o : Option Obj)

section Helpers

variable (vm : Vm) (config_is_allowed : Bytes → Bool) (buf : StackBuf) (s : Hook)

/-- A push of an object that may be NULL. -/
def Hook.defer (o : Option Obj) : Option Nat × Hook :=
  match o with
  | none => (none, s)
  | some o =>
    let (slotn, refs) := s.refs.defer vm o
    (slotn, { s with refs })

/-- The argument record of an object: a placeholder, or null. -/
def argText (slotn : Option Nat) : Bytes :=
  match slotn with
  | none => nullChunk
  | some slotn => placeholder slotn

/-- Kind and texts of an object that may be NULL, by `classify_object`
    and `fill_object_strings`. -/
def Hook.objectParts (o : Option Obj) : (Int32 × Bytes × Bytes) × Hook :=
  match o with
  | none => ((0, [], []), s)
  | some obj =>
    let (slotn, s) := s.defer vm o
    ((classify_object obj.obj, fill_object_strings obj.safe slotn obj.obj), s)

def _log_obj_arg_call (send : Bool) (slot : Int32) (name : CStr) (obj : Option Obj)
    (caller : CStr) : Hook :=
  let (slotn, s) := s.defer vm obj
  log_jni_call config_is_allowed buf s send slot name 0 [] [] [] name (argText slotn) 0 caller

def _log_obj2_arg_call (send : Bool) (slot : Int32) (name : CStr) (obj1 obj2 : Option Obj)
    (caller : CStr) : Hook :=
  let (slotn1, s) := s.defer vm obj1
  let (slotn2, s) := s.defer vm obj2
  log_jni_call config_is_allowed buf s send slot name 0 [] [] [] name
    (argText slotn1 ++ argText slotn2) 0 caller

/-- The logging part of `hooked_SetObjectArrayElement`; `pre` encodes the
    array and the index. -/
def log_SetObjectArrayElement (send send' : Bool) (slot : Int32) (pre : Bytes) (value : Option Obj)
    (caller : CStr) : Hook :=
  let name := cstr (ascii "SetObjectArrayElement")
  let (slotn, s) := s.defer vm value
  let s := log_jni_call config_is_allowed buf s send slot name 0 [] [] [] name
    (pre ++ argText slotn) 0 caller
  log_jni_return config_is_allowed buf s send' slot name 1 0 [] []

/-- `prepare_method_log_ctx_common` and `emit_method_call_begin`; the
    receiver of a static call keeps its text but not its kind. -/
def log_method_call (send : Bool) (isStatic : Bool) (slot : Int32) (name : CStr)
    (receiver : Option Obj) (class_name method_name encoded_args : Bytes) (mid : UInt64)
    (caller : CStr) : Hook :=
  if s.logging_ready = false then s
  else
    let ((kind, str, extra), s) := s.objectParts vm receiver
    log_jni_call config_is_allowed buf s send slot name (if isStatic then 0 else kind) str extra
      class_name method_name encoded_args mid caller

/-- `log_method_return_value`. The context is ready only when logging is,
    and logging stays ready. A pending exception makes the value null. -/
def log_method_return_value (send : Bool) (slot : Int32) (name : CStr) (value : Value) : Hook :=
  if s.logging_ready = false then s
  else
    match value with
    | .prim kind raw => log_jni_return config_is_allowed buf s send slot name kind raw [] []
    | .object raw o =>
      let ((kind, str, extra), s) := s.objectParts vm o
      log_jni_return config_is_allowed buf s send slot name kind raw str extra

/-- The receiver part of `prepare_field_log_ctx`. -/
def Hook.fieldReceiver (receiver : FieldReceiver) : (Int32 × Bytes × Bytes) × Hook :=
  match receiver with
  | .declaringClass name => ((11, name, []), s)
  | .deferred o => s.objectParts vm o

/-- `prepare_field_log_ctx` and `log_field_access_result`. -/
def log_field_get (send : Bool) (slot : Int32) (name : CStr) (receiver : FieldReceiver)
    (field_name : CStr) (value : Value) (caller : CStr) : Hook :=
  if s.logging_ready = false then s
  else
    let ((kind, str, extra), s) := s.fieldReceiver vm receiver
    match value with
    | .prim vkind raw =>
      log_jni_field_access config_is_allowed buf s send slot name kind str extra field_name vkind
        raw [] [] caller
    | .object raw o =>
      let ((vkind, vstr, vextra), s) := s.objectParts vm o
      log_jni_field_access config_is_allowed buf s send slot name kind str extra field_name vkind
        raw vstr vextra caller

/-- `prepare_field_log_ctx`, `field_obj_parts` for an object, and
    `emit_field_access_begin`. -/
def log_field_set (send : Bool) (slot : Int32) (name : CStr) (receiver : FieldReceiver)
    (field_name : CStr) (value : Value) (caller : CStr) : Hook :=
  if s.logging_ready = false then s
  else
    let ((kind, str, extra), s) := s.fieldReceiver vm receiver
    match value with
    | .prim vkind raw =>
      log_jni_field_access config_is_allowed buf s send slot name kind str extra field_name vkind
        raw [] [] caller
    | .object _ none =>
      log_jni_field_access config_is_allowed buf s send slot name kind str extra field_name 0 0 []
        [] caller
    | .object raw (some o) =>
      let (slotn, s) := s.defer vm (some o)
      let (vkind, vstr, vextra) := field_obj_parts o.safe slotn o.obj
      log_jni_field_access config_is_allowed buf s send slot name kind str extra field_name vkind
        raw vstr vextra caller

/-- `gref` is the reference minted for the returned object when the gate
    admits the return and a consumer is ready; it does not pass through
    the sidecar. -/
def _log_obj_ret (send : Bool) (slot : Int32) (name : CStr) (gref : Option UInt64) : Hook :=
  match gref with
  | some gref =>
    if config_is_allowed name then
      let (cid, call_ids) := tls_pop_call_id s.call_ids
      let s := { s with call_ids }
      s.emit buf send (.obj_return cid slot gref name)
    else log_jni_return config_is_allowed buf s send slot name 0 0 [] []
  | none => log_jni_return config_is_allowed buf s send slot name 0 0 [] []

end Helpers

/-! ## Section 4: The machine -/

/-- A helper with its arguments and the answers of the runtime. -/
inductive Helper where
  | jni_call (send : Bool) (offset : Int32) (jni_name : CStr) (receiver_kind : Int32)
    (receiver_str receiver_extra class_name method_name encoded_args : Bytes) (mid : UInt64)
    (caller : CStr)
  | jni_return (send : Bool) (offset : Int32) (name : CStr) (ret_kind : Int32) (ret_raw : UInt64)
    (ret_str ret_extra : Bytes)
  | jni_lookup (send : Bool) (lookup_type name sig : CStr) (clazz : UInt64)
    (class_name caller : CStr)
  | jni_lookup_deferred (send : Bool) (lookup_type name sig : CStr) (clazz : UInt64)
    (gref : Option UInt64) (caller : CStr)
  | jni_register_natives (send : Bool) (clazz : UInt64) (class_name : CStr) (methods : Bytes)
    (caller : CStr)
  | obj_arg_call (send : Bool) (slot : Int32) (name : CStr) (obj : Option Obj) (caller : CStr)
  | obj2_arg_call (send : Bool) (slot : Int32) (name : CStr) (obj1 obj2 : Option Obj)
    (caller : CStr)
  | set_array_element (send send' : Bool) (slot : Int32) (pre : Bytes) (value : Option Obj)
    (caller : CStr)
  | method_call (send : Bool) (isStatic : Bool) (slot : Int32) (name : CStr)
    (receiver : Option Obj) (class_name method_name encoded_args : Bytes) (mid : UInt64)
    (caller : CStr)
  | method_return (send : Bool) (slot : Int32) (name : CStr) (value : Value)
  | field_get (send : Bool) (slot : Int32) (name : CStr) (receiver : FieldReceiver)
    (field_name : CStr) (value : Value) (caller : CStr)
  | field_set (send : Bool) (slot : Int32) (name : CStr) (receiver : FieldReceiver)
    (field_name : CStr) (value : Value) (caller : CStr)
  | obj_ret (send : Bool) (slot : Int32) (name : CStr) (gref : Option UInt64)

/-- The objects a value pushes. -/
def Value.objects : Value → List Obj
  | prim _ _ => []
  | object _ o => o.toList

def FieldReceiver.objects : FieldReceiver → List Obj
  | declaringClass _ => []
  | deferred o => o.toList

/-- The objects a helper pushes, in order. The helpers with a logging
    context push nothing before logging is ready. -/
def Helper.objects (logging_ready : Bool) : Helper → List Obj
  | obj_arg_call _ _ _ obj _ => obj.toList
  | obj2_arg_call _ _ _ obj1 obj2 _ => obj1.toList ++ obj2.toList
  | set_array_element _ _ _ _ value _ => value.toList
  | method_call _ _ _ _ receiver .. => if logging_ready then receiver.toList else []
  | method_return _ _ _ value => if logging_ready then value.objects else []
  | field_get _ _ _ receiver _ value _ | field_set _ _ _ receiver _ value _ =>
    if logging_ready then receiver.objects ++ value.objects else []
  | _ => []

/-- The name the gate is asked about. -/
def Helper.name : Helper → Bytes
  | jni_call _ _ name .. | jni_return _ _ name .. | jni_lookup _ name ..
  | jni_lookup_deferred _ name .. | obj_arg_call _ _ name .. | obj2_arg_call _ _ name ..
  | method_call _ _ _ name .. | method_return _ _ name .. | field_get _ _ name ..
  | field_set _ _ name .. | obj_ret _ _ name _ => name
  | jni_register_natives .. => ascii "RegisterNatives"
  | set_array_element .. => ascii "SetObjectArrayElement"

/-- A step: the consumer attaches, logging becomes ready, the consumer
    reads a datagram, or a helper runs. -/
inductive Op where
  | attach
  | loggingReady
  | consume
  | log (helper : Helper)

section Machine

variable (vm : Vm) (config_is_allowed : Bytes → Bool) (buf : StackBuf) (heap : UInt64 → JObj)

def Helper.run (s : Hook) : Helper → Hook
  | jni_call send off n k s₁ s₂ s₃ s₄ s₅ mid c =>
    log_jni_call config_is_allowed buf s send off n k s₁ s₂ s₃ s₄ s₅ mid c
  | jni_return send off n k raw s₁ s₂ =>
    log_jni_return config_is_allowed buf s send off n k raw s₁ s₂
  | jni_lookup send t n sig clazz s₁ c =>
    log_jni_lookup config_is_allowed buf s send t n sig clazz s₁ c
  | jni_lookup_deferred send t n sig clazz gref c =>
    log_jni_lookup_deferred config_is_allowed buf s send t n sig clazz gref c
  | jni_register_natives send clazz s₁ methods c =>
    log_jni_register_natives config_is_allowed buf s send clazz s₁ methods c
  | obj_arg_call send slot n o c => _log_obj_arg_call vm config_is_allowed buf s send slot n o c
  | obj2_arg_call send slot n o₁ o₂ c =>
    _log_obj2_arg_call vm config_is_allowed buf s send slot n o₁ o₂ c
  | set_array_element send send' slot pre o c =>
    log_SetObjectArrayElement vm config_is_allowed buf s send send' slot pre o c
  | method_call send isStatic slot n o s₁ s₂ s₃ mid c =>
    log_method_call vm config_is_allowed buf s send isStatic slot n o s₁ s₂ s₃ mid c
  | method_return send slot n v => log_method_return_value vm config_is_allowed buf s send slot n v
  | field_get send slot n r f v c => log_field_get vm config_is_allowed buf s send slot n r f v c
  | field_set send slot n r f v c => log_field_set vm config_is_allowed buf s send slot n r f v c
  | obj_ret send slot n gref => _log_obj_ret config_is_allowed buf s send slot n gref

/-- A finished helper builds no further event. -/
def Hook.finished (s : Hook) : Hook :=
  { s with refs := { s.refs with building := [] } }

/-- The hook thread and its consumer. -/
def hookThread : Machine Hook Op where
  next s
    | .attach => { s with refs := { s.refs with consumerEnv := true } }
    | .loggingReady => { s with logging_ready := true }
    | .consume => { s with refs := s.refs.consume heap }
    | .log helper => (helper.run vm config_is_allowed buf s).finished

end Machine

/-! ## Section 5: What a helper does to the references -/

section Steps

variable {vm : Vm} {config_is_allowed : Bytes → Bool} {buf : StackBuf} {s : Hook}

/-- The pushes of `objects`, in order. -/
def RefState.deferAll (vm : Vm) (s : RefState) (objects : List Obj) : RefState :=
  objects.foldl (fun s o => (s.defer vm o).2) s

/-- The emits `es`, in order. -/
def RefState.emitAll (buf : StackBuf) (s : RefState) (es : List (EmitCall × Bool)) : RefState :=
  es.foldl (fun s e => s.emit buf e.1 e.2) s

/-- From `s` to `s'` events are emitted, and at least one when `admitted`. -/
def Emits (buf : StackBuf) (admitted : Prop) (s s' : Hook) : Prop :=
  s'.logging_ready = s.logging_ready ∧
    ∃ es, s'.refs = s.refs.emitAll buf es ∧ (es ≠ [] ↔ admitted)

/-- The condition of the logging functions. -/
def Hook.admits (config_is_allowed : Bytes → Bool) (s : Hook) (name : Bytes) : Prop :=
  s.logging_ready = true ∧ config_is_allowed name = true

theorem Emits.refused {admitted : Prop} (h : ¬ admitted) : Emits buf admitted s s :=
  ⟨rfl, [], rfl, by simpa using h⟩

theorem Emits.one {admitted : Prop} {s' : Hook} {e : EmitCall} {send : Bool} (h : admitted)
    (hready : s'.logging_ready = s.logging_ready) (hrefs : s'.refs = s.refs.emit buf e send) :
    Emits buf admitted s s' :=
  ⟨hready, [(e, send)], hrefs, by simpa using h⟩

/-- A gated function that emits one event emits under its gate. -/
theorem Emits.gated {name : Bytes} {s' : Hook} {e : EmitCall} {send : Bool}
    (hready : s'.logging_ready = s.logging_ready) (hrefs : s'.refs = s.refs.emit buf e send) :
    Emits buf (s.admits config_is_allowed name) s
      (if s.logging_ready = false then s
        else if config_is_allowed name = false then s else s') := by
  by_cases hlog : s.logging_ready = false
  · rw [if_pos hlog]
    exact Emits.refused fun h => by simp [h.1] at hlog
  · by_cases hgate : config_is_allowed name = false
    · rw [if_neg hlog, if_pos hgate]
      exact Emits.refused fun h => by simp [h.2] at hgate
    · rw [if_neg hlog, if_neg hgate]
      exact Emits.one ⟨by simpa using hlog, by simpa using hgate⟩ hready hrefs

theorem Emits.trans {admitted : Prop} {s₁ s₂ s₃ : Hook} (h₁ : Emits buf admitted s₁ s₂)
    (h₂ : Emits buf admitted s₂ s₃) : Emits buf admitted s₁ s₃ := by
  obtain ⟨hready₁, es₁, hrefs₁, hiff₁⟩ := h₁
  obtain ⟨hready₂, es₂, hrefs₂, hiff₂⟩ := h₂
  refine ⟨hready₂.trans hready₁, es₁ ++ es₂, ?_, ?_⟩
  · rw [hrefs₂, hrefs₁, RefState.emitAll, RefState.emitAll, RefState.emitAll, List.foldl_append]
  · simp only [ne_eq, List.append_eq_nil_iff] at hiff₁ hiff₂ ⊢
    tauto

theorem log_jni_call_emits (send : Bool) (off : Int32) (n : CStr) (k : Int32)
    (s₁ s₂ s₃ s₄ s₅ : Bytes) (mid : UInt64) (c : CStr) :
    Emits buf (s.admits config_is_allowed n) s
      (log_jni_call config_is_allowed buf s send off n k s₁ s₂ s₃ s₄ s₅ mid c) :=
  Emits.gated rfl rfl

theorem log_jni_return_emits (send : Bool) (off : Int32) (n : CStr) (k : Int32) (raw : UInt64)
    (s₁ s₂ : Bytes) :
    Emits buf (s.admits config_is_allowed n) s
      (log_jni_return config_is_allowed buf s send off n k raw s₁ s₂) :=
  Emits.gated rfl rfl

theorem log_jni_field_access_emits (send : Bool) (off : Int32) (n : CStr) (k : Int32)
    (s₁ s₂ : Bytes) (s₃ : CStr) (k' : Int32) (raw : UInt64) (s₄ s₅ : Bytes) (c : CStr) :
    Emits buf (s.admits config_is_allowed n) s
      (log_jni_field_access config_is_allowed buf s send off n k s₁ s₂ s₃ k' raw s₄ s₅ c) :=
  Emits.gated rfl rfl

theorem Hook.defer_snd (o : Option Obj) :
    (s.defer vm o).2 = { s with refs := s.refs.deferAll vm o.toList } := by
  cases o <;> rfl

theorem Hook.objectParts_snd (o : Option Obj) :
    (s.objectParts vm o).2 = { s with refs := s.refs.deferAll vm o.toList } := by
  cases o <;> rfl

theorem Hook.fieldReceiver_snd (receiver : FieldReceiver) :
    (s.fieldReceiver vm receiver).2 =
      { s with refs := s.refs.deferAll vm receiver.objects } := by
  cases receiver with
  | declaringClass name => rfl
  | deferred o => exact s.objectParts_snd o

theorem RefState.deferAll_append (s : RefState) (os os' : List Obj) :
    s.deferAll vm (os ++ os') = (s.deferAll vm os).deferAll vm os' :=
  List.foldl_append

/-- The state after the pushes of a helper. -/
def Hook.pushed (vm : Vm) (s : Hook) (objects : List Obj) : Hook :=
  { s with refs := s.refs.deferAll vm objects }

/-- When a helper emits: under its gate, but an object return that has
    its reference does not ask whether logging is ready. -/
def Helper.admitted (config_is_allowed : Bytes → Bool) (s : Hook) : Helper → Prop
  | obj_ret _ _ name gref =>
    config_is_allowed name = true ∧ (gref.isSome = true ∨ s.logging_ready = true)
  | helper => s.admits config_is_allowed helper.name

theorem Emits.not_ready {name : Bytes} {s' : Hook} (hlog : s.logging_ready = false) (hs : s' = s) :
    Emits buf (s.admits config_is_allowed name) s s' := by
  rw [hs]
  exact Emits.refused fun h => by simp [h.1] at hlog

theorem log_method_call_emits (send isStatic : Bool) (slot : Int32) (n : CStr) (o : Option Obj)
    (s₁ s₂ s₃ : Bytes) (mid : UInt64) (c : CStr) :
    Emits buf (s.admits config_is_allowed n)
      (s.pushed vm (if s.logging_ready then o.toList else []))
      (log_method_call vm config_is_allowed buf s send isStatic slot n o s₁ s₂ s₃ mid c) := by
  by_cases hlog : s.logging_ready = false
  · rw [if_neg (by simp [hlog])]
    exact Emits.not_ready hlog (if_pos hlog)
  · rw [if_pos (by simpa using hlog), log_method_call, if_neg hlog]
    cases o with
    | none => exact log_jni_call_emits ..
    | some o => exact log_jni_call_emits (s := (s.defer vm (some o)).2) ..

theorem log_method_return_value_emits (send : Bool) (slot : Int32) (n : CStr) (v : Value) :
    Emits buf (s.admits config_is_allowed n)
      (s.pushed vm (if s.logging_ready then v.objects else []))
      (log_method_return_value vm config_is_allowed buf s send slot n v) := by
  by_cases hlog : s.logging_ready = false
  · rw [if_neg (by simp [hlog])]
    exact Emits.not_ready hlog (if_pos hlog)
  · rw [if_pos (by simpa using hlog)]
    unfold log_method_return_value
    rw [if_neg hlog]
    cases v with
    | prim kind raw => exact log_jni_return_emits ..
    | object raw o =>
      cases o with
      | none => exact log_jni_return_emits ..
      | some o => exact log_jni_return_emits (s := (s.defer vm (some o)).2) ..

/-- The receiver's push leaves the state the value is pushed in. -/
theorem Hook.pushed_fieldReceiver (vm : Vm) (config_is_allowed : Bytes → Bool) (s : Hook)
    (r : FieldReceiver) (n : Bytes) (os : List Obj) :
    s.pushed vm (r.objects ++ os) = (s.fieldReceiver vm r).2.pushed vm os ∧
      s.admits config_is_allowed n = (s.fieldReceiver vm r).2.admits config_is_allowed n := by
  rw [Hook.fieldReceiver_snd, Hook.pushed, Hook.pushed, RefState.deferAll_append]
  exact ⟨rfl, rfl⟩

/-- A field function emits when it does so in the state the receiver's
    push leaves. -/
theorem Emits.of_fieldReceiver {n : Bytes} {r : FieldReceiver} {os : List Obj} {s' : Hook}
    (hoff : s.logging_ready = false → s' = s)
    (hon : ¬ s.logging_ready = false →
      Emits buf ((s.fieldReceiver vm r).2.admits config_is_allowed n)
        ((s.fieldReceiver vm r).2.pushed vm os) s') :
    Emits buf (s.admits config_is_allowed n)
      (s.pushed vm (if s.logging_ready then r.objects ++ os else [])) s' := by
  by_cases hlog : s.logging_ready = false
  · rw [if_neg (by simp [hlog])]
    exact Emits.not_ready hlog (hoff hlog)
  · obtain ⟨hpushed, hadmits⟩ := s.pushed_fieldReceiver vm config_is_allowed r n os
    rw [if_pos (by simpa using hlog), hpushed, hadmits]
    exact hon hlog

theorem log_field_get_emits (send : Bool) (slot : Int32) (n : CStr) (r : FieldReceiver) (f : CStr)
    (v : Value) (c : CStr) :
    Emits buf (s.admits config_is_allowed n)
      (s.pushed vm (if s.logging_ready then r.objects ++ v.objects else []))
      (log_field_get vm config_is_allowed buf s send slot n r f v c) := by
  refine Emits.of_fieldReceiver (fun hlog => if_pos hlog) fun hlog => ?_
  unfold log_field_get
  rw [if_neg hlog]
  generalize s.fieldReceiver vm r = p
  cases v with
  | prim kind raw => exact log_jni_field_access_emits (s := p.2) ..
  | object raw o =>
    cases o with
    | none => exact log_jni_field_access_emits (s := p.2) ..
    | some o => exact log_jni_field_access_emits (s := (p.2.defer vm (some o)).2) ..

theorem log_field_set_emits (send : Bool) (slot : Int32) (n : CStr) (r : FieldReceiver) (f : CStr)
    (v : Value) (c : CStr) :
    Emits buf (s.admits config_is_allowed n)
      (s.pushed vm (if s.logging_ready then r.objects ++ v.objects else []))
      (log_field_set vm config_is_allowed buf s send slot n r f v c) := by
  refine Emits.of_fieldReceiver (fun hlog => if_pos hlog) fun hlog => ?_
  unfold log_field_set
  rw [if_neg hlog]
  generalize s.fieldReceiver vm r = p
  cases v with
  | prim kind raw => exact log_jni_field_access_emits (s := p.2) ..
  | object raw o =>
    cases o with
    | none => exact log_jni_field_access_emits (s := p.2) ..
    | some o => exact log_jni_field_access_emits (s := (p.2.defer vm (some o)).2) ..

/-- The first push leaves the state the others are made in. -/
theorem Hook.pushed_defer (vm : Vm) (config_is_allowed : Bytes → Bool) (s : Hook)
    (o : Option Obj) (n : Bytes) (os : List Obj) :
    s.pushed vm (o.toList ++ os) = (s.defer vm o).2.pushed vm os ∧
      s.admits config_is_allowed n = (s.defer vm o).2.admits config_is_allowed n := by
  rw [Hook.defer_snd, Hook.pushed, Hook.pushed, RefState.deferAll_append]
  exact ⟨rfl, rfl⟩

theorem _log_obj2_arg_call_emits (send : Bool) (slot : Int32) (n : CStr) (o₁ o₂ : Option Obj)
    (c : CStr) :
    Emits buf (s.admits config_is_allowed n) (s.pushed vm (o₁.toList ++ o₂.toList))
      (_log_obj2_arg_call vm config_is_allowed buf s send slot n o₁ o₂ c) := by
  obtain ⟨hpushed, hadmits⟩ :=
    s.pushed_defer vm config_is_allowed o₁ n o₂.toList
  rw [hpushed, hadmits]
  unfold _log_obj2_arg_call
  generalize s.defer vm o₁ = p
  cases o₂ with
  | none => exact log_jni_call_emits (s := p.2) ..
  | some o => exact log_jni_call_emits (s := (p.2.defer vm (some o)).2) ..

/-- A return after an event of the same name is admitted together with it. -/
theorem Emits.log_jni_return {n : CStr} {s' : Hook}
    (h : Emits buf (s.admits config_is_allowed n) s s') (send : Bool) (off : Int32)
    (k : Int32) (raw : UInt64) (s₁ s₂ : Bytes) :
    Emits buf (s.admits config_is_allowed n) s
      (log_jni_return config_is_allowed buf s' send off n k raw s₁ s₂) := by
  have hreturn : Emits buf (s'.admits config_is_allowed n) s'
      (EventPipe.log_jni_return config_is_allowed buf s' send off n k raw s₁ s₂) :=
    log_jni_return_emits ..
  rw [Hook.admits, h.1] at hreturn
  exact h.trans hreturn

theorem log_SetObjectArrayElement_emits (send send' : Bool) (slot : Int32) (pre : Bytes)
    (o : Option Obj) (c : CStr) :
    Emits buf (s.admits config_is_allowed (ascii "SetObjectArrayElement")) (s.pushed vm o.toList)
      (log_SetObjectArrayElement vm config_is_allowed buf s send send' slot pre o c) := by
  have hname : (cstr (ascii "SetObjectArrayElement")).val = ascii "SetObjectArrayElement" :=
    cstr_val (by decide)
  rw [← hname]
  obtain ⟨hpushed, hadmits⟩ :=
    s.pushed_defer vm config_is_allowed o (cstr (ascii "SetObjectArrayElement")).val []
  rw [List.append_nil] at hpushed
  rw [hpushed, hadmits]
  unfold log_SetObjectArrayElement
  generalize s.defer vm o = p
  exact Emits.log_jni_return (log_jni_call_emits (s := p.2) ..) ..

theorem _log_obj_ret_emits (send : Bool) (slot : Int32) (n : CStr) (gref : Option UInt64) :
    Emits buf ((Helper.obj_ret send slot n gref).admitted config_is_allowed s) s
      (_log_obj_ret config_is_allowed buf s send slot n gref) := by
  have hreturn : Emits buf (s.admits config_is_allowed n) s
      (log_jni_return config_is_allowed buf s send slot n 0 0 [] []) := log_jni_return_emits ..
  cases gref with
  | none =>
    have hiff : (Helper.obj_ret send slot n none).admitted config_is_allowed s =
        s.admits config_is_allowed n := by
      simp [Helper.admitted, Hook.admits, and_comm]
    rw [hiff]
    exact hreturn
  | some gref =>
    by_cases hgate : config_is_allowed n = true
    · have hrun : _log_obj_ret config_is_allowed buf s send slot n (some gref) =
          { s with call_ids := (tls_pop_call_id s.call_ids).2 }.emit buf send
            (.obj_return (tls_pop_call_id s.call_ids).1 slot gref n) := by
        simp [_log_obj_ret, hgate]
      rw [hrun]
      exact Emits.one ⟨hgate, .inl rfl⟩ rfl rfl
    · have hrun : _log_obj_ret config_is_allowed buf s send slot n (some gref) =
          log_jni_return config_is_allowed buf s send slot n 0 0 [] [] := by
        simp [_log_obj_ret, hgate]
      have hiff : (Helper.obj_ret send slot n (some gref)).admitted config_is_allowed s =
          s.admits config_is_allowed n := by
        simp [Helper.admitted, Hook.admits, hgate]
      rw [hrun, hiff]
      exact hreturn

/-- **What a helper does**: it pushes its objects, and then emits when it
    is admitted. -/
theorem Helper.run_emits (vm : Vm) (config_is_allowed : Bytes → Bool) (buf : StackBuf) (s : Hook)
    (helper : Helper) :
    Emits buf (helper.admitted config_is_allowed s) (s.pushed vm (helper.objects s.logging_ready))
      (helper.run vm config_is_allowed buf s) := by
  cases helper with
  | jni_call => exact log_jni_call_emits ..
  | jni_return => exact log_jni_return_emits ..
  | jni_lookup => exact Emits.gated rfl rfl
  | jni_lookup_deferred send t n sig clazz gref c =>
    cases gref with
    | none => exact Emits.gated rfl rfl
    | some gref => exact Emits.gated rfl rfl
  | jni_register_natives => exact Emits.gated rfl rfl
  | obj_arg_call send slot n o c =>
    cases o with
    | none => exact log_jni_call_emits ..
    | some o => exact log_jni_call_emits (s := (s.defer vm (some o)).2) ..
  | obj2_arg_call send slot n o₁ o₂ c => exact _log_obj2_arg_call_emits ..
  | set_array_element send send' slot pre o c => exact log_SetObjectArrayElement_emits ..
  | method_call => exact log_method_call_emits ..
  | method_return => exact log_method_return_value_emits ..
  | field_get => exact log_field_get_emits ..
  | field_set => exact log_field_set_emits ..
  | obj_ret send slot n gref => exact _log_obj_ret_emits ..

end Steps

/-! ## Section 6: The invariant -/

section Invariant

variable {vm : Vm} {buf : StackBuf} {s : RefState}

/-- The references listed in the sidecar are those held, and those on
    their way are the ones the channel carries. -/
structure Inv (s : RefState) : Prop where
  building : s.building = s.tls.refs
  env : s.tls.refs ≠ [] → s.tls.env = true
  balanced : Ledger.Balanced s.ledger s.tls.refs (channelRefs s.channel)
  nonzero : 0 ∉ s.tls.refs
  carried : ∀ d ∈ s.channel, ∃ e : EmitCall, ∃ refs : List UInt64,
    refs.length ≤ EVENT_PIPE_MAX_REFS ∧ 0 ∉ refs ∧ d = e.datagram refs
  attached : s.tls.refs ++ channelRefs s.channel ≠ [] → s.consumerEnv = true
  own : ∀ p ∈ s.emitted, p.2 = p.1

theorem inv_initial : Inv RefState.initial :=
  ⟨rfl, by simp [RefState.initial, RenderRefs.empty], Ledger.Balanced.nil,
    by simp [RefState.initial, RenderRefs.empty], by simp [RefState.initial],
    by simp [RefState.initial, RenderRefs.empty, channelRefs], by simp [RefState.initial]⟩

theorem datagramRefs_datagram (e : EmitCall) {refs : List UInt64}
    (hrefs : refs.length ≤ EVENT_PIPE_MAX_REFS) : datagramRefs (e.datagram refs) = refs := by
  rw [datagramRefs, e.readDatagram_datagram hrefs]
  cases e <;> rfl

theorem channelRefs_append (ds ds' : List Bytes) :
    channelRefs (ds ++ ds') = channelRefs ds ++ channelRefs ds' :=
  List.flatMap_append

theorem channelRefs_cons (d : Bytes) (ds : List Bytes) :
    channelRefs (d :: ds) = datagramRefs d ++ channelRefs ds :=
  List.flatMap_cons

/-- The readiness read at a push is 1, and the runtime has a reference. -/
def RefState.mints (vm : Vm) (s : RefState) (o : Obj) : Prop :=
  s.consumerEnv = true ∧ o.consumer_ready = true ∧ (s.answer vm o).isSome = true

/-- A push either does nothing or appends a fresh reference. -/
theorem RefState.defer_cases (vm : Vm) (s : RefState) (o : Obj) :
    ((s.defer vm o).2 = s ∧ (s.tls.refs = [] → ¬ s.mints vm o)) ∨
      ∃ gref room, s.mints vm o ∧ s.answer vm o = some gref ∧
        (s.defer vm o).2 = { s with
          tls := ⟨s.tls.refs ++ [gref], true, room⟩
          building := s.building ++ [gref]
          ledger := Ledger.acquire gref s.ledger } := by
  unfold RefState.defer event_pipe_defer_render_push RefState.mints
  by_cases hready : (s.consumerEnv && o.consumer_ready) = true
  · have hready' : s.consumerEnv = true ∧ o.consumer_ready = true := by simpa using hready
    by_cases hfull : s.tls.refs.length ≥ EVENT_PIPE_MAX_REFS
    · left
      refine ⟨by simp [hready', hfull], fun hnil => ?_⟩
      simp [hnil, EVENT_PIPE_MAX_REFS] at hfull
    · cases hanswer : s.answer vm o with
      | none => exact .inl ⟨by simp [hready', hfull], by simp⟩
      | some gref =>
        right
        refine ⟨gref, by simp; omega, ⟨hready'.1, hready'.2, rfl⟩, rfl, by simp [hready', hfull]⟩
  · left
    refine ⟨by simp [hready], fun _ h => hready ?_⟩
    simp [h.1, h.2.1]

/-- **Push rule.** -/
theorem Inv.defer (h : Inv s) (o : Obj) : Inv (s.defer vm o).2 := by
  rcases s.defer_cases vm o with ⟨heq, -⟩ | ⟨gref, room, hmints, hanswer, heq⟩
  · rw [heq]
    exact h
  · have hvm : vm.NewGlobalRef (Ledger.keys Ledger.Entry.live s.ledger) = some gref := by
      unfold RefState.answer at hanswer
      split at hanswer
      · cases hanswer
      · exact hanswer
    obtain ⟨hne, hfresh⟩ := vm.fresh _ _ hvm
    rw [heq]
    refine ⟨by simp [h.building], fun _ => rfl, ?_, ?_, h.carried, fun _ => hmints.1, h.own⟩
    · -- a live reference is not minted again
      exact h.balanced.acquire fun hmem => hfresh (h.balanced.mem_live hmem)
    · simp only [List.mem_append, List.mem_singleton, not_or]
      exact ⟨h.nonzero, Ne.symm hne⟩

/-- **Emit rule**: the sidecar is empty afterwards. -/
theorem Inv.emit (h : Inv s) (e : EmitCall) (send : Bool) :
    Inv (s.emit buf e send) ∧ (s.emit buf e send).tls.refs = [] := by
  have hrefs := datagramRefs_datagram e s.tls.room
  have hown : ∀ p ∈ s.emitted ++ [(s.building, datagramRefs (e.datagram s.tls.refs))],
      p.2 = p.1 := by
    intro p hp
    rcases List.mem_append.mp hp with hp | hp
    · exact h.own p hp
    · rw [List.mem_singleton.mp hp, hrefs, h.building]
  cases send with
  | true =>
    have heq : s.emit buf e true = { s with
        tls := RenderRefs.empty
        building := []
        ledger := Ledger.handOver s.tls.refs s.ledger
        channel := s.channel ++ [e.datagram s.tls.refs]
        emitted := s.emitted ++ [(s.building, datagramRefs (e.datagram s.tls.refs))] } := by
      simp [RefState.emit, EmitCall.run_eq, sent]
    -- what was held is now on its way
    have hchannel : channelRefs (s.channel ++ [e.datagram s.tls.refs]) =
        channelRefs s.channel ++ s.tls.refs := by
      rw [channelRefs_append, channelRefs_cons, hrefs]
      simp [channelRefs]
    rw [heq]
    refine ⟨⟨rfl, fun hne => absurd rfl hne, ?_, by simp [RenderRefs.empty], ?_, ?_, hown⟩, rfl⟩
    · show Ledger.Balanced _ [] (channelRefs (s.channel ++ [e.datagram s.tls.refs]))
      rw [hchannel]
      exact h.balanced.handOver
    · intro d hd
      rcases List.mem_append.mp hd with hd | hd
      · exact h.carried d hd
      · exact ⟨e, s.tls.refs, s.tls.room, h.nonzero, List.mem_singleton.mp hd⟩
    · show [] ++ channelRefs (s.channel ++ [e.datagram s.tls.refs]) ≠ [] → s.consumerEnv = true
      rw [hchannel]
      intro hne
      refine h.attached fun hnil => hne ?_
      obtain ⟨hheld, hflying⟩ := List.append_eq_nil_iff.mp hnil
      rw [hheld, hflying]
      rfl
  | false =>
    have hdrop := refs_event_pipe_render_refs_drop h.env
    have heq : s.emit buf e false = { s with
        tls := RenderRefs.empty
        building := []
        ledger := s.tls.refs.foldl Ledger.releaseByOwner s.ledger
        emitted := s.emitted ++ [(s.building, datagramRefs (e.datagram s.tls.refs))] } := by
      simp [RefState.emit, EmitCall.run_eq, sent, hdrop]
    rw [heq]
    refine ⟨⟨rfl, fun hne => absurd rfl hne, h.balanced.releaseAllByOwner,
      by simp [RenderRefs.empty], h.carried, ?_, hown⟩, rfl⟩
    intro hne
    exact h.attached fun hnil => hne (List.append_eq_nil_iff.mp hnil).2

/-- The consumer deletes the references of a sidecar it renders. -/
theorem sidecarDeleted_eq (heap : UInt64 → JObj) (ev : Event) (h : 0 ∉ ev.refs) :
    sidecarDeleted heap true ev = ev.refs := by
  have hone : ∀ gref ∈ ev.refs, (renderRefChunk heap true gref).2 = [gref] := by
    intro gref hgref
    have hne : gref ≠ 0 := fun heq => h (heq ▸ hgref)
    rw [renderRefChunk, if_neg (by simp [hne])]
    dsimp only
    split_ifs <;> exact deleted_event_pipe_render_obj hne
  rw [sidecarDeleted, List.flatMap_congr hone]
  simp

/-- The consumer deletes what the datagram of an event carries, when it is
    attached. -/
theorem sidecarDeleted_event (heap : UInt64 → JObj) (e : EmitCall) {refs : List UInt64}
    {attached : Bool} (hnonzero : 0 ∉ refs) (henv : refs ≠ [] → attached = true) (stop : Nat) :
    sidecarDeleted heap attached (e.event refs stop) = refs := by
  have hrefs : (e.event refs stop).refs = refs := by
    cases e <;> rfl
  by_cases hnil : refs = []
  · rw [sidecarDeleted, hrefs, hnil]
    rfl
  · rw [henv hnil, sidecarDeleted_eq heap _ (by rw [hrefs]; exact hnonzero), hrefs]

/-- **Consume rule**: the consumer releases what its datagram carried. -/
theorem Inv.consume (h : Inv s) (heap : UInt64 → JObj) :
    Inv (s.consume heap) ∧ (s.consume heap).tls = s.tls := by
  unfold RefState.consume
  split
  · exact ⟨h, rfl⟩
  · rename_i d channel hchannel
    obtain ⟨e, refs, hlen, hnonzero, rfl⟩ := h.carried d (by simp [hchannel])
    have hsplit : channelRefs s.channel = refs ++ channelRefs channel := by
      rw [hchannel, channelRefs_cons, datagramRefs_datagram e hlen]
    have henv : refs ≠ [] → s.consumerEnv = true := by
      intro hne
      exact h.attached (by simp [hsplit, hne])
    have hdeleted := sidecarDeleted_event heap e hnonzero henv (e.datagram refs).length
    simp only [e.readDatagram_datagram hlen, hdeleted]
    refine ⟨⟨h.building, h.env, ?_, h.nonzero, ?_, ?_, h.own⟩, trivial⟩
    · have hbalanced := h.balanced
      rw [hsplit] at hbalanced
      exact hbalanced.releaseAllByPeer
    · intro d hd
      exact h.carried d (by simp [hchannel, hd])
    · intro hne
      refine h.attached fun hnil => hne ?_
      rw [hsplit] at hnil
      simp only [List.append_eq_nil_iff] at hnil ⊢
      exact ⟨hnil.1, hnil.2.2⟩

theorem Inv.deferAll (h : Inv s) (os : List Obj) : Inv (s.deferAll vm os) := by
  induction os generalizing s with
  | nil => exact h
  | cons o os ih => exact ih (h.defer o)

theorem Inv.emitAll (h : Inv s) (es : List (EmitCall × Bool)) : Inv (s.emitAll buf es) := by
  induction es generalizing s with
  | nil => exact h
  | cons e es ih => exact ih (h.emit e.1 e.2).1

/-- After an emit the sidecar stays empty. -/
theorem Inv.emitAll_empty (h : Inv s) {es : List (EmitCall × Bool)}
    (hes : es ≠ [] ∨ s.tls.refs = []) : (s.emitAll buf es).tls.refs = [] := by
  induction es generalizing s with
  | nil => exact hes.resolve_left fun hne => hne rfl
  | cons e es ih => exact ih (h.emit e.1 e.2).1 (.inr (h.emit e.1 e.2).2)

/-- Pushes never take a reference out of the sidecar. -/
theorem RefState.deferAll_ne_nil {os : List Obj} (hne : s.tls.refs ≠ []) :
    (s.deferAll vm os).tls.refs ≠ [] := by
  induction os generalizing s with
  | nil => exact hne
  | cons o os ih =>
    refine ih (s := (s.defer vm o).2) ?_
    rcases s.defer_cases vm o with ⟨heq, -⟩ | ⟨gref, room, -, -, heq⟩
    · rwa [heq]
    · rw [heq]
      simp

/-- An empty sidecar stays empty exactly when no push mints a reference. -/
theorem RefState.deferAll_nil_iff {os : List Obj} (hnil : s.tls.refs = []) :
    (s.deferAll vm os).tls.refs = [] ↔ ∀ o ∈ os, ¬ s.mints vm o := by
  induction os with
  | nil => simp [RefState.deferAll, hnil]
  | cons o os ih =>
    rw [List.forall_mem_cons]
    rcases s.defer_cases vm o with ⟨heq, hno⟩ | ⟨gref, room, hmints, -, heq⟩
    · have hcons : s.deferAll vm (o :: os) = s.deferAll vm os := by
        show (s.defer vm o).2.deferAll vm os = _
        rw [heq]
      rw [hcons, ih]
      exact ⟨fun h => ⟨hno hnil, h⟩, fun h => h.2⟩
    · have hne : (s.deferAll vm (o :: os)).tls.refs ≠ [] := by
        refine RefState.deferAll_ne_nil (s := (s.defer vm o).2) ?_
        rw [heq]
        simp
      exact ⟨fun h => absurd h hne, fun h => absurd hmints h.1⟩

end Invariant

/-! ## Section 7: Runs -/

section Runs

variable {vm : Vm} {config_is_allowed : Bytes → Bool} {buf : StackBuf} {heap : UInt64 → JObj}
  {s : Hook}

/-- What should hold whenever a helper has finished: the sidecar is
    empty, every event took the references pushed for it along, and every
    reference minted was released exactly once by the party that had it
    last, or is in a datagram the consumer has not read yet. -/
structure Sound (s : RefState) : Prop where
  empty : s.tls.refs = []
  own : ∀ p ∈ s.emitted, p.2 = p.1
  released : Ledger.Balanced s.ledger [] (channelRefs s.channel)

/-- A helper that pushes an object while the consumer's readiness reads 1
    and the runtime has a reference is one that emits. -/
def Op.ok (vm : Vm) (config_is_allowed : Bytes → Bool) (s : Hook) : Op → Prop
  | log helper =>
    (∃ o ∈ helper.objects s.logging_ready, s.refs.mints vm o) → helper.admitted config_is_allowed s
  | _ => True

/-- The invariant between two steps. -/
def Between (s : Hook) : Prop :=
  Inv s.refs ∧ s.refs.tls.refs = []

theorem between_initial : Between Hook.initial :=
  ⟨inv_initial, rfl⟩

theorem Between.sound (h : Between s) : Sound s.refs :=
  ⟨h.2, h.1.own, h.2 ▸ h.1.balanced⟩

theorem Between.finished (hinv : Inv s.refs) (hnil : s.refs.tls.refs = []) :
    Between s.finished :=
  ⟨⟨hnil.symm, hinv.env, hinv.balanced, hinv.nonzero, hinv.carried, hinv.attached, hinv.own⟩, hnil⟩

/-- **Step lemma**: a step that meets the condition keeps the invariant. -/
theorem Between.step (op : Op) (h : Between s) (hok : op.ok vm config_is_allowed s) :
    Between ((hookThread vm config_is_allowed buf heap).next s op) := by
  obtain ⟨hinv, hnil⟩ := h
  cases op with
  | attach =>
    exact ⟨⟨hinv.building, hinv.env, hinv.balanced, hinv.nonzero, hinv.carried, fun _ => rfl,
      hinv.own⟩, hnil⟩
  | loggingReady => exact ⟨hinv, hnil⟩
  | consume =>
    obtain ⟨hconsume, htls⟩ := hinv.consume heap
    exact ⟨hconsume, (congrArg RenderRefs.refs htls).trans hnil⟩
  | log helper =>
    obtain ⟨-, es, hrefs, hadmitted⟩ := helper.run_emits vm config_is_allowed buf s
    have hpushed : Inv (s.refs.deferAll vm (helper.objects s.logging_ready)) := hinv.deferAll _
    have hempty : (helper.run vm config_is_allowed buf s).refs.tls.refs = [] := by
      rw [hrefs]
      refine hpushed.emitAll_empty ?_
      -- either something is pushed and an event takes it along, or nothing is
      by_cases hmints : ∃ o ∈ helper.objects s.logging_ready, s.refs.mints vm o
      · exact .inl (hadmitted.mpr (hok hmints))
      · push Not at hmints
        exact .inr ((RefState.deferAll_nil_iff hnil).mpr hmints)
    exact Between.finished (hrefs ▸ hpushed.emitAll es) hempty

/-- A step that does not meet the condition leaves references behind. -/
theorem Between.step_stuck (op : Op) (h : Between s) (hok : ¬ op.ok vm config_is_allowed s) :
    ((hookThread vm config_is_allowed buf heap).next s op).refs.tls.refs ≠ [] := by
  cases op with
  | attach => exact absurd trivial hok
  | loggingReady => exact absurd trivial hok
  | consume => exact absurd trivial hok
  | log helper =>
    obtain ⟨-, es, hrefs, hadmitted⟩ := helper.run_emits vm config_is_allowed buf s
    obtain ⟨hmints, hrefused⟩ := Classical.not_imp.mp hok
    have hes : es = [] := by
      by_contra hne
      exact hrefused (hadmitted.mp hne)
    show (helper.run vm config_is_allowed buf s).refs.tls.refs ≠ []
    rw [hrefs, hes]
    intro hempty
    obtain ⟨o, ho, hminted⟩ := hmints
    exact (RefState.deferAll_nil_iff h.2).mp hempty o ho hminted

/-- **The sidecar's references over whole runs**: after every helper the
    sidecar is empty, every event carried its own references, and every
    reference is released exactly once, if and only if no helper is
    refused by its gate after a push was taken. -/
theorem sidecar_sound_iff (vm : Vm) (config_is_allowed : Bytes → Bool) (buf : StackBuf)
    (heap : UInt64 → JObj) (run : List Op) :
    (∀ s ∈ (hookThread vm config_is_allowed buf heap).trace Hook.initial run, Sound s.refs) ↔
      (hookThread vm config_is_allowed buf heap).Meets (Op.ok vm config_is_allowed) Hook.initial
        run :=
  have hgood : ∀ s, Between s → Sound s.refs := fun _ h => h.sound
  Machine.good_iff_meets hgood (fun _ op h hok => h.step op hok)
    (fun _ op h hok hsound => h.step_stuck op hok hsound.empty) between_initial

/-- A runtime with one reference to give. -/
def oneRefVm : Vm where
  NewGlobalRef live := if 0x2a ∈ live then none else some 0x2a
  fresh live gref h := by
    split at h
    · cases h
    · rename_i hnot
      obtain rfl : 0x2a = gref := by simpa using h
      exact ⟨by decide, hnot⟩

/-- `NewLocalRef` is excluded: the push of its argument is never undone. -/
theorem excluded_push_stays :
    ¬ ∀ s ∈ (hookThread oneRefVm (fun name => name ≠ ascii "NewLocalRef")
        ⟨List.replicate EVENT_MAX_BYTES 0, List.length_replicate⟩ fun _ => .string default).trace
        Hook.initial [.attach, .loggingReady, .log (.obj_arg_call true 25
          (cstr (ascii "NewLocalRef")) (some ⟨.string default, true, false, true⟩) (cstr []))],
      Sound s.refs := by
  intro h
  have hempty := (h _ (Machine.exec_mem_trace _ _ _)).empty
  have hrefs : [(0x2a : UInt64)] = [] := hempty
  cases hrefs

end Runs

end JniLog.EventPipe
