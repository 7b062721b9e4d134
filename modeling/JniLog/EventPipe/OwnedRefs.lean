import JniLog.EventPipe.Sidecar

/-! # References minted for one event

    `log_jni_lookup_deferred` and `_log_obj_ret` mint a global reference
    for one event and send it in the event's raw slot, not in the
    sidecar. The reader tells it from a raw class pointer by the empty
    class name beside it.

    * The ledger records every reference minted, for an event or for the
      sidecar, since the runtime hands them out from one table.
    * The channel pairs each datagram with the reference minted for it.
      Only the model looks at the second component.
    * The other hooks push objects and emit events in any order.

    Main result: along every run a reference minted for an event is
    deleted once, by the hook that could not send it or by the consumer
    that received it, and the reader renders no other value, as long as
    `FindClass` resolves no name of which nothing travels. -/

namespace JniLog.EventPipe

open Bytes Visualize

/-! ## Section 1: The state -/

/-- What a hook did with an event it handed to an emit: the reference it
    minted for it, and all it deleted. -/
structure Hooked where
  minted : Option UInt64
  delivered : Bool
  deleted : List UInt64

/-- What the reader did with a datagram: the values `dispatchLookup` or
    `dispatchObjReturn` had rendered, and all the consumer deleted. -/
structure Received where
  minted : Option UInt64
  rendered : List UInt64
  deleted : List UInt64

/-- A hook thread and its consumer. -/
structure Owner where
  logging_ready : Bool
  call_ids : CallIds UInt64
  consumerEnv : Bool
  tls : RenderRefs
  ledger : List (Ledger.Entry UInt64)
  channel : List (Bytes × Option UInt64)
  hooked : List Hooked
  received : List Received

def Owner.initial : Owner :=
  ⟨false, CallIds.initial, false, RenderRefs.empty, [], [], [], []⟩

/-- The part of the state that pushes act on. -/
def Owner.refs (s : Owner) : RefState :=
  ⟨s.tls, [], s.ledger, [], [], s.consumerEnv⟩

/-- The references on their way to the consumer. -/
def carried (channel : List (Bytes × Option UInt64)) : List UInt64 :=
  channel.flatMap fun p => datagramRefs p.1 ++ p.2.toList

/-! ## Section 2: The hooks -/

section Hooks

variable (vm : Vm) (config_is_allowed : Bytes → Bool) (buf : StackBuf) (s : Owner)

/-- `event_pipe_defer_render_push`. -/
def Owner.defer (o : Obj) : Owner :=
  let refs := (s.refs.defer vm o).2
  { s with tls := refs.tls, ledger := refs.ledger }

/-- The answer of `NewGlobalRef`, which is asked when the hook's own
    conditions hold and the consumer is ready. -/
def Owner.mint (asks : Bool) (o : Obj) : Option UInt64 :=
  if asks && s.consumerEnv && o.consumer_ready then s.refs.answer vm o else none

def Owner.acquire (gref : UInt64) : Owner :=
  { s with ledger := Ledger.acquire gref s.ledger }

/-- One of the `event_pipe_emit_*` functions. A hook that minted `gref`
    for the event deletes it when the emit does not return 0. -/
def Owner.emit (e : EmitCall) (send : Bool) (gref : Option UInt64) : Owner :=
  let r := e.run (fun _ => send) s.tls buf
  let deleted := if r.rc ≠ 0 then r.deleted ++ gref.toList else r.deleted
  { s with
    tls := r.tls
    ledger := deleted.foldl Ledger.releaseByOwner
      (if r.delivered then Ledger.handOver (s.tls.refs ++ gref.toList) s.ledger else s.ledger)
    channel :=
      if r.delivered then s.channel ++ r.datagram.toList.map fun d => (d, gref) else s.channel
    hooked := s.hooked ++ [⟨gref, r.delivered, deleted⟩] }

def Owner.log_jni_return (send : Bool) (offset : Int32) (name : CStr) (ret_kind : Int32)
    (ret_raw : UInt64) (ret_str ret_extra : Bytes) : Owner :=
  if s.logging_ready = false then s
  else if config_is_allowed name = false then s
  else
    let (cid, call_ids) := tls_pop_call_id s.call_ids
    let s := { s with call_ids }
    s.emit buf (.return cid offset ret_kind ret_raw name (cstr ret_str) (cstr ret_extra)) send none

def Owner.log_jni_lookup (send : Bool) (lookup_type : CStr) (name sig : Option CStr)
    (clazz : UInt64) (class_name : Option CStr) (caller : CStr) : Owner :=
  if s.logging_ready = false then s
  else if config_is_allowed lookup_type = false then s
  else s.emit buf (.lookup clazz lookup_type name sig class_name caller) send none

/-- `env` is whether the hook has a `JNIEnv`, and `o` is the class that
    `clazz` points to. -/
def Owner.log_jni_lookup_deferred (send env : Bool) (lookup_type : CStr) (name sig : Option CStr)
    (clazz : UInt64) (o : Obj) (caller : CStr) : Owner :=
  if s.logging_ready = false then s
  else if config_is_allowed lookup_type = false then s
  else
    match s.mint vm (env && clazz ≠ 0) o with
    | some gref =>
      (s.acquire gref).emit buf (.lookup gref lookup_type name sig (cstr []) caller) send gref
    | none =>
      s.emit buf (.lookup clazz lookup_type name sig (cstr (ascii "<unresolved>")) caller) send none

/-- `obj` is `none` for NULL. -/
def Owner._log_obj_ret (send : Bool) (slot : Int32) (name : CStr) (obj : Option Obj) : Owner :=
  match obj.bind (s.mint vm (config_is_allowed name)) with
  | some gref =>
    let (cid, call_ids) := tls_pop_call_id s.call_ids
    let s := { s with call_ids }
    (s.acquire gref).emit buf (.obj_return cid slot gref name) send gref
  | none => s.log_jni_return config_is_allowed buf send slot name 0 0 [] []

/-- The logging part of `hooked_FindClass`. -/
def Owner.log_FindClass (send : Bool) (name : Option CStr) (result : UInt64) (caller : CStr) :
    Owner :=
  s.log_jni_lookup config_is_allowed buf send (cstr (ascii "FindClass")) name (cstr []) result name
    caller

end Hooks

/-! ## Section 3: The machine -/

/-- An emit that no lookup and no object return makes. -/
def EmitCall.plain : EmitCall → Bool
  | lookup .. | obj_return .. => false
  | _ => true

/-- A step: the consumer attaches, logging becomes ready, another hook
    pushes an object or emits its event, one of the hooks above runs, or
    the consumer reads a datagram. The calls pending at the reader play
    no part in what it deletes, so the last step takes any. -/
inductive OwnerOp where
  | attach
  | loggingReady
  | push (o : Obj)
  | event (e : {e : EmitCall // e.plain = true}) (send : Bool)
  | find_class (send : Bool) (name : Option CStr) (result : UInt64) (caller : CStr)
  | lookup_deferred (send env : Bool) (lookup_type : CStr) (name sig : Option CStr)
    (clazz : UInt64) (o : Obj) (caller : CStr)
  | obj_ret (send : Bool) (slot : Int32) (name : CStr) (obj : Option Obj)
  | consume (pending : Reader)

section Machine

variable (vm : Vm) (config_is_allowed : Bytes → Bool) (buf : StackBuf) (heap : UInt64 → JObj)
  (order : RangeOrder)

/-- The consumer reads a datagram and dispatches its event. -/
def Owner.consume (s : Owner) (pending : Reader) : Owner :=
  match s.channel with
  | [] => s
  | (d, gref) :: channel =>
    match readDatagram d with
    | .ok (some ev) =>
      let r := { pending with consumerEnv := s.consumerEnv }
      let rendered := (routeEvent heap order r ev (substituted heap r.consumerEnv ev)).deleted
      let deleted := (dispatchEvent heap order r ev).deleted
      { s with
        channel
        ledger := deleted.foldl Ledger.releaseByPeer s.ledger
        received := s.received ++ [⟨gref, rendered, deleted⟩] }
    | _ => { s with channel }

def ownerMachine : Machine Owner OwnerOp where
  next s
    | .attach => { s with consumerEnv := true }
    | .loggingReady => { s with logging_ready := true }
    | .push o => s.defer vm o
    | .event e send => s.emit buf e.val send none
    | .find_class send name result caller =>
      s.log_FindClass config_is_allowed buf send name result caller
    | .lookup_deferred send env t name sig clazz o caller =>
      s.log_jni_lookup_deferred vm config_is_allowed buf send env t name sig clazz o caller
    | .obj_ret send slot name obj => s._log_obj_ret vm config_is_allowed buf send slot name obj
    | .consume pending => s.consume heap order pending

end Machine

/-! ## Section 4: The wire is that of the sidecar's model -/

section Wire

variable {vm : Vm} {config_is_allowed : Bytes → Bool} {buf : StackBuf} {s : Owner} {h : Hook}

/-- The thread as the sidecar's model has it. -/
structure Owner.Agrees (s : Owner) (h : Hook) : Prop where
  logging_ready : s.logging_ready = h.logging_ready
  call_ids : s.call_ids = h.call_ids
  tls : s.tls = h.refs.tls
  channel : s.channel.map Prod.fst = h.refs.channel

theorem Owner.Agrees.emit (hs : s.Agrees h) (e : EmitCall) (send : Bool) (gref : Option UInt64) :
    (s.emit buf e send gref).Agrees (h.emit buf send e) := by
  refine ⟨hs.logging_ready, hs.call_ids, ?_, ?_⟩
  · show (e.run (fun _ => send) s.tls buf).tls = (e.run (fun _ => send) h.refs.tls buf).tls
    rw [hs.tls]
  · simp only [Owner.emit, Hook.emit, RefState.emit, hs.tls]
    split
    · simp [hs.channel, Function.comp_def]
    · exact hs.channel

/-- Two gated functions agree when their emits do. -/
theorem Owner.Agrees.gated {s' : Owner} {h' : Hook} {name : Bytes} (hs : s.Agrees h)
    (hs' : s'.Agrees h') :
    Owner.Agrees
      (if s.logging_ready = false then s
        else if config_is_allowed name = false then s else s')
      (if h.logging_ready = false then h
        else if config_is_allowed name = false then h else h') := by
  rw [hs.logging_ready]
  split
  · exact hs
  · split
    · exact hs
    · exact hs'

theorem Owner.Agrees.acquire (hs : s.Agrees h) (g : UInt64) : (s.acquire g).Agrees h :=
  ⟨hs.logging_ready, hs.call_ids, hs.tls, hs.channel⟩

theorem Owner.Agrees.popped (hs : s.Agrees h) :
    Owner.Agrees { s with call_ids := (tls_pop_call_id s.call_ids).2 }
      { h with call_ids := (tls_pop_call_id h.call_ids).2 } :=
  ⟨hs.logging_ready, by rw [hs.call_ids], hs.tls, hs.channel⟩

theorem Owner.Agrees.log_jni_return (hs : s.Agrees h) (send : Bool) (off : Int32) (n : CStr)
    (k : Int32) (raw : UInt64) (s₁ s₂ : Bytes) :
    (s.log_jni_return config_is_allowed buf send off n k raw s₁ s₂).Agrees
      (EventPipe.log_jni_return config_is_allowed buf h send off n k raw s₁ s₂) := by
  apply hs.gated
  rw [hs.call_ids]
  exact (hs.call_ids ▸ hs.popped).emit _ send none

theorem Owner.Agrees.log_FindClass (hs : s.Agrees h) (send : Bool) (name : CStr)
    (result : UInt64) (caller : CStr) :
    (s.log_FindClass config_is_allowed buf send name result caller).Agrees
      (EventPipe.log_jni_lookup config_is_allowed buf h send (cstr (ascii "FindClass")) name
        (cstr []) result name caller) :=
  hs.gated (hs.emit _ send none)

theorem Owner.Agrees.log_jni_lookup_deferred (hs : s.Agrees h) (send env : Bool) (t n sig : CStr)
    (clazz : UInt64) (o : Obj) (caller : CStr) :
    (s.log_jni_lookup_deferred vm config_is_allowed buf send env t n sig clazz o caller).Agrees
      (EventPipe.log_jni_lookup_deferred config_is_allowed buf h send t n sig clazz
        (s.mint vm (env && clazz ≠ 0) o) caller) := by
  apply hs.gated
  cases s.mint vm (env && clazz ≠ 0) o with
  | some g => exact (hs.acquire g).emit _ send g
  | none => exact hs.emit _ send none

theorem Owner.Agrees._log_obj_ret (hs : s.Agrees h) (send : Bool) (off : Int32) (n : CStr)
    (obj : Option Obj) :
    (s._log_obj_ret vm config_is_allowed buf send off n obj).Agrees
      (EventPipe._log_obj_ret config_is_allowed buf h send off n
        (obj.bind (s.mint vm (config_is_allowed n)))) := by
  unfold Owner._log_obj_ret EventPipe._log_obj_ret
  cases hmint : obj.bind (s.mint vm (config_is_allowed n)) with
  | some g =>
    -- a reference is minted only under the gate
    have hgate : config_is_allowed n = true := by
      obtain ⟨o, -, hg⟩ := Option.bind_eq_some_iff.mp hmint
      unfold Owner.mint at hg
      split at hg
      · rename_i hready
        simp only [Bool.and_eq_true] at hready
        exact hready.1.1
      · cases hg
    simp only [if_pos hgate]
    rw [hs.call_ids]
    exact (hs.call_ids ▸ hs.popped.acquire g).emit _ send g
  | none => exact hs.log_jni_return send off n 0 0 [] []

end Wire

/-! ## Section 5: What should hold -/

/-- A reference minted for an event is deleted by the hook, once, when
    the event was not delivered, and not otherwise. -/
def Hooked.Once (h : Hooked) : Prop :=
  ∀ gref, h.minted = some gref → h.deleted.count gref = if h.delivered then 0 else 1

/-- The reader has the reference minted for the event rendered and no
    other value, and the consumer deletes that reference once. -/
def Received.Once (d : Received) : Prop :=
  d.rendered = d.minted.toList ∧ ∀ gref, d.minted = some gref → d.deleted.count gref = 1

/-- What should hold after every step: every event's own reference was
    deleted once by the side it was left with, and every reference of the
    thread is in its sidecar, on its way to the consumer, or was deleted
    once by the party that had it last. -/
structure Owner.Sound (s : Owner) : Prop where
  hooked : ∀ h ∈ s.hooked, h.Once
  received : ∀ d ∈ s.received, d.Once
  released : Ledger.Balanced s.ledger s.tls.refs (carried s.channel)

/-- `FindClass` resolves no name of which nothing travels. -/
def OwnerOp.ok : OwnerOp → Prop
  | find_class _ name result _ => result ≠ 0 → slot name ≠ []
  | _ => True

/-! ## Section 6: What the reader infers -/

section Reading

variable {heap : UInt64 → JObj} {order : RangeOrder} {r : Reader}

/-- The reference the reader takes an event to own. -/
def EmitCall.owned : EmitCall → List UInt64
  | lookup clazz _ _ _ class_name _ => if slot class_name = [] ∧ clazz ≠ 0 then [clazz] else []
  | obj_return _ _ gref _ => if gref ≠ 0 then [gref] else []
  | _ => []

theorem EmitCall.owned_of_plain {e : EmitCall} (h : e.plain = true) : e.owned = [] := by
  cases e <;> first | rfl | cases h

/-- Without an environment an object return has nothing rendered. -/
theorem dispatchObjReturn_detached (henv : r.consumerEnv = false) (callID : Nat) (offset : Int)
    (gref : UInt64) (name : Bytes) :
    (dispatchObjReturn heap r callID offset gref name).deleted = [] := by
  rw [dispatchObjReturn, if_pos henv]
  split <;> rfl

/-- **What the dispatch functions render** is the reference the event
    owns, whatever its sidecar carries besides. -/
theorem routeEvent_deleted (e : EmitCall) (refs : List UInt64) (stop : Nat)
    (henv : e.owned ≠ [] → r.consumerEnv = true) :
    (routeEvent heap order r (e.event refs stop)
      (substituted heap r.consumerEnv (e.event refs stop))).deleted = e.owned := by
  cases e with
  | call => rfl
  | «return» => rfl
  | field_access => rfl
  | register_natives => rfl
  | lookup clazz t n sig class_name caller =>
    show (dispatchLookup heap r clazz _ _ _ (substitutePlaceholders (slot class_name) _) _).deleted
      = _
    have hunmarked := unmarked_rendered heap r.consumerEnv refs
    have hnil := substitutePlaceholders_eq_nil_iff hunmarked (s := slot class_name)
    rw [EmitCall.owned] at henv ⊢
    rw [dispatchLookup]
    -- the consumer infers ownership from the shape: no name and a reference
    by_cases hshape : slot class_name = [] ∧ clazz ≠ 0
    · rw [if_pos hshape] at henv ⊢
      rw [if_pos ⟨hnil.mpr hshape.1, hshape.2, henv (by simp)⟩, henv (by simp)]
      exact deleted_event_pipe_render_obj hshape.2
    · rw [if_neg (fun h => hshape ⟨hnil.mp h.1, h.2.1⟩), if_neg hshape]
  | obj_return id off gref name =>
    show (dispatchObjReturn heap r id.toNat off.toInt gref _).deleted = _
    rw [EmitCall.owned] at henv ⊢
    by_cases hne : gref ≠ 0
    · rw [if_pos hne] at henv ⊢
      rw [dispatchObjReturn, henv (by simp), if_neg (by simp)]
      exact deleted_event_pipe_render_obj hne
    · rw [if_neg hne]
      cases hready : r.consumerEnv with
      | false => exact dispatchObjReturn_detached hready _ _ _ _
      | true =>
        rw [dispatchObjReturn, hready, if_neg (by simp)]
        show (event_pipe_render_obj heap true gref).deleted = []
        rw [event_pipe_render_obj, if_pos (by simpa using hne)]

end Reading

/-! ## Section 7: The invariant -/

section Invariant

variable {vm : Vm} {config_is_allowed : Bytes → Bool} {buf : StackBuf} {heap : UInt64 → JObj}
  {order : RangeOrder} {s : Owner} {gref : Option UInt64}

/-- A datagram of the channel reads back as an event that owns the
    reference minted for it, which is not in its sidecar. -/
def Shaped (p : Bytes × Option UInt64) : Prop :=
  ∃ e : EmitCall, ∃ refs : List UInt64, refs.length ≤ EVENT_PIPE_MAX_REFS ∧ 0 ∉ refs ∧
    (∀ g ∈ p.2, g ∉ refs) ∧ p.1 = e.datagram refs ∧ e.owned = p.2.toList

/-- The invariant while a hook holds `gref` for the event it builds. -/
structure Owner.Inv (gref : Option UInt64) (s : Owner) : Prop where
  env : s.tls.refs ≠ [] → s.tls.env = true
  nonzero : 0 ∉ s.tls.refs
  fresh : ∀ g ∈ gref, g ≠ 0 ∧ g ∉ s.tls.refs
  balanced : Ledger.Balanced s.ledger (s.tls.refs ++ gref.toList) (carried s.channel)
  shaped : ∀ p ∈ s.channel, Shaped p
  attached : s.tls.refs ++ gref.toList ++ carried s.channel ≠ [] → s.consumerEnv = true
  hooked : ∀ h ∈ s.hooked, h.Once
  received : ∀ d ∈ s.received, d.Once

theorem Owner.inv_initial : Owner.initial.Inv none :=
  ⟨by simp [initial, RenderRefs.empty], by simp [initial, RenderRefs.empty], by simp,
    Ledger.Balanced.nil, by simp [initial], by simp [initial, RenderRefs.empty, carried],
    by simp [initial], by simp [initial]⟩

theorem Owner.Inv.sound (h : s.Inv none) : s.Sound := by
  have hb := h.balanced
  rw [Option.toList_none, List.append_nil] at hb
  exact ⟨h.hooked, h.received, hb⟩

theorem carried_append (ps ps' : List (Bytes × Option UInt64)) :
    carried (ps ++ ps') = carried ps ++ carried ps' :=
  List.flatMap_append

theorem carried_cons (p : Bytes × Option UInt64) (ps : List (Bytes × Option UInt64)) :
    carried (p :: ps) = datagramRefs p.1 ++ p.2.toList ++ carried ps :=
  List.flatMap_cons

/-- What the runtime hands out is in no one's hands. -/
theorem Owner.Inv.answer (h : s.Inv none) {o : Obj} {g : UInt64}
    (hanswer : s.refs.answer vm o = some g) :
    g ≠ 0 ∧ g ∉ s.tls.refs ++ carried s.channel := by
  have hvm : vm.NewGlobalRef (Ledger.keys Ledger.Entry.live s.ledger) = some g := by
    unfold RefState.answer at hanswer
    split at hanswer
    · cases hanswer
    · exact hanswer
  obtain ⟨hne, hfresh⟩ := vm.fresh _ _ hvm
  refine ⟨hne, fun hmem => hfresh (h.balanced.mem_live ?_)⟩
  rwa [Option.toList_none, List.append_nil]

/-- **Push rule.** -/
theorem Owner.Inv.defer (h : s.Inv none) (o : Obj) : (s.defer vm o).Inv none := by
  rcases s.refs.defer_cases vm o with ⟨heq, -⟩ | ⟨g, room, hmints, hanswer, heq⟩
  · rw [Owner.defer, heq]
    exact h
  · obtain ⟨hne, hfresh⟩ := h.answer hanswer
    have hb := h.balanced
    rw [Option.toList_none, List.append_nil] at hb
    rw [Owner.defer, heq]
    refine ⟨fun _ => rfl, ?_, by simp, ?_, h.shaped, fun _ => hmints.1, h.hooked, h.received⟩
    · show 0 ∉ s.tls.refs ++ [g]
      simp only [List.mem_append, List.mem_singleton, not_or]
      exact ⟨h.nonzero, Ne.symm hne⟩
    · show Ledger.Balanced _ (s.tls.refs ++ [g] ++ []) _
      rw [List.append_nil]
      exact hb.acquire hfresh

/-- **Mint rule.** -/
theorem Owner.Inv.acquire (h : s.Inv none) {asks : Bool} {o : Obj} {g : UInt64}
    (hmint : s.mint vm asks o = some g) : (s.acquire g).Inv (some g) := by
  unfold Owner.mint at hmint
  split at hmint
  · rename_i hready
    simp only [Bool.and_eq_true] at hready
    obtain ⟨hne, hfresh⟩ := h.answer hmint
    have hb := h.balanced
    rw [Option.toList_none, List.append_nil] at hb
    refine ⟨h.env, h.nonzero, ?_, hb.acquire hfresh, h.shaped, fun _ => hready.1.2, h.hooked,
      h.received⟩
    intro g' hg'
    obtain rfl : g = g' := by simpa using hg'
    exact ⟨hne, fun hmem => hfresh (List.mem_append_left _ hmem)⟩
  · cases hmint

/-- A delivered event takes its references to the consumer. -/
theorem Owner.emit_delivered (s : Owner) (e : EmitCall) :
    s.emit buf e true gref = { s with
      tls := RenderRefs.empty
      ledger := Ledger.handOver (s.tls.refs ++ gref.toList) s.ledger
      channel := s.channel ++ [(e.datagram s.tls.refs, gref)]
      hooked := s.hooked ++ [⟨gref, true, []⟩] } := by
  simp [Owner.emit, EmitCall.run_eq, sent, EmitResult.rc]

/-- Of a dropped event all references are deleted: the sidecar's by the
    emit, the event's own by the hook. -/
theorem Owner.emit_dropped (s : Owner) (henv : s.tls.refs ≠ [] → s.tls.env = true)
    (e : EmitCall) :
    s.emit buf e false gref = { s with
      tls := RenderRefs.empty
      ledger := (s.tls.refs ++ gref.toList).foldl Ledger.releaseByOwner s.ledger
      hooked := s.hooked ++ [⟨gref, false, s.tls.refs ++ gref.toList⟩] } := by
  have hdrop := refs_event_pipe_render_refs_drop henv
  simp [Owner.emit, EmitCall.run_eq, sent, EmitResult.rc, hdrop]

/-- **Emit rule**: the event takes the reference held for it along, or
    the hook deletes it. -/
theorem Owner.Inv.emit (h : s.Inv gref) {e : EmitCall} (howned : e.owned = gref.toList)
    (send : Bool) : (s.emit buf e send gref).Inv none := by
  have hcount : ∀ g, gref = some g → (s.tls.refs ++ gref.toList).count g = 1 := by
    intro g hg
    -- the event's reference is not one of the sidecar's
    have hnot : s.tls.refs.count g = 0 := List.count_eq_zero.mpr (h.fresh g hg).2
    rw [List.count_append, hnot, hg]
    simp
  cases send with
  | true =>
    have hcarried : carried (s.channel ++ [(e.datagram s.tls.refs, gref)]) =
        carried s.channel ++ (s.tls.refs ++ gref.toList) := by
      rw [carried_append, carried_cons, datagramRefs_datagram e s.tls.room]
      simp [carried]
    rw [s.emit_delivered]
    refine ⟨fun hne => absurd rfl hne, by simp [RenderRefs.empty], by simp, ?_, ?_, ?_, ?_,
      h.received⟩
    · show Ledger.Balanced _ [] (carried (s.channel ++ [(e.datagram s.tls.refs, gref)]))
      rw [hcarried]
      exact h.balanced.handOver
    · intro p hp
      rcases List.mem_append.mp hp with hp | hp
      · exact h.shaped p hp
      · rw [List.mem_singleton.mp hp]
        exact ⟨e, s.tls.refs, s.tls.room, h.nonzero, fun g hg => (h.fresh g hg).2, rfl, howned⟩
    · show carried (s.channel ++ [(e.datagram s.tls.refs, gref)]) ≠ [] → s.consumerEnv = true
      rw [hcarried]
      intro hne
      refine h.attached fun hnil => hne ?_
      obtain ⟨hheld, hflying⟩ := List.append_eq_nil_iff.mp hnil
      rw [hheld, hflying]
      rfl
    · intro p hp
      rcases List.mem_append.mp hp with hp | hp
      · exact h.hooked p hp
      · rw [List.mem_singleton.mp hp]
        intro g _
        rfl
  | false =>
    rw [s.emit_dropped h.env]
    refine ⟨fun hne => absurd rfl hne, by simp [RenderRefs.empty], by simp,
      h.balanced.releaseAllByOwner, h.shaped, ?_, ?_, h.received⟩
    · intro hne
      exact h.attached fun hnil => hne (List.append_eq_nil_iff.mp hnil).2
    · intro p hp
      rcases List.mem_append.mp hp with hp | hp
      · exact h.hooked p hp
      · rw [List.mem_singleton.mp hp]
        exact hcount

/-- The consumer has the event's own reference rendered, and deletes it
    after those of the sidecar. -/
theorem Owner.consume_eq (s : Owner) {e : EmitCall} {refs : List UInt64}
    {channel : List (Bytes × Option UInt64)} (hlen : refs.length ≤ EVENT_PIPE_MAX_REFS)
    (hnonzero : 0 ∉ refs) (hchannel : s.channel = (e.datagram refs, gref) :: channel)
    (henv : refs ++ e.owned ≠ [] → s.consumerEnv = true) (pending : Reader) :
    s.consume heap order pending = { s with
      channel
      ledger := (refs ++ e.owned).foldl Ledger.releaseByPeer s.ledger
      received := s.received ++ [⟨gref, e.owned, refs ++ e.owned⟩] } := by
  have hattached : refs ≠ [] → s.consumerEnv = true := fun hne => henv (by simp [hne])
  have hsidecar := sidecarDeleted_event heap e hnonzero hattached (e.datagram refs).length
  have hrendered : (routeEvent heap order { pending with consumerEnv := s.consumerEnv }
      (e.event refs (e.datagram refs).length)
      (substituted heap s.consumerEnv (e.event refs (e.datagram refs).length))).deleted =
        e.owned := by
    refine routeEvent_deleted (r := { pending with consumerEnv := s.consumerEnv }) e refs _ ?_
    exact fun hne => henv (by simp [hne])
  have hdeleted : (dispatchEvent heap order { pending with consumerEnv := s.consumerEnv }
      (e.event refs (e.datagram refs).length)).deleted = refs ++ e.owned := by
    show sidecarDeleted heap s.consumerEnv _ ++ _ = _
    rw [hsidecar, hrendered]
  simp only [Owner.consume, hchannel, e.readDatagram_datagram hlen, hdeleted, hrendered]

/-- **Consume rule.** -/
theorem Owner.Inv.consume (h : s.Inv none) (pending : Reader) :
    (s.consume heap order pending).Inv none := by
  cases hchannel : s.channel with
  | nil =>
    rw [Owner.consume, hchannel]
    exact h
  | cons p channel =>
    obtain ⟨d, gref⟩ := p
    -- the invariant says which event and which sidecar the datagram was built of
    obtain ⟨e, refs, hlen, hnonzero, hfresh, rfl, howned⟩ := h.shaped (d, gref) (by simp [hchannel])
    have hcarried : carried s.channel = refs ++ gref.toList ++ carried channel := by
      rw [hchannel, carried_cons, datagramRefs_datagram e hlen]
    have henv : refs ++ e.owned ≠ [] → s.consumerEnv = true := by
      intro hne
      refine h.attached fun hall => hne ?_
      rw [hcarried] at hall
      rw [howned]
      exact (List.append_eq_nil_iff.mp (List.append_eq_nil_iff.mp hall).2).1
    rw [s.consume_eq hlen hnonzero hchannel henv, howned]
    refine ⟨h.env, h.nonzero, h.fresh, ?_, ?_, ?_, h.hooked, ?_⟩
    · have hb := h.balanced
      rw [hcarried] at hb
      exact hb.releaseAllByPeer
    · intro p hp
      exact h.shaped p (by simp [hchannel, hp])
    · intro hne
      refine h.attached fun hnil => hne ?_
      rw [hcarried] at hnil
      simp only [List.append_eq_nil_iff] at hnil ⊢
      exact ⟨hnil.1, hnil.2.2⟩
    · intro d hd
      rcases List.mem_append.mp hd with hd | hd
      · exact h.received d hd
      · rw [List.mem_singleton.mp hd]
        refine ⟨rfl, ?_⟩
        intro g hg
        -- once as the event's own, never in its sidecar
        obtain rfl : gref = some g := hg
        have hnot : refs.count g = 0 := List.count_eq_zero.mpr (hfresh g rfl)
        show (refs ++ [g]).count g = 1
        rw [List.count_append, hnot]
        simp

/-- A gated function keeps the invariant when its emit does. -/
theorem Owner.Inv.gated {name : Bytes} {s' : Owner} (h : s.Inv none) (h' : s'.Inv none) :
    (if s.logging_ready = false then s
      else if config_is_allowed name = false then s else s').Inv none := by
  split
  · exact h
  · split
    · exact h
    · exact h'

theorem Owner.Inv.log_jni_return (h : s.Inv none) (send : Bool) (off : Int32) (n : CStr)
    (k : Int32) (raw : UInt64) (s₁ s₂ : Bytes) :
    (s.log_jni_return config_is_allowed buf send off n k raw s₁ s₂).Inv none :=
  have hpopped : ({ s with call_ids := (tls_pop_call_id s.call_ids).2 } : Owner).Inv none :=
    ⟨h.env, h.nonzero, h.fresh, h.balanced, h.shaped, h.attached, h.hooked, h.received⟩
  h.gated (hpopped.emit rfl send)

/-- A lookup that ships its class pointer beside a name that travels, or
    no class at all. -/
theorem Owner.Inv.log_jni_lookup (h : s.Inv none) (send : Bool) (t : CStr)
    {n sig class_name : Option CStr} {clazz : UInt64} (caller : CStr)
    (hname : clazz ≠ 0 → slot class_name ≠ []) :
    (s.log_jni_lookup config_is_allowed buf send t n sig clazz class_name caller).Inv none := by
  refine h.gated (h.emit ?_ send)
  exact if_neg fun hshape => hname hshape.2 hshape.1

theorem Owner.Inv.log_jni_lookup_deferred (h : s.Inv none) (send env : Bool) (t : CStr)
    (n sig : Option CStr) (clazz : UInt64) (o : Obj) (caller : CStr) :
    (s.log_jni_lookup_deferred vm config_is_allowed buf send env t n sig clazz o caller).Inv
      none := by
  refine h.gated ?_
  cases hmint : s.mint vm (env && clazz ≠ 0) o with
  | some g =>
    have hheld := h.acquire hmint
    refine hheld.emit ?_ send
    -- the empty name marks the reference as the event's own
    exact if_pos ⟨rfl, (hheld.fresh g rfl).1⟩
  | none =>
    have hnamed : slot (some (cstr (ascii "<unresolved>"))) ≠ [] := by decide
    refine h.emit ?_ send
    rw [EmitCall.owned, if_neg fun hshape => hnamed hshape.1]
    rfl

theorem Owner.Inv._log_obj_ret (h : s.Inv none) (send : Bool) (off : Int32) (n : CStr)
    (obj : Option Obj) : (s._log_obj_ret vm config_is_allowed buf send off n obj).Inv none := by
  unfold Owner._log_obj_ret
  cases hmint : obj.bind (s.mint vm (config_is_allowed n)) with
  | some g =>
    obtain ⟨o, -, hg⟩ := Option.bind_eq_some_iff.mp hmint
    have hheld := h.acquire hg
    have hpopped : ({ s.acquire g with call_ids := (tls_pop_call_id s.call_ids).2 } : Owner).Inv
        (some g) :=
      ⟨hheld.env, hheld.nonzero, hheld.fresh, hheld.balanced, hheld.shaped, hheld.attached,
        hheld.hooked, hheld.received⟩
    refine hpopped.emit ?_ send
    exact if_pos (hheld.fresh g rfl).1
  | none => exact h.log_jni_return send off n 0 0 [] []

/-- **Step lemma.** -/
theorem Owner.Inv.step (op : OwnerOp) (h : s.Inv none) (hok : op.ok) :
    ((ownerMachine vm config_is_allowed buf heap order).next s op).Inv none := by
  cases op with
  | attach =>
    exact ⟨h.env, h.nonzero, h.fresh, h.balanced, h.shaped, fun _ => rfl, h.hooked, h.received⟩
  | loggingReady =>
    exact ⟨h.env, h.nonzero, h.fresh, h.balanced, h.shaped, h.attached, h.hooked, h.received⟩
  | push o => exact h.defer o
  | event e send => exact h.emit (EmitCall.owned_of_plain e.property) send
  | find_class send name result caller =>
    exact h.log_jni_lookup send (cstr (ascii "FindClass")) caller hok
  | lookup_deferred send env t n sig clazz o caller =>
    exact h.log_jni_lookup_deferred send env t n sig clazz o caller
  | obj_ret send slot name obj => exact h._log_obj_ret send slot name obj
  | consume pending => exact h.consume pending

end Invariant

/-! ## Section 8: Runs -/

/-- **References minted for one event, over whole runs.** After every
    step, whatever was sent or dropped: a hook deleted the reference it
    minted for an event once when the event was not delivered and left it
    to the consumer when it was; the reader had the reference minted for
    the event rendered, and no other value, and the consumer deleted it
    once; no reference was deleted twice or forgotten. -/
theorem owned_refs_sound (vm : Vm) (config_is_allowed : Bytes → Bool) (buf : StackBuf)
    (heap : UInt64 → JObj) (order : RangeOrder) (run : List OwnerOp)
    (h : ∀ op ∈ run, op.ok) :
    ∀ s ∈ (ownerMachine vm config_is_allowed buf heap order).trace Owner.initial run, s.Sound := by
  have hstep : ∀ (s : Owner) (op : OwnerOp), s.Inv none → op.ok →
      ((ownerMachine vm config_is_allowed buf heap order).next s op).Inv none :=
    fun _ op hinv hok => hinv.step op hok
  intro s hs
  exact (Machine.inv_of_meets hstep Owner.inv_initial (Machine.meets_of_forall h) s hs).sound

/-- A thread that logs every hook, with a consumer whose heap holds
    strings. -/
def oneThread : Machine Owner OwnerOp :=
  ownerMachine oneRefVm (fun _ => true) ⟨List.replicate EVENT_MAX_BYTES 0, List.length_replicate⟩
    (fun _ => .string default) ⟨id, List.Perm.refl⟩

/-- Two lookups, which the consumer reads. -/
def twoLookups : List OwnerOp :=
  [.attach, .loggingReady, .find_class true (cstr (ascii "A")) 0x10 (cstr []),
    .lookup_deferred true true (cstr (ascii "GetMethodID")) (cstr (ascii "run"))
      (cstr (ascii "()V")) 0x10 ⟨.string default, true, false, true⟩ (cstr []),
    .consume Reader.init, .consume Reader.init]

/-- The reference of a delivered lookup is deleted by the consumer. -/
theorem owned_refs_sound_delivered :
    (∀ op ∈ twoLookups, op.ok) ∧ ∀ s ∈ oneThread.trace Owner.initial twoLookups, s.Sound := by
  have hname : slot (some (cstr (ascii "A"))) ≠ [] := by decide
  have hok : ∀ op ∈ twoLookups, op.ok := by
    simp [twoLookups, OwnerOp.ok, hname]
  exact ⟨hok, owned_refs_sound _ _ _ _ _ twoLookups hok⟩

/-- A name of `n` marker bytes. -/
def marks (n : Nat) : CStr :=
  cstr (List.replicate n 0x1A)

theorem marks_val (n : Nat) : (marks n).val = List.replicate n 0x1A :=
  cstr_val fun hmem => absurd (List.eq_of_mem_replicate hmem) (by decide)

theorem dropHalves_replicate {m n : Nat} (h : n ≤ m) :
    dropHalves (List.replicate m 0x1A) n = 0 := by
  induction n with
  | zero => rfl
  | succ n ih =>
    have hget : (List.replicate m (0x1A : UInt8)).getD n 0 = 0x1A := by
      simp [List.getD, show n < m by omega]
    rw [dropHalves, if_pos (.inl hget)]
    exact ih (by omega)

/-- `safe_trunc_len` keeps nothing of markers beyond the cap. -/
theorem slot_marks {n : Nat} (h : EV_STR_MAX_BYTES < n) : slot (some (marks n)) = [] := by
  have hlen : clipLen EV_STR_MAX_BYTES (marks n).val = 0 := by
    rw [marks_val, clipLen, List.length_replicate, if_pos h, safe_trunc_len]
    apply dropHalves_replicate
    exact le_trans (backToBoundary_le _ _) (Nat.le_of_lt h)
  exact List.length_eq_zero_iff.mp ((length_clip _ _).trans hlen)

/-- A class pointer beside a name that is cut to nothing is rendered, and
    deleted, as if it were a reference minted for the event. -/
theorem findClass_name_cut_away :
    ¬ ∀ (vm : Vm) (config_is_allowed : Bytes → Bool) (buf : StackBuf) (heap : UInt64 → JObj)
      (order : RangeOrder) (run : List OwnerOp),
      (∀ send name result caller, OwnerOp.find_class send name result caller ∈ run →
        result ≠ 0 → text name ≠ []) →
      ∀ s ∈ (ownerMachine vm config_is_allowed buf heap order).trace Owner.initial run,
        s.Sound := by
  intro h
  have hcut : slot (some (marks 513)) = [] := slot_marks (by decide)
  have hname : text (some (marks 513)) ≠ [] := by
    show (marks 513).val ≠ []
    rw [marks_val]
    exact List.ne_nil_of_mem (List.mem_replicate.mpr ⟨by decide, rfl⟩)
  generalize marks 513 = name at hcut hname
  let buf : StackBuf := ⟨List.replicate EVENT_MAX_BYTES 0, List.length_replicate⟩
  let heap : UInt64 → JObj := fun _ => .string default
  let order : RangeOrder := ⟨id, List.Perm.refl⟩
  let e : EmitCall := .lookup 0x10 (cstr (ascii "FindClass")) name (cstr []) name (cstr [])
  have howned : e.owned = [0x10] := if_pos ⟨hcut, by decide⟩
  let machine := ownerMachine oneRefVm (fun _ => true) buf heap order
  let ready : Owner := machine.next (machine.next Owner.initial .attach) .loggingReady
  have hfind : machine.next ready (.find_class true name 0x10 (cstr [])) =
      ready.emit buf e true none := by
    show ready.log_FindClass (fun _ => true) buf true name 0x10 (cstr []) = _
    rw [Owner.log_FindClass, Owner.log_jni_lookup, if_neg (by decide), if_neg (by decide)]
  have hsent : (ready.emit buf e true none).channel = [(e.datagram [], none)] := by
    rw [ready.emit_delivered]
    rfl
  have hread : machine.next (ready.emit buf e true none) (.consume Reader.init) = _ :=
    (ready.emit buf e true none).consume_eq (Nat.zero_le _) List.not_mem_nil hsent (fun _ => rfl)
      Reader.init
  have hsound := h oneRefVm (fun _ => true) buf heap order
    [.attach, .loggingReady, .find_class true name 0x10 (cstr []), .consume Reader.init]
    (by
      intro send name' result caller hmem _
      simp only [List.mem_cons, reduceCtorEq, OwnerOp.find_class.injEq, List.not_mem_nil, or_false,
        false_or] at hmem
      rw [hmem.2.1]
      exact hname) _ (Machine.exec_mem_trace _ _ _)
  rw [Machine.exec_cons, Machine.exec_cons, Machine.exec_cons, Machine.exec_cons,
    Machine.exec_nil, hfind, hread] at hsound
  have honce := hsound.received _ (List.mem_append_right _ (List.mem_singleton.mpr rfl))
  have hraw : e.owned = [] := honce.1
  rw [howned] at hraw
  cases hraw

end JniLog.EventPipe
