import JniLog.EventPipe.Reader
import JniLog.EventPipe.CallIds
import JniLog.Framework.System
import Mathlib.Data.List.Perm.Basic
import Mathlib.Data.List.Nodup
import Mathlib.Data.List.Pairwise
import Mathlib.Logic.Function.Basic

/-! # Pairing calls with returns

    Model of any number of app threads that log calls and returns, the
    lossy socket, and the reader that pairs the two: `log_jni_call` and
    `log_jni_return` of `bridge.c` and `_log_obj_ret` of `hooks.c` with
    logging ready, the emits of `event_pipe.c`, and the reader loop and
    the pending map of `event_pipe.go`.

    * A thread opens invocations of hooked functions, each inside the one
      it opened last, and closes them from the inside out.
    * Taking a call id and sending the event are two steps; in between
      any other thread, and the reader, may run. A send reaches the
      socket or drops its event.
    * Every invocation has a number. Numbers never travel: they say which
      invocation an event belongs to.

    Main results:

    * as long as the counter of call ids has not wrapped around, a return
      is paired with the call of its own invocation or stands alone, and
      no call is emitted twice;
    * once it has, a return is attached to the call of another
      invocation. -/

namespace JniLog.EventPipe

open Bytes Visualize

/-! ## Section 1: Logging a call and its return -/

/-- What a hook tells `log_jni_call`. -/
structure CallSite where
  offset : Int32
  jni_name : CStr
  receiver_kind : Int32
  receiver_str : Option CStr
  receiver_extra : Option CStr
  class_name : Option CStr
  method_name : Option CStr
  encoded_args : Option CStr
  mid : UInt64
  caller : Option CStr

/-- The event of `log_jni_call`. -/
def CallSite.event (c : CallSite) (cid : UInt64) : EmitCall :=
  .call cid c.offset c.receiver_kind c.mid c.jni_name c.receiver_str c.receiver_extra c.class_name
    c.method_name c.encoded_args c.caller

/-- How a hook logs its return. `gref` is what `NewGlobalRef` answers for
    a returned object; there is none for NULL. -/
inductive ReturnSite where
  | log_jni_return (offset ret_kind : Int32) (ret_raw : UInt64) (ret_str ret_extra : Option CStr)
  | _log_obj_ret (offset : Int32) (gref : Option UInt64)

/-- The event of `log_jni_return` and of `_log_obj_ret`. -/
def ReturnSite.event (consumer_ready : Bool) (name : CStr) (cid : UInt64) : ReturnSite → EmitCall
  | log_jni_return offset ret_kind ret_raw ret_str ret_extra =>
    .return cid offset ret_kind ret_raw name ret_str ret_extra
  | _log_obj_ret offset gref =>
    match consumer_ready, gref with
    | true, some gref => .obj_return cid offset gref name
    | _, _ => .return cid offset 0 0 name (some default) (some default)

/-! ## Section 2: Threads, socket and reader -/

/-- An open invocation, and the id of its call when that is logged. -/
structure Frame where
  inv : Nat
  jni_name : CStr
  cid : UInt64

/-- An app thread: its open invocations, the innermost first, and its
    call-id stack. -/
structure AppThread where
  frames : List Frame
  call_ids : CallIds UInt64

/-- An event of an invocation, and the sidecar it leaves with. -/
structure Packet where
  inv : Nat
  call : EmitCall
  tls : RenderRefs

/-- The invocation and the id of a call event. -/
def Packet.issues (p : Packet) : List (Nat × Nat) :=
  match p.call with
  | .call cid .. => [(p.inv, cid.toNat)]
  | _ => []

/-- A datagram in the socket, and the event it was built from. -/
structure Sent where
  packet : Packet
  bytes : Bytes

/-- A datagram the reader dispatched, and the lines it emitted. -/
structure ReadOut where
  inv : Nat
  eventType : UInt8
  lines : List Line

/-- A call the reader stored: its invocation, its id, its frame. -/
structure StoredCall where
  inv : Nat
  id : Nat
  pc : PendingCall

/-- The whole pipe. `sending` are the events whose emit has begun, by
    thread. The fields from `started` on record what happened. -/
structure Pipe (Thread : Type) where
  g_call_id_counter : UInt64
  threads : Thread → AppThread
  sending : List (Thread × Packet)
  channel : List Sent
  consumer_ready : Bool
  reader : Reader
  exited : Bool
  /-- the number of invocations so far -/
  started : Nat
  /-- invocation and id of every call logged -/
  issued : List (Nat × Nat)
  /-- the invocations logged inside 32 or more others -/
  deep : List Nat
  /-- invocation and id of every call dropped by its send -/
  dropped : List (Nat × Nat)
  /-- the calls the reader received -/
  stored : List StoredCall
  /-- the datagrams the reader dispatched, in order -/
  history : List ReadOut

def Pipe.initial {Thread : Type} : Pipe Thread where
  g_call_id_counter := 0
  threads _ := ⟨[], CallIds.initial⟩
  sending := []
  channel := []
  consumer_ready := false
  reader := Reader.init
  exited := false
  started := 0
  issued := []
  deep := []
  dropped := []
  stored := []
  history := []

/-- A step of a thread, of the socket or of the reader. -/
inductive PipeOp (Thread : Type) where
  | enter (t : Thread) (site : CallSite) (tls : RenderRefs)
  | exit (t : Thread) (site : ReturnSite) (tls : RenderRefs)
  | send (i : Nat) (delivered : Bool)
  | attach
  | read (heap : UInt64 → JObj) (order : RangeOrder)
  | readError

section Steps

variable {Thread : Type} [DecidableEq Thread] (config_is_allowed : Bytes → Bool) (buf : StackBuf)
  (s : Pipe Thread)

/-- The open invocations whose calls are logged. -/
def AppThread.logged (th : AppThread) : List Frame :=
  th.frames.filter fun f => config_is_allowed f.jni_name

/-- An emit of the thread has not reached the socket yet. -/
def Pipe.busy (t : Thread) : Prop :=
  t ∈ s.sending.map Prod.fst

instance (t : Thread) : Decidable (s.busy t) :=
  inferInstanceAs (Decidable (t ∈ s.sending.map Prod.fst))

/-- A hooked function is called: `log_jni_call` up to its emit. -/
def Pipe.enter (t : Thread) (site : CallSite) (tls : RenderRefs) : Pipe Thread :=
  let th := s.threads t
  if s.busy t then s
  else if config_is_allowed site.jni_name = false then
    { s with
      threads := Function.update s.threads t
        { th with frames := ⟨s.started, site.jni_name, 0⟩ :: th.frames }
      started := s.started + 1 }
  else
    let cid := s.g_call_id_counter + 1
    { s with
      g_call_id_counter := cid
      threads := Function.update s.threads t
        ⟨⟨s.started, site.jni_name, cid⟩ :: th.frames, tls_push_call_id th.call_ids cid⟩
      sending := (t, ⟨s.started, site.event cid, tls⟩) :: s.sending
      started := s.started + 1
      issued := (s.started, cid.toNat) :: s.issued
      deep :=
        if (th.logged config_is_allowed).length ≥ TLS_CALL_ID_DEPTH then s.started :: s.deep
        else s.deep }

/-- The innermost function returns: `log_jni_return` or `_log_obj_ret` up
    to its emit. -/
def Pipe.exit (t : Thread) (site : ReturnSite) (tls : RenderRefs) : Pipe Thread :=
  let th := s.threads t
  if s.busy t then s
  else
    match th.frames with
    | [] => s
    | f :: frames =>
      if config_is_allowed f.jni_name = false then
        { s with threads := Function.update s.threads t { th with frames } }
      else
        let (cid, call_ids) := tls_pop_call_id th.call_ids
        { s with
          threads := Function.update s.threads t ⟨frames, call_ids⟩
          sending := (t, ⟨f.inv, site.event s.consumer_ready f.jni_name cid, tls⟩) :: s.sending }

/-- One of the emits that have begun reaches `send`. -/
def Pipe.send (i : Nat) (delivered : Bool) : Pipe Thread :=
  match s.sending[i]? with
  | none => s
  | some (_, p) =>
    let r := p.call.run (fun _ => delivered) p.tls buf
    { s with
      sending := s.sending.eraseIdx i
      channel :=
        if r.delivered then s.channel ++ r.datagram.toList.map fun d => ⟨p, d⟩ else s.channel
      dropped := if r.delivered then s.dropped else p.issues ++ s.dropped }

/-- The call a datagram makes the reader store. -/
def storedBy (heap : UInt64 → JObj) (r : Reader) (inv : Nat) (ev : Event) : List StoredCall :=
  if ev.eventType = evCall then
    match substituted heap r.consumerEnv ev with
    | [s₁, s₂, s₃, s₄, s₅, s₆, s₇] =>
      [⟨inv, ev.callID,
        callFrameOf ev.offset ev.receiverKind ev.midOrRaw s₁ s₂ s₃ s₄ s₅ s₆ s₇⟩]
    | _ => []
  else []

/-- The reader takes the next datagram from the socket. -/
def Pipe.read (heap : UInt64 → JObj) (order : RangeOrder) : Pipe Thread :=
  if s.exited then s
  else
    match s.channel with
    | [] => s
    | d :: channel =>
      match readDatagram d.bytes with
      | .ok (some ev) =>
        let out := dispatchEvent heap order s.reader ev
        { s with
          channel
          reader := out.reader
          stored := storedBy heap s.reader d.packet.inv ev ++ s.stored
          history := s.history ++ [⟨d.packet.inv, ev.eventType, out.lines⟩] }
      | _ => { s with channel }

/-- The reader attaches, and then publishes that it is ready. -/
def Pipe.attach : Pipe Thread :=
  if s.exited then s
  else { s with reader := { s.reader with consumerEnv := true }, consumer_ready := true }

/-- A read fails and the reader ends. -/
def Pipe.readError : Pipe Thread :=
  { s with
    reader := { s.reader with consumerEnv := false }, consumer_ready := false, exited := true }

/-- The pipe as a machine: a step that is not enabled does nothing. -/
def pipeMachine : Machine (Pipe Thread) (PipeOp Thread) where
  next s
    | .enter t site tls => s.enter config_is_allowed t site tls
    | .exit t site tls => s.exit config_is_allowed t site tls
    | .send i delivered => s.send buf i delivered
    | .attach => s.attach
    | .read heap order => s.read heap order
    | .readError => s.readError

end Steps

/-! ## Section 3: What pairing should do -/

/-- The ids a list of lines shows with a call frame. -/
def fullIds (lines : List Line) : List Nat :=
  lines.filterMap fun
    | .emitCallFull _ _ _ id => some id
    | _ => none

def ReadOut.isReturn (h : ReadOut) : Prop :=
  h.eventType = evReturn ∨ h.eventType = evObjReturn

section Property

variable {Thread : Type} (s : Pipe Thread)

/-- The reader gave the invocation's call up before its return came. -/
def Pipe.Evicted (inv : Nat) : Prop :=
  ∃ c ∈ s.stored, c.inv = inv ∧ ∃ h ∈ s.history, h.eventType = evCall ∧ c.id ∈ fullIds h.lines

/-- Calls and returns are paired well. -/
structure Pipe.PairedWell : Prop where
  /-- a frame shown for a return is the one of its own call -/
  own : ∀ h ∈ s.history, h.isReturn → ∀ offset frame result id,
    Line.emitCallFull offset frame result id ∈ h.lines → ⟨h.inv, id, ⟨frame, offset⟩⟩ ∈ s.stored
  /-- a frame shown for anything else is that of an evicted call, without a value -/
  void : ∀ h ∈ s.history, ¬ h.isReturn → ∀ offset frame result id,
    Line.emitCallFull offset frame result id ∈ h.lines →
      result = VoidValue ∧ ∃ inv, ⟨inv, id, ⟨frame, offset⟩⟩ ∈ s.stored
  /-- the calls received have different ids and invocations -/
  distinct : (s.stored.map StoredCall.id).Nodup ∧ (s.stored.map StoredCall.inv).Nodup
  /-- no call is shown twice -/
  once : (fullIds (s.history.flatMap ReadOut.lines)).Nodup
  /-- a return without a call to go with stands alone -/
  alone : ∀ h ∈ s.history, h.isReturn →
    h.inv ∈ s.dropped.map Prod.fst ∨ s.Evicted h.inv ∨ h.inv ∈ s.deep →
      ∃ offset name result id, h.lines = [.emitStandaloneReturn offset name result id]

end Property

/-! ## Section 4: The invariant -/

section Invariant

variable {Thread : Type} (config_is_allowed : Bytes → Bool) (s : Pipe Thread)

/-- The events on their way. -/
def Pipe.packets : List Packet :=
  s.sending.map Prod.snd ++ s.channel.map Sent.packet

def StoredCall.key (c : StoredCall) : Nat × Nat :=
  (c.inv, c.id)

/-- The id of a return is its own call's or 0, and 0 when that was nested
    too deep. -/
def Pipe.OwnId (inv : Nat) (cid : UInt64) : Prop :=
  inv < s.started ∧ (cid = 0 ∨ (inv, cid.toNat) ∈ s.issued) ∧ (inv ∈ s.deep → cid = 0)

/-- The reader can render the reference of an object return. -/
def Pipe.Rendering : Prop :=
  s.exited = true ∨ s.reader.consumerEnv = true

/-- Only calls and returns are on their way, and returns carry their own
    ids. -/
def Pipe.GoodPacket (p : Packet) : Prop :=
  match p.call with
  | .call .. => True
  | .return cid .. => s.OwnId p.inv cid
  | .obj_return cid .. => s.OwnId p.inv cid ∧ s.Rendering
  | _ => False

/-- Frames inside 32 or more others are the only ones in `deep`. -/
def DeepBelow (deep : List Nat) : List Frame → Prop
  | [] => True
  | f :: fs => (f.inv ∈ deep → TLS_CALL_ID_DEPTH ≤ fs.length) ∧ DeepBelow deep fs

/-- The call-id stack of a thread holds the ids of its logged frames. -/
structure Pipe.GoodThread (th : AppThread) : Prop where
  represents : Represents th.call_ids ((th.logged config_is_allowed).map Frame.cid)
  issued : ∀ f ∈ th.logged config_is_allowed, (f.inv, f.cid.toNat) ∈ s.issued
  deep : DeepBelow s.deep (th.logged config_is_allowed)

/-- A call datagram showed evicted calls only; a return datagram its own
    call or nothing. -/
def Pipe.GoodRead (h : ReadOut) : Prop :=
  (h.eventType = evCall ∧ ∀ l ∈ h.lines, ∃ c ∈ s.stored, l = evictLine (c.id, c.pc)) ∨
  (h.isReturn ∧
    ((∃ offset name result id, h.lines = [.emitStandaloneReturn offset name result id]) ∨
      ∃ c ∈ s.stored, ∃ result, c.inv = h.inv ∧ c.inv ∉ s.deep ∧
        h.lines = [.emitCallFull c.pc.offset c.pc.frame result c.id]))

structure Pipe.Inv : Prop where
  counter : s.g_call_id_counter.toNat = s.issued.length
  range : ∀ p ∈ s.issued, p.1 < s.started ∧ 0 < p.2 ∧ p.2 ≤ s.issued.length
  nodup : (s.issued.map Prod.fst).Nodup ∧ (s.issued.map Prod.snd).Nodup
  /-- every call is on its way, received or dropped -/
  calls : (s.packets.flatMap Packet.issues ++ s.stored.map StoredCall.key ++ s.dropped).Perm
    s.issued
  built : ∀ d ∈ s.channel, d.bytes = d.packet.call.datagram d.packet.tls.refs
  packets : ∀ p ∈ s.packets, s.GoodPacket p
  threads : ∀ t, s.GoodThread config_is_allowed (s.threads t)
  deep : ∀ i ∈ s.deep, i < s.started
  ready : s.consumer_ready = true → s.reader.consumerEnv = true
  /-- every call received is pending or was shown once -/
  keys : (fullIds (s.history.flatMap ReadOut.lines) ++ s.reader.pendingCalls.map Prod.fst).Perm
    (s.stored.map StoredCall.id)
  pending : ∀ e ∈ s.reader.pendingCalls, ∃ c ∈ s.stored, c.id = e.1 ∧ c.pc = e.2
  reads : ∀ h ∈ s.history, s.GoodRead h

end Invariant

section Consequences

variable {Thread : Type} {config_is_allowed : Bytes → Bool} {s : Pipe Thread}

theorem fullIds_append (ls ls' : List Line) : fullIds (ls ++ ls') = fullIds ls ++ fullIds ls' :=
  List.filterMap_append

theorem Pipe.inv_initial : (Pipe.initial : Pipe Thread).Inv config_is_allowed where
  counter := rfl
  range := by simp [Pipe.initial]
  nodup := ⟨List.nodup_nil, List.nodup_nil⟩
  calls := List.Perm.refl _
  built := by simp [Pipe.initial]
  packets := by simp [Pipe.initial, Pipe.packets]
  threads _ := ⟨represents_initial, by simp [Pipe.initial, AppThread.logged], trivial⟩
  deep := by simp [Pipe.initial]
  ready := by simp [Pipe.initial]
  keys := List.Perm.refl _
  pending := by simp [Pipe.initial, Reader.init]
  reads := by simp [Pipe.initial]

/-- Calls on their way, received and dropped are all different. -/
theorem Pipe.Inv.nodup_calls (h : s.Inv config_is_allowed) :
    ((s.packets.flatMap Packet.issues ++ s.stored.map StoredCall.key ++ s.dropped).map
        Prod.fst).Nodup ∧
      ((s.packets.flatMap Packet.issues ++ s.stored.map StoredCall.key ++ s.dropped).map
        Prod.snd).Nodup :=
  ⟨(h.calls.map Prod.fst).nodup_iff.mpr h.nodup.1, (h.calls.map Prod.snd).nodup_iff.mpr h.nodup.2⟩

/-- The calls received have different ids and invocations. -/
theorem Pipe.Inv.nodup_stored (h : s.Inv config_is_allowed) :
    (s.stored.map StoredCall.id).Nodup ∧ (s.stored.map StoredCall.inv).Nodup := by
  obtain ⟨hinv, hid⟩ := h.nodup_calls
  simp only [List.map_append, List.map_map] at hinv hid
  exact ⟨(List.nodup_append.mp (List.nodup_append.mp hid).1).2.1,
    (List.nodup_append.mp (List.nodup_append.mp hinv).1).2.1⟩

theorem Pipe.Inv.stored_issued (h : s.Inv config_is_allowed) {c : StoredCall} (hc : c ∈ s.stored) :
    c.key ∈ s.issued :=
  h.calls.subset (by simp only [List.mem_append, List.mem_map]; exact .inl (.inr ⟨c, hc, rfl⟩))

/-- The keys of the pending map are distinct. -/
theorem Pipe.Inv.distinctKeys (h : s.Inv config_is_allowed) :
    DistinctKeys s.reader.pendingCalls := by
  have hnodup := h.keys.nodup_iff.mpr h.nodup_stored.1
  exact (List.nodup_append.mp hnodup).2.1

theorem not_isReturn_of_call {o : ReadOut} (h : o.eventType = evCall) : ¬ o.isReturn := by
  rintro (hreturn | hreturn)
  · rw [h] at hreturn
    exact absurd hreturn (by decide)
  · rw [h] at hreturn
    exact absurd hreturn (by decide)

/-- An id is shown by one datagram only. -/
theorem Pipe.Inv.shown_once (h : s.Inv config_is_allowed) {o o' : ReadOut} (ho : o ∈ s.history)
    (ho' : o' ∈ s.history) {id : Nat} (hid : id ∈ fullIds o.lines) (hid' : id ∈ fullIds o'.lines) :
    o = o' := by
  have hnodup := (List.nodup_append.mp (h.keys.nodup_iff.mpr h.nodup_stored.1)).1
  have hflat : fullIds (s.history.flatMap ReadOut.lines) =
      s.history.flatMap fun o => fullIds o.lines := List.filterMap_flatMap
  rw [hflat] at hnodup
  -- two datagrams that show one id would list it twice
  have hdisjoint := (List.nodup_flatMap.mp hnodup).2
  by_contra hne
  have hsymm : Std.Symm (Function.onFun List.Disjoint fun o : ReadOut => fullIds o.lines) :=
    ⟨fun _ _ hd => hd.symm⟩
  exact hdisjoint.forall ho ho' hne hid hid'

/-- **The invariant gives what pairing should do.** -/
theorem Pipe.Inv.pairedWell (h : s.Inv config_is_allowed) : s.PairedWell where
  own := by
    intro o ho hreturn offset frame result id hline
    rcases h.reads o ho with ⟨hcall, -⟩ | ⟨-, ⟨_, _, _, _, hlines⟩ | ⟨c, hc, _, hinv, -, hlines⟩⟩
    · exact absurd hreturn (not_isReturn_of_call hcall)
    · rw [hlines] at hline
      simp at hline
    · rw [hlines, List.mem_singleton, Line.emitCallFull.injEq] at hline
      obtain ⟨rfl, rfl, -, rfl⟩ := hline
      rw [← hinv]
      exact hc
  void := by
    intro o ho hreturn offset frame result id hline
    rcases h.reads o ho with ⟨-, hlines⟩ | ⟨hret, -⟩
    · obtain ⟨c, hc, heq⟩ := hlines _ hline
      rw [evictLine, Line.emitCallFull.injEq] at heq
      obtain ⟨rfl, rfl, rfl, rfl⟩ := heq
      exact ⟨rfl, c.inv, hc⟩
    · exact absurd hret hreturn
  distinct := h.nodup_stored
  once := (List.nodup_append.mp (h.keys.nodup_iff.mpr h.nodup_stored.1)).1
  alone := by
    intro o ho hreturn hwhy
    rcases h.reads o ho with ⟨hcall, -⟩ | ⟨-, halone | ⟨c, hc, result, hinv, hdeep, hlines⟩⟩
    · exact absurd hreturn (not_isReturn_of_call hcall)
    · exact halone
    · exfalso
      rcases hwhy with hdropped | ⟨c', hc', hinv', o', ho', hcall, hid⟩ | hdeep'
      · -- a call is received or dropped, not both
        have hnodup := h.nodup_calls.1
        rw [List.map_append] at hnodup
        have hstored : o.inv ∈ (s.packets.flatMap Packet.issues ++ s.stored.map StoredCall.key).map
            Prod.fst := by
          simp only [List.map_append, List.map_map, List.mem_append]
          exact .inr (List.mem_map.mpr ⟨c, hc, hinv⟩)
        exact (List.nodup_append.mp hnodup).2.2 _ hstored _ hdropped rfl
      · -- what was shown as evicted is not shown again
        have heq : c' = c :=
          List.inj_on_of_nodup_map h.nodup_stored.2 hc' hc (hinv'.trans hinv.symm)
        rw [heq] at hid
        have hshown : c.id ∈ fullIds o.lines := by
          rw [hlines]
          exact List.mem_singleton.mpr rfl
        have hsame := h.shown_once ho ho' hshown hid
        exact not_isReturn_of_call hcall (hsame ▸ hreturn)
      · exact hdeep (hinv ▸ hdeep')

end Consequences

/-! ## Section 5: Steps of a thread -/

section Later

variable {Thread : Type} {config_is_allowed : Bytes → Bool} {s s' : Pipe Thread}

/-- Later states have more calls, and old calls are no deeper in them. -/
structure Pipe.Later (s s' : Pipe Thread) : Prop where
  started : s.started ≤ s'.started
  issued : s.issued ⊆ s'.issued
  deep : ∀ i < s.started, i ∈ s'.deep → i ∈ s.deep

theorem Pipe.OwnId.later {inv : Nat} {cid : UInt64} (h : s.OwnId inv cid) (hl : s.Later s') :
    s'.OwnId inv cid := by
  obtain ⟨hlt, hid, hdeep⟩ := h
  refine ⟨Nat.lt_of_lt_of_le hlt hl.started, ?_, fun hin => hdeep (hl.deep inv hlt hin)⟩
  exact hid.imp_right fun hin => hl.issued hin

theorem Pipe.GoodPacket.later {p : Packet} (h : s.GoodPacket p) (hl : s.Later s')
    (hr : s.Rendering → s'.Rendering) : s'.GoodPacket p := by
  unfold Pipe.GoodPacket at h ⊢
  split at h
  · trivial
  · exact h.later hl
  · exact ⟨h.1.later hl, hr h.2⟩
  · exact h.elim

theorem DeepBelow.later {deep deep' : List Nat} {fs : List Frame} (h : DeepBelow deep fs)
    (hsub : ∀ f ∈ fs, f.inv ∈ deep' → f.inv ∈ deep) : DeepBelow deep' fs := by
  induction fs with
  | nil => trivial
  | cons f fs ih =>
    refine ⟨fun hin => h.1 (hsub f (by simp) hin), ih h.2 ?_⟩
    intro g hg
    exact hsub g (by simp [hg])

theorem Pipe.GoodThread.later {th : AppThread} (h : s.GoodThread config_is_allowed th)
    (hrange : ∀ p ∈ s.issued, p.1 < s.started) (hl : s.Later s') :
    s'.GoodThread config_is_allowed th := by
  refine ⟨h.represents, fun f hf => hl.issued (h.issued f hf), h.deep.later ?_⟩
  intro f hf
  exact hl.deep _ (hrange _ (h.issued f hf))

theorem Pipe.GoodRead.later {o : ReadOut} (h : s.GoodRead o) (hstored : s.stored ⊆ s'.stored)
    (hdeep : ∀ c ∈ s.stored, c.inv ∈ s'.deep → c.inv ∈ s.deep) : s'.GoodRead o := by
  rcases h with ⟨hcall, hlines⟩ | ⟨hreturn, halone | ⟨c, hc, result, hinv, hnot, hlines⟩⟩
  · refine .inl ⟨hcall, fun l hl => ?_⟩
    obtain ⟨c, hc, heq⟩ := hlines l hl
    exact ⟨c, hstored hc, heq⟩
  · exact .inr ⟨hreturn, .inl halone⟩
  · exact .inr ⟨hreturn, .inr ⟨c, hstored hc, result, hinv, fun hin => hnot (hdeep c hc hin),
      hlines⟩⟩

theorem Pipe.Inv.started (h : s.Inv config_is_allowed) : ∀ p ∈ s.issued, p.1 < s.started :=
  fun p hp => (h.range p hp).1

theorem Pipe.Inv.later (h : s.Inv config_is_allowed) (hl : s.Later s') (t : Thread) :
    s'.GoodThread config_is_allowed (s.threads t) :=
  (h.threads t).later h.started hl

/-- Returns issue no ids. -/
theorem ReturnSite.issues_event (site : ReturnSite) (inv : Nat) (ready : Bool) (name : CStr)
    (cid : UInt64) (tls : RenderRefs) :
    Packet.issues ⟨inv, site.event ready name cid, tls⟩ = [] := by
  cases site with
  | log_jni_return => rfl
  | _log_obj_ret offset gref => cases ready <;> cases gref <;> rfl

theorem ReturnSite.goodPacket_event (site : ReturnSite) {inv : Nat} {cid : UInt64}
    (hown : s.OwnId inv cid) {ready : Bool} (name : CStr) (tls : RenderRefs)
    (hready : ready = true → s.Rendering) :
    s.GoodPacket ⟨inv, site.event ready name cid, tls⟩ := by
  cases site with
  | log_jni_return => exact hown
  | _log_obj_ret offset gref =>
    cases ready with
    | false => exact hown
    | true =>
      cases gref with
      | none => exact hown
      | some gref => exact ⟨hown, hready rfl⟩

end Later

section ThreadSteps

variable {Thread : Type} [DecidableEq Thread] {config_is_allowed : Bytes → Bool}
  {s s' : Pipe Thread}

/-- One thread changes, the others stay good. -/
theorem Pipe.Inv.update (h : s.Inv config_is_allowed) (hl : s.Later s') {t : Thread}
    {th : AppThread} (hth : s'.GoodThread config_is_allowed th) (t' : Thread) :
    s'.GoodThread config_is_allowed (Function.update s.threads t th t') := by
  by_cases heq : t' = t
  · rw [heq, Function.update_self]
    exact hth
  · rw [Function.update_of_ne heq]
    exact h.later hl t'

/-- An invocation that is not logged leaves no trace. -/
theorem Pipe.Inv.enter_denied (h : s.Inv config_is_allowed) (t : Thread) {name : CStr}
    (hgate : config_is_allowed name = false) :
    Pipe.Inv config_is_allowed { s with
      threads := Function.update s.threads t
        { s.threads t with frames := ⟨s.started, name, 0⟩ :: (s.threads t).frames }
      started := s.started + 1 } := by
  have hlater : ∀ threads, s.Later { s with threads, started := s.started + 1 } :=
    fun _ => ⟨Nat.le_succ _, List.Subset.refl _, fun _ _ hin => hin⟩
  have hth := h.later (hlater s.threads) t
  have hlogged : AppThread.logged config_is_allowed
      { s.threads t with frames := ⟨s.started, name, 0⟩ :: (s.threads t).frames } =
        (s.threads t).logged config_is_allowed :=
    List.filter_cons_of_neg (by simp [hgate])
  refine { h with range := ?_, packets := ?_, threads := ?_, deep := ?_ }
  · intro p hp
    exact ⟨Nat.lt_succ_of_lt (h.range p hp).1, (h.range p hp).2⟩
  · intro p hp
    exact (h.packets p hp).later (hlater _) fun hr => hr
  · refine h.update (hlater _) ⟨?_, ?_, ?_⟩
    · rw [hlogged]
      exact hth.represents
    · rw [hlogged]
      exact hth.issued
    · rw [hlogged]
      exact hth.deep
  · intro i hi
    exact Nat.lt_succ_of_lt (h.deep i hi)

/-- **Call rule**: a logged invocation gets a new id. -/
theorem Pipe.Inv.enter_logged (h : s.Inv config_is_allowed) (t : Thread) {site : CallSite}
    (tls : RenderRefs) (hgate : config_is_allowed site.jni_name = true)
    (hroom : s.issued.length + 1 < 2 ^ 64) :
    Pipe.Inv config_is_allowed { s with
      g_call_id_counter := s.g_call_id_counter + 1
      threads := Function.update s.threads t
        ⟨⟨s.started, site.jni_name, s.g_call_id_counter + 1⟩ :: (s.threads t).frames,
          tls_push_call_id (s.threads t).call_ids (s.g_call_id_counter + 1)⟩
      sending := (t, ⟨s.started, site.event (s.g_call_id_counter + 1), tls⟩) :: s.sending
      started := s.started + 1
      issued := (s.started, (s.g_call_id_counter + 1).toNat) :: s.issued
      deep :=
        if ((s.threads t).logged config_is_allowed).length ≥ TLS_CALL_ID_DEPTH then
          s.started :: s.deep
        else s.deep } := by
  have hcid : (s.g_call_id_counter + 1).toNat = s.issued.length + 1 := by
    rw [UInt64.toNat_add, h.counter]
    exact Nat.mod_eq_of_lt hroom
  generalize s.g_call_id_counter + 1 = cid at hcid ⊢
  generalize hdeep' : (if ((s.threads t).logged config_is_allowed).length ≥ TLS_CALL_ID_DEPTH then
    s.started :: s.deep else s.deep) = deep'
  -- the only new number among the deep ones is that of this invocation, and
  -- only when the stack was full
  have hin_deep : ∀ i ∈ deep', i = s.started ∧
      ((s.threads t).logged config_is_allowed).length ≥ TLS_CALL_ID_DEPTH ∨ i ∈ s.deep := by
    intro i hi
    rw [← hdeep'] at hi
    split at hi
    · rename_i hlen
      exact (List.mem_cons.mp hi).imp_left fun heq => ⟨heq, hlen⟩
    · exact .inr hi
  have hlater : ∀ threads sending, s.Later { s with
      g_call_id_counter := cid
      threads
      sending
      started := s.started + 1
      issued := (s.started, cid.toNat) :: s.issued
      deep := deep' } := by
    intro threads sending
    refine ⟨Nat.le_succ _, List.subset_cons_self _ _, ?_⟩
    intro i hlt hi
    rcases hin_deep i hi with ⟨heq, -⟩ | hin
    · exact absurd heq (Nat.ne_of_lt hlt)
    · exact hin
  have hth := h.threads t
  have hlogged : AppThread.logged config_is_allowed
      ⟨⟨s.started, site.jni_name, cid⟩ :: (s.threads t).frames,
        tls_push_call_id (s.threads t).call_ids cid⟩ =
      ⟨s.started, site.jni_name, cid⟩ :: (s.threads t).logged config_is_allowed :=
    List.filter_cons_of_pos (by simpa using hgate)
  refine { h with
    counter := ?_, range := ?_, nodup := ?_, calls := ?_, packets := ?_, threads := ?_, deep := ?_
    reads := ?_ }
  · exact hcid
  · intro p hp
    rcases List.mem_cons.mp hp with rfl | hp
    · exact ⟨Nat.lt_succ_self _, by omega, by simp [hcid]⟩
    · obtain ⟨hlt, hpos, hle⟩ := h.range p hp
      exact ⟨Nat.lt_succ_of_lt hlt, hpos, Nat.le_succ_of_le hle⟩
  · -- the new number and the new id are above all others
    refine ⟨List.nodup_cons.mpr ⟨?_, h.nodup.1⟩, List.nodup_cons.mpr ⟨?_, h.nodup.2⟩⟩
    · intro hmem
      obtain ⟨p, hp, heq⟩ := List.mem_map.mp hmem
      exact absurd heq (Nat.ne_of_lt (h.range p hp).1)
    · intro hmem
      obtain ⟨p, hp, heq⟩ := List.mem_map.mp hmem
      have hle := (h.range p hp).2.2
      have heq' : p.2 = cid.toNat := heq
      omega
  -- the new id travels with its packet
  · exact h.calls.cons (s.started, cid.toNat)
  · intro p hp
    rcases List.mem_cons.mp hp with rfl | hp
    · trivial
    · exact (h.packets p hp).later (hlater _ _) fun hr => hr
  -- the stack of this thread represents its open logged calls, the others are
  -- untouched
  · refine h.update (hlater _ _) ⟨?_, ?_, ?_⟩
    · rw [hlogged]
      exact hth.represents.push cid
    · rw [hlogged]
      intro f hf
      rcases List.mem_cons.mp hf with rfl | hf
      · exact List.mem_cons_self
      · exact List.mem_cons_of_mem _ (hth.issued f hf)
    · rw [hlogged]
      refine ⟨fun hin => ?_, (hth.later h.started (hlater s.threads s.sending)).deep⟩
      rcases hin_deep _ hin with ⟨-, hlen⟩ | hold
      · exact hlen
      · exact absurd (h.deep _ hold) (Nat.lt_irrefl _)
  · intro i hi
    rcases hin_deep i hi with ⟨rfl, -⟩ | hold
    · exact Nat.lt_succ_self _
    · exact Nat.lt_succ_of_lt (h.deep i hold)
  · intro o ho
    refine (h.reads o ho).later (List.Subset.refl _) ?_
    intro c hc
    exact (hlater s.threads s.sending).deep _ (h.started _ (h.stored_issued hc))

theorem Pipe.Inv.enter (h : s.Inv config_is_allowed) (t : Thread) (site : CallSite)
    (tls : RenderRefs) (hroom : (s.enter config_is_allowed t site tls).issued.length < 2 ^ 64) :
    (s.enter config_is_allowed t site tls).Inv config_is_allowed := by
  unfold Pipe.enter at hroom ⊢
  dsimp only at hroom ⊢
  split at hroom
  · rename_i hbusy
    rw [if_pos hbusy]
    exact h
  · rename_i hbusy
    rw [if_neg hbusy]
    split at hroom
    · rename_i hgate
      rw [if_pos hgate]
      exact h.enter_denied t hgate
    · rename_i hgate
      rw [if_neg hgate]
      exact h.enter_logged t tls (by simpa using hgate) hroom

/-- A return that is not logged leaves no trace. -/
theorem Pipe.Inv.exit_denied (h : s.Inv config_is_allowed) (t : Thread) {f : Frame}
    {frames : List Frame} (hframes : (s.threads t).frames = f :: frames)
    (hgate : config_is_allowed f.jni_name = false) :
    Pipe.Inv config_is_allowed
      { s with threads := Function.update s.threads t { s.threads t with frames } } := by
  have hlater : ∀ threads, s.Later { s with threads } :=
    fun _ => ⟨Nat.le_refl _, List.Subset.refl _, fun _ _ hin => hin⟩
  have hth := h.later (hlater s.threads) t
  have hlogged : (s.threads t).logged config_is_allowed =
      AppThread.logged config_is_allowed { s.threads t with frames } := by
    unfold AppThread.logged
    rw [hframes]
    exact List.filter_cons_of_neg (by simp [hgate])
  refine { h with threads := h.update (hlater _) ⟨?_, ?_, ?_⟩ }
  · rw [← hlogged]
    exact hth.represents
  · rw [← hlogged]
    exact hth.issued
  · rw [← hlogged]
    exact hth.deep

/-- **Return rule**: a logged return carries the id of its own call, or 0
    when that was nested too deep. -/
theorem Pipe.Inv.exit_logged (h : s.Inv config_is_allowed) (t : Thread) (site : ReturnSite)
    (tls : RenderRefs) {f : Frame} {frames : List Frame}
    (hframes : (s.threads t).frames = f :: frames) (hgate : config_is_allowed f.jni_name = true) :
    Pipe.Inv config_is_allowed { s with
      threads := Function.update s.threads t
        ⟨frames, (tls_pop_call_id (s.threads t).call_ids).2⟩
      sending := (t, ⟨f.inv, site.event s.consumer_ready f.jni_name
        (tls_pop_call_id (s.threads t).call_ids).1, tls⟩) :: s.sending } := by
  have hlater : ∀ threads sending, s.Later { s with threads, sending } :=
    fun _ _ => ⟨Nat.le_refl _, List.Subset.refl _, fun _ _ hin => hin⟩
  have hth := h.threads t
  have hlogged : (s.threads t).logged config_is_allowed =
      f :: frames.filter fun f => config_is_allowed f.jni_name := by
    unfold AppThread.logged
    rw [hframes]
    exact List.filter_cons_of_pos (by simpa using hgate)
  have hrepresents := hth.represents
  have hissued := hth.issued
  have hdeep := hth.deep
  rw [hlogged] at hrepresents hissued hdeep
  rw [List.map_cons] at hrepresents
  obtain ⟨hpop, hrest⟩ := hrepresents.pop
  rw [List.length_map] at hpop
  have hown : s.OwnId f.inv (tls_pop_call_id (s.threads t).call_ids).1 := by
    have hmem := hissued f (by simp)
    refine ⟨h.started _ hmem, ?_, fun hin => ?_⟩
    · rw [hpop]
      split
      · exact .inr hmem
      · exact .inl rfl
    -- a deep call was pushed onto a full stack, so its pop gives 0
    · rw [hpop, if_neg (Nat.not_lt.mpr (hdeep.1 hin))]
  refine { h with calls := ?_, packets := ?_, threads := ?_ }
  -- a return brings no id along
  · show ((Packet.issues _ ++ s.packets.flatMap Packet.issues) ++ _ ++ _).Perm s.issued
    rw [ReturnSite.issues_event, List.nil_append]
    exact h.calls
  · intro p hp
    rcases List.mem_cons.mp hp with rfl | hp
    · exact (site.goodPacket_event hown f.jni_name tls fun hready => .inr (h.ready hready)).later
        (hlater _ _) fun hr => hr
    · exact (h.packets p hp).later (hlater _ _) fun hr => hr
  · refine h.update (hlater _ _) ⟨hrest, ?_, hdeep.2⟩
    intro g hg
    exact hissued g (List.mem_cons_of_mem _ hg)

theorem Pipe.Inv.exit (h : s.Inv config_is_allowed) (t : Thread) (site : ReturnSite)
    (tls : RenderRefs) : (s.exit config_is_allowed t site tls).Inv config_is_allowed := by
  unfold Pipe.exit
  dsimp only
  split
  · exact h
  · split
    · exact h
    · rename_i f frames hframes
      split
      · rename_i hgate
        exact h.exit_denied t hframes hgate
      · rename_i hgate
        exact h.exit_logged t site tls hframes (by simpa using hgate)

end ThreadSteps

/-! ## Section 6: Steps of the socket and the reader -/

section ReaderSteps

variable {Thread : Type} {config_is_allowed : Bytes → Bool} {s : Pipe Thread}

/-- **Send rule**: the event moves to the socket or, a call, to the
    dropped ones. -/
theorem Pipe.Inv.send (h : s.Inv config_is_allowed) (buf : StackBuf) (i : Nat) (delivered : Bool) :
    (s.send buf i delivered).Inv config_is_allowed := by
  unfold Pipe.send
  split
  · exact h
  · rename_i t p hget
    obtain ⟨hi, hsending⟩ := List.getElem?_eq_some_iff.mp hget
    have hperm : ((p :: (s.sending.eraseIdx i).map Prod.snd)).Perm (s.sending.map Prod.snd) := by
      have hsplit := (List.getElem_cons_eraseIdx_perm hi).map Prod.snd
      rw [hsending] at hsplit
      exact hsplit
    have hpackets : (p :: ((s.sending.eraseIdx i).map Prod.snd ++ s.channel.map Sent.packet)).Perm
        s.packets := hperm.append_right _
    rw [EmitCall.run_eq]
    have hnone : ∀ p' ∈ (s.sending.eraseIdx i).map Prod.snd ++ s.channel.map Sent.packet,
        s.GoodPacket p' :=
      fun p' hp' => h.packets p' (hpackets.subset (List.mem_cons_of_mem _ hp'))
    have hcalls := ((hpackets.flatMap_right Packet.issues).append_right
      (s.stored.map StoredCall.key ++ s.dropped))
    rw [← List.append_assoc, ← List.append_assoc] at hcalls
    replace hcalls := hcalls.trans h.calls
    cases delivered with
    | true =>
      show Pipe.Inv config_is_allowed { s with
        sending := s.sending.eraseIdx i
        channel := s.channel ++ [⟨p, p.call.datagram p.tls.refs⟩] }
      -- the packet goes to the end of the socket's queue
      have hmoved : ((s.sending.eraseIdx i).map Prod.snd ++
          (s.channel ++ [(⟨p, p.call.datagram p.tls.refs⟩ : Sent)]).map Sent.packet).Perm
            (p :: ((s.sending.eraseIdx i).map Prod.snd ++ s.channel.map Sent.packet)) := by
        rw [List.map_append, ← List.append_assoc]
        exact List.perm_append_singleton p _
      refine { h with
        calls := ?_, built := ?_, packets := ?_
        threads := h.later ⟨Nat.le_refl _, List.Subset.refl _, fun _ _ hin => hin⟩ }
      · refine List.Perm.trans ?_ hcalls
        exact ((hmoved.flatMap_right _).append_right _).append_right _
      · intro d hd
        rcases List.mem_append.mp hd with hd | hd
        · exact h.built d hd
        · rw [List.mem_singleton.mp hd]
      · intro p' hp'
        exact h.packets p' (hpackets.subset (hmoved.subset hp'))
    | false =>
      show Pipe.Inv config_is_allowed { s with
        sending := s.sending.eraseIdx i
        dropped := p.issues ++ s.dropped }
      refine { h with
        calls := ?_, packets := hnone
        threads := h.later ⟨Nat.le_refl _, List.Subset.refl _, fun _ _ hin => hin⟩ }
      refine List.Perm.trans ?_ hcalls
      -- the dropped call moves to the front
      rw [List.flatMap_cons, List.append_assoc p.issues, List.append_assoc p.issues]
      exact List.perm_append_comm_assoc _ _ _

theorem Pipe.Inv.attach (h : s.Inv config_is_allowed) : s.attach.Inv config_is_allowed := by
  unfold Pipe.attach
  split
  · exact h
  · have hlater : s.Later { s with
        reader := { s.reader with consumerEnv := true }, consumer_ready := true } :=
      ⟨Nat.le_refl _, List.Subset.refl _, fun _ _ hin => hin⟩
    refine { h with packets := ?_, threads := h.later hlater, ready := fun _ => rfl }
    intro p hp
    exact (h.packets p hp).later hlater fun _ => .inr rfl

theorem Pipe.Inv.readError (h : s.Inv config_is_allowed) : s.readError.Inv config_is_allowed := by
  have hlater : s.Later s.readError := ⟨Nat.le_refl _, List.Subset.refl _, fun _ _ hin => hin⟩
  refine { h with packets := ?_, threads := h.later hlater, ready := fun hr => nomatch hr }
  intro p hp
  exact (h.packets p hp).later hlater fun _ => .inl rfl

/-- **Read rule**: the reader keeps or shows what it received, and shows
    nothing else. -/
theorem Pipe.Inv.received (h : s.Inv config_is_allowed) {d : Sent} {channel : List Sent}
    (hchannel : s.channel = d :: channel) {r : Reader} {ty : UInt8} {lines : List Line}
    {new : List StoredCall} (hnew : new.map StoredCall.key = d.packet.issues)
    (henv : r.consumerEnv = s.reader.consumerEnv)
    (hkeys : (fullIds lines ++ r.pendingCalls.map Prod.fst).Perm
      (s.reader.pendingCalls.map Prod.fst ++ new.map StoredCall.id))
    (hpending : ∀ e ∈ r.pendingCalls,
      e ∈ s.reader.pendingCalls ∨ ∃ c ∈ new, c.id = e.1 ∧ c.pc = e.2)
    (hread : Pipe.GoodRead { s with stored := new ++ s.stored } ⟨d.packet.inv, ty, lines⟩) :
    Pipe.Inv config_is_allowed { s with
      channel
      reader := r
      stored := new ++ s.stored
      history := s.history ++ [⟨d.packet.inv, ty, lines⟩] } := by
  have hlater : s.Later { s with
      channel
      reader := r
      stored := new ++ s.stored
      history := s.history ++ [⟨d.packet.inv, ty, lines⟩] } :=
    ⟨Nat.le_refl _, List.Subset.refl _, fun _ _ hin => hin⟩
  -- the datagram read is one packet of those on their way
  have hpackets : (d.packet :: (s.sending.map Prod.snd ++ channel.map Sent.packet)).Perm
      s.packets := by
    unfold Pipe.packets
    rw [hchannel]
    exact List.perm_middle.symm
  refine { h with
    calls := ?_, built := ?_, packets := ?_, threads := h.later hlater, ready := ?_, keys := ?_
    pending := ?_, reads := ?_ }
  -- its id moves from the packets to what is stored
  · have hcalls := (((hpackets.flatMap_right Packet.issues).append_right _).append_right _).trans
      h.calls
    rw [List.flatMap_cons] at hcalls
    refine List.Perm.trans ?_ hcalls
    show (_ ++ (new ++ s.stored).map StoredCall.key ++ s.dropped).Perm _
    rw [List.map_append, hnew]
    simp only [List.append_assoc]
    exact List.perm_append_comm_assoc _ _ _
  · intro d' hd'
    exact h.built d' (by simp [hchannel, hd'])
  · intro p hp
    refine (h.packets p (hpackets.subset (List.mem_cons_of_mem _ hp))).later hlater ?_
    intro hr
    exact hr.imp_right fun henv' => henv.trans henv'
  · intro hready
    exact henv.trans (h.ready hready)
  · show (fullIds ((s.history ++ [(⟨d.packet.inv, ty, lines⟩ : ReadOut)]).flatMap ReadOut.lines) ++
      r.pendingCalls.map Prod.fst).Perm ((new ++ s.stored).map StoredCall.id)
    rw [List.flatMap_append, fullIds_append, List.flatMap_singleton, List.append_assoc,
      List.map_append]
    -- what was shown before stays, and what is shown now left the pending map
    have hshown := hkeys.append_left (fullIds (s.history.flatMap ReadOut.lines))
    rw [← List.append_assoc _ (s.reader.pendingCalls.map Prod.fst)] at hshown
    exact (hshown.trans (h.keys.append_right _)).trans List.perm_append_comm
  · intro e he
    rcases hpending e he with hold | ⟨c, hc, heq⟩
    · obtain ⟨c, hc, heq⟩ := h.pending e hold
      exact ⟨c, List.mem_append_right _ hc, heq⟩
    · exact ⟨c, List.mem_append_left _ hc, heq⟩
  · intro o ho
    rcases List.mem_append.mp ho with ho | ho
    · exact (h.reads o ho).later (List.subset_append_right _ _) fun _ _ hin => hin
    · rw [List.mem_singleton.mp ho]
      exact hread

theorem fullIds_evicted (evicted : List (Nat × PendingCall)) :
    fullIds (evicted.map evictLine) = evicted.map Prod.fst := by
  induction evicted with
  | nil => rfl
  | cons e evicted ih =>
    show e.1 :: fullIds (evicted.map evictLine) = _
    rw [ih]
    rfl

/-- The id of a call on its way is not in the pending map. -/
theorem Pipe.Inv.new_id (h : s.Inv config_is_allowed) {d : Sent} (hd : d ∈ s.channel) {id : Nat}
    (hissues : d.packet.issues = [(d.packet.inv, id)]) :
    id ∉ s.reader.pendingCalls.map Prod.fst := by
  intro hmem
  obtain ⟨e, he, rfl⟩ := List.mem_map.mp hmem
  obtain ⟨c, hc, hid, -⟩ := h.pending e he
  -- a pending id is stored, and no id is both stored and on its way
  have hnodup := h.nodup_calls.2
  rw [List.map_append, List.map_append] at hnodup
  have hdisjoint := (List.nodup_append.mp (List.nodup_append.mp hnodup).1).2.2
  have hflying : e.1 ∈ (s.packets.flatMap Packet.issues).map Prod.snd := by
    refine List.mem_map.mpr ⟨(d.packet.inv, e.1), List.mem_flatMap.mpr ⟨d.packet, ?_, ?_⟩, rfl⟩
    · exact List.mem_append_right _ (List.mem_map_of_mem hd)
    · rw [hissues]
      exact List.mem_singleton.mpr rfl
  have hstored : e.1 ∈ (s.stored.map StoredCall.key).map Prod.snd := by
    rw [List.map_map]
    exact List.mem_map.mpr ⟨c, hc, hid⟩
  exact hdisjoint _ hflying _ hstored rfl

/-- A call is stored, and the calls evicted for it are shown. -/
theorem Pipe.Inv.read_call (h : s.Inv config_is_allowed) {d : Sent} {channel : List Sent}
    (hchannel : s.channel = d :: channel) {id : Nat}
    (hissues : d.packet.issues = [(d.packet.inv, id)]) (order : RangeOrder) (pc : PendingCall) :
    Pipe.Inv config_is_allowed { s with
      channel
      reader := (pendingStore order s.reader id pc).1
      stored := [⟨d.packet.inv, id, pc⟩] ++ s.stored
      history := s.history ++
        [⟨d.packet.inv, evCall, (pendingStore order s.reader id pc).2⟩] } := by
  have hnew := h.new_id (d := d) (by simp [hchannel]) hissues
  obtain ⟨⟨evicted, hlines, hperm⟩, henv⟩ := pendingStore_evicts order pc h.distinctKeys hnew
  generalize pendingStore order s.reader id pc = out at hlines hperm henv ⊢
  -- every entry touched is the new one or was pending
  have hentries : ∀ e ∈ evicted ++ out.1.pendingCalls, e = (id, pc) ∨ e ∈ s.reader.pendingCalls :=
    fun e he => List.mem_cons.mp (hperm.symm.subset he)
  refine h.received hchannel hissues.symm henv ?_ ?_ (.inl ⟨rfl, ?_⟩)
  · rw [hlines, fullIds_evicted, ← List.map_append]
    exact (hperm.symm.map Prod.fst).trans (List.perm_append_singleton id _).symm
  · intro e he
    rcases hentries e (List.mem_append_right _ he) with rfl | hold
    · exact .inr ⟨_, List.mem_singleton.mpr rfl, rfl, rfl⟩
    · exact .inl hold
  · intro l hl
    have hl' : l ∈ out.2 := hl
    rw [hlines] at hl'
    obtain ⟨e, he, rfl⟩ := List.mem_map.mp hl'
    rcases hentries e (List.mem_append_left _ he) with rfl | hold
    · exact ⟨⟨d.packet.inv, id, pc⟩, List.mem_append_left _ (List.mem_singleton.mpr rfl), rfl⟩
    · obtain ⟨c, hc, hid, hpc⟩ := h.pending e hold
      refine ⟨c, List.mem_append_right _ hc, ?_⟩
      rw [hid, hpc]

/-- A return takes the call of its own invocation, or stands alone. -/
theorem Pipe.Inv.read_return (h : s.Inv config_is_allowed) {d : Sent} {channel : List Sent}
    (hchannel : s.channel = d :: channel) (hissues : d.packet.issues = []) {cid : UInt64}
    (hown : s.OwnId d.packet.inv cid) {ty : UInt8} (hty : ty = evReturn ∨ ty = evObjReturn)
    (offset : Int) (name : Bytes) (result : JNIValue) :
    Pipe.Inv config_is_allowed { s with
      channel
      reader := (finishReturn s.reader cid.toNat offset name result).1
      stored := [] ++ s.stored
      history := s.history ++
        [⟨d.packet.inv, ty, (finishReturn s.reader cid.toNat offset name result).2⟩] } := by
  unfold finishReturn
  split
  -- nothing pending under this id: the line stands alone
  · refine h.received hchannel hissues.symm rfl ?_ (fun e he => .inl he) (.inr ⟨hty, .inl ?_⟩)
    · exact List.Perm.of_eq (List.append_nil _).symm
    · exact ⟨offset, name, result, cid.toNat, rfl⟩
  · rename_i pc r htake
    obtain ⟨hperm, henv⟩ := pendingTake_perm h.distinctKeys htake
    obtain ⟨c, hc, hid, hpc⟩ := h.pending (cid.toNat, pc) (hperm.symm.subset (by simp))
    have hkey := h.stored_issued hc
    obtain ⟨-, hcid, hdeep⟩ := hown
    -- the pending call has an id, so the return carries that of its own call
    have hne : cid ≠ 0 := by
      intro hzero
      have hpos := (h.range _ hkey).2.1
      have hid' : c.key.2 = cid.toNat := hid
      rw [hid', hzero] at hpos
      exact absurd hpos (by decide)
    -- ids are issued once, so equal ids belong to one invocation
    have hinv : c.inv = d.packet.inv := by
      have hsame : c.key = (d.packet.inv, cid.toNat) :=
        List.inj_on_of_nodup_map h.nodup.2 hkey (hcid.resolve_left hne) hid
      exact congrArg Prod.fst hsame
    refine h.received hchannel hissues.symm henv ?_ ?_
      (.inr ⟨hty, .inr ⟨c, hc, result, hinv, ?_, ?_⟩⟩)
    · rw [List.map_nil, List.append_nil]
      exact (hperm.map Prod.fst).symm
    · exact fun e he => .inl (hperm.symm.subset (List.mem_cons_of_mem _ he))
    · exact fun hin => hne (hdeep (hinv ▸ hin))
    · rw [hid, hpc]

theorem Pipe.Inv.read (h : s.Inv config_is_allowed) (heap : UInt64 → JObj) (order : RangeOrder) :
    (s.read heap order).Inv config_is_allowed := by
  unfold Pipe.read
  split
  · exact h
  · rename_i hexited
    split
    · exact h
    · rename_i d channel hchannel
      have hd : d ∈ s.channel := by simp [hchannel]
      have hpacket := h.packets d.packet (List.mem_append_right _ (List.mem_map_of_mem hd))
      rw [h.built d hd, EmitCall.readDatagram_datagram _ d.packet.tls.room]
      unfold Pipe.GoodPacket at hpacket
      cases hcall : d.packet.call with
      | call cid off k mid s₁ s₂ s₃ s₄ s₅ s₆ s₇ =>
        have hissues : d.packet.issues = [(d.packet.inv, cid.toNat)] := by
          rw [Packet.issues, hcall]
        dsimp only
        rw [dispatchEvent_call rfl rfl]
        exact h.read_call hchannel hissues order _
      | «return» cid off k raw s₁ s₂ s₃ =>
        have hissues : d.packet.issues = [] := by
          rw [Packet.issues, hcall]
        rw [hcall] at hpacket
        dsimp only
        rw [dispatchEvent_return rfl rfl]
        exact h.read_return hchannel hissues hpacket (.inl rfl) _ _ _
      -- an object return is sent only once the consumer is attached
      | obj_return cid off gref name =>
        have hissues : d.packet.issues = [] := by
          rw [Packet.issues, hcall]
        rw [hcall] at hpacket
        have henv : s.reader.consumerEnv = true := hpacket.2.resolve_left hexited
        dsimp only
        rw [dispatchEvent_objReturn rfl rfl]
        dsimp only [dispatchObjReturn]
        rw [if_neg (by simp [henv])]
        exact h.read_return hchannel hissues hpacket.1 (.inr rfl) _ _ _
      -- no packet of these threads is of another kind
      | lookup =>
        rw [hcall] at hpacket
        exact hpacket.elim
      | field_access =>
        rw [hcall] at hpacket
        exact hpacket.elim
      | register_natives =>
        rw [hcall] at hpacket
        exact hpacket.elim

end ReaderSteps

/-! ## Section 7: Runs -/

section Runs

variable {Thread : Type} [DecidableEq Thread] {config_is_allowed : Bytes → Bool} {buf : StackBuf}
  {s : Pipe Thread}

/-- A step takes no call back and logs at most one. -/
theorem issued_next (config_is_allowed : Bytes → Bool) (buf : StackBuf) (s : Pipe Thread)
    (op : PipeOp Thread) :
    ((pipeMachine config_is_allowed buf).next s op).issued = s.issued ∨
      ∃ p, ((pipeMachine config_is_allowed buf).next s op).issued = p :: s.issued := by
  cases op with
  | enter t site tls =>
    show (s.enter config_is_allowed t site tls).issued = s.issued ∨
      ∃ p, (s.enter config_is_allowed t site tls).issued = p :: s.issued
    unfold Pipe.enter
    dsimp only
    split
    · exact .inl rfl
    · split
      · exact .inl rfl
      · exact .inr ⟨_, rfl⟩
  | exit t site tls =>
    left
    show (s.exit config_is_allowed t site tls).issued = s.issued
    unfold Pipe.exit
    dsimp only
    split
    · rfl
    · split
      · rfl
      · split <;> rfl
  | send i delivered =>
    left
    show (s.send buf i delivered).issued = s.issued
    unfold Pipe.send
    split <;> rfl
  | attach =>
    left
    show s.attach.issued = s.issued
    unfold Pipe.attach
    split <;> rfl
  | read heap order =>
    left
    show (s.read heap order).issued = s.issued
    unfold Pipe.read
    split
    · rfl
    · split
      · rfl
      · split <;> rfl
  | readError => exact .inl rfl

theorem issued_le_exec (s : Pipe Thread) (run : List (PipeOp Thread)) :
    s.issued.length ≤ ((pipeMachine config_is_allowed buf).exec s run).issued.length ∧
      ((pipeMachine config_is_allowed buf).exec s run).issued.length ≤
        s.issued.length + run.length := by
  induction run generalizing s with
  | nil => exact ⟨Nat.le_refl _, Nat.le_refl _⟩
  | cons op run ih =>
    obtain ⟨hlow, hhigh⟩ := ih ((pipeMachine config_is_allowed buf).next s op)
    rw [Machine.exec_cons, List.length_cons]
    rcases issued_next config_is_allowed buf s op with heq | ⟨p, heq⟩
    · rw [heq] at hlow hhigh
      omega
    · rw [heq, List.length_cons] at hlow hhigh
      omega

/-- **Step lemma.** -/
theorem Pipe.Inv.next (h : s.Inv config_is_allowed) (op : PipeOp Thread)
    (hroom : ((pipeMachine config_is_allowed buf).next s op).issued.length < 2 ^ 64) :
    ((pipeMachine config_is_allowed buf).next s op).Inv config_is_allowed := by
  cases op with
  | enter t site tls => exact h.enter t site tls hroom
  | exit t site tls => exact h.exit t site tls
  | send i delivered => exact h.send buf i delivered
  | attach => exact h.attach
  | read heap order => exact h.read heap order
  | readError => exact h.readError

/-- **Run lemma**: the invariant holds while ids last. -/
theorem Pipe.Inv.exec (h : s.Inv config_is_allowed) (run : List (PipeOp Thread))
    (hroom : ((pipeMachine config_is_allowed buf).exec s run).issued.length < 2 ^ 64) :
    ((pipeMachine config_is_allowed buf).exec s run).Inv config_is_allowed := by
  induction run generalizing s with
  | nil => exact h
  | cons op run ih =>
    exact ih (h.next op (Nat.lt_of_le_of_lt (issued_le_exec _ run).1 hroom)) hroom

/-- **Pairing**: in every run that logs fewer than 2^64 calls, calls and
    returns are paired well. -/
theorem pairedWell_exec (config_is_allowed : Bytes → Bool) (buf : StackBuf)
    (run : List (PipeOp Thread))
    (hroom : ((pipeMachine config_is_allowed buf).exec Pipe.initial run).issued.length < 2 ^ 64) :
    ((pipeMachine config_is_allowed buf).exec Pipe.initial run).PairedWell :=
  (Pipe.inv_initial.exec run hroom).pairedWell

/-- A call with nothing in it, and a return of the number 7. -/
def emptyCall : CallSite :=
  ⟨0, default, 0, none, none, none, none, none, 0, none⟩

def intReturn : ReturnSite :=
  .log_jni_return 0 6 7 none none

/-- An invocation by the only thread, and what its two sends do. -/
def invocation (call ret : Bool) : List (PipeOp Unit) :=
  [.enter () emptyCall RenderRefs.empty, .send 0 call, .exit () intReturn RenderRefs.empty,
    .send 0 ret]

/-- One invocation, received whole. -/
theorem pairedWell_invocation :
    let pipe := pipeMachine (fun _ => true)
      ⟨List.replicate EVENT_MAX_BYTES 0, List.length_replicate⟩
    let read := PipeOp.read (fun _ => .string default) ⟨id, fun _ => List.Perm.refl _⟩
    (pipe.exec Pipe.initial (invocation true true ++ [read, read])).issued.length < 2 ^ 64 ∧
      (pipe.exec Pipe.initial (invocation true true ++ [read, read])).PairedWell := by
  intro pipe read
  have hroom : (pipe.exec Pipe.initial (invocation true true ++ [read, read])).issued.length <
      2 ^ 64 :=
    Nat.lt_of_le_of_lt (issued_le_exec Pipe.initial _).2 (by decide)
  exact ⟨hroom, pairedWell_exec _ _ _ hroom⟩

end Runs

/-! ## Section 8: After the counter has wrapped around -/

section Wrap

variable {buf : StackBuf} {s : Pipe Unit}

/-- The thread has no open invocation and no emit begun. -/
structure Pipe.Idle (s : Pipe Unit) : Prop where
  frames : (s.threads ()).frames = []
  call_ids : Represents (s.threads ()).call_ids []
  sending : s.sending = []

theorem idle_initial : Pipe.initial.Idle :=
  ⟨rfl, represents_initial, rfl⟩

def Packet.sent (p : Packet) : Sent :=
  ⟨p, p.call.datagram p.tls.refs⟩

/-- What an invocation changes. -/
structure Pipe.Invoked (call ret : Bool) (s s' : Pipe Unit) : Prop where
  idle : s'.Idle
  counter : s'.g_call_id_counter = s.g_call_id_counter + 1
  started : s'.started = s.started + 1
  reader : s'.reader = s.reader
  exited : s'.exited = s.exited
  stored : s'.stored = s.stored
  history : s'.history = s.history
  channel : s'.channel = s.channel ++
    ((if call then
        [Packet.sent ⟨s.started, emptyCall.event (s.g_call_id_counter + 1), RenderRefs.empty⟩]
      else []) ++
    if ret then
      [Packet.sent ⟨s.started, intReturn.event s.consumer_ready default
        (s.g_call_id_counter + 1), RenderRefs.empty⟩]
    else [])

/-- The only emit begun reaches `send`. -/
theorem send_single {p : Packet} (h : s.sending = [((), p)]) (delivered : Bool) :
    s.send buf 0 delivered = { s with
      sending := []
      channel := s.channel ++ if delivered then [p.sent] else []
      dropped := if delivered then s.dropped else p.issues ++ s.dropped } := by
  unfold Pipe.send
  rw [h]
  cases delivered <;> simp [EmitCall.run_eq, sent, Packet.sent]

theorem invoked (h : s.Idle) (call ret : Bool) :
    s.Invoked call ret ((pipeMachine (fun _ => true) buf).exec s (invocation call ret)) := by
  have hbusy (s' : Pipe Unit) (hs' : s'.sending = []) : ¬ s'.busy () := by
    simp [Pipe.busy, hs']
  obtain ⟨hpop, hrest⟩ := (h.call_ids.push (s.g_call_id_counter + 1)).pop
  have hcid : (tls_pop_call_id (tls_push_call_id (s.threads ()).call_ids
      (s.g_call_id_counter + 1))).1 = s.g_call_id_counter + 1 := hpop
  show s.Invoked call ret ((((s.enter (fun _ => true) () emptyCall RenderRefs.empty).send buf 0
    call).exit (fun _ => true) () intReturn RenderRefs.empty).send buf 0 ret)
  have henter : (s.enter (fun _ => true) () emptyCall RenderRefs.empty).sending =
      [((), ⟨s.started, emptyCall.event (s.g_call_id_counter + 1), RenderRefs.empty⟩)] := by
    rw [Pipe.enter, if_neg (hbusy s h.sending), if_neg (by simp), h.sending]
  rw [send_single henter]
  rw [Pipe.enter, if_neg (hbusy s h.sending), if_neg (by simp)]
  rw [Pipe.exit, if_neg (hbusy _ rfl)]
  simp only [Function.update_self, hcid]
  rw [if_neg (by simp), send_single rfl]
  refine ⟨⟨?_, ?_, rfl⟩, rfl, rfl, rfl, rfl, rfl, rfl, ?_⟩
  · simp [h.frames]
  · simpa using hrest
  · rw [List.append_assoc]
    rfl

/-- Invocations whose events are dropped leave the reader and the socket
    alone. -/
theorem dropped_invocations (buf : StackBuf) (h : s.Idle) (n : Nat) :
    let s' := (pipeMachine (fun _ => true) buf).exec s
      (List.replicate n (invocation false false)).flatten
    s'.Idle ∧ s'.g_call_id_counter = s.g_call_id_counter + UInt64.ofNat n ∧
      s'.started = s.started + n ∧ s'.reader = s.reader ∧ s'.exited = s.exited ∧
      s'.stored = s.stored ∧ s'.channel = s.channel := by
  induction n generalizing s with
  | zero => exact ⟨h, (UInt64.add_zero _).symm, rfl, rfl, rfl, rfl, rfl⟩
  | succ n ih =>
    rw [List.replicate_succ, List.flatten_cons, Machine.exec_append]
    have hone : s.Invoked false false ((pipeMachine (fun _ => true) buf).exec s
      (invocation false false)) := invoked h false false
    obtain ⟨hidle, hcounter, hstarted, hreader, hexited, hstored, hchannel⟩ := ih hone.idle
    refine ⟨hidle, ?_, ?_, hreader.trans hone.reader, hexited.trans hone.exited,
      hstored.trans hone.stored, ?_⟩
    · rw [hcounter, hone.counter, UInt64.add_assoc, UInt64.add_comm 1, ← UInt64.ofNat_one,
        ← UInt64.ofNat_add]
    · rw [hstarted, hone.started]
      omega
    · rw [hchannel, hone.channel]
      simp

/-- The reader stores the only call it has received. -/
theorem read_emptyCall (heap : UInt64 → JObj) (order : RangeOrder) {inv : Nat} {cid : UInt64}
    (hchannel : s.channel = [Packet.sent ⟨inv, emptyCall.event cid, RenderRefs.empty⟩])
    (hexited : s.exited = false) (hreader : s.reader = Reader.init) :
    ∃ pc history, s.read heap order = { s with
      channel := []
      reader := (pendingStore order Reader.init cid.toNat pc).1
      stored := ⟨inv, cid.toNat, pc⟩ :: s.stored
      history } := by
  unfold Pipe.read
  rw [if_neg (by simp [hexited]), hchannel]
  dsimp only [Packet.sent]
  rw [EmitCall.readDatagram_datagram _ RenderRefs.empty.room]
  dsimp only [emptyCall, CallSite.event]
  rw [dispatchEvent_call rfl rfl, hreader]
  exact ⟨_, _, rfl⟩

/-- The reader pairs a return with the call pending under its id. -/
theorem read_intReturn (heap : UInt64 → JObj) (order : RangeOrder) {inv : Nat} {cid : UInt64}
    {ready : Bool} {pc : PendingCall}
    (hchannel : s.channel =
      [Packet.sent ⟨inv, intReturn.event ready default cid, RenderRefs.empty⟩])
    (hexited : s.exited = false) (hpending : s.reader.pendingCalls = [(cid.toNat, pc)]) :
    (s.read heap order).stored = s.stored ∧ ∃ o ∈ (s.read heap order).history,
      o.isReturn ∧ o.inv = inv ∧
        ∃ result, Line.emitCallFull pc.offset pc.frame result cid.toNat ∈ o.lines := by
  unfold Pipe.read
  rw [if_neg (by simp [hexited]), hchannel]
  dsimp only [Packet.sent]
  rw [EmitCall.readDatagram_datagram _ RenderRefs.empty.room]
  dsimp only [intReturn, ReturnSite.event]
  rw [dispatchEvent_return rfl rfl]
  have htake : pendingTake s.reader cid.toNat =
      some (pc, { s.reader with pendingCalls := [], pendingLen := s.reader.pendingLen - 1 }) := by
    simp [pendingTake, loadAndDelete, hpending]
  refine ⟨rfl, _, List.mem_append_right _ (List.mem_singleton.mpr rfl), .inl rfl, rfl, ?_⟩
  show ∃ result, Line.emitCallFull pc.offset pc.frame result cid.toNat ∈
    (finishReturn s.reader cid.toNat _ _ _).2
  rw [finishReturn, htake]
  exact ⟨_, List.mem_singleton.mpr rfl⟩

/-- A call of invocation 0 stays pending while `n` others come and go. -/
def wrapRun (heap : UInt64 → JObj) (order : RangeOrder) (n : Nat) : List (PipeOp Unit) :=
  invocation true false ++ [.read heap order] ++
    (List.replicate n (invocation false false)).flatten ++
      invocation false true ++ [.read heap order]

/-- When the counter comes back to where it was, the return of a later
    invocation is attached to the pending call. -/
theorem not_pairedWell_of_wrap (buf : StackBuf) (heap : UInt64 → JObj) (order : RangeOrder)
    {n : Nat} (hn : 1 + UInt64.ofNat n = 0) :
    ¬ ((pipeMachine (fun _ => true) buf).exec Pipe.initial (wrapRun heap order n)).PairedWell := by
  unfold wrapRun
  simp only [Machine.exec_append]
  have h₁ : Pipe.initial.Invoked true false
      ((pipeMachine (fun _ => true) buf).exec Pipe.initial (invocation true false)) :=
    invoked idle_initial true false
  generalize (pipeMachine (fun _ => true) buf).exec Pipe.initial (invocation true false) = s₁
    at h₁ ⊢
  -- the reader stores the call of invocation 0 under the id 1
  obtain ⟨pc, history, h₂⟩ := read_emptyCall heap order h₁.channel h₁.exited h₁.reader
  have hpending : (pendingStore order Reader.init (UInt64.toNat (0 + 1)) pc).1.pendingCalls =
      [(1, pc)] := by
    simp [pendingStore, mapStore, Reader.init, pendingEvictTrigger, pendingWindow]
  show ¬ Pipe.PairedWell ((pipeMachine (fun _ => true) buf).exec ((pipeMachine (fun _ => true)
    buf).exec ((pipeMachine (fun _ => true) buf).exec (s₁.read heap order) _) _) _)
  have hidle₂ : (s₁.read heap order).Idle := by
    rw [h₂]
    exact ⟨h₁.idle.frames, h₁.idle.call_ids, h₁.idle.sending⟩
  -- the counter comes back to 0
  obtain ⟨hidle₃, hcounter, hstarted, hreader, hexited, hstored, hchannel⟩ :=
    dropped_invocations buf hidle₂ n
  generalize (pipeMachine (fun _ => true) buf).exec (s₁.read heap order)
    (List.replicate n (invocation false false)).flatten = s₃ at *
  rw [h₂] at hcounter hstarted hreader hexited hstored hchannel
  have hzero : s₃.g_call_id_counter = 0 := by
    rw [hcounter, ← hn]
    show s₁.g_call_id_counter + _ = _
    rw [h₁.counter]
    rfl
  have h₄ : s₃.Invoked false true
      ((pipeMachine (fun _ => true) buf).exec s₃ (invocation false true)) :=
    invoked hidle₃ false true
  generalize (pipeMachine (fun _ => true) buf).exec s₃ (invocation false true) = s₄ at h₄ ⊢
  -- the next return carries the id 1 again
  have hchannel₄ := h₄.channel
  rw [hchannel, hzero] at hchannel₄
  have hpending₄ : s₄.reader.pendingCalls = [((0 + 1 : UInt64).toNat, pc)] := by
    rw [h₄.reader, hreader]
    exact hpending
  obtain ⟨hkept, o, ho, hreturn, hinv, result, hline⟩ :=
    read_intReturn heap order hchannel₄ (h₄.exited.trans (hexited.trans h₁.exited)) hpending₄
  intro (hpaired : Pipe.PairedWell (s₄.read heap order))
  have hown := hpaired.own o ho hreturn _ _ _ _ hline
  rw [hkept, h₄.stored, hstored, hinv, h₁.stored] at hown
  have hsame : s₃.started = 0 := congrArg StoredCall.inv (List.mem_singleton.mp hown)
  have hlater : s₃.started = 1 + n := by
    rw [hstarted]
    show s₁.started + n = 1 + n
    rw [h₁.started]
    rfl
  omega

/-- The counter wraps around after 2^64 calls. -/
theorem wrapped_return_misattached :
    ¬ ((pipeMachine (fun _ => true) ⟨List.replicate EVENT_MAX_BYTES 0, List.length_replicate⟩).exec
      Pipe.initial (wrapRun (fun _ => .string default) ⟨id, fun _ => List.Perm.refl _⟩
        (2 ^ 64 - 1))).PairedWell :=
  not_pairedWell_of_wrap _ _ _ (by decide)

end Wrap

end JniLog.EventPipe
