import JniLog.HookTransparency

/-! # The hooks for exceptions

    `hooks.c` records the calls by which the app looks at an exception,
    clears it or throws it. The helpers answer nothing while an exception
    is pending, so `hooked_ExceptionOccurred` takes it away and throws it
    again, and `hooked_ExceptionClear` clears it first.

    * `NewGlobalRef` is called through the table of the thread, whose
      entry leads to the original in a hook scope. It is not one of the
      functions that are allowed while an exception is pending.
    * `log_jni_call` and the events make no call that could throw.

    Main results: the hooks answer and leave what the functions do that
    they stand for, `exception_hooks_transparent`. With a consumer
    attached, `hooked_ExceptionCheck` breaks the rules whenever it logs a
    pending exception, and `hooked_Throw` whenever it logs one and the
    sidecar has room for it, `pending_hooks_misuse`. -/

namespace JniLog.ExceptionHooks

open Bytes Brackets Grow HookScope JniRules FrameKept HookTransparency

/-! ## Section 1: The hooks -/

/-- The entries for exceptions and global references, of the original
    table and of the one of the thread. -/
structure Entries (σ : Type) where
  ExceptionCheck : Op σ Bool
  ExceptionClear : Op σ Unit
  ExceptionOccurred : Op σ UInt64
  Throw : UInt64 → Op σ Int32
  DeleteLocalRef : UInt64 → Op σ Unit
  NewGlobalRef : UInt64 → Op σ UInt64
  DeleteGlobalRef : UInt64 → Op σ Unit

/-- What these hooks call of `bridge.c`, `event_pipe.c` and the config
    gate. -/
structure Events (σ : Type) where
  event_pipe_consumer_ready : Op σ Bool
  config_is_allowed : CStr → Op σ Bool
  tls_pop_call_id : Op σ UInt64
  event_pipe_emit_obj_return : UInt64 → Int32 → UInt64 → CStr → Op σ Int32

section Hooks

variable {σ : Type} (H : Host σ) (G : Logging σ) (E : Entries σ) (B : Events σ) (env : UInt64)

/-- `!is_reentrant_call() && should_log_from_caller(env, caller)`. -/
def logs (caller : UInt64) : Prog σ Bool := do
  let reentrant ← is_reentrant_call
  if reentrant then return false else op (G.should_log_from_caller env caller)

/-- `log_jni_call` without a receiver. -/
def logCall (name : CStr) (slot : Int32) (enc : Bytes) (caller_str : CStr) : Prog σ Unit :=
  op (G.log_jni_call slot name 0 default default default name enc 0 caller_str)

/-- The return event of an object that could not be put aside. -/
def logNullReturn (name : CStr) (slot : Int32) : Prog σ Unit :=
  op (H.log_jni_return slot name 0 0 default default)

/-- `obj && event_pipe_consumer_ready() && config_is_allowed(name)`. -/
def defers (name : CStr) (obj : UInt64) : Prog σ Bool :=
  if obj = 0 then pure false
  else do
    let ready ← op B.event_pipe_consumer_ready
    if ready then op (B.config_is_allowed name) else return false

def _log_obj_ret (name : CStr) (slot : Int32) (obj : UInt64) : Prog σ Unit := do
  let deferred ← defers B name obj
  if deferred then do
    let gref ← op (E.NewGlobalRef obj)
    if gref ≠ 0 then do
      let cid ← op B.tls_pop_call_id
      let dropped ← op (B.event_pipe_emit_obj_return cid slot gref name)
      if dropped ≠ 0 then op (E.DeleteGlobalRef gref) else pure ()
    else logNullReturn H name slot
  else logNullReturn H name slot

/-- A secondary exception, from the helpers, is cleared. -/
def clearSecondary : Prog σ Unit := do
  let pending ← op E.ExceptionCheck
  if pending then op E.ExceptionClear else pure ()

def hooked_ExceptionOccurred (name : CStr) (slot : Int32) (caller : UInt64) : Prog σ UInt64 := do
  let res ← op E.ExceptionOccurred
  if res = 0 then return res
  else do
    let log ← logs G env caller
    if log then do
      set_reentrant_call true
      let cs ← op (G.address_of_r caller)
      op E.ExceptionClear
      logCall G name slot [] cs
      _log_obj_ret H E B name slot res
      clearSecondary E
      let _ ← op (E.Throw res)
      set_reentrant_call false
      return res
    else return res

/-- The bytes of the record, from what the helpers say of the exception. -/
structure Described where
  className : Option CStr
  text : Option CStr
  string : Option (Option CStr)

/-- What `hooked_ExceptionClear` asks about the exception. -/
def describe (exc : UInt64) : Prog σ Described := do
  let cn ← vis_object_class_name H env exc
  let ts ← vis_object_tostring_safe H env exc none
  let isString ← vis_is_string H env exc
  if isString then do
    let sv ← vis_string_value_raw H env exc
    op H.free
    return ⟨cn, ts, some sv⟩
  else return ⟨cn, ts, none⟩

/-- `snprintf` of the value, `\x03` and the text if there is room, and the
    end of the record. -/
def Described.encoded (r : Described) : Bytes :=
  let head : Bytes := match r.string with
    | some sv => JlFmt.snprintf 1024 (ascii "s\x01%.400s") [.str (some (sv.getD default))]
    | none => JlFmt.snprintf 1024 (ascii "L\x01%.400s") [.str (some (r.className.getD default))]
  let body : Bytes := match r.text with
    | some ts =>
      if head.length < 1022 then
        head ++ 0x03 :: JlFmt.snprintf (1023 - (head.length + 1)) (ascii "%.400s") [.str (some ts)]
      else head
    | none => head
  if body.length < 1023 then body ++ [0x02] else body

def hooked_ExceptionClear (name : CStr) (slot : Int32) (caller : UInt64) : Prog σ Unit := do
  let log ← logs G env caller
  if log then do
    set_reentrant_call true
    let cs ← op (G.address_of_r caller)
    let exc ← op E.ExceptionOccurred
    (if exc = 0 then logCall G name slot [] cs
    else do
      op E.ExceptionClear
      let r ← describe H env exc
      op H.free
      op H.free
      logCall G name slot r.encoded cs
      op (E.DeleteLocalRef exc))
    op (H.log_jni_return slot name 1 0 default default)
    set_reentrant_call false
  else op E.ExceptionClear

def hooked_ExceptionCheck (name : CStr) (slot : Int32) (caller : UInt64) : Prog σ Bool := do
  let res ← op E.ExceptionCheck
  if res then do
    let log ← logs G env caller
    if log then do
      set_reentrant_call true
      let cs ← op (G.address_of_r caller)
      logCall G name slot [0x5a, 0x01, 0x31, 0x02] cs
      let exc ← op E.ExceptionOccurred
      _log_obj_ret H E B name slot exc
      (if exc ≠ 0 then op (E.DeleteLocalRef exc) else pure ())
      set_reentrant_call false
      return res
    else return res
  else return res

/-- The argument of `_log_obj_arg_call`. -/
def objectArg (slotn : Int32) : Bytes :=
  if slotn < 0 then ascii "p\x01null\x02" else [0x1a, slotn.toInt.toNat.toUInt8 + 1]

/-- `LOG_OBJ_CALL`. -/
def LOG_OBJ_CALL (name : CStr) (slot : Int32) (obj caller : UInt64) : Prog σ Unit := do
  let cs ← op (G.address_of_r caller)
  set_reentrant_call true
  (if obj = 0 then logCall G name slot (ascii "p\x01null\x02") cs
  else do
    let slotn ← op (H.event_pipe_defer_render_push env obj)
    logCall G name slot (objectArg slotn) cs)
  set_reentrant_call false

def hooked_Throw (name : CStr) (slot : Int32) (obj caller : UInt64) : Prog σ Int32 := do
  let res ← op (E.Throw obj)
  let log ← logs G env caller
  if log then do
    LOG_OBJ_CALL H G env name slot obj caller
    op (H.log_jni_return slot name 6 res.toUInt32.toUInt64 default default)
    return res
  else return res

end Hooks

/-! ## Section 2: The rules for exceptions -/

section Rules

variable {σ Obj : Type}

/-- A machine with the entries for exceptions. -/
structure JavaMachine (σ Obj : Type) extends VM σ Obj where
  entries : Entries σ
  /-- the reference that is made to the exception that is pending -/
  exception : Op σ {r : UInt64 // r ≠ 0}
  events : Events σ

variable (M : JavaMachine σ Obj)

/-- `ExceptionOccurred` makes a reference to what is pending. -/
def occurred (r : {r : UInt64 // r ≠ 0}) (_ : σ) (F : Frame Obj) :
    {r : UInt64 // r ≠ 0} × Frame Obj :=
  match F.pending with
  | none => (r, F)
  | some e => (r, F.push r.val e)

/-- `Throw`. -/
def JavaMachine.raised {α : Type} (obj : UInt64) (a : α) (_ : σ) (F : Frame Obj) : α × Frame Obj :=
  match M.denotes F obj with
  | none => (a, F)
  | some e => (a, F.throw e)

def JavaMachine.watchEntries : Entries (Watched σ Obj) where
  ExceptionCheck := ruled outsideCritical M.entries.ExceptionCheck asked
  ExceptionClear := ruled outsideCritical M.entries.ExceptionClear cleared
  ExceptionOccurred := fun d w =>
    let r := ruled outsideCritical M.exception occurred d w
    (if w.frame.pending.isSome then r.1.val else 0, r.2)
  Throw obj := ruled (M.quiet · [obj]) (M.entries.Throw obj) (M.raised obj)
  DeleteLocalRef r := ruled (deletable r) (M.entries.DeleteLocalRef r) (deleted r)
  NewGlobalRef obj := ruled (M.quiet · [obj]) (M.entries.NewGlobalRef obj) unchanged
  DeleteGlobalRef r := ruled outsideCritical (M.entries.DeleteGlobalRef r) unchanged

def JavaMachine.watchEvents : Events (Watched σ Obj) where
  event_pipe_consumer_ready := fun _ w => (M.consumer w.vm, w)
  config_is_allowed name := beneath (M.events.config_is_allowed name)
  tls_pop_call_id := beneath M.events.tls_pop_call_id
  event_pipe_emit_obj_return cid slot gref name :=
    beneath (M.events.event_pipe_emit_obj_return cid slot gref name)

variable {M} {F : Frame Obj} {d : Nat} {e : Obj} {r : UInt64}

/-- What `ExceptionOccurred` answers and leaves. -/
def Occurred (F : Frame Obj) (d : Nat) (r : UInt64) : Assertion (Watched σ Obj) :=
  match F.pending with
  | none => fun s => r = 0 ∧ Clean F d s
  | some e => fun s => r ≠ 0 ∧ Clean (F.push r e) d s

theorem occurred_none (h : F.pending = none) (d : Nat) (r : UInt64) :
    Occurred (σ := σ) F d r = fun s => r = 0 ∧ Clean F d s := by
  unfold Occurred
  rw [h]

theorem occurred_some (h : F.pending = some e) (d : Nat) (r : UInt64) :
    Occurred (σ := σ) F d r = fun s => r ≠ 0 ∧ Clean (F.push r e) d s := by
  unfold Occurred
  rw [h]

theorem outsideCritical_eq (hcritical : F.critical = false) : outsideCritical F = true := by
  rw [outsideCritical, hcritical]
  rfl

theorem triple_ExceptionOccurred (hcritical : F.critical = false) :
    Triple (Clean F d) (op M.watchEntries.ExceptionOccurred) (Occurred F d) := by
  refine Triple.op ?_
  intro s hs
  have hmade : Triple (Clean F d) (op (ruled outsideCritical M.exception occurred)) fun r s =>
      Clean (occurred r s.world.vm F).2 d s := by
    refine triple_ruled (outsideCritical_eq hcritical) ?_
    intro r vm s hs
    unfold occurred at hs ⊢
    cases hpending : F.pending with
    | none => simpa [hpending] using hs
    | some e => simpa [hpending] using hs
  have hleft := hmade s hs
  obtain ⟨-, hframe, -⟩ := hs
  unfold occurred at hleft
  cases hpending : F.pending with
  | none =>
    rw [occurred_none hpending]
    simp only [hpending] at hleft
    have hnone : s.world.frame.pending.isSome = false := by
      rw [hframe, hpending]
      rfl
    exact ⟨if_neg (Bool.eq_false_iff.mp hnone), hleft⟩
  | some e =>
    rw [occurred_some hpending]
    simp only [hpending] at hleft
    have hsome : s.world.frame.pending.isSome = true := by
      rw [hframe, hpending]
      rfl
    have hvalue : (M.watchEntries.ExceptionOccurred s.depth s.world).1 =
        (ruled outsideCritical M.exception occurred s.depth s.world).1.val := if_pos hsome
    rw [hvalue]
    exact ⟨(ruled outsideCritical M.exception occurred s.depth s.world).1.2, hleft⟩

theorem triple_ExceptionClear (hcritical : F.critical = false) :
    Triple (Clean F d) (op M.watchEntries.ExceptionClear) fun _ => Clean F.clear d :=
  triple_ruled (outsideCritical_eq hcritical) fun _ _ _ hs => hs

theorem triple_ExceptionCheck (hcritical : F.critical = false) :
    Triple (Clean F d) (op M.watchEntries.ExceptionCheck) fun a s =>
      a = F.pending.isSome ∧ Clean F d s :=
  triple_asked hcritical

/-- What is thrown is pending. -/
theorem triple_Throw {obj : UInt64} (hquiet : M.quiet F [obj] = true)
    (hobj : M.denotes F obj = some e) :
    Triple (Clean F d) (op (M.watchEntries.Throw obj)) fun _ => Clean (F.throw e) d := by
  refine triple_ruled hquiet ?_
  intro a vm s hs
  unfold JavaMachine.raised at hs
  rwa [hobj] at hs

/-- The exception is thrown again by the reference that was made to it. -/
theorem throw_clear (hpending : F.pending = some e) (r : UInt64) :
    ((F.push r e).clear).throw e = F.push r e := by
  unfold Frame.clear Frame.throw Frame.push
  rw [← hpending]

end Rules

/-! ## Section 3: The hooks and the frame -/

section Kept

variable {σ Obj : Type} {M : JavaMachine σ Obj} {G : Logging σ} {F : Frame Obj} {d : Nat} {e : Obj}
  {env caller : UInt64} {name : CStr} {slot : Int32}

theorem keeping_logs : Keeping (Clean F d) (logs (G.watch : Logging (Watched σ Obj)) env caller) :=
  keeping_is_reentrant_call.bind fun _ =>
    Triple.ite (fun _ => Keeping.pure false) fun _ => keeping_beneath _

theorem triple_defers {obj : UInt64} :
    Triple (Clean F d) (defers M.watchEvents name obj) fun deferred s =>
      (deferred = true → obj ≠ 0 ∧ ∃ vm, M.consumer vm = true) ∧ Clean F d s := by
  refine Triple.ite (fun _ => Triple.pure _ fun s hs => ⟨nofun, hs⟩) fun hobj => ?_
  have hready : Triple (Clean F d) (op M.watchEvents.event_pipe_consumer_ready) fun ready s =>
      (ready = true → ∃ vm, M.consumer vm = true) ∧ Clean F d s := by
    refine Triple.op ?_
    intro s hs
    exact ⟨fun hready => ⟨s.world.vm, hready⟩, hs⟩
  refine hready.bind fun ready => Triple.given fun hconsumer => ?_
  refine Triple.ite (fun hyes => ?_) fun _ => Triple.pure _ fun s hs => ⟨nofun, hs⟩
  exact (keeping_beneath _).post fun deferred s hs => ⟨fun _ => ⟨hobj, hconsumer hyes⟩, hs⟩

/-- The object may be put aside, or there is nobody to put it aside for. -/
theorem keeping_log_obj_ret {obj : UInt64} (hcritical : F.critical = false)
    (h : M.quiet F [obj] = true ∨ ∀ vm, M.consumer vm = false) :
    Keeping (Clean F d) (_log_obj_ret M.watch M.watchEntries M.watchEvents name slot obj) := by
  refine triple_defers.bind fun deferred => Triple.given fun hdeferred => ?_
  refine Triple.ite (fun hyes => ?_) fun _ => keeping_beneath _
  obtain ⟨-, vm, hconsumer⟩ := hdeferred hyes
  have hquiet : M.quiet F [obj] = true := by
    refine h.resolve_right fun hnobody => ?_
    rw [hnobody vm] at hconsumer
    exact Bool.false_ne_true hconsumer
  refine (keeping_unchanged hquiet).bind fun gref => ?_
  refine Triple.ite (fun _ => ?_) fun _ => keeping_beneath _
  refine (keeping_beneath _).bind fun cid => (keeping_beneath _).bind fun dropped => ?_
  exact Keeping.optional fun _ => keeping_unchanged (outsideCritical_eq hcritical)

/-- Nothing secondary is pending, or it is cleared. -/
theorem keeping_clearSecondary (hpending : F.pending = none) (hcritical : F.critical = false) :
    Keeping (Clean F d) (clearSecondary M.watchEntries) := by
  refine (triple_ExceptionCheck hcritical).bind fun pending => Triple.given fun _ => ?_
  refine Keeping.optional fun _ => ?_
  have hclear := triple_ExceptionClear (M := M) (d := d) hcritical
  rwa [clear_eq hpending] at hclear

theorem triple_hooked_ExceptionOccurred (hcritical : F.critical = false) :
    Triple (Clean F d)
      (hooked_ExceptionOccurred M.watch G.watch M.watchEntries M.watchEvents env name slot caller)
      (Occurred F d) := by
  refine (triple_ExceptionOccurred hcritical).bind fun res => ?_
  cases hpending : F.pending with
  | none =>
    rw [occurred_none hpending]
    refine Triple.given fun hzero => ?_
    rw [if_pos hzero]
    refine Triple.pure res fun s hs => ?_
    rw [occurred_none hpending]
    exact ⟨hzero, hs⟩
  | some e =>
    rw [occurred_some hpending]
    refine Triple.given fun hne => ?_
    rw [if_neg hne]
    have hpost : Triple (Clean (F.push res e) d) (pure res : Prog (Watched σ Obj) UInt64)
        (Occurred F d) := by
      refine Triple.pure res fun s hs => ?_
      rw [occurred_some hpending]
      exact ⟨hne, hs⟩
    refine keeping_logs.bind fun log => Triple.ite (fun _ => ?_) fun _ => hpost
    -- the exception is taken away, looked at, and thrown again
    have hcrit : (F.push res e).clear.critical = false := hcritical
    have hquiet : M.quiet (F.push res e).clear [res] = true :=
      quiet_cons (quiet_nil rfl hcritical) (alive_push M.toVM F res e)
    refine Triple.bind triple_open fun _ => ?_
    refine (keeping_beneath _).bind fun cs => ?_
    refine Triple.bind (triple_ExceptionClear hcritical) fun _ => ?_
    refine (keeping_beneath _).bind fun _ => ?_
    refine (keeping_log_obj_ret hcrit (.inl hquiet)).bind fun _ => ?_
    refine (keeping_clearSecondary rfl hcrit).bind fun _ => ?_
    have hdenotes : M.denotes (F.push res e).clear res = some e :=
      denotes_push M.toVM F.clear res e
    refine Triple.bind (triple_Throw hquiet hdenotes) fun _ => ?_
    rw [throw_clear hpending]
    exact Triple.bind triple_close fun _ => hpost

/-- The exception is not pending while the helpers look at it. -/
theorem keeping_describe {exc : UInt64} (hexc : Valid M.toVM F exc) :
    Keeping (Clean F d) (describe M.watch env exc) := by
  refine (keeping_vis_object_class_name hexc).bind fun cn => ?_
  refine (keeping_vis_object_tostring_safe hexc none).bind fun ts => ?_
  refine (keeping_vis_is_instance _ hexc).bind fun isString => ?_
  refine Triple.ite (fun _ => ?_) fun _ => Keeping.pure _
  refine (keeping_vis_string_value_raw hexc).bind fun sv => ?_
  exact (keeping_beneath _).bind fun _ => Keeping.pure _

theorem triple_hooked_ExceptionClear (hcritical : F.critical = false) :
    Triple (Clean F d)
      (hooked_ExceptionClear M.watch G.watch M.watchEntries env name slot caller)
      fun _ => Clean F.clear d := by
  refine keeping_logs.bind fun log => ?_
  refine Triple.ite (fun _ => ?_) fun _ => triple_ExceptionClear hcritical
  refine Triple.bind triple_open fun _ => ?_
  refine (keeping_beneath _).bind fun cs => ?_
  refine Triple.bind (triple_ExceptionOccurred hcritical) fun exc => ?_
  refine Triple.bind (Q := fun _ => Clean F.clear (d + 1)) ?_ fun _ =>
    (keeping_beneath _).bind fun _ => triple_close
  cases hpending : F.pending with
  | none =>
    rw [occurred_none hpending, clear_eq hpending]
    refine Triple.given fun hzero => ?_
    rw [if_pos hzero]
    exact keeping_beneath _
  | some e =>
    rw [occurred_some hpending]
    refine Triple.given fun hne => ?_
    rw [if_neg hne]
    refine Triple.bind (triple_ExceptionClear hcritical) fun _ => ?_
    have hvalid : Valid M.toVM (F.push exc e).clear exc := .inr (alive_push M.toVM F exc e)
    refine (keeping_describe hvalid).bind fun r => ?_
    refine (keeping_beneath _).bind fun _ => (keeping_beneath _).bind fun _ => ?_
    refine (keeping_beneath _).bind fun _ => ?_
    refine triple_ruled ?_ ?_
    · unfold deletable
      rw [show (F.push exc e).clear.has exc = true from has_push F exc e, Bool.or_true,
        show (F.push exc e).clear.critical = false from hcritical]
      rfl
    · intro a vm s hs
      rw [deleted, if_neg hne] at hs
      have hdrop : (F.push exc e).clear.drop exc = F.clear := drop_push F.clear exc e
      rwa [hdrop] at hs

theorem triple_hooked_ExceptionCheck (hcritical : F.critical = false)
    (hnobody : ∀ vm, M.consumer vm = false) :
    Triple (Clean F d)
      (hooked_ExceptionCheck M.watch G.watch M.watchEntries M.watchEvents env name slot caller)
      fun res s => res = F.pending.isSome ∧ Clean F d s := by
  refine (triple_ExceptionCheck hcritical).bind fun res => Triple.given fun hres => ?_
  have hpost : Triple (Clean F d) (pure res : Prog (Watched σ Obj) Bool) fun res s =>
      res = F.pending.isSome ∧ Clean F d s :=
    Triple.pure res fun s hs => ⟨hres, hs⟩
  refine Triple.ite (fun hyes => ?_) fun _ => hpost
  refine keeping_logs.bind fun log => Triple.ite (fun _ => ?_) fun _ => hpost
  obtain ⟨e, hpending⟩ := Option.isSome_iff_exists.mp (hres ▸ hyes)
  refine Triple.bind triple_open fun _ => ?_
  refine (keeping_beneath _).bind fun cs => ?_
  refine (keeping_beneath _).bind fun _ => ?_
  refine Triple.bind (triple_ExceptionOccurred hcritical) fun exc => ?_
  rw [occurred_some hpending]
  refine Triple.given fun hne => ?_
  have hcrit : (F.push exc e).critical = false := hcritical
  refine (keeping_log_obj_ret hcrit (.inr hnobody)).bind fun _ => ?_
  rw [if_pos hne]
  have hdelete : Triple (Clean (F.push exc e) (d + 1)) (op (M.watchEntries.DeleteLocalRef exc))
      fun _ => Clean F (d + 1) := by
    refine triple_ruled ?_ ?_
    · unfold deletable
      rw [has_push, Bool.or_true, hcrit]
      rfl
    · intro a vm s hs
      rwa [deleted, if_neg hne, drop_push] at hs
  exact hdelete.bind fun _ => Triple.bind triple_close fun _ => hpost

theorem keeping_LOG_OBJ_CALL {obj : UInt64} (hnobody : ∀ vm, M.consumer vm = false) :
    Keeping (Clean F d) (LOG_OBJ_CALL M.watch G.watch env name slot obj caller) := by
  refine (keeping_beneath _).bind fun cs => ?_
  refine Triple.bind triple_open fun _ => ?_
  refine Triple.bind (Q := fun _ => Clean F (d + 1)) ?_ fun _ => triple_close
  refine Triple.ite (fun _ => keeping_beneath _) fun _ => ?_
  exact (keeping_defer (.inr hnobody)).bind fun slotn => keeping_beneath _

theorem triple_hooked_Throw {obj : UInt64} (hquiet : M.quiet F [obj] = true)
    (hobj : M.denotes F obj = some e) (hnobody : ∀ vm, M.consumer vm = false) :
    Triple (Clean F d)
      (hooked_Throw M.watch G.watch M.watchEntries env name slot obj caller)
      fun _ => Clean (F.throw e) d := by
  refine Triple.bind (triple_Throw hquiet hobj) fun res => ?_
  refine keeping_logs.bind fun log => Triple.ite (fun _ => ?_) fun _ => Keeping.pure res
  refine (keeping_LOG_OBJ_CALL hnobody).bind fun _ => ?_
  exact (keeping_beneath _).bind fun _ => Keeping.pure res

end Kept

/-! ## Section 4: The rule that is broken -/

section Misuse

variable {σ Obj α : Type} {M : JavaMachine σ Obj} {G : Logging σ} {F : Frame Obj} {d : Nat}
  {e : Obj}
  {env caller : UInt64} {name : CStr} {slot : Int32}

/-- A rule has been broken. -/
def Misused : Assertion (Watched σ Obj) := fun s => s.world.misused = true

/-- A call that is not allowed is recorded. -/
theorem triple_misuse {allowed : Frame Obj → Bool} {f : Op σ α}
    {effect : α → σ → Frame Obj → α × Frame Obj} (h : allowed F = false) :
    Triple (Clean F d) (op (ruled allowed f effect)) fun _ => Misused := by
  refine Triple.op ?_
  rintro s ⟨-, hframe, -⟩
  have hnot : ¬ allowed s.world.frame = true := by
    rw [hframe, h]
    exact Bool.false_ne_true
  unfold ruled
  rw [if_neg hnot]
  exact rfl

/-- And it is not forgotten. -/
theorem misused_ruled {allowed : Frame Obj → Bool} {f : Op σ α}
    {effect : α → σ → Frame Obj → α × Frame Obj} :
    Keeping Misused (op (ruled allowed f effect)) := by
  refine Triple.op ?_
  intro s hs
  unfold ruled Misused
  split
  · exact hs
  · rfl

theorem misused_beneath {f : Op σ α} :
    Keeping (Misused : Assertion (Watched σ Obj)) (op (beneath f)) :=
  fun _ hs => hs

theorem misused_close :
    Keeping (Misused : Assertion (Watched σ Obj)) (set_reentrant_call false) := by
  intro s hs
  show ((leave : Prog (Watched σ Obj) Unit) s).2.world.misused = true
  unfold leave
  split
  · exact hs
  · exact hs

/-- Nothing is quiet while an exception is pending. -/
theorem not_quiet (hpending : F.pending = some e) (refs : List UInt64) :
    M.quiet F refs = false := by
  unfold VM.quiet
  rw [hpending, Option.isNone_some, Bool.and_false, Bool.false_and]

/-- Calls are logged, and there is a consumer to render the objects. -/
structure Active (M : JavaMachine σ Obj) (G : Logging σ) (env caller : UInt64) (name : CStr) :
    Prop where
  logs : ∀ d vm, (G.should_log_from_caller env caller d vm).1 = true
  allowed : ∀ d vm, (M.events.config_is_allowed name d vm).1 = true
  consumer : ∀ vm, M.consumer vm = true

/-- The sidecar takes another object, too. -/
structure Deferring (M : JavaMachine σ Obj) (G : Logging σ) (env caller : UInt64) (name : CStr) :
    Prop extends Active M G env caller name where
  room : ∀ vm, M.room vm = true

theorem triple_logs (h : Active M G env caller name) :
    Triple (Clean F 0) (logs (G.watch : Logging (Watched σ Obj)) env caller) fun log s =>
      log = true ∧ Clean F 0 s := by
  have hdepth : Triple (Clean F 0) (is_reentrant_call : Prog (Watched σ Obj) Bool) fun r s =>
      r = false ∧ Clean F 0 s := by
    rintro s ⟨hzero, hs⟩
    refine ⟨?_, hzero, hs⟩
    show decide (s.depth > 0) = false
    rw [hzero]
    rfl
  refine hdepth.bind fun reentrant => Triple.given fun hreentrant => ?_
  refine Triple.ite (fun hyes => ?_) fun _ => ?_
  · rw [hreentrant] at hyes
    exact absurd hyes Bool.false_ne_true
  · exact (triple_beneath _).post fun log s hs =>
      ⟨hs.1.elim fun vm hvm => hvm.trans (h.logs _ vm), hs.2⟩

theorem triple_defers_active (h : Active M G env caller name) {obj : UInt64} (hobj : obj ≠ 0) :
    Triple (Clean F d) (defers M.watchEvents name obj) fun deferred s =>
      deferred = true ∧ Clean F d s := by
  unfold defers
  rw [if_neg hobj]
  have hready : Triple (Clean F d) (op M.watchEvents.event_pipe_consumer_ready) fun ready s =>
      ready = true ∧ Clean F d s := by
    refine Triple.op ?_
    intro s hs
    exact ⟨h.consumer s.world.vm, hs⟩
  refine hready.bind fun ready => Triple.given fun hyes => ?_
  rw [if_pos hyes]
  exact (triple_beneath _).post fun deferred s hs =>
    ⟨hs.1.elim fun vm hvm => hvm.trans (h.allowed _ vm), hs.2⟩

theorem misused_log_obj_ret (h : Active M G env caller name) {obj : UInt64} (hobj : obj ≠ 0)
    (hpending : F.pending = some e) :
    Triple (Clean F d) (_log_obj_ret M.watch M.watchEntries M.watchEvents name slot obj)
      fun _ => Misused := by
  refine (triple_defers_active h hobj).bind fun deferred => Triple.given fun hyes => ?_
  rw [if_pos hyes]
  refine Triple.bind (triple_misuse (not_quiet hpending _)) fun gref => ?_
  refine Triple.ite (fun _ => ?_) fun _ => misused_beneath
  refine misused_beneath.bind fun cid => misused_beneath.bind fun dropped => ?_
  exact Keeping.optional fun _ => misused_ruled

theorem misused_ExceptionCheck (h : Active M G env caller name) (hcritical : F.critical = false)
    (hpending : F.pending = some e) :
    Triple (Clean F 0)
      (hooked_ExceptionCheck M.watch G.watch M.watchEntries M.watchEvents env name slot caller)
      fun _ => Misused := by
  refine (triple_ExceptionCheck hcritical).bind fun res => Triple.given fun hres => ?_
  have hyes : res = true := by
    rw [hres, hpending]
    rfl
  rw [if_pos hyes]
  refine (triple_logs h).bind fun log => Triple.given fun hlog => ?_
  rw [if_pos hlog]
  refine Triple.bind triple_open fun _ => ?_
  refine (keeping_beneath _).bind fun cs => (keeping_beneath _).bind fun _ => ?_
  refine Triple.bind (triple_ExceptionOccurred hcritical) fun exc => ?_
  rw [occurred_some hpending]
  refine Triple.given fun hne => ?_
  have hpushed : (F.push exc e).pending = some e := hpending
  refine Triple.bind (misused_log_obj_ret h hne hpushed) fun _ => ?_
  refine (Keeping.optional fun _ => misused_ruled).bind fun _ => ?_
  exact misused_close.bind fun _ => Keeping.pure res

theorem misused_Throw (h : Deferring M G env caller name) {obj : UInt64} (hne : obj ≠ 0)
    (hquiet : M.quiet F [obj] = true) (hobj : M.denotes F obj = some e) :
    Triple (Clean F 0)
      (hooked_Throw M.watch G.watch M.watchEntries env name slot obj caller)
      fun _ => Misused := by
  refine Triple.bind (triple_Throw hquiet hobj) fun res => ?_
  refine (triple_logs h.toActive).bind fun log => Triple.given fun hlog => ?_
  rw [if_pos hlog]
  have hdefer : Triple (Clean (F.throw e) 1) (op (M.watch.event_pipe_defer_render_push env obj))
      fun _ => Misused := by
    refine Triple.op ?_
    intro s hs
    have hready : (M.consumer s.world.vm && M.room s.world.vm) = true := by
      rw [h.consumer, h.room]
      rfl
    have hcall : M.watch.event_pipe_defer_render_push env obj s.depth s.world =
        ruled (M.quiet · [obj]) (M.host.event_pipe_defer_render_push env obj) unchanged s.depth
          s.world := if_pos hready
    rw [hcall]
    exact triple_misuse (not_quiet rfl _) s hs
  refine Triple.bind ?_ fun _ => misused_beneath.bind fun _ => Keeping.pure res
  refine (keeping_beneath _).bind fun cs => ?_
  refine Triple.bind triple_open fun _ => ?_
  refine Triple.bind (Q := fun _ => Misused) ?_ fun _ => misused_close
  rw [if_neg hne]
  exact hdefer.bind fun slotn => misused_beneath

end Misuse

/-! ## Section 5: Main theorems -/

/-- What the app finds after the hooks is what it finds after the
    functions they stand for: the same exception is pending, with the
    local reference that the function makes. -/
structure ExceptionsKept {σ Obj : Type} (M : JavaMachine σ Obj) (G : Logging σ)
    (env caller : UInt64) (name : CStr) (slot : Int32) (F : Frame Obj) (d : Nat) : Prop where
  occurred :
    Triple (Clean F d)
      (hooked_ExceptionOccurred M.watch G.watch M.watchEntries M.watchEvents env name slot caller)
      (Occurred F d)
  clear :
    Triple (Clean F d)
      (hooked_ExceptionClear M.watch G.watch M.watchEntries env name slot caller)
      fun _ => Clean F.clear d
  check : (∀ vm, M.consumer vm = false) →
    Triple (Clean F d)
      (hooked_ExceptionCheck M.watch G.watch M.watchEntries M.watchEvents env name slot caller)
      fun res s => res = F.pending.isSome ∧ Clean F d s
  throw : (∀ vm, M.consumer vm = false) →
    ∀ obj e, M.quiet F [obj] = true → M.denotes F obj = some e →
      Triple (Clean F d)
        (hooked_Throw M.watch G.watch M.watchEntries env name slot obj caller)
        fun _ => Clean (F.throw e) d

/-- **The hooks for exceptions are transparent**, outside of critical
    sections: `ExceptionOccurred` and `ExceptionClear` always, the other
    two while no consumer is attached. -/
theorem exception_hooks_transparent {σ Obj : Type} (M : JavaMachine σ Obj) (G : Logging σ)
    (env caller : UInt64) (name : CStr) (slot : Int32) (F : Frame Obj) (d : Nat)
    (hcritical : F.critical = false) : ExceptionsKept M G env caller name slot F d where
  occurred := triple_hooked_ExceptionOccurred hcritical
  clear := triple_hooked_ExceptionClear hcritical
  check hnobody := triple_hooked_ExceptionCheck hcritical hnobody
  throw hnobody _ _ hquiet hobj := triple_hooked_Throw hquiet hobj hnobody

def answeringEntries : Entries Unit where
  ExceptionCheck := fun _ s => (false, s)
  ExceptionClear := fun _ s => ((), s)
  ExceptionOccurred := fun _ s => (8, s)
  Throw := fun _ _ s => (0, s)
  DeleteLocalRef := fun _ _ s => ((), s)
  NewGlobalRef := fun _ _ s => (10, s)
  DeleteGlobalRef := fun _ _ s => ((), s)

def answeringEvents : Events Unit where
  event_pipe_consumer_ready := fun _ s => (true, s)
  config_is_allowed := fun _ _ s => (true, s)
  tls_pop_call_id := fun _ s => (1, s)
  event_pipe_emit_obj_return := fun _ _ _ _ _ s => (0, s)

/-- Exceptions get the reference 8. -/
def answeringMachine : JavaMachine Unit UInt64 where
  toVM := answering
  entries := answeringEntries
  exception := fun _ s => (⟨8, by decide⟩, s)
  events := answeringEvents

/-- The object 4 has been thrown. -/
def thrown : Frame UInt64 := twoLocals.throw 4

/-- A look at an exception that is logged, with a consumer attached. -/
theorem exception_hooks_transparent_logged :
    Triple (Clean thrown 0)
      (hooked_ExceptionOccurred answeringMachine.watch loggingAll.watch
        answeringMachine.watchEntries answeringMachine.watchEvents 1 default 15 2)
      fun r s => r ≠ 0 ∧ Clean (thrown.push r 4) 0 s :=
  (exception_hooks_transparent answeringMachine loggingAll 1 2 default 15 thrown 0 rfl).occurred

/-- **The other two with a consumer.** When the call is logged,
    `hooked_ExceptionCheck` of a pending exception asks for a global
    reference while the exception is pending, which JNI does not allow.
    So does `hooked_Throw` of any object, while the sidecar has room. -/
theorem pending_hooks_misuse {σ Obj : Type} (M : JavaMachine σ Obj) (G : Logging σ)
    (env caller : UInt64) (name : CStr) (slot : Int32) (F : Frame Obj) (e : Obj)
    (hactive : Active M G env caller name) (hcritical : F.critical = false) :
    (F.pending = some e →
      Triple (Clean F 0)
        (hooked_ExceptionCheck M.watch G.watch M.watchEntries M.watchEvents env name slot caller)
        fun _ => Misused) ∧
    ((∀ vm, M.room vm = true) →
      ∀ obj, obj ≠ 0 → M.quiet F [obj] = true → M.denotes F obj = some e →
        Triple (Clean F 0)
          (hooked_Throw M.watch G.watch M.watchEntries env name slot obj caller)
          fun _ => Misused) :=
  ⟨misused_ExceptionCheck hactive hcritical, fun hroom _ hne hquiet hobj =>
    misused_Throw ⟨hactive, hroom⟩ hne hquiet hobj⟩

theorem active_answering : Active answeringMachine loggingAll 1 2 default :=
  ⟨fun _ _ => rfl, fun _ _ => rfl, fun _ => rfl⟩

/-- The app asks whether the exception is pending, and throws the object 5. -/
theorem pending_hooks_misuse_logged :
    Triple (Clean thrown 0)
        (hooked_ExceptionCheck answeringMachine.watch loggingAll.watch
          answeringMachine.watchEntries answeringMachine.watchEvents 1 default 228 2)
        (fun _ => Misused) ∧
      Triple (Clean twoLocals 0)
        (hooked_Throw answeringMachine.watch loggingAll.watch answeringMachine.watchEntries 1
          default 13 5 2)
        fun _ => Misused :=
  ⟨(pending_hooks_misuse answeringMachine loggingAll 1 2 default 228 thrown 4 active_answering
      rfl).1 rfl,
    (pending_hooks_misuse answeringMachine loggingAll 1 2 default 13 twoLocals 5 active_answering
      rfl).2 (fun _ => rfl) 5 (by decide) rfl rfl⟩

end JniLog.ExceptionHooks
