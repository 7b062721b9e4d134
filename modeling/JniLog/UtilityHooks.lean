import JniLog.ExceptionHooks
import JniLog.StringHooks

/-! # The utility hooks

    The hooks of `hooks.c` that are no method calls mostly have one shape:
    the original is called, and if the call is logged its argument and
    what was answered are recorded. Where an object is deallocated or
    given back the record comes first. An object is not rendered by the
    hook but put aside for the consumer, with a global reference.

    * The original is any operation, in any state: what it does, answers,
      throws or gives back is not known.
    * `LOG_OBJ_CALL` and `_log_obj_ret` are those of the hooks for
      exceptions.

    Main result: without a consumer the hooks answer and leave what the
    originals do. With one they break the rules of JNI exactly when an
    object that is recorded may not be used in the frame of that moment,
    `utility_hooks_exact`: after an original that threw, among others. -/

namespace JniLog.UtilityHooks

open Bytes Brackets HookScope JniRules FrameKept HookTransparency ExceptionHooks JlFmt StringHooks

/-! ## Section 1: The hooks -/

/-- What a hook records of the arguments. -/
inductive Argument where
  | void
  | ptr (ptr : UInt64)
  | enc (enc : Bytes)
  | obj (obj : UInt64)
  | obj2 (obj1 obj2 : UInt64)
  deriving DecidableEq, Repr

/-- And of the answer. -/
inductive Return where
  | nothing
  | void
  | int (val : Int32)
  | long (val : Int64)
  | bool (val : UInt8)
  | ptr (val : UInt64)
  | obj (obj : UInt64)
  deriving DecidableEq, Repr

section Hooks

variable {σ α : Type} (H : Host σ) (G : Logging σ) (E : Entries σ) (B : Events σ) (env : UInt64)

section Records

variable (name : CStr) (slot : Int32)

def LOG_VOID_CALL (caller : UInt64) : Prog σ Unit := do
  let cs ← op (G.address_of_r caller)
  logCall G name slot [] cs

def _log_ptr_arg_call (ptr : UInt64) (caller_str : CStr) : Prog σ Unit :=
  logCall G name slot (snprintf 64 (ascii "p\x010x%lx\x02") [.word ptr]) caller_str

def LOG_PTR_CALL (ptr caller : UInt64) : Prog σ Unit := do
  let cs ← op (G.address_of_r caller)
  _log_ptr_arg_call G name slot ptr cs

/-- The hooks that encode what is no object themselves. -/
def encodedCall (enc : Bytes) (caller : UInt64) : Prog σ Unit := do
  let cs ← op (G.address_of_r caller)
  logCall G name slot enc cs

/-- One round of `_log_obj2_arg_call`; both fit the buffer. -/
def obj2Part (obj : UInt64) : Prog σ Bytes :=
  if obj = 0 then pure (ascii "p\x01null\x02")
  else do
    let slotn ← op (H.event_pipe_defer_render_push env obj)
    return objectArg slotn

def _log_obj2_arg_call (obj1 obj2 : UInt64) (caller_str : CStr) : Prog σ Unit := do
  let first ← obj2Part H env obj1
  let second ← obj2Part H env obj2
  logCall G name slot (first ++ second) caller_str

def LOG_OBJ2_CALL (obj1 obj2 caller : UInt64) : Prog σ Unit := do
  let cs ← op (G.address_of_r caller)
  set_reentrant_call true
  _log_obj2_arg_call H G env name slot obj1 obj2 cs
  set_reentrant_call false

def LOG_VOID_RET : Prog σ Unit := op (H.log_jni_return slot name 1 0 default default)

def LOG_INT_RET (val : Int32) : Prog σ Unit :=
  op (H.log_jni_return slot name 6 val.toUInt32.toUInt64 default default)

def LOG_LONG_RET (val : Int64) : Prog σ Unit :=
  op (H.log_jni_return slot name 7 val.toUInt64 default default)

def LOG_BOOL_RET (val : UInt8) : Prog σ Unit :=
  op (H.log_jni_return slot name 2 (if val ≠ 0 then 1 else 0) default default)

def LOG_PTR_RET (val : UInt64) : Prog σ Unit :=
  op (H.log_jni_return slot name 14 val default default)

def LOG_OBJ_RET (obj : UInt64) : Prog σ Unit := do
  set_reentrant_call true
  _log_obj_ret H E B name slot obj
  set_reentrant_call false

def Argument.log (caller : UInt64) : Argument → Prog σ Unit
  | .void => LOG_VOID_CALL G name slot caller
  | .ptr p => LOG_PTR_CALL G name slot p caller
  | .enc e => encodedCall G name slot e caller
  | .obj o => LOG_OBJ_CALL H G env name slot o caller
  | .obj2 o o' => LOG_OBJ2_CALL H G env name slot o o' caller

def Return.log : Return → Prog σ Unit
  | .nothing => pure ()
  | .void => LOG_VOID_RET H name slot
  | .int val => LOG_INT_RET H name slot val
  | .long val => LOG_LONG_RET H name slot val
  | .bool val => LOG_BOOL_RET H name slot val
  | .ptr val => LOG_PTR_RET H name slot val
  | .obj o => LOG_OBJ_RET H E B name slot o

end Records

/-- Both records, if the call is logged. -/
def record (name : CStr) (slot : Int32) (arg : Argument) (ret : Return) (caller : UInt64) :
    Prog σ Unit := do
  let log ← logs G env caller
  if log then do
    arg.log H G env name slot caller
    ret.log H E B name slot
  else pure ()

/-- The call is made, then recorded. -/
def afterHook (name : CStr) (slot : Int32) (original : Op σ α) (arg : Argument) (ret : α → Return)
    (caller : UInt64) : Prog σ α := do
  let res ← op original
  record H G E B env name slot arg (ret res) caller
  return res

/-- The call is recorded, then made. -/
def beforeHook (name : CStr) (slot : Int32) (original : Op σ Unit) (arg : Argument) (ret : Return)
    (caller : UInt64) : Prog σ Unit := do
  record H G E B env name slot arg ret caller
  op original

section Members

variable (slot : Int32)

def named (s : String) : CStr := EventPipe.cstr (ascii s)

def hooked_IsSameObject (original : UInt64 → UInt64 → Op σ UInt8) (ref1 ref2 caller : UInt64) :
    Prog σ UInt8 :=
  afterHook H G E B env (named "IsSameObject") slot (original ref1 ref2) (.obj2 ref1 ref2) .bool
    caller

def hooked_PushLocalFrame (original : Int32 → Op σ Int32) (capacity : Int32) (caller : UInt64) :
    Prog σ Int32 :=
  afterHook H G E B env (named "PushLocalFrame") slot (original capacity)
    (.enc (snprintf 64 (ascii "I\x01%d\x02") [.word (Visualize.intWord capacity)])) .int caller

def hooked_EnsureLocalCapacity (original : Int32 → Op σ Int32) (capacity : Int32)
    (caller : UInt64) : Prog σ Int32 :=
  afterHook H G E B env (named "EnsureLocalCapacity") slot (original capacity)
    (.enc (snprintf 64 (ascii "I\x01%d\x02") [.word (Visualize.intWord capacity)])) .int caller

def hooked_GetStringLength (original : UInt64 → Op σ Int32) (str caller : UInt64) :
    Prog σ Int32 :=
  afterHook H G E B env (named "GetStringLength") slot (original str) (.ptr str) .int caller

def hooked_GetStringChars (original : UInt64 → UInt64 → Op σ UInt64)
    (str isCopy caller : UInt64) : Prog σ UInt64 :=
  afterHook H G E B env (named "GetStringChars") slot (original str isCopy) (.ptr str) .ptr caller

def hooked_ReleaseStringChars (original : UInt64 → UInt64 → Op σ Unit)
    (str chars caller : UInt64) : Prog σ Unit :=
  beforeHook H G E B env (named "ReleaseStringChars") slot (original str chars) (.ptr str) .void
    caller

def hooked_GetStringUTFLength (original : UInt64 → Op σ Int32) (str caller : UInt64) :
    Prog σ Int32 :=
  afterHook H G E B env (named "GetStringUTFLength") slot (original str) (.obj str) .int caller

def hooked_ReleaseStringUTFChars (original : UInt64 → UInt64 → Op σ Unit)
    (str chars caller : UInt64) : Prog σ Unit :=
  beforeHook H G E B env (named "ReleaseStringUTFChars") slot (original str chars) (.ptr str) .void
    caller

/-- `snprintf` of the start and the length of a region. -/
def regionArg (start len : Int32) : Bytes :=
  snprintf 64 (ascii "I\x01%d\x02I\x01%d\x02")
    [.word (Visualize.intWord start), .word (Visualize.intWord len)]

def hooked_GetStringRegion (original : UInt64 → Int32 → Int32 → UInt64 → Op σ Unit)
    (str : UInt64) (start len : Int32) (buf caller : UInt64) : Prog σ Unit :=
  afterHook H G E B env (named "GetStringRegion") slot (original str start len buf)
    (.enc (regionArg start len)) (fun _ => .void) caller

def hooked_GetStringUTFRegion (original : UInt64 → Int32 → Int32 → UInt64 → Op σ Unit)
    (str : UInt64) (start len : Int32) (buf caller : UInt64) : Prog σ Unit :=
  afterHook H G E B env (named "GetStringUTFRegion") slot (original str start len buf)
    (.enc (regionArg start len)) (fun _ => .void) caller

def hooked_ExceptionDescribe (original : Op σ Unit) (caller : UInt64) : Prog σ Unit :=
  beforeHook H G E B env (named "ExceptionDescribe") slot original .void .void caller

/-- There is no record of a return. -/
def hooked_FatalError (original : Option CStr → Op σ Unit) (msg : Option CStr)
    (caller : UInt64) : Prog σ Unit :=
  beforeHook H G E B env (named "FatalError") slot (original msg)
    (.enc (hooked_FatalError_enc msg)) .nothing caller

def hooked_AllocObject (original : UInt64 → Op σ UInt64) (clazz caller : UInt64) :
    Prog σ UInt64 :=
  afterHook H G E B env (named "AllocObject") slot (original clazz) (.obj clazz) .obj caller

def hooked_IsInstanceOf (original : UInt64 → UInt64 → Op σ UInt8) (obj clazz caller : UInt64) :
    Prog σ UInt8 :=
  afterHook H G E B env (named "IsInstanceOf") slot (original obj clazz) (.obj2 obj clazz) .bool
    caller

def hooked_DefineClass (original : Option CStr → UInt64 → UInt64 → Int32 → Op σ UInt64)
    (name : Option CStr) (loader buf : UInt64) (bufLen : Int32) (caller : UInt64) :
    Prog σ UInt64 :=
  afterHook H G E B env (named "DefineClass") slot (original name loader buf bufLen)
    (.enc (hooked_DefineClass_enc name bufLen)) .obj caller

def hooked_GetSuperclass (original : UInt64 → Op σ UInt64) (clazz caller : UInt64) :
    Prog σ UInt64 :=
  afterHook H G E B env (named "GetSuperclass") slot (original clazz) (.obj clazz) .obj caller

def hooked_IsAssignableFrom (original : UInt64 → UInt64 → Op σ UInt8)
    (clazz1 clazz2 caller : UInt64) : Prog σ UInt8 :=
  afterHook H G E B env (named "IsAssignableFrom") slot (original clazz1 clazz2)
    (.obj2 clazz1 clazz2) .bool caller

def hooked_GetObjectClass (original : UInt64 → Op σ UInt64) (obj caller : UInt64) :
    Prog σ UInt64 :=
  afterHook H G E B env (named "GetObjectClass") slot (original obj) (.obj obj) .obj caller

def hooked_GetObjectRefType (original : UInt64 → Op σ Int32) (obj caller : UInt64) :
    Prog σ Int32 :=
  afterHook H G E B env (named "GetObjectRefType") slot (original obj) (.ptr obj) .int caller

def hooked_NewDirectByteBuffer (original : UInt64 → Int64 → Op σ UInt64) (address : UInt64)
    (capacity : Int64) (caller : UInt64) : Prog σ UInt64 :=
  afterHook H G E B env (named "NewDirectByteBuffer") slot (original address capacity)
    (.enc (snprintf 128 (ascii "p\x010x%lx\x02J\x01%lld\x02")
      [.word address, .word capacity.toUInt64])) .obj caller

def hooked_GetDirectBufferAddress (original : UInt64 → Op σ UInt64) (buf caller : UInt64) :
    Prog σ UInt64 :=
  afterHook H G E B env (named "GetDirectBufferAddress") slot (original buf) (.ptr buf) .ptr caller

def hooked_GetDirectBufferCapacity (original : UInt64 → Op σ Int64) (buf caller : UInt64) :
    Prog σ Int64 :=
  afterHook H G E B env (named "GetDirectBufferCapacity") slot (original buf) (.ptr buf) .long
    caller

def hooked_MonitorEnter (original : UInt64 → Op σ Int32) (obj caller : UInt64) : Prog σ Int32 :=
  afterHook H G E B env (named "MonitorEnter") slot (original obj) (.ptr obj) .int caller

def hooked_MonitorExit (original : UInt64 → Op σ Int32) (obj caller : UInt64) : Prog σ Int32 :=
  afterHook H G E B env (named "MonitorExit") slot (original obj) (.ptr obj) .int caller

def hooked_GetVersion (original : Op σ Int32) (caller : UInt64) : Prog σ Int32 :=
  afterHook H G E B env (named "GetVersion") slot original .void .int caller

def hooked_GetJavaVM (original : UInt64 → Op σ Int32) (vm caller : UInt64) : Prog σ Int32 :=
  afterHook H G E B env (named "GetJavaVM") slot (original vm) .void .int caller

def hooked_UnregisterNatives (original : UInt64 → Op σ Int32) (clazz caller : UInt64) :
    Prog σ Int32 :=
  afterHook H G E B env (named "UnregisterNatives") slot (original clazz) (.ptr clazz) .int caller

def hooked_ToReflectedMethod (original : UInt64 → UInt64 → UInt8 → Op σ UInt64)
    (cls methodID : UInt64) (isStatic : UInt8) (caller : UInt64) : Prog σ UInt64 :=
  afterHook H G E B env (named "ToReflectedMethod") slot (original cls methodID isStatic)
    (.ptr methodID) .obj caller

def hooked_FromReflectedMethod (original : UInt64 → Op σ UInt64) (method caller : UInt64) :
    Prog σ UInt64 :=
  afterHook H G E B env (named "FromReflectedMethod") slot (original method) (.obj method) .ptr
    caller

def hooked_FromReflectedField (original : UInt64 → Op σ UInt64) (field caller : UInt64) :
    Prog σ UInt64 :=
  afterHook H G E B env (named "FromReflectedField") slot (original field) (.obj field) .ptr caller

def hooked_ToReflectedField (original : UInt64 → UInt64 → UInt8 → Op σ UInt64)
    (cls fieldID : UInt64) (isStatic : UInt8) (caller : UInt64) : Prog σ UInt64 :=
  afterHook H G E B env (named "ToReflectedField") slot (original cls fieldID isStatic)
    (.ptr fieldID) .obj caller

end Members

end Hooks

/-! ## Section 2: Judging a program -/

section Judging

variable {σ Obj α β : Type} {F : Frame Obj} {d : Nat} {b c : Bool} {p : Prog (Watched σ Obj) α}
  {f : α → Prog (Watched σ Obj) β}

/-- The rules have been kept, or have been broken. -/
def Verdict (F : Frame Obj) (d : Nat) (kept : Bool) : Assertion (Watched σ Obj) :=
  if kept then Clean F d else Misused

theorem misused_open :
    Keeping (Misused : Assertion (Watched σ Obj)) (set_reentrant_call true) :=
  fun _ hs => hs

/-- The program comes back to the frame, with the rules kept just when
    `kept` says so. It does not forget that they have been broken. -/
structure Judged (F : Frame Obj) (d : Nat) (kept : Bool) (p : Prog (Watched σ Obj) α) : Prop where
  triple : Triple (Clean F d) p fun _ => Verdict F d kept
  misused : Keeping Misused p

theorem Judged.of_keeping (h : Keeping (Clean F d) p) (hmisused : Keeping Misused p) :
    Judged F d true p :=
  ⟨h, hmisused⟩

theorem judged_pure (a : α) : Judged F d true (pure a : Prog (Watched σ Obj) α) :=
  .of_keeping (.pure a) (.pure a)

theorem judged_beneath (g : Op σ α) : Judged F d true (op (beneath g : Op (Watched σ Obj) α)) :=
  .of_keeping (keeping_beneath g) misused_beneath

/-- **Sequence**: both parts have to keep the rules. -/
theorem Judged.bind (hp : Judged F d b p) (hf : ∀ a, Judged F d c (f a)) :
    Judged F d (b && c) (p >>= f) := by
  refine ⟨Triple.bind hp.triple fun a => ?_, hp.misused.bind fun a => (hf a).misused⟩
  cases b with
  | true => exact (hf a).triple
  | false => exact (hf a).misused

theorem Judged.then (hp : Judged F d b p) (hf : ∀ a, Judged F d true (f a)) :
    Judged F d b (p >>= f) := by
  have h := hp.bind hf
  rwa [Bool.and_true] at h

theorem Judged.after (hp : Judged F d true p) (hf : ∀ a, Judged F d b (f a)) :
    Judged F d b (p >>= f) :=
  hp.bind hf

/-- A scope of the hook. -/
theorem Judged.within {p : Prog (Watched σ Obj) Unit} (hp : Judged F (d + 1) b p) :
    Judged F d b (do
      set_reentrant_call true
      p
      set_reentrant_call false) := by
  refine ⟨Triple.bind triple_open fun _ => Triple.bind hp.triple fun _ => ?_, ?_⟩
  · cases b with
    | true => exact triple_close
    | false => exact misused_close
  · exact misused_open.bind fun _ => hp.misused.bind fun _ => misused_close

end Judging

/-! ## Section 3: What is put aside -/

section Records

variable {σ Obj α : Type} {M : JavaMachine σ Obj} {G : Logging σ} {F : Frame Obj} {d : Nat}
  {env caller : UInt64} {name : CStr} {slot : Int32}

/-- The objects that are recorded. -/
def Argument.objects : Argument → List UInt64
  | .obj o => [o]
  | .obj2 o o' => [o, o']
  | _ => []

def Return.objects : Return → List UInt64
  | .obj o => [o]
  | _ => []

/-- Nothing is pending, and the objects may be used; NULL is no object. -/
def usable (M : JavaMachine σ Obj) (F : Frame Obj) (objects : List UInt64) : Bool :=
  objects.all fun o => o == 0 || M.quiet F [o]

theorem usable_append (objects objects' : List UInt64) :
    usable M F (objects ++ objects') = (usable M F objects && usable M F objects') :=
  List.all_append

theorem usable_null (obj : UInt64) (h : obj = 0) : usable M F [obj] = true := by
  rw [usable, List.all_cons, beq_iff_eq.mpr h]
  rfl

theorem usable_object (obj : UInt64) (h : obj ≠ 0) : usable M F [obj] = M.quiet F [obj] := by
  rw [usable, List.all_cons, beq_eq_false_iff_ne.mpr h, List.all_nil, Bool.false_or, Bool.and_true]

theorem misused_defer {obj : UInt64} :
    Keeping Misused (op (M.watch.event_pipe_defer_render_push env obj)) := by
  refine Triple.op ?_
  intro s hs
  unfold VM.watch VM.defer
  dsimp only
  split
  · exact misused_ruled s hs
  · exact hs

/-- **Putting an object aside** is right just when it may be used. -/
theorem judged_defer (h : Deferring M G env caller name) {obj : UInt64} (hobj : obj ≠ 0) :
    Judged F d (usable M F [obj]) (op (M.watch.event_pipe_defer_render_push env obj)) := by
  rw [usable_object obj hobj]
  refine ⟨Triple.op ?_, misused_defer⟩
  intro s hs
  have hready : (M.consumer s.world.vm && M.room s.world.vm) = true := by
    rw [h.consumer, h.room]
    rfl
  have hcall : M.watch.event_pipe_defer_render_push env obj s.depth s.world =
      ruled (M.quiet · [obj]) (M.host.event_pipe_defer_render_push env obj) unchanged s.depth
        s.world := if_pos hready
  rw [hcall]
  unfold Verdict
  cases hquiet : M.quiet F [obj] with
  | true => exact keeping_unchanged hquiet s hs
  | false => exact triple_misuse hquiet s hs

theorem judged_LOG_OBJ_CALL (h : Deferring M G env caller name) (obj : UInt64) :
    Judged F d (usable M F [obj]) (LOG_OBJ_CALL M.watch G.watch env name slot obj caller) := by
  refine (judged_beneath _).after fun cs => Judged.within ?_
  by_cases hobj : obj = 0
  · rw [if_pos hobj, usable_null obj hobj]
    exact judged_beneath _
  · rw [if_neg hobj]
    exact (judged_defer h hobj).then fun slotn => judged_beneath _

theorem judged_obj2Part (h : Deferring M G env caller name) (obj : UInt64) :
    Judged F d (usable M F [obj]) (obj2Part M.watch env obj) := by
  unfold obj2Part
  by_cases hobj : obj = 0
  · rw [if_pos hobj, usable_null obj hobj]
    exact judged_pure _
  · rw [if_neg hobj]
    exact (judged_defer h hobj).then fun slotn => judged_pure _

theorem judged_LOG_OBJ2_CALL (h : Deferring M G env caller name) (obj1 obj2 : UInt64) :
    Judged F d (usable M F [obj1, obj2])
      (LOG_OBJ2_CALL M.watch G.watch env name slot obj1 obj2 caller) := by
  rw [show [obj1, obj2] = [obj1] ++ [obj2] from rfl, usable_append]
  refine (judged_beneath _).after fun cs => Judged.within ?_
  refine (judged_obj2Part h obj1).bind fun first => ?_
  exact (judged_obj2Part h obj2).then fun second => judged_beneath _

theorem keeping_misused_log_obj_ret {obj : UInt64} :
    Keeping Misused (_log_obj_ret M.watch M.watchEntries M.watchEvents name slot obj) := by
  refine Keeping.bind ?_ fun deferred => ?_
  · refine Triple.ite (fun _ => Keeping.pure false) fun _ => ?_
    refine Keeping.bind (fun s hs => hs) fun ready => ?_
    exact Triple.ite (fun _ => misused_beneath) fun _ => Keeping.pure false
  · refine Triple.ite (fun _ => ?_) fun _ => misused_beneath
    refine misused_ruled.bind fun gref => ?_
    refine Triple.ite (fun _ => ?_) fun _ => misused_beneath
    refine misused_beneath.bind fun cid => misused_beneath.bind fun dropped => ?_
    exact Keeping.optional fun _ => misused_ruled

theorem judged_log_obj_ret (h : Active M G env caller name) (obj : UInt64) :
    Judged F d (usable M F [obj])
      (_log_obj_ret M.watch M.watchEntries M.watchEvents name slot obj) := by
  refine ⟨?_, keeping_misused_log_obj_ret⟩
  by_cases hobj : obj = 0
  · -- NULL is sent as it is
    rw [usable_null obj hobj]
    refine triple_defers.bind fun deferred => Triple.given fun hdeferred => ?_
    exact Triple.ite (fun hyes => absurd hobj (hdeferred hyes).1) fun _ => keeping_beneath _
  · rw [usable_object obj hobj]
    cases hquiet : M.quiet F [obj] with
    | true => exact keeping_log_obj_ret (pending_of_quiet hquiet).2 (.inl hquiet)
    | false =>
      -- the global reference is asked for against the rules; nothing makes that good
      refine (triple_defers_active h hobj).bind fun deferred => Triple.given fun hyes => ?_
      rw [if_pos hyes]
      refine Triple.bind (triple_misuse hquiet) fun gref => ?_
      refine Triple.ite (fun _ => ?_) fun _ => misused_beneath
      refine misused_beneath.bind fun cid => misused_beneath.bind fun dropped => ?_
      exact Keeping.optional fun _ => misused_ruled

theorem Argument.judged (h : Deferring M G env caller name) (arg : Argument) :
    Judged F d (usable M F arg.objects) (arg.log M.watch G.watch env name slot caller) := by
  cases arg with
  | void => exact (judged_beneath _).after fun cs => judged_beneath _
  | ptr p => exact (judged_beneath _).after fun cs => judged_beneath _
  | enc e => exact (judged_beneath _).after fun cs => judged_beneath _
  | obj o => exact judged_LOG_OBJ_CALL h o
  | obj2 o o' => exact judged_LOG_OBJ2_CALL h o o'

theorem Return.judged (h : Deferring M G env caller name) (ret : Return) :
    Judged F d (usable M F ret.objects)
      (ret.log M.watch M.watchEntries M.watchEvents name slot) := by
  cases ret with
  | nothing => exact judged_pure _
  | void => exact judged_beneath _
  | int v => exact judged_beneath _
  | long v => exact judged_beneath _
  | bool v => exact judged_beneath _
  | ptr p => exact judged_beneath _
  | obj o => exact (judged_log_obj_ret h.toActive o).within

/-- Without a consumer nothing is put aside. -/
theorem Argument.keeping (hnobody : ∀ vm, M.consumer vm = false) (arg : Argument) :
    Keeping (Clean F d) (arg.log M.watch G.watch env name slot caller) := by
  have hpart (obj : UInt64) : Keeping (Clean F (d + 1)) (obj2Part M.watch env obj) :=
    Triple.ite (fun _ => Keeping.pure _) fun _ =>
      (keeping_defer (.inr hnobody)).bind fun slotn => Keeping.pure _
  cases arg with
  | void => exact (keeping_beneath _).bind fun cs => keeping_beneath _
  | ptr p => exact (keeping_beneath _).bind fun cs => keeping_beneath _
  | enc e => exact (keeping_beneath _).bind fun cs => keeping_beneath _
  | obj o => exact keeping_LOG_OBJ_CALL hnobody
  | obj2 o o' =>
    refine (keeping_beneath _).bind fun cs => Triple.bind triple_open fun _ => ?_
    refine Triple.bind (Q := fun _ => Clean F (d + 1)) ?_ fun _ => triple_close
    exact (hpart o).bind fun first => (hpart o').bind fun second => keeping_beneath _

theorem keeping_log_obj_ret_unattended (hnobody : ∀ vm, M.consumer vm = false) (obj : UInt64) :
    Keeping (Clean F d) (_log_obj_ret M.watch M.watchEntries M.watchEvents name slot obj) := by
  refine triple_defers.bind fun deferred => Triple.given fun hdeferred => ?_
  refine Triple.ite (fun hyes => ?_) fun _ => keeping_beneath _
  obtain ⟨-, vm, hconsumer⟩ := hdeferred hyes
  rw [hnobody vm] at hconsumer
  exact absurd hconsumer Bool.false_ne_true

theorem Return.keeping (hnobody : ∀ vm, M.consumer vm = false) (ret : Return) :
    Keeping (Clean F d) (ret.log M.watch M.watchEntries M.watchEvents name slot) := by
  cases ret with
  | nothing => exact Keeping.pure _
  | void => exact keeping_beneath _
  | int v => exact keeping_beneath _
  | long v => exact keeping_beneath _
  | bool v => exact keeping_beneath _
  | ptr p => exact keeping_beneath _
  | obj o =>
    refine Triple.bind triple_open fun _ => ?_
    exact (keeping_log_obj_ret_unattended hnobody o).bind fun _ => triple_close

theorem judged_record (h : Deferring M G env caller name) (arg : Argument) (ret : Return) :
    Triple (Clean F 0)
      (record M.watch G.watch M.watchEntries M.watchEvents env name slot arg ret caller)
      fun _ => Verdict F 0 (usable M F (arg.objects ++ ret.objects)) := by
  refine (triple_logs h.toActive).bind fun log => Triple.given fun hlog => ?_
  rw [if_pos hlog, usable_append]
  exact ((arg.judged h).bind fun _ => ret.judged h).triple

theorem keeping_record (hnobody : ∀ vm, M.consumer vm = false) (arg : Argument) (ret : Return) :
    Keeping (Clean F d)
      (record M.watch G.watch M.watchEntries M.watchEvents env name slot arg ret caller) :=
  keeping_logs.bind fun _ => Keeping.optional fun _ =>
    (arg.keeping hnobody).bind fun _ => ret.keeping hnobody

end Records

/-! ## Section 4: Main theorem -/

/-- What the hooks answer and leave, where `kept` says in which frame
    which objects can be recorded: `Verdict` goes by it. -/
structure HooksRecord {σ Obj : Type} (M : JavaMachine σ Obj) (G : Logging σ) (env caller : UInt64)
    (name : CStr) (slot : Int32) (kept : Frame Obj → List UInt64 → Bool) : Prop where
  after : ∀ (α : Type) (original : Op (Watched σ Obj) α) (arg : Argument) (ret : α → Return)
      (F : Frame Obj) (s : Counted (Watched σ Obj)), Clean F 0 (op original s).2 →
    (afterHook M.watch G.watch M.watchEntries M.watchEvents env name slot original arg ret caller
        s).1 = (op original s).1 ∧
      Verdict F 0 (kept F (arg.objects ++ (ret (op original s).1).objects))
        (afterHook M.watch G.watch M.watchEntries M.watchEvents env name slot original arg ret
          caller s).2
  before : ∀ (original : Op (Watched σ Obj) Unit) (arg : Argument) (ret : Return)
      (F : Frame Obj) (s : Counted (Watched σ Obj)), Clean F 0 s →
    ∃ s', Verdict F 0 (kept F (arg.objects ++ ret.objects)) s' ∧
      beforeHook M.watch G.watch M.watchEntries M.watchEvents env name slot original arg ret caller
        s = op original s'

theorem hooksRecord_of {σ Obj : Type} {M : JavaMachine σ Obj} {G : Logging σ}
    {env caller : UInt64} {name : CStr} {slot : Int32} {kept : Frame Obj → List UInt64 → Bool}
    (hrecord : ∀ F arg ret, Triple (Clean F 0)
      (record M.watch G.watch M.watchEntries M.watchEvents env name slot arg ret caller)
      fun _ => Verdict F 0 (kept F (arg.objects ++ ret.objects))) :
    HooksRecord M G env caller name slot kept where
  after _ _ arg ret F _ hs := ⟨rfl, hrecord F arg (ret _) _ hs⟩
  before _ arg ret F _ hs := ⟨_, hrecord F arg ret _ hs, rfl⟩

theorem hooksRecord_logged {σ Obj : Type} {M : JavaMachine σ Obj} {G : Logging σ}
    {env caller : UInt64} {name : CStr} {slot : Int32} (h : Deferring M G env caller name) :
    HooksRecord M G env caller name slot (usable M) :=
  hooksRecord_of fun _ arg ret => judged_record h arg ret

/-- **Main result.** A utility hook answers what its original answers.
    Without a consumer it leaves what the original leaves. With one, when
    the call is logged and the sidecar has room, it does so just when what
    it records may be used in the frame that the original leaves, or finds
    if it comes last; the rules of JNI are broken otherwise. -/
theorem utility_hooks_exact {σ Obj : Type} (M : JavaMachine σ Obj) (G : Logging σ)
    (env caller : UInt64) (name : CStr) (slot : Int32) :
    (Deferring M G env caller name → HooksRecord M G env caller name slot (usable M)) ∧
      ((∀ vm, M.consumer vm = false) → HooksRecord M G env caller name slot fun _ _ => true) :=
  ⟨hooksRecord_logged,
    fun hnobody => hooksRecord_of fun _ arg ret => keeping_record hnobody arg ret⟩

/-- The class is abstract: nothing is allocated, and an exception is
    pending. -/
def throwing : Op (Watched Unit UInt64) UInt64 := fun _ w =>
  (0, { w with frame := w.frame.throw 4 })

/-- The class is put aside against the rules. -/
theorem utility_hooks_exact_thrown :
    (hooked_AllocObject answeringMachine.watch loggingAll.watch answeringMachine.watchEntries
      answeringMachine.watchEvents 1 27 (fun _ => throwing) 6 2
      ⟨⟨(), twoLocals, false⟩, 0⟩).2.world.misused = true :=
  ((utility_hooks_exact answeringMachine loggingAll 1 2 (named "AllocObject") 27).1
    ⟨⟨fun _ _ => rfl, fun _ _ => rfl, fun _ => rfl⟩, fun _ => rfl⟩).after UInt64 throwing (.obj 6)
    .obj (twoLocals.throw 4) ⟨⟨(), twoLocals, false⟩, 0⟩ ⟨rfl, rfl, rfl⟩ |>.2

end JniLog.UtilityHooks
