import JniLog.ArrayHooks

/-! # The hooks for lookups

    `hooks.c` records the lookups of classes, methods and fields, and
    remembers the signatures of what is found. The name of the class is
    left to the consumer: `log_jni_lookup_deferred` of `bridge.c` puts the
    class aside by a global reference, which it deletes again if the event
    is dropped.

    * A lookup that fails has thrown, and the hook comes after it.
    * `hooked_FindClass` is given the name, and `hooked_RegisterNatives`
      asks for it with a helper.

    Main result: `lookup_hooks_exact`. The lookups leave what the originals
    leave while there is no consumer. With one they break the rules of JNI
    just when the class may not be used in that frame, so after every
    lookup that failed. -/

namespace JniLog.LookupHooks

open Bytes Brackets HookScope JniRules FrameKept HookTransparency ExceptionHooks
open UtilityHooks ArrayHooks

/-! ## Section 1: The hooks -/

/-- What these hooks call of `bridge.c`, `event_pipe.c` and the caches. -/
structure Lookups (σ : Type) where
  logging_ready_fast : Op σ Bool
  cache_method_signature : UInt64 → Option CStr → CStr → Option CStr → Op σ Unit
  cache_field_signature : UInt64 → Option CStr → CStr → Option CStr → Op σ Unit
  event_pipe_emit_lookup : UInt64 → CStr → Option CStr → Option CStr → CStr → CStr → Op σ Int32
  log_jni_lookup : CStr → Option CStr → CStr → UInt64 → Option CStr → CStr → Op σ Unit
  /-- the methods are an address and a number -/
  log_jni_register_natives : UInt64 → Option CStr → UInt64 → Int32 → CStr → Op σ Unit

section Hooks

variable {σ : Type} (H : Host σ) (G : Logging σ) (E : Entries σ) (B : Events σ) (L : Lookups σ)
  (env : UInt64)

def log_jni_lookup_deferred (lookup_type : CStr) (name sig : Option CStr) (clazz : UInt64)
    (caller : CStr) : Prog σ Unit := do
  let unresolved : Prog σ Unit := do
    let _ ← op (L.event_pipe_emit_lookup clazz lookup_type name sig (named "<unresolved>") caller)
    return ()
  let ready ← op L.logging_ready_fast
  if ready then do
    let allowed ← op (B.config_is_allowed lookup_type)
    if allowed then do
      let deferred ← (if env = 0 ∨ clazz = 0 then pure false else op B.event_pipe_consumer_ready)
      if deferred then do
        let gref ← op (E.NewGlobalRef clazz)
        if gref ≠ 0 then do
          let dropped ← op (L.event_pipe_emit_lookup gref lookup_type name sig default caller)
          if dropped ≠ 0 then op (E.DeleteGlobalRef gref) else pure ()
        else unresolved
      else unresolved
    else pure ()
  else pure ()

/-- The entry of the original table; a NULL one is noted. -/
def orMissing {α : Type} (name : CStr) (missing : α) (should_log : Bool)
    (original : Option (Op σ α)) : Prog σ α :=
  match original with
  | some f => op f
  | none => do
    (if should_log then op (G.log_missing_original name) else pure ())
    return missing

/-- What is found is remembered, with the name of its class. -/
def remember (cache : UInt64 → Option CStr → CStr → Option CStr → Op σ Unit) (result : UInt64)
    (clazz : UInt64) (name sig : Option CStr) : Prog σ Unit :=
  match sig with
  | none => pure ()
  | some sig =>
    if result = 0 then pure ()
    else do
      let cn ← vis_class_name H env clazz
      op (cache result name sig cn)
      op H.free

/-- The hooks for methods and fields. -/
def lookupHook (lookup_type : CStr)
    (cache : UInt64 → Option CStr → CStr → Option CStr → Op σ Unit)
    (original : Option (Op σ UInt64)) (clazz : UInt64) (name sig : Option CStr) (caller : UInt64) :
    Prog σ UInt64 := do
  let should_log ← logs G env caller
  let result ← orMissing G lookup_type 0 should_log original
  remember H env cache result clazz name sig
  inScope should_log (do
    let cs ← op (G.address_of_r caller)
    log_jni_lookup_deferred E B L env lookup_type name sig clazz cs)
  return result

def hooked_GetMethodID (original : Option (Op σ UInt64)) (clazz : UInt64) (name sig : Option CStr)
    (caller : UInt64) : Prog σ UInt64 :=
  lookupHook H G E B L env (named "GetMethodID") L.cache_method_signature original clazz name sig
    caller

def hooked_GetStaticMethodID (original : Option (Op σ UInt64)) (clazz : UInt64)
    (name sig : Option CStr) (caller : UInt64) : Prog σ UInt64 :=
  lookupHook H G E B L env (named "GetStaticMethodID") L.cache_method_signature original clazz name
    sig caller

def hooked_GetFieldID (original : Option (Op σ UInt64)) (clazz : UInt64) (name sig : Option CStr)
    (caller : UInt64) : Prog σ UInt64 :=
  lookupHook H G E B L env (named "GetFieldID") L.cache_field_signature original clazz name sig
    caller

def hooked_GetStaticFieldID (original : Option (Op σ UInt64)) (clazz : UInt64)
    (name sig : Option CStr) (caller : UInt64) : Prog σ UInt64 :=
  lookupHook H G E B L env (named "GetStaticFieldID") L.cache_field_signature original clazz name
    sig caller

def hooked_FindClass (original : Option (Op σ UInt64)) (name : Option CStr) (caller : UInt64) :
    Prog σ UInt64 := do
  let should_log ← logs G env caller
  let result ← orMissing G (named "FindClass") 0 should_log original
  inScope should_log (do
    let cs ← op (G.address_of_r caller)
    op (L.log_jni_lookup (named "FindClass") name default result name cs))
  return result

def JNI_ERR : Int32 := -1

def hooked_RegisterNatives (original : Option (Op σ Int32)) (clazz methods : UInt64)
    (nMethods : Int32) (caller : UInt64) : Prog σ Int32 := do
  let should_log ← logs G env caller
  let result ← orMissing G (named "RegisterNatives") JNI_ERR should_log original
  inScope should_log (do
    let cs ← op (G.address_of_r caller)
    let cn ← vis_class_name H env clazz
    op (L.log_jni_register_natives clazz cn methods nMethods cs)
    op H.free)
  return result

end Hooks

/-! ## Section 2: A watched lookup -/

section Watching

variable {σ Obj α : Type}

def Lookups.watch (L : Lookups σ) : Lookups (Watched σ Obj) where
  logging_ready_fast := beneath L.logging_ready_fast
  cache_method_signature id name sig cn := beneath (L.cache_method_signature id name sig cn)
  cache_field_signature id name sig cn := beneath (L.cache_field_signature id name sig cn)
  event_pipe_emit_lookup clazz lookup_type name sig class_name caller :=
    beneath (L.event_pipe_emit_lookup clazz lookup_type name sig class_name caller)
  log_jni_lookup lookup_type name sig clazz class_name caller :=
    beneath (L.log_jni_lookup lookup_type name sig clazz class_name caller)
  log_jni_register_natives clazz class_name methods nMethods caller :=
    beneath (L.log_jni_register_natives clazz class_name methods nMethods caller)

/-- Lookups are logged, with a consumer to render the classes. -/
structure LookupsLogged (M : JavaMachine σ Obj) (G : Logging σ) (L : Lookups σ)
    (env caller : UInt64) (lookup_type : CStr) : Prop
    extends Active M G env caller lookup_type where
  env_ne : env ≠ 0
  ready : ∀ d vm, (L.logging_ready_fast d vm).1 = true

variable {M : JavaMachine σ Obj} {G : Logging σ} {L : Lookups σ} {F : Frame Obj} {d : Nat}
  {env caller : UInt64} {lookup_type : CStr} {name sig : Option CStr} {clazz : UInt64} {cs : CStr}

theorem misused_log_jni_lookup_deferred :
    Keeping Misused
      (log_jni_lookup_deferred M.watchEntries M.watchEvents L.watch env lookup_type name sig clazz
        cs) := by
  refine misused_beneath.bind fun ready => Keeping.optional fun _ => ?_
  refine misused_beneath.bind fun allowed => Keeping.optional fun _ => ?_
  refine Keeping.bind (Triple.ite (fun _ => Keeping.pure false) fun _ _ hs => hs) fun deferred => ?_
  refine Triple.ite (fun _ => ?_) fun _ => misused_beneath.bind fun _ => Keeping.pure ()
  refine misused_ruled.bind fun gref => ?_
  refine Triple.ite (fun _ => ?_) fun _ => misused_beneath.bind fun _ => Keeping.pure ()
  exact misused_beneath.bind fun dropped => Keeping.optional fun _ => misused_ruled

theorem triple_consumer_ready {attended : Bool} (h : ∀ vm, M.consumer vm = attended) :
    Triple (Clean F d) (op M.watchEvents.event_pipe_consumer_ready) fun ready s =>
      ready = attended ∧ Clean F d s := by
  refine Triple.op ?_
  intro s hs
  exact ⟨h s.world.vm, hs⟩

theorem triple_pure_eq (a : α) :
    Triple (Clean F d) (pure a : Prog (Watched σ Obj) α) fun b s => b = a ∧ Clean F d s :=
  Triple.pure a fun _ hs => ⟨rfl, hs⟩

/-- **The class is put aside** rightly just when it may be used. -/
theorem judged_log_jni_lookup_deferred (h : LookupsLogged M G L env caller lookup_type) :
    Judged F d (usable M F [clazz])
      (log_jni_lookup_deferred M.watchEntries M.watchEvents L.watch env lookup_type name sig clazz
        cs) := by
  refine ⟨?_, misused_log_jni_lookup_deferred⟩
  refine (triple_beneath _).bind fun ready => Triple.given fun ⟨vm, hready⟩ => ?_
  rw [if_pos (hready.trans (h.ready _ vm))]
  refine (triple_beneath _).bind fun allowed => Triple.given fun ⟨vm, hallowed⟩ => ?_
  rw [if_pos (hallowed.trans (h.allowed _ vm))]
  by_cases hclazz : clazz = 0
  · rw [if_pos (.inr hclazz), usable_null clazz hclazz]
    refine (triple_pure_eq false).bind fun deferred => Triple.given fun hno => ?_
    rw [hno, if_neg Bool.false_ne_true]
    exact (keeping_beneath _).bind fun _ => Keeping.pure ()
  · rw [if_neg (not_or.mpr ⟨h.env_ne, hclazz⟩), usable_object clazz hclazz]
    refine (triple_consumer_ready h.consumer).bind fun deferred => Triple.given fun hyes => ?_
    rw [if_pos hyes]
    cases hquiet : M.quiet F [clazz] with
    | true =>
      refine (keeping_unchanged hquiet).bind fun gref => ?_
      refine Triple.ite (fun _ => ?_) fun _ => (keeping_beneath _).bind fun _ => Keeping.pure ()
      refine (keeping_beneath _).bind fun dropped => Keeping.optional fun _ => ?_
      exact keeping_unchanged (outsideCritical_eq (pending_of_quiet hquiet).2)
    | false =>
      refine Triple.bind (triple_misuse hquiet) fun gref => ?_
      refine Triple.ite (fun _ => ?_) fun _ => misused_beneath.bind fun _ => Keeping.pure ()
      exact misused_beneath.bind fun dropped => Keeping.optional fun _ => misused_ruled

theorem keeping_log_jni_lookup_deferred (hnobody : ∀ vm, M.consumer vm = false) :
    Keeping (Clean F d)
      (log_jni_lookup_deferred M.watchEntries M.watchEvents L.watch env lookup_type name sig clazz
        cs) := by
  refine (keeping_beneath _).bind fun ready => Keeping.optional fun _ => ?_
  refine (keeping_beneath _).bind fun allowed => Keeping.optional fun _ => ?_
  have hdeferred : Triple (Clean F d)
      (if env = 0 ∨ clazz = 0 then pure false else op M.watchEvents.event_pipe_consumer_ready)
      fun deferred s => deferred = false ∧ Clean F d s :=
    Triple.ite (fun _ => triple_pure_eq false) fun _ => triple_consumer_ready hnobody
  refine hdeferred.bind fun deferred => Triple.given fun hno => ?_
  rw [hno, if_neg Bool.false_ne_true]
  exact (keeping_beneath _).bind fun _ => Keeping.pure ()

end Watching

/-! ## Section 3: The hooks and the frame -/

section Kept

variable {σ Obj α : Type} {M : JavaMachine σ Obj} {G : Logging σ} {L : Lookups σ} {F : Frame Obj}
  {d : Nat} {env caller : UInt64} {lookup_type : CStr} {name sig : Option CStr} {clazz : UInt64}

/-- Whether a NULL entry is noted does not matter. -/
theorem leaves_orMissing {original : Option (Op (Watched σ Obj) α)} {missing : α}
    {Q : α → Frame Obj → Prop}
    (h : Leaves F d (orMissing G.watch lookup_type missing false original) Q) (log : Bool) :
    Leaves F d (orMissing G.watch lookup_type missing log original) Q := by
  cases original with
  | some f => exact h
  | none => exact (Keeping.optional fun _ => keeping_beneath _).bind fun _ => h

theorem keeping_remember {cache : UInt64 → Option CStr → CStr → Option CStr → Op σ Unit}
    {result : UInt64} (hclazz : Valid M.toVM F clazz) :
    Keeping (Clean F d)
      (remember M.watch env (fun id name sig cn => beneath (cache id name sig cn)) result clazz name
        sig) := by
  cases sig with
  | none => exact Keeping.pure ()
  | some sig =>
    refine Triple.ite (fun _ => Keeping.pure ()) fun _ => ?_
    refine (keeping_vis_class_name hclazz).bind fun cn => ?_
    exact (keeping_beneath _).bind fun _ => keeping_beneath _

/-- What a lookup answers and leaves from `F`, where `kept` says in which
    frame the class can be recorded: `Verdict` goes by it. -/
def Records (M : JavaMachine σ Obj) (G : Logging σ) (F : Frame Obj)
    (kept : Frame Obj → List UInt64 → Bool) (lookup_type : CStr)
    (hook : Option (Op (Watched σ Obj) UInt64) → UInt64 → Option CStr → Option CStr →
      Prog (Watched σ Obj) UInt64) : Prop :=
  ∀ original clazz name sig Q, Leaves F 0 (orMissing G.watch lookup_type 0 false original) Q →
    (∀ r F', Q r F' → Valid M.toVM F' clazz) →
    Triple (Clean F 0) (hook original clazz name sig)
      fun r s => ∃ F', Q r F' ∧ Verdict F' 0 (kept F' [clazz]) s

/-- The shape of the lookups: `P` is what is known of the gate. -/
theorem records_lookupHook {kept : Frame Obj → List UInt64 → Bool} {P : Bool → Prop}
    {cache : UInt64 → Option CStr → CStr → Option CStr → Op σ Unit}
    (hlogs : Triple (Clean F 0) (logs (G.watch : Logging (Watched σ Obj)) env caller) fun log s =>
      P log ∧ Clean F 0 s)
    (hrecord : ∀ log F' name sig clazz, P log → Triple (Clean F' 0)
      (inScope log (do
        let cs ← op (G.watch.address_of_r caller)
        log_jni_lookup_deferred M.watchEntries M.watchEvents L.watch env lookup_type name sig clazz
          cs))
      fun _ => Verdict F' 0 (kept F' [clazz])) :
    Records M G F kept lookup_type fun original clazz name sig =>
      lookupHook M.watch G.watch M.watchEntries M.watchEvents L.watch env lookup_type
        (fun id name sig cn => beneath (cache id name sig cn)) original clazz name sig caller := by
  intro original clazz name sig Q h hclazz
  refine hlogs.bind fun log => Triple.given fun hlog => ?_
  refine Triple.bind (leaves_orMissing h log) fun r => Triple.exists fun F' => Triple.given ?_
  intro hQ
  refine (keeping_remember (hclazz r F' hQ)).bind fun _ => ?_
  refine Triple.bind (hrecord log F' name sig clazz hlog) fun _ => ?_
  exact Triple.pure r fun s hs => ⟨F', hQ, hs⟩

end Kept

/-! ## Section 4: Main theorem -/

/-- The hooks from `F`: the lookups by `kept`, the other two without. -/
structure LookupsRecord {σ Obj : Type} (M : JavaMachine σ Obj) (G : Logging σ) (L : Lookups σ)
    (env caller : UInt64) (F : Frame Obj) (kept : Frame Obj → List UInt64 → Bool) : Prop where
  getMethodID : Records M G F kept (named "GetMethodID") fun original clazz name sig =>
    hooked_GetMethodID M.watch G.watch M.watchEntries M.watchEvents L.watch env original clazz name
      sig caller
  getStaticMethodID : Records M G F kept (named "GetStaticMethodID") fun original clazz name sig =>
    hooked_GetStaticMethodID M.watch G.watch M.watchEntries M.watchEvents L.watch env original clazz
      name sig caller
  getFieldID : Records M G F kept (named "GetFieldID") fun original clazz name sig =>
    hooked_GetFieldID M.watch G.watch M.watchEntries M.watchEvents L.watch env original clazz name
      sig caller
  getStaticFieldID : Records M G F kept (named "GetStaticFieldID") fun original clazz name sig =>
    hooked_GetStaticFieldID M.watch G.watch M.watchEntries M.watchEvents L.watch env original clazz
      name sig caller
  findClass : ∀ original name Q,
    Leaves F 0 (orMissing G.watch (named "FindClass") 0 false original) Q →
    Leaves F 0 (hooked_FindClass G.watch L.watch env original name caller) Q
  registerNatives : ∀ original clazz methods nMethods Q,
    Leaves F 0 (orMissing G.watch (named "RegisterNatives") JNI_ERR false original) Q →
    (∀ r F', Q r F' → Valid M.toVM F' clazz) →
    Leaves F 0
      (hooked_RegisterNatives M.watch G.watch L.watch env original clazz methods nMethods caller) Q

section Records

variable {σ Obj : Type} {M : JavaMachine σ Obj} {G : Logging σ} {L : Lookups σ} {F : Frame Obj}
  {env caller : UInt64}

theorem leaves_findClass {original : Option (Op (Watched σ Obj) UInt64)} {name : Option CStr}
    {Q : UInt64 → Frame Obj → Prop}
    (h : Leaves F 0 (orMissing G.watch (named "FindClass") 0 false original) Q) :
    Leaves F 0 (hooked_FindClass G.watch L.watch env original name caller) Q := by
  refine keeping_logs.bind fun log => (leaves_orMissing h log).then fun r F' hQ => ?_
  exact keeping_inScope ((keeping_beneath _).bind fun cs => keeping_beneath _)

theorem leaves_registerNatives {original : Option (Op (Watched σ Obj) Int32)}
    {clazz methods : UInt64} {nMethods : Int32} {Q : Int32 → Frame Obj → Prop}
    (h : Leaves F 0 (orMissing G.watch (named "RegisterNatives") JNI_ERR false original) Q)
    (hclazz : ∀ r F', Q r F' → Valid M.toVM F' clazz) :
    Leaves F 0
      (hooked_RegisterNatives M.watch G.watch L.watch env original clazz methods nMethods caller)
      Q := by
  refine keeping_logs.bind fun log => (leaves_orMissing h log).then fun r F' hQ => ?_
  refine keeping_inScope ((keeping_beneath _).bind fun cs => ?_)
  refine (keeping_vis_class_name (hclazz r F' hQ)).bind fun cn => ?_
  exact (keeping_beneath _).bind fun _ => keeping_beneath _

theorem record_logged {lookup_type : CStr} {name sig : Option CStr} {clazz : UInt64}
    (h : LookupsLogged M G L env caller lookup_type) (log : Bool) (F' : Frame Obj)
    (hlog : log = true) :
    Triple (Clean F' 0)
      (inScope log (do
        let cs ← op (G.watch.address_of_r caller)
        log_jni_lookup_deferred M.watchEntries M.watchEvents L.watch env lookup_type name sig clazz
          cs))
      fun _ => Verdict F' 0 (usable M F' [clazz]) := by
  unfold inScope
  rw [if_pos hlog]
  have hbody : Judged F' 1 (usable M F' [clazz]) (do
      let cs ← op (G.watch.address_of_r caller)
      log_jni_lookup_deferred M.watchEntries M.watchEvents L.watch env lookup_type name sig clazz
        cs) :=
    (judged_beneath (G.address_of_r caller)).after fun _ => judged_log_jni_lookup_deferred h
  exact hbody.within.triple

theorem record_unattended {lookup_type : CStr} {name sig : Option CStr} {clazz : UInt64}
    (hnobody : ∀ vm, M.consumer vm = false) (log : Bool) (F' : Frame Obj) :
    Keeping (Clean F' 0)
      (inScope log (do
        let cs ← op (G.watch.address_of_r caller)
        log_jni_lookup_deferred M.watchEntries M.watchEvents L.watch env lookup_type name sig clazz
          cs)) :=
  keeping_inScope ((keeping_beneath _).bind fun _ => keeping_log_jni_lookup_deferred hnobody)

theorem lookupsRecord_of {kept : Frame Obj → List UInt64 → Bool}
    (h : ∀ lookup_type (cache : UInt64 → Option CStr → CStr → Option CStr → Op σ Unit),
      Records M G F kept lookup_type fun original clazz name sig =>
        lookupHook M.watch G.watch M.watchEntries M.watchEvents L.watch env lookup_type
          (fun id name sig cn => beneath (cache id name sig cn)) original clazz name sig caller) :
    LookupsRecord M G L env caller F kept where
  getMethodID := h _ L.cache_method_signature
  getStaticMethodID := h _ L.cache_method_signature
  getFieldID := h _ L.cache_field_signature
  getStaticFieldID := h _ L.cache_field_signature
  findClass _ _ _ horig := leaves_findClass horig
  registerNatives _ _ _ _ _ horig hclazz := leaves_registerNatives horig hclazz

end Records

/-- **Main result.** The lookups, whatever the originals find: without a
    consumer nothing but what the originals leave is left. With one, when
    the lookup is logged, the rules are kept just when the class may be
    used in the frame the original leaves; after a lookup that has thrown
    they are broken. -/
theorem lookup_hooks_exact {σ Obj : Type} (M : JavaMachine σ Obj) (G : Logging σ) (L : Lookups σ)
    (env caller : UInt64) (F : Frame Obj) :
    ((∀ lookup_type, LookupsLogged M G L env caller lookup_type) →
      LookupsRecord M G L env caller F (usable M)) ∧
    ((∀ vm, M.consumer vm = false) → LookupsRecord M G L env caller F fun _ _ => true) := by
  constructor
  · intro h
    have hlogs := triple_logs (F := F) (h default).toActive
    exact lookupsRecord_of fun lookup_type cache =>
      records_lookupHook hlogs fun log F' _ _ _ => record_logged (h lookup_type) log F'
  · intro hnobody
    have hlogs : Triple (Clean F 0) (logs (G.watch : Logging (Watched σ Obj)) env caller)
        fun _ s => True ∧ Clean F 0 s := keeping_logs.post fun _ _ hs => ⟨trivial, hs⟩
    exact lookupsRecord_of fun lookup_type cache =>
      records_lookupHook hlogs fun log F' _ _ _ _ => record_unattended hnobody log F'

def answeringLookups : Lookups Unit where
  logging_ready_fast := fun _ s => (true, s)
  cache_method_signature := fun _ _ _ _ _ s => ((), s)
  cache_field_signature := fun _ _ _ _ _ s => ((), s)
  event_pipe_emit_lookup := fun _ _ _ _ _ _ _ s => (0, s)
  log_jni_lookup := fun _ _ _ _ _ _ _ s => ((), s)
  log_jni_register_natives := fun _ _ _ _ _ _ s => ((), s)

/-- There is no such method. -/
theorem leaves_throwing :
    Leaves twoLocals 0 (op throwing) fun r F' => r = 0 ∧ F' = twoLocals.throw 4 := by
  rintro s ⟨hdepth, hframe, hkept⟩
  exact ⟨_, ⟨rfl, rfl⟩, hdepth, congrArg (Frame.throw · 4) hframe, hkept⟩

/-- A failed lookup of a method that is logged. -/
theorem lookup_hooks_exact_failed :
    Triple (Clean twoLocals 0)
      (hooked_GetMethodID answeringMachine.watch loggingAll.watch answeringMachine.watchEntries
        answeringMachine.watchEvents answeringLookups.watch 1 (some throwing) 6 none none 2)
      fun _ => Misused :=
  (((lookup_hooks_exact answeringMachine loggingAll answeringLookups 1 2 twoLocals).1 fun _ =>
    ⟨⟨fun _ _ => rfl, fun _ _ => rfl, fun _ => rfl⟩, by decide,
      fun _ _ => rfl⟩).getMethodID (some throwing) 6 none none _ leaves_throwing
    (by rintro r F' ⟨-, rfl⟩; exact .inr (by decide))).post (by
      rintro r s ⟨F', ⟨-, rfl⟩, hs⟩
      exact hs)

end JniLog.LookupHooks
