import JniLog.UtilityHooks
import JniLog.ArrayItems

/-! # The hooks for arrays and strings

    `hooks.c` records what is in an array or a string that the app makes,
    reads or writes. These hooks look at the contents themselves, with the
    helpers of `visualize.c`, in a scope of their own and after the
    original, whatever that has left behind: also an exception, or an
    answer of NULL.

    * The typed hooks exist once for each of the primitive types.
    * `vis_encode_ptr_array_items` reads a buffer of the app, and makes no
      call of JNI.
    * Two hooks put an element aside for the consumer. This is not allowed
      while an exception is pending.
    * `hooked_GetArrayLength` is told nothing of the elements. It asks for
      the name of the class, and takes the array for one of objects if
      there is no room for the name.

    Main result: what the original answers and leaves is what the hook
    answers and leaves, `array_hooks_keep`. The result is stated for every
    property of the answer and the frame that the original has. -/

namespace JniLog.ArrayHooks

open Bytes Brackets HookScope JniRules FrameKept HookTransparency ExceptionHooks
open UtilityHooks JlFmt StringHooks ArrayItems

/-! ## Section 1: The hooks -/

/-- The name of the type in the names of the functions. -/
def typeName : Prim → String
  | .int .Z => "Boolean"
  | .int .B => "Byte"
  | .int .C => "Char"
  | .int .S => "Short"
  | .int .I => "Int"
  | .int .J => "Long"
  | .F => "Float"
  | .D => "Double"

/-- `"I\x01%d\x02"`. -/
def intArg (cap : Nat) (v : Int32) : Bytes :=
  snprintf cap (ascii "I\x01%d\x02") [.word (Visualize.intWord v)]

/-- The items of an array, as an argument. -/
def arrayArg (items : Option Bytes) : Bytes := [0x5b, 0x01] ++ items.getD [] ++ [0x02]

def JNI_COMMIT : Int32 := 1

def JNI_ABORT : Int32 := 2

/-- `ENC_APPEND`, where the text has been formatted. -/
def ENC_APPEND (enc_cap : Nat) (enc text : Bytes) : Bytes :=
  let room := enc_cap - 1 - enc.length
  if room = 0 then enc else enc ++ text.take room

/-- `_gsig` in `hooked_GetArrayLength`, from the name of the class. -/
def lengthSig (gcn : Option CStr) : UInt8 :=
  match gcn with
  | none => 0x4c
  | some gcn =>
    match gcn.val with
    | 0x5b :: c :: _ => if c ≠ 0x4c ∧ c ≠ 0x5b then c else 0x4c
    | _ => 0x4c

section Hooks

variable {σ α : Type} (H : Host σ) (G : Logging σ) (E : Entries σ) (B : Events σ) (env : UInt64)

/-- The entry of the original table; `default` stands for a NULL one. -/
def orDefault [Inhabited α] (original : Option (Op σ α)) : Prog σ α :=
  match original with
  | some f => op f
  | none => pure default

/-- What a hook does in its scope. -/
def inScope (log : Bool) (body : Prog σ Unit) : Prog σ Unit :=
  if log then do
    set_reentrant_call true
    body
    set_reentrant_call false
  else pure ()

/-- The shape of the typed hooks: the gate is asked before the call. -/
def typedHook [Inhabited α] (original : Option (Op σ α)) (body : α → Prog σ Unit)
    (caller : UInt64) : Prog σ α := do
  let reentrant ← is_reentrant_call
  if reentrant then orDefault original
  else do
    let should_log ← op (G.should_log_from_caller env caller)
    let result ← orDefault original
    inScope should_log (body result)
    return result

/-- The shape of the others, where it is asked after the call. -/
def plainHook (original : Op σ α) (body : α → Prog σ Unit) (caller : UInt64) : Prog σ α := do
  let res ← op original
  let log ← logs G env caller
  inScope log (body res)
  return res

section Members

variable (slot : Int32) (caller : UInt64)

def hooked_NewArray (t : Prim) (original : Option (Op σ UInt64)) (length : Int32) :
    Prog σ UInt64 :=
  let name := named ("New" ++ typeName t ++ "Array")
  typedHook G env original (fun result => do
    let cs ← op (G.address_of_r caller)
    logCall G name slot (intArg 64 length) cs
    let items ← vis_encode_array_items H env result t.sigChar
    op (H.log_jni_return slot name 13 result (EventPipe.cstr (items.getD [])) default)
    op H.free) caller

/-- The record of an array that is an argument, if there is room for it. -/
def arrayCall (name : CStr) (items : Option Bytes) (tail : Bytes) (spare : Nat)
    (cs : CStr) (answer : Prog σ Unit) : Prog σ Unit := do
  let enc ← op (H.malloc ((items.getD []).length + spare))
  if enc.isSome then do
    logCall G name slot (arrayArg items ++ tail) cs
    op H.free
    answer
  else pure ()

def hooked_GetArrayElements (t : Prim) (original : Option (Op σ UInt64)) (array : UInt64) :
    Prog σ UInt64 :=
  let name := named ("Get" ++ typeName t ++ "ArrayElements")
  typedHook G env original (fun result => do
    let cs ← op (G.address_of_r caller)
    let items ← vis_encode_array_items H env array t.sigChar
    arrayCall H G slot name items [] 8 cs (LOG_PTR_RET H name slot result)
    op H.free) caller

def hooked_ReleaseArrayElements (t : Prim) (original : Option (Op σ Unit)) (mode : Int32) :
    Prog σ Unit :=
  let name := named ("Release" ++ typeName t ++ "ArrayElements")
  let modeStr := if mode = JNI_COMMIT then named "commit"
    else if mode = JNI_ABORT then named "abort" else named "free"
  typedHook G env original (fun _ => do
    let cs ← op (G.address_of_r caller)
    logCall G name slot
      (snprintf 64 (ascii "I\x01%d\x02s\x01%s\x02")
        [.word (Visualize.intWord mode), .str (some modeStr)]) cs
    LOG_VOID_RET H name slot) caller

def hooked_NewObjectArray (original : Option (Op σ UInt64)) (length : Int32) : Prog σ UInt64 :=
  let name := named "NewObjectArray"
  typedHook G env original (fun result => do
    let cs ← op (G.address_of_r caller)
    logCall G name slot (intArg 64 length) cs
    let arr ← vis_encode_array_items H env result 0x4c
    op (H.log_jni_return slot name 13 result (EventPipe.cstr (arr.getD [])) default)
    op H.free) caller

def hooked_GetObjectArrayElement (original : Option (Op σ UInt64)) (array : UInt64)
    (index : Int32) : Prog σ UInt64 :=
  let name := named "GetObjectArrayElement"
  typedHook G env original (fun result => do
    let cs ← op (G.address_of_r caller)
    let arr ← vis_encode_array_items H env array 0x4c
    arrayCall H G slot name arr (intArg 24 index) 32 cs (_log_obj_ret H E B name slot result)
    op H.free) caller

def hooked_SetObjectArrayElement (original : Option (Op σ Unit)) (array value : UInt64)
    (index : Int32) : Prog σ Unit :=
  let name := named "SetObjectArrayElement"
  typedHook G env original (fun _ => do
    let cs ← op (G.address_of_r caller)
    let arr ← vis_encode_array_items H env array 0x4c
    let enc_cap := (arr.getD []).length + 512
    let enc ← op (H.malloc enc_cap)
    if enc.isSome then do
      let head := ENC_APPEND enc_cap (arrayArg arr) (intArg (enc_cap - (arrayArg arr).length) index)
      let part ← obj2Part H env value
      op H.free
      logCall G name slot (ENC_APPEND enc_cap head part) cs
      op H.free
      LOG_VOID_RET H name slot
    else op H.free) caller

def hooked_GetArrayLength (original : Option (Op σ Int32)) (array : UInt64) : Prog σ Int32 :=
  let name := named "GetArrayLength"
  typedHook G env original (fun result => do
    let cs ← op (G.address_of_r caller)
    let gcn ← vis_object_class_name H env array
    op H.free
    let garr ← vis_encode_array_items H env array (lengthSig gcn)
    arrayCall H G slot name garr [] 8 cs (LOG_INT_RET H name slot result)
    op H.free) caller

def hooked_NewString (original : Op σ UInt64) (len : Int32) : Prog σ UInt64 :=
  let name := named "NewString"
  plainHook G env original (fun res => do
    let cs ← op (G.address_of_r caller)
    logCall G name slot (intArg 64 len) cs
    let sv ← vis_string_value_raw H env res
    op (H.log_jni_return slot name 10 0 (orEmpty sv) default)
    op H.free) caller

def hooked_NewStringUTF (original : Op σ UInt64) (utf : Option CStr) : Prog σ UInt64 :=
  let name := named "NewStringUTF"
  plainHook G env original (fun res => do
    let cs ← op (G.address_of_r caller)
    logCall G name slot (hooked_NewStringUTF_enc utf) cs
    op (H.log_jni_return slot name 14 res default default)) caller

def hooked_GetStringUTFChars (original : Op σ UInt64) (str : UInt64) : Prog σ UInt64 :=
  let name := named "GetStringUTFChars"
  plainHook G env original (fun res => do
    let cs ← op (G.address_of_r caller)
    let sv ← vis_string_value_raw H env str
    op H.free
    logCall G name slot (hooked_GetStringUTFChars_enc sv) cs
    LOG_PTR_RET H name slot res) caller

def hooked_ThrowNew (original : Op σ Int32) (clazz : UInt64) (msg : Option CStr) :
    Prog σ Int32 :=
  let name := named "ThrowNew"
  plainHook G env original (fun res => do
    let cs ← op (G.address_of_r caller)
    let cn ← vis_class_name H env clazz
    op H.free
    logCall G name slot (hooked_ThrowNew_enc cn msg) cs
    LOG_INT_RET H name slot res) caller

/-- The record of a region; `items` is what is read from the buffer. -/
def regionBody (name : CStr) (items : Op σ (Option Bytes)) (start len : Int32) :
    Prog σ Unit := do
  let cs ← op (G.address_of_r caller)
  let items ← op items
  let enc ← op (H.malloc ((items.getD []).length + 48))
  (if enc.isSome then do
    logCall G name slot
      (snprintf 48 (ascii "I\x01%d\x02I\x01%d\x02[\x01")
        [.word (Visualize.intWord start), .word (Visualize.intWord len)] ++
        items.getD [] ++ [0x02]) cs
    op H.free
    LOG_VOID_RET H name slot
  else pure ())
  op H.free

def hooked_GetArrayRegion (t : Prim) (original : Op σ Unit) (items : Op σ (Option Bytes))
    (start len : Int32) : Prog σ Unit :=
  plainHook G env original
    (fun _ => regionBody H G slot caller (named ("Get" ++ typeName t ++ "ArrayRegion")) items start
      len) caller

/-- The region is recorded before it is written. -/
def hooked_SetArrayRegion (t : Prim) (original : Op σ Unit) (items : Op σ (Option Bytes))
    (start len : Int32) : Prog σ Unit := do
  let log ← logs G env caller
  inScope log
    (regionBody H G slot caller (named ("Set" ++ typeName t ++ "ArrayRegion")) items start len)
  op original

end Members

end Hooks

/-! ## Section 2: What the original leaves -/

section Leaving

variable {σ Obj α : Type} {M : JavaMachine σ Obj} {G : Logging σ} {F : Frame Obj} {d : Nat}
  {env caller : UInt64} {Q : α → Frame Obj → Prop}

/-- From `F`, with the rules kept, the program leaves a frame that has the
    property `Q` with its answer. -/
def Leaves (F : Frame Obj) (d : Nat) (p : Prog (Watched σ Obj) α) (Q : α → Frame Obj → Prop) :
    Prop :=
  Triple (Clean F d) p fun a s => ∃ F', Q a F' ∧ Clean F' d s

theorem keeping_inScope {log : Bool} {body : Prog (Watched σ Obj) Unit}
    (h : Keeping (Clean F (d + 1)) body) : Keeping (Clean F d) (inScope log body) :=
  Keeping.optional fun _ => Triple.bind triple_open fun _ => h.bind fun _ => triple_close

theorem Leaves.then {original : Prog (Watched σ Obj) α} {f : α → Prog (Watched σ Obj) Unit}
    (h : Leaves F d original Q) (hf : ∀ a F', Q a F' → Keeping (Clean F' d) (f a)) :
    Leaves F d (original >>= fun a => f a >>= fun _ => pure a) Q := by
  refine Triple.bind h fun a => Triple.exists fun F' => Triple.given fun hQ => ?_
  exact (hf a F' hQ).bind fun _ => Triple.pure a fun s hs => ⟨F', hQ, hs⟩

theorem leaves_typedHook [Inhabited α] {original : Option (Op (Watched σ Obj) α)}
    {body : α → Prog (Watched σ Obj) Unit} (h : Leaves F d (orDefault original) Q)
    (hbody : ∀ a F', Q a F' → Keeping (Clean F' (d + 1)) (body a)) :
    Leaves F d (typedHook G.watch env original body caller) Q := by
  refine keeping_is_reentrant_call.bind fun reentrant => ?_
  refine Triple.ite (fun _ => h) fun _ => ?_
  refine (keeping_beneath _).bind fun should_log => ?_
  exact h.then fun a F' hQ => keeping_inScope (hbody a F' hQ)

theorem leaves_plainHook {original : Op (Watched σ Obj) α}
    {body : α → Prog (Watched σ Obj) Unit} (h : Leaves F d (op original) Q)
    (hbody : ∀ a F', Q a F' → Keeping (Clean F' (d + 1)) (body a)) :
    Leaves F d (plainHook G.watch env original body caller) Q := by
  refine Triple.bind h fun a => Triple.exists fun F' => Triple.given fun hQ => ?_
  refine keeping_logs.bind fun log => (keeping_inScope (hbody a F' hQ)).bind fun _ => ?_
  exact Triple.pure a fun s hs => ⟨F', hQ, hs⟩

end Leaving

/-! ## Section 3: What the records do -/

section Records

variable {σ Obj : Type} {M : JavaMachine σ Obj} {G : Logging σ} {F : Frame Obj} {d : Nat}
  {env caller : UInt64} {name : CStr} {slot : Int32}

/-- Nobody is there to put the object aside for, or it may be used. -/
def Recordable (M : JavaMachine σ Obj) (F : Frame Obj) (obj : UInt64) : Prop :=
  (∀ vm, M.consumer vm = false) ∨ usable M F [obj] = true

theorem Recordable.quiet {obj : UInt64} (h : Recordable M F obj) (hobj : obj ≠ 0) :
    M.quiet F [obj] = true ∨ ∀ vm, M.consumer vm = false := by
  rcases h with hnobody | husable
  · exact .inr hnobody
  · rw [usable_object obj hobj] at husable
    exact .inl husable

theorem keeping_obj2Part {obj : UInt64} (h : Recordable M F obj) :
    Keeping (Clean F d) (obj2Part M.watch env obj) :=
  Triple.ite (fun _ => Keeping.pure _) fun hobj =>
    (keeping_defer (h.quiet hobj)).bind fun _ => Keeping.pure _

theorem keeping_recordable {obj : UInt64} (h : Recordable M F obj) :
    Keeping (Clean F d) (_log_obj_ret M.watch M.watchEntries M.watchEvents name slot obj) := by
  rcases h with hnobody | husable
  · exact keeping_log_obj_ret_unattended hnobody obj
  · by_cases hobj : obj = 0
    · refine triple_defers.bind fun deferred => Triple.given fun hdeferred => ?_
      exact Triple.ite (fun hyes => absurd hobj (hdeferred hyes).1) fun _ => keeping_beneath _
    · rw [usable_object obj hobj] at husable
      exact keeping_log_obj_ret (pending_of_quiet husable).2 (.inl husable)

theorem keeping_arrayCall {items : Option Bytes} {tail : Bytes} {spare : Nat} {cs : CStr}
    {answer : Prog (Watched σ Obj) Unit} (h : Keeping (Clean F d) answer) :
    Keeping (Clean F d)
      (arrayCall M.watch G.watch slot name items tail spare cs answer) := by
  refine (keeping_beneath _).bind fun enc => Keeping.optional fun _ => ?_
  exact (keeping_beneath _).bind fun _ => (keeping_beneath _).bind fun _ => h

/-- Where its name is read, the class tells the elements of the array; an
    array whose name is not read is taken for one of objects. -/
def NameFits (M : JavaMachine σ Obj) (env : UInt64) (F : Frame Obj) (d : Nat) (array : UInt64) :
    Prop :=
  F.pending = none → F.critical = false → ∀ s, Clean F d s →
    Fits M.toVM F array (lengthSig (vis_object_class_name M.watch env array s).1)

/-- What the name of the class says. -/
theorem triple_lengthSig {array : UInt64} (hvalid : Valid M.toVM F array)
    (h : NameFits M env F d array) :
    Triple (Clean F d) (vis_object_class_name M.watch env array) fun gcn s =>
      (F.pending = none → F.critical = false → Fits M.toVM F array (lengthSig gcn)) ∧
        Clean F d s :=
  fun s hs => ⟨fun hpending hcritical => h hpending hcritical s hs,
    keeping_vis_object_class_name hvalid s hs⟩

theorem keeping_regionBody {items : Op σ (Option Bytes)} {start len : Int32} :
    Keeping (Clean F d)
      (regionBody M.watch G.watch slot caller name (beneath items) start len) := by
  refine (keeping_beneath _).bind fun cs => (keeping_beneath _).bind fun items => ?_
  refine (keeping_beneath _).bind fun enc => ?_
  refine Keeping.bind (Keeping.optional fun _ => ?_) fun _ => keeping_beneath _
  exact (keeping_beneath _).bind fun _ => (keeping_beneath _).bind fun _ => keeping_beneath _

end Records

/-! ## Section 4: Main theorem -/

/-- From the frame `F`: what holds of the answer of the original and of the
    frame it leaves also holds of the hook. The references that the hook
    looks at have to be valid in that frame, an array has to be one of the
    type that the hook reads, and what it puts aside may not meet an
    exception. -/
structure ArraysKept {σ Obj : Type} (M : JavaMachine σ Obj) (G : Logging σ) (env caller : UInt64)
    (slot : Int32) (F : Frame Obj) (d : Nat) : Prop where
  newArray : ∀ t original length Q, Leaves F d (orDefault original) Q →
    (∀ r F', Q r F' → Fits M.toVM F' r t.sigChar) →
    Leaves F d (hooked_NewArray M.watch G.watch env slot caller t original length) Q
  getElements : ∀ t original array Q, Leaves F d (orDefault original) Q →
    (∀ r F', Q r F' → Fits M.toVM F' array t.sigChar) →
    Leaves F d (hooked_GetArrayElements M.watch G.watch env slot caller t original array) Q
  releaseElements : ∀ t original mode Q, Leaves F d (orDefault original) Q →
    Leaves F d (hooked_ReleaseArrayElements M.watch G.watch env slot caller t original mode) Q
  newObjectArray : ∀ original length Q, Leaves F d (orDefault original) Q →
    (∀ r F', Q r F' → Fits M.toVM F' r 0x4c) →
    Leaves F d (hooked_NewObjectArray M.watch G.watch env slot caller original length) Q
  getElement : ∀ original array index Q, Leaves F d (orDefault original) Q →
    (∀ r F', Q r F' → Fits M.toVM F' array 0x4c ∧ Recordable M F' r) →
    Leaves F d
      (hooked_GetObjectArrayElement M.watch G.watch M.watchEntries M.watchEvents env slot caller
        original array index) Q
  setElement : ∀ original array value index Q, Leaves F d (orDefault original) Q →
    (∀ r F', Q r F' → Fits M.toVM F' array 0x4c ∧ Recordable M F' value) →
    Leaves F d
      (hooked_SetObjectArrayElement M.watch G.watch env slot caller original array value index) Q
  getLength : ∀ original array Q, Leaves F d (orDefault original) Q →
    (∀ r F', Q r F' → Valid M.toVM F' array ∧ NameFits M env F' (d + 1) array) →
    Leaves F d (hooked_GetArrayLength M.watch G.watch env slot caller original array) Q
  newString : ∀ original len Q, Leaves F d (op original) Q →
    (∀ r F', Q r F' → Valid M.toVM F' r) →
    Leaves F d (hooked_NewString M.watch G.watch env slot caller original len) Q
  newStringUTF : ∀ original utf Q, Leaves F d (op original) Q →
    Leaves F d (hooked_NewStringUTF M.watch G.watch env slot caller original utf) Q
  getChars : ∀ original str Q, Leaves F d (op original) Q →
    (∀ r F', Q r F' → Valid M.toVM F' str) →
    Leaves F d (hooked_GetStringUTFChars M.watch G.watch env slot caller original str) Q
  throwNew : ∀ original clazz msg Q, Leaves F d (op original) Q →
    (∀ r F', Q r F' → Valid M.toVM F' clazz) →
    Leaves F d (hooked_ThrowNew M.watch G.watch env slot caller original clazz msg) Q
  getRegion : ∀ t original items start len Q, Leaves F d (op original) Q →
    Leaves F d
      (hooked_GetArrayRegion M.watch G.watch env slot caller t original (beneath items) start len)
      Q
  setRegion : ∀ t original items start len Q, Leaves F d (op original) Q →
    Leaves F d
      (hooked_SetArrayRegion M.watch G.watch env slot caller t original (beneath items) start len)
      Q

/-- **Main result.** The hooks for arrays and strings keep to whatever
    their originals do: the answer, the exception that is pending, the
    local references and what is borrowed are those that the originals
    leave, and the rules of JNI have been kept. -/
theorem array_hooks_keep {σ Obj : Type} (M : JavaMachine σ Obj) (G : Logging σ)
    (env caller : UInt64) (slot : Int32) (F : Frame Obj) (d : Nat) :
    ArraysKept M G env caller slot F d where
  newArray t _ _ _ h hvalid := leaves_typedHook h fun r F' hQ => by
    refine (keeping_beneath _).bind fun cs => (keeping_beneath _).bind fun _ => ?_
    refine (keeping_vis_encode_array_items fun _ _ => hvalid r F' hQ).bind fun items => ?_
    exact (keeping_beneath _).bind fun _ => keeping_beneath _
  getElements t _ _ _ h hvalid := leaves_typedHook h fun r F' hQ => by
    refine (keeping_beneath _).bind fun cs => ?_
    refine (keeping_vis_encode_array_items fun _ _ => hvalid r F' hQ).bind fun items => ?_
    exact (keeping_arrayCall (keeping_beneath _)).bind fun _ => keeping_beneath _
  releaseElements _ _ _ _ h := leaves_typedHook h fun _ _ _ => by
    exact (keeping_beneath _).bind fun cs => (keeping_beneath _).bind fun _ => keeping_beneath _
  newObjectArray _ _ _ h hvalid := leaves_typedHook h fun r F' hQ => by
    refine (keeping_beneath _).bind fun cs => (keeping_beneath _).bind fun _ => ?_
    refine (keeping_vis_encode_array_items fun _ _ => hvalid r F' hQ).bind fun arr => ?_
    exact (keeping_beneath _).bind fun _ => keeping_beneath _
  getElement _ _ _ _ h hvalid := leaves_typedHook h fun r F' hQ => by
    obtain ⟨harray, hrecordable⟩ := hvalid r F' hQ
    refine (keeping_beneath _).bind fun cs => ?_
    refine (keeping_vis_encode_array_items fun _ _ => harray).bind fun arr => ?_
    exact (keeping_arrayCall (keeping_recordable hrecordable)).bind fun _ => keeping_beneath _
  setElement _ _ _ _ _ h hvalid := leaves_typedHook h fun r F' hQ => by
    obtain ⟨harray, hrecordable⟩ := hvalid r F' hQ
    refine (keeping_beneath _).bind fun cs => ?_
    refine (keeping_vis_encode_array_items fun _ _ => harray).bind fun arr => ?_
    refine (keeping_beneath _).bind fun enc => Triple.ite (fun _ => ?_) fun _ => keeping_beneath _
    refine (keeping_obj2Part hrecordable).bind fun part => (keeping_beneath _).bind fun _ => ?_
    exact (keeping_beneath _).bind fun _ => (keeping_beneath _).bind fun _ => keeping_beneath _
  getLength _ _ _ h hvalid := leaves_typedHook h fun r F' hQ => by
    refine (keeping_beneath _).bind fun cs => ?_
    obtain ⟨harray, hname⟩ := hvalid r F' hQ
    -- the name of the class says which elements are read
    refine (triple_lengthSig harray hname).bind fun gcn => Triple.given fun hfits => ?_
    refine (keeping_beneath _).bind fun _ => ?_
    refine (keeping_vis_encode_array_items hfits).bind fun garr => ?_
    exact (keeping_arrayCall (keeping_beneath _)).bind fun _ => keeping_beneath _
  newString _ _ _ h hvalid := leaves_plainHook h fun r F' hQ => by
    refine (keeping_beneath _).bind fun cs => (keeping_beneath _).bind fun _ => ?_
    refine (keeping_vis_string_value_raw (hvalid r F' hQ)).bind fun sv => ?_
    exact (keeping_beneath _).bind fun _ => keeping_beneath _
  newStringUTF _ _ _ h := leaves_plainHook h fun _ _ _ => by
    exact (keeping_beneath _).bind fun cs => (keeping_beneath _).bind fun _ => keeping_beneath _
  getChars _ _ _ h hvalid := leaves_plainHook h fun r F' hQ => by
    refine (keeping_beneath _).bind fun cs => ?_
    refine (keeping_vis_string_value_raw (hvalid r F' hQ)).bind fun sv => ?_
    exact (keeping_beneath _).bind fun _ => (keeping_beneath _).bind fun _ => keeping_beneath _
  throwNew _ _ _ _ h hvalid := leaves_plainHook h fun r F' hQ => by
    refine (keeping_beneath _).bind fun cs => ?_
    refine (keeping_vis_class_name (hvalid r F' hQ)).bind fun cn => ?_
    exact (keeping_beneath _).bind fun _ => (keeping_beneath _).bind fun _ => keeping_beneath _
  getRegion _ _ _ _ _ _ h := leaves_plainHook h fun _ _ _ => keeping_regionBody
  setRegion _ _ _ _ _ _ h := by
    refine keeping_logs.bind fun log => ?_
    exact (keeping_inScope keeping_regionBody).bind fun _ => h

theorem leaves_beneath {α : Type} [Inhabited α] (a : α) (F : Frame UInt64) :
    Leaves F 0 (orDefault (some (beneath fun _ s => (a, s) : Op (Watched Unit UInt64) α)))
      fun r F' => r = a ∧ F' = F :=
  fun _ hs => ⟨F, ⟨rfl, rfl⟩, hs⟩

/-- An array of arrays is one of objects. -/
theorem nameFits_answering : NameFits answeringMachine 1 twoArrays 1 13 := by
  rintro - - ⟨⟨⟨⟩, F, misused⟩, depth⟩ ⟨rfl, rfl, rfl⟩
  exact .inr ⟨13, 0x4c, rfl, rfl, fun _ => by decide +kernel⟩

/-- An `int[]` is made, and an array of arrays is read and measured. -/
theorem array_hooks_keep_logged :
    Leaves twoArrays 0
        (hooked_NewArray answeringMachine.watch loggingAll.watch 1 179 2 (.int .I)
          (some (beneath fun _ s => (12, s))) 1)
        (fun r F' => r = 12 ∧ F' = twoArrays) ∧
      Leaves twoArrays 0
        (hooked_GetObjectArrayElement answeringMachine.watch loggingAll.watch
          answeringMachine.watchEntries answeringMachine.watchEvents 1 173 2
          (some (beneath fun _ s => (12, s))) 13 0)
        (fun r F' => r = 12 ∧ F' = twoArrays) ∧
      Leaves twoArrays 0
        (hooked_GetArrayLength answeringMachine.watch loggingAll.watch 1 171 2
          (some (beneath fun _ s => (1, s))) 13)
        fun r F' => r = 1 ∧ F' = twoArrays :=
  ⟨(array_hooks_keep answeringMachine loggingAll 1 2 179 twoArrays 0).newArray (.int .I)
      (some (beneath fun _ s => (12, s))) 1 _ (leaves_beneath 12 twoArrays)
      (by rintro r F' ⟨rfl, rfl⟩; exact .inr ⟨12, 0x49, rfl, rfl, fun _ => rfl⟩),
    (array_hooks_keep answeringMachine loggingAll 1 2 173 twoArrays 0).getElement
      (some (beneath fun _ s => (12, s))) 13 0 _ (leaves_beneath 12 twoArrays)
      (by rintro r F' ⟨rfl, rfl⟩; exact ⟨.inr ⟨13, 0x4c, rfl, rfl, fun _ => rfl⟩, .inr rfl⟩),
    (array_hooks_keep answeringMachine loggingAll 1 2 171 twoArrays 0).getLength
      (some (beneath fun _ s => (1, s))) 13 _ (leaves_beneath 1 twoArrays)
      (by rintro r F' ⟨rfl, rfl⟩; exact ⟨.inr rfl, nameFits_answering⟩)⟩

/-- Every array has one element, and there is no room for the name of its
    class. -/
def unnamedMachine : JavaMachine Unit UInt64 where
  toVM :=
    { answering with
      host :=
        { answeringHost with
          g_original_jni_table := some { answeringTable with GetArrayLength := fun _ _ s => (1, s) }
          strdup := fun _ _ s => (none, s) } }
  entries := answeringEntries
  exception := answeringMachine.exception
  events := answeringEvents

/-- The element of an `int[]` is asked for as if it were an object. -/
theorem getArrayLength_unnamed :
    (hooked_GetArrayLength unnamedMachine.watch loggingAll.watch 1 171 2
      (some (beneath fun _ s => (1, s))) 12
      ⟨⟨(), twoArrays, false⟩, 0⟩).2.world.misused = true := by
  decide +kernel

end JniLog.ArrayHooks
