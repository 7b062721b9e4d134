import JniLog.FrameKept
import JniLog.ExtractArgs

/-! # Transparency of the hooks

    The hooks of `hook_methods.c` and `hook_fields.c` record a call and
    make it.

    * The app calls with the rules kept: nothing is pending, no critical
      section is open, and what it passes may be used.
    * The original is any operation that keeps the rules; what Java code
      it runs is not known.
    * The variadic forms differ in how the arguments are fetched.
    * The elements of an array argument are read as those of the innermost
      type of its descriptor. So no argument is an array of arrays of a
      primitive type, or the record of the call breaks the rules.

    Main results: a method hook and a field hook are one call of the
    original, from the frame it would have found without the hook; they
    answer what it answers, and leave the frame it leaves,
    `method_hook_transparent` and `field_hook_transparent`. -/

namespace JniLog.HookTransparency

open Bytes Brackets Grow HookScope JniRules FrameKept

/-! ## Section 1: Encoding the arguments -/

/-- `buf[len - 2] = c`. -/
def patchSigChar (buf : Buf) (c : UInt8) : Buf where
  mem := if buf.len ≥ 2 then buf.mem.set (buf.len - 2) c else buf.mem
  len := buf.len
  terminated := by
    split
    · rw [List.getElem?_set_ne (by omega)]
      exact buf.terminated
    · exact buf.terminated

/-- The innermost type of an array type, behind its first bracket: that of
    `[[I` is `I`. -/
def elemSig (p : Bytes) : UInt8 := (Visualize.skipBrackets p).headD 0

/-- What the items of an array are encoded as. -/
def itemSigChar (elem_sig : UInt8) : UInt8 :=
  if elem_sig = 0x4c ∨ elem_sig = 0x5b then 0x4c else elem_sig

section Arguments

variable {σ : Type} (H : Host σ) (env : UInt64)

/-- A class name, or a string value, that may be NULL. -/
def appendOwned (buf : Option Buf) (s : Option CStr) : Prog σ (Option Buf) :=
  match s with
  | some s => do
    let buf ← appendEscaped H buf s
    op H.free
    return buf
  | none => pure buf

/-- The record of an object. -/
def encodeObject (buf : Option Buf) (obj : UInt64) : Prog σ (Option Buf) := do
  let isString ← vis_is_string H env obj
  if isString then do
    let sv ← vis_string_value_raw H env obj
    appendOwned H (buf.map (patchSigChar · 0x73)) sv
  else do
    let isClass ← vis_is_class H env obj
    if isClass then do
      let cn ← vis_class_name H env obj
      appendOwned H (buf.map (patchSigChar · 0x63)) cn
    else do
      let cn ← vis_object_class_name H env obj
      let ts ← vis_object_tostring_safe H env obj cn
      let buf ← (match cn with
        | some cn => appendEscaped H buf cn
        | none => pure buf)
      let buf ← (match ts with
        | some ts => do
          let buf ← append H buf [0x03]
          appendOwned H buf (some ts)
        | none => pure buf)
      op H.free
      return buf

/-- The items of an array, and the end of its record. -/
def encodeArray (buf : Option Buf) (elem_sig : UInt8) (arr : UInt64) : Prog σ (Option Buf) := do
  let items ← vis_encode_array_items H env arr (itemSigChar elem_sig)
  let text := items.getD []
  let buf ← (if text.length > 0 then append H buf text else pure buf)
  op H.free
  append H buf [0x02]

/-- The text of a primitive argument; `none` for the other kinds. -/
def primText (kind_ch : UInt8) (val : UInt64) : Option Bytes :=
  if kind_ch = 0x4c ∨ kind_ch = 0x5b then none
  else some (Visualize.appendArg (fun _ => none) [] kind_ch 0 val).1

/-- The `switch` on the kind of an argument, and whether the record is
    still to be ended. -/
def appendArg (buf : Option Buf) (kind_ch elem_sig : UInt8) (val : UInt64) :
    Prog σ (Option Buf × Bool) :=
  match primText kind_ch val with
  | some text => do
    let buf ← append H buf text
    return (buf, true)
  | none =>
    if val = 0 ∨ env = 0 then pure (buf, true)
    else if kind_ch = 0x5b then do
      let buf ← encodeArray H env buf elem_sig val
      return (buf, false)
    else do
      let buf ← encodeObject H env buf val
      return (buf, true)

/-- The argument loop. -/
def typedArgsLoop : Option Buf → Bytes → List UInt64 → Prog σ (Option Buf)
  | buf, [], _ => pure buf
  | buf, _, [] => pure buf
  | buf, kind_ch :: p, val :: extracted =>
    if kind_ch = 0x29 then pure buf
    else do
      let elem_sig := if kind_ch = 0x5b then elemSig p else 0
      let buf ← append H buf [kind_ch]
      let buf ← append H buf [0x01]
      let (buf, isOpen) ← appendArg H env buf kind_ch elem_sig val
      let buf ← (if isOpen then append H buf [0x02] else pure buf)
      typedArgsLoop buf (Visualize.skipType (kind_ch :: p)) extracted

/-- `vis_encode_typed_args`; `sig` is `none` for NULL. -/
def vis_encode_typed_args (sig : Option CStr) (extracted : List UInt64) :
    Prog σ (Option Bytes) := do
  match ← op (H.malloc 256) with
  | none => return none
  | some block =>
    match sig with
    | none => return some []
    | some sig => do
      let p := if sig.val.head? = some 0x28 then sig.val.tail else sig.val
      let buf ← typedArgsLoop H env (some (emptyString block)) p extracted
      return buf.map Buf.text

end Arguments

/-! ## Section 2: The hooks of hook_methods.c -/

/-- What the cache says of a method or a field. -/
structure Info where
  name : Option CStr
  sig : Option CStr
  clazz : Option CStr

/-- What `hook_logging.c` calls besides the helpers. -/
structure Logging (σ : Type) where
  should_log_from_caller : UInt64 → UInt64 → Op σ Bool
  goGetLoggingReady : Op σ Bool
  address_of_r : UInt64 → Op σ CStr
  lookup_method_info : UInt64 → Op σ Info
  lookup_field_info : UInt64 → Op σ Info
  log_jni_call : Int32 → CStr → Int32 → CStr → CStr → CStr → CStr → Bytes → UInt64 → CStr →
    Op σ Unit
  log_missing_original : CStr → Op σ Unit

/-- `method_log_ctx_t`, but for the buffers of the names. -/
structure method_log_ctx_t extends MethodLogCtx where
  receiver_kind : Int32
  receiver_str : Option CStr
  receiver_extra : Option CStr
  method_name : Option CStr
  sig : Option CStr
  clazz_name : Option CStr
  encoded_args : Option Bytes
  caller_str : CStr

def method_log_ctx_init : method_log_ctx_t :=
  ⟨⟨false, false⟩, 0, none, none, none, none, none, none, default⟩

/-- `call_target_kind_t`. -/
inductive CallTarget where
  | CALL_TARGET_INSTANCE | CALL_TARGET_STATIC
  deriving DecidableEq, Repr

section Methods

variable {σ : Type} (H : Host σ) (G : Logging σ) (env : UInt64)

def prepare_method_log_ctx_common (receiver method_id caller : UInt64) :
    Prog σ method_log_ctx_t := do
  let reentrant ← is_reentrant_call
  if reentrant then return method_log_ctx_init
  else do
    let should_log ← op (G.should_log_from_caller env caller)
    if ¬ should_log then return method_log_ctx_init
    else do
      let logging_ready ← op G.goGetLoggingReady
      if ¬ logging_ready then return { method_log_ctx_init with should_log := true }
      else do
        set_reentrant_call true
        let caller_str ← op (G.address_of_r caller)
        let (str, extra) ← fill_object_strings H env receiver
        let info ← op (G.lookup_method_info method_id)
        set_reentrant_call false
        return ⟨⟨true, true⟩, classify_object receiver, str, extra, info.name, info.sig, info.clazz,
          none, caller_str⟩

/-- `prepare_method_log_ctx_from_valist` and `_from_jvalue`, which differ
    in how the words of the arguments are extracted. -/
def prepare_method_log_ctx (extract : CStr → List UInt64) (receiver method_id caller : UInt64) :
    Prog σ method_log_ctx_t := do
  let ctx ← prepare_method_log_ctx_common H G env receiver method_id caller
  if ¬ ctx.should_log ∨ ¬ ctx.logging_ready then return ctx
  else
    match ctx.sig with
    | none => return ctx
    | some sig => do
      set_reentrant_call true
      let encoded ← vis_encode_typed_args H env (some sig) (extract sig)
      set_reentrant_call false
      return { ctx with encoded_args := encoded }

def emit_method_call_begin (target : CallTarget) (name : CStr) (slot : Int32)
    (ctx : method_log_ctx_t) (method_id : UInt64) : Prog σ Unit := do
  let reentrant ← is_reentrant_call
  if ¬ ctx.should_log ∨ ¬ ctx.logging_ready ∨ reentrant then return ()
  else
    op (G.log_jni_call slot name (if target = .CALL_TARGET_STATIC then 0 else ctx.receiver_kind)
      (ctx.receiver_str.getD default) (ctx.receiver_extra.getD default)
      (ctx.clazz_name.getD default) (ctx.method_name.getD default) (ctx.encoded_args.getD [])
      method_id ctx.caller_str)

/-- The entry of the original table, or what stands for a NULL one. -/
def callOriginal (original : Option (Op σ UInt64)) (missing : Prog σ Unit) : Prog σ UInt64 :=
  match original with
  | some f => op f
  | none => do
    missing
    return 0

/-- The body of the hooks of `hook_methods.c`: an entry for a type of
    result, with the words of its arguments. -/
def methodHook (target : CallTarget) (name : CStr) (slot : Int32) (kind : ReturnKind)
    (extract : CStr → List UInt64) (receiver method_id caller : UInt64)
    (original : Option (Op σ UInt64)) : Prog σ UInt64 := do
  let reentrant ← is_reentrant_call
  if reentrant then callOriginal original (pure ())
  else do
    let ctx ← prepare_method_log_ctx H G env extract receiver method_id caller
    emit_method_call_begin G target name slot ctx method_id
    let result ← callOriginal original
      (if ctx.should_log then op (G.log_missing_original name) else pure ())
    log_method_return_value H env (some ctx.toMethodLogCtx) name slot kind result
    op H.free
    op H.free
    op H.free
    return result

/-- The arguments of a call: a `va_list`, which `va_copy` leaves as it is,
    or an array of `jvalue`. -/
inductive Args where
  | valist (ap : List ExtractArgs.VaArg)
  | jvalues (args : Option (List UInt64))

def MAX_EXTRACTED_ARGS : Nat := 32

/-- The extracted words. Fetching an argument that is not there is
    undefined; nothing is fetched then. -/
def Args.extract (args : Args) (sig : CStr) : List UInt64 :=
  let words := match args with
    | .valist ap => ExtractArgs.extract_va_args (some sig.val) ap MAX_EXTRACTED_ARGS
    | .jvalues args => ExtractArgs.extract_jvalue_args (some sig.val) args MAX_EXTRACTED_ARGS
  (words.getD []).map Prod.snd

/-- The end of the name of a hook: `""`, `"V"` or `"A"`. -/
def Args.named (stem : String) (form : String) : CStr := EventPipe.cstr (ascii (stem ++ form))

/-- `hooked_Call<Name>Method`, with `V` and `A`; for `RET_VOID` these are
    the hooks of `DEFINE_INSTANCE_VOID_HOOKS`. -/
def hooked_CallMethod (Name form : String) (slot : Int32) (kind : ReturnKind) (args : Args)
    (obj method_id caller : UInt64) (original : Option (Op σ UInt64)) : Prog σ UInt64 :=
  methodHook H G env .CALL_TARGET_INSTANCE (Args.named ("Call" ++ Name ++ "Method") form) slot kind
    args.extract obj method_id caller original

def hooked_CallStaticMethod (Name form : String) (slot : Int32) (kind : ReturnKind) (args : Args)
    (clazz method_id caller : UInt64) (original : Option (Op σ UInt64)) : Prog σ UInt64 :=
  methodHook H G env .CALL_TARGET_STATIC (Args.named ("CallStatic" ++ Name ++ "Method") form) slot
    kind args.extract clazz method_id caller original

/-- The class is passed on to the original only. -/
def hooked_CallNonvirtualMethod (Name form : String) (slot : Int32) (kind : ReturnKind)
    (args : Args) (obj method_id caller : UInt64) (original : Option (Op σ UInt64)) :
    Prog σ UInt64 :=
  methodHook H G env .CALL_TARGET_INSTANCE (Args.named ("CallNonvirtual" ++ Name ++ "Method") form)
    slot kind args.extract obj method_id caller original

/-- There is no receiver. -/
def hooked_NewObject (form : String) (slot : Int32) (args : Args) (method_id caller : UInt64)
    (original : Option (Op σ UInt64)) : Prog σ UInt64 :=
  methodHook H G env .CALL_TARGET_STATIC (Args.named "NewObject" form) slot .RET_OBJECT
    args.extract 0 method_id caller original

end Methods

/-! ## Section 3: The hooks of hook_fields.c -/

def field_log_ctx_init : FieldLogCtx := ⟨false, false, 0, none, none, none, default⟩

/-- The kind, the word and the texts of a value. -/
structure FieldValue where
  kind : Int32
  raw : UInt64
  str : Option CStr
  extra : Option CStr

section Fields

variable {σ : Type} (H : Host σ) (G : Logging σ) (env : UInt64)

/-- The receiver of a static access is labelled with the declaring class,
    when the cache knows it. -/
def fieldReceiver (receiver : UInt64) (is_static : Bool) (clazz_name : Option CStr) :
    Prog σ (Int32 × Option CStr × Option CStr) :=
  match clazz_name with
  | some clazz =>
    if is_static ∧ clazz.val ≠ [] then do
      let str ← op (H.strdup clazz)
      return (11, str, none)
    else do
      let (str, extra) ← fill_object_strings H env receiver
      return (classify_object receiver, str, extra)
  | none => do
    let (str, extra) ← fill_object_strings H env receiver
    return (classify_object receiver, str, extra)

def prepare_field_log_ctx (receiver field_id caller : UInt64) (is_static : Bool) :
    Prog σ FieldLogCtx := do
  let reentrant ← is_reentrant_call
  if reentrant then return field_log_ctx_init
  else do
    let should_log ← op (G.should_log_from_caller env caller)
    if ¬ should_log then return field_log_ctx_init
    else do
      let logging_ready ← op G.goGetLoggingReady
      if ¬ logging_ready then return { field_log_ctx_init with should_log := true }
      else do
        set_reentrant_call true
        let caller_str ← op (G.address_of_r caller)
        let info ← op (G.lookup_field_info field_id)
        let (kind, str, extra) ← fieldReceiver H env receiver is_static info.clazz
        set_reentrant_call false
        return ⟨true, true, kind, str, extra, info.name, caller_str⟩

def emit_field_access_begin (name : CStr) (slot : Int32) (ctx : FieldLogCtx) (v : FieldValue) :
    Prog σ Unit := do
  let reentrant ← is_reentrant_call
  if ¬ ctx.should_log ∨ ¬ ctx.logging_ready ∨ reentrant then return ()
  else do
    set_reentrant_call true
    op (H.log_jni_field_access slot name ctx.receiver_kind (ctx.receiver_str.getD default)
      (ctx.receiver_extra.getD default) (ctx.field_name.getD (EventPipe.cstr (ascii "?"))) v.kind
      v.raw (v.str.getD default) (v.extra.getD default) ctx.caller_str)
    set_reentrant_call false

/-- The parts of the value that is to be set; the quoted text of a string
    is a `char*` like the others. -/
def field_obj_parts (obj : UInt64) : Prog σ FieldValue :=
  if obj = 0 then pure ⟨0, 0, none, none⟩
  else do
    let slotn ← op (H.event_pipe_defer_render_push env obj)
    if slotn ≥ 0 then do
      let ph ← op (H.malloc 3)
      return ⟨0xfe, obj, ph.map fun _ => EventPipe.cstr [0x1a, slotn.toInt.toNat.toUInt8 + 1], none⟩
    else do
      let isString ← vis_is_string H env obj
      if isString then do
        let str ← vis_string_value H env obj
        return ⟨10, obj, str.map EventPipe.cstr, none⟩
      else do
        let isClass ← vis_is_class H env obj
        if isClass then do
          let str ← vis_class_name H env obj
          return ⟨11, obj, str, none⟩
        else do
          let str ← vis_object_class_name H env obj
          let extra ← vis_object_tostring_safe H env obj str
          return ⟨12, obj, str, extra⟩

/-- What the hooks of `hook_fields.c` share: the context, the original
    between what is logged before it and after it, and the end. -/
def fieldHook (receiver field_id caller : UInt64) (is_static : Bool)
    (original : Option (Op σ UInt64)) (before : FieldLogCtx → Prog σ Unit)
    (after : FieldLogCtx → UInt64 → Prog σ Unit) : Prog σ UInt64 := do
  let reentrant ← is_reentrant_call
  match original with
  | none => return 0
  | some f =>
    if reentrant then op f
    else do
      let ctx ← prepare_field_log_ctx H G env receiver field_id caller is_static
      before ctx
      let result ← op f
      after ctx result
      op H.free
      op H.free
      return result

/-- `hooked_Get<Name>Field`, and `hooked_GetStatic<Name>Field`. -/
def hooked_GetField (name : CStr) (slot : Int32) (kind : ReturnKind)
    (receiver field_id caller : UInt64) (is_static : Bool) (original : Option (Op σ UInt64)) :
    Prog σ UInt64 :=
  fieldHook H G env receiver field_id caller is_static original (fun _ => pure ())
    fun ctx result => log_field_access_result H env (some ctx) name slot kind result

/-- `hooked_Set<Name>Field` of a primitive type, and the static one. The
    kind and the word of the value are given by its type. -/
def hooked_SetField (name : CStr) (slot : Int32) (v : FieldValue)
    (receiver field_id caller : UInt64) (is_static : Bool) (original : Option (Op σ UInt64)) :
    Prog σ UInt64 :=
  fieldHook H G env receiver field_id caller is_static original
    (fun ctx => emit_field_access_begin H name slot ctx v) fun _ _ => pure ()

/-- `hooked_SetObjectField`, and `hooked_SetStaticObjectField`. -/
def hooked_SetObjectField (name : CStr) (slot : Int32) (value receiver field_id caller : UInt64)
    (is_static : Bool) (original : Option (Op σ UInt64)) : Prog σ UInt64 :=
  fieldHook H G env receiver field_id caller is_static original
    (fun ctx =>
      if ctx.should_log ∧ ctx.logging_ready then do
        set_reentrant_call true
        let v ← field_obj_parts H env value
        set_reentrant_call false
        emit_field_access_begin H name slot ctx v
        op H.free
        op H.free
      else pure ())
    fun _ _ => pure ()

end Fields

/-! ## Section 4: Logging keeps the frame -/

section Kept

variable {σ Obj α : Type} {V : VM σ Obj} {G : Logging σ} {F : Frame Obj} {d : Nat}
  {env obj : UInt64}

/-- The logging functions on a watched machine: they make no call of JNI
    themselves. -/
def Logging.watch (G : Logging σ) : Logging (Watched σ Obj) where
  should_log_from_caller env caller := beneath (G.should_log_from_caller env caller)
  goGetLoggingReady := beneath G.goGetLoggingReady
  address_of_r caller := beneath (G.address_of_r caller)
  lookup_method_info id := beneath (G.lookup_method_info id)
  lookup_field_info id := beneath (G.lookup_field_info id)
  log_jni_call slot name kind str extra clazz method args id caller :=
    beneath (G.log_jni_call slot name kind str extra clazz method args id caller)
  log_missing_original name := beneath (G.log_missing_original name)

theorem keeping_appendOwned (buf : Option Buf) (s : Option CStr) :
    Keeping (Clean F d) (appendOwned V.watch buf s) := by
  cases s with
  | none => exact Keeping.pure buf
  | some s =>
    refine (keeping_appendEscaped buf s).bind fun buf => ?_
    exact (keeping_beneath _).bind fun _ => Keeping.pure buf

theorem keeping_encodeObject (hobj : Valid V F obj) (buf : Option Buf) :
    Keeping (Clean F d) (encodeObject V.watch env buf obj) := by
  refine (keeping_vis_is_instance _ hobj).bind fun isString => ?_
  refine Triple.ite (fun _ => ?_) fun _ => ?_
  · exact (keeping_vis_string_value_raw hobj).bind fun sv => keeping_appendOwned _ sv
  · refine (keeping_vis_is_instance _ hobj).bind fun isClass => ?_
    refine Triple.ite (fun _ => ?_) fun _ => ?_
    · exact (keeping_vis_class_name hobj).bind fun cn => keeping_appendOwned _ cn
    · refine (keeping_vis_object_class_name hobj).bind fun cn => ?_
      refine (keeping_vis_object_tostring_safe hobj cn).bind fun ts => ?_
      refine Keeping.bind ?_ fun buf => Keeping.bind ?_ fun buf => ?_
      · cases cn with
        | none => exact Keeping.pure buf
        | some cn => exact keeping_appendEscaped buf cn
      · cases ts with
        | none => exact Keeping.pure buf
        | some ts => exact (keeping_append buf _).bind fun buf => keeping_appendOwned buf _
      · exact (keeping_beneath _).bind fun _ => Keeping.pure buf

theorem keeping_encodeArray {arr : UInt64} {elem_sig : UInt8}
    (harr : Fits V F arr (itemSigChar elem_sig)) (buf : Option Buf) :
    Keeping (Clean F d) (encodeArray V.watch env buf elem_sig arr) := by
  refine (keeping_vis_encode_array_items fun _ _ => harr).bind fun items => ?_
  refine Keeping.bind (Triple.ite (fun _ => keeping_append buf _) fun _ => Keeping.pure buf) ?_
  intro buf
  exact (keeping_beneath _).bind fun _ => keeping_append buf _

/-- The words at the places of references are references, and those at the
    places of arrays are arrays with elements of the innermost type: an
    array of arrays of a primitive type is none. -/
def RefsValid (V : VM σ Obj) (F : Frame Obj) : Bytes → List UInt64 → Prop
  | _, [] => True
  | [], _ => True
  | kind_ch :: p, val :: extracted =>
    (kind_ch = 0x4c → Valid V F val) ∧ (kind_ch = 0x5b → Fits V F val (itemSigChar (elemSig p))) ∧
      RefsValid V F (Visualize.skipType (kind_ch :: p)) extracted

theorem primText_eq_none {kind_ch : UInt8} {val : UInt64} (h : primText kind_ch val = none) :
    kind_ch = 0x4c ∨ kind_ch = 0x5b := by
  by_contra hprim
  rw [primText, if_neg hprim] at h
  exact nomatch h

theorem keeping_appendArg (buf : Option Buf) {kind_ch elem_sig : UInt8} {val : UInt64}
    (hobject : kind_ch = 0x4c → Valid V F val)
    (harray : kind_ch = 0x5b → Fits V F val (itemSigChar elem_sig)) :
    Keeping (Clean F d) (appendArg V.watch env buf kind_ch elem_sig val) := by
  unfold appendArg
  cases hprim : primText kind_ch val with
  | some text => exact (keeping_append buf text).bind fun buf => Keeping.pure _
  | none =>
    have hkind := primText_eq_none hprim
    refine Triple.ite (fun _ => Keeping.pure _) fun _ => ?_
    refine Triple.ite (fun h => ?_) fun h => ?_
    · exact (keeping_encodeArray (harray h) buf).bind fun buf => Keeping.pure _
    · have hvalid : Valid V F val := hobject (hkind.resolve_right h)
      exact (keeping_encodeObject hvalid buf).bind fun buf => Keeping.pure _

theorem keeping_typedArgsLoop (extracted : List UInt64) (p : Bytes) (buf : Option Buf)
    (hrefs : RefsValid V F p extracted) :
    Keeping (Clean F d) (typedArgsLoop V.watch env buf p extracted) := by
  induction extracted generalizing p buf with
  | nil => cases p <;> exact Keeping.pure buf
  | cons val extracted ih =>
    cases p with
    | nil => exact Keeping.pure buf
    | cons kind_ch p =>
      refine Triple.ite (fun _ => Keeping.pure buf) fun _ => ?_
      refine (keeping_append buf _).bind fun buf => ?_
      refine (keeping_append buf _).bind fun buf => ?_
      have harray : kind_ch = 0x5b →
          Fits V F val (itemSigChar (if kind_ch = 0x5b then elemSig p else 0)) := by
        intro h
        rw [if_pos h]
        exact hrefs.2.1 h
      refine (keeping_appendArg buf hrefs.1 harray).bind fun r => ?_
      refine Keeping.bind ?_ fun buf => ih _ buf hrefs.2.2
      exact Triple.ite (fun _ => keeping_append r.1 _) fun _ => Keeping.pure r.1

/-- The descriptor of the arguments, behind the bracket. -/
def argTypes (sig : CStr) : Bytes := if sig.val.head? = some 0x28 then sig.val.tail else sig.val

theorem keeping_vis_encode_typed_args (sig : CStr) {extracted : List UInt64}
    (hrefs : RefsValid V F (argTypes sig) extracted) :
    Keeping (Clean F d) (vis_encode_typed_args V.watch env (some sig) extracted) := by
  refine (keeping_beneath _).bind fun block => ?_
  cases block with
  | none => exact Keeping.pure none
  | some block => exact (keeping_typedArgsLoop extracted _ _ hrefs).bind fun buf => Keeping.pure _

/-- An operation beneath has been asked, in some state of the machine. -/
theorem triple_beneath (g : Op σ α) :
    Triple (Clean F d) (op (beneath g : Op (Watched σ Obj) α)) fun a s =>
      (∃ vm, a = (g d vm).1) ∧ Clean F d s := by
  refine Triple.op ?_
  rintro s ⟨rfl, hs⟩
  exact ⟨⟨s.world.vm, rfl⟩, rfl, hs⟩

/-- What the cache says of a method fits the arguments of this call. -/
def CacheFits (V : VM σ Obj) (G : Logging σ) (F : Frame Obj) (method_id : UInt64)
    (extract : CStr → List UInt64) : Prop :=
  ∀ d vm sig, (G.lookup_method_info method_id d vm).1.sig = some sig →
    RefsValid V F (argTypes sig) (extract sig)

variable {method_id caller receiver : UInt64} {extract : CStr → List UInt64}

theorem triple_prepare_common (hpending : F.pending = none) (hcritical : F.critical = false)
    (hreceiver : Valid V F receiver) (hfits : CacheFits V G F method_id extract) :
    Triple (Clean F d)
      (prepare_method_log_ctx_common V.watch G.watch env receiver method_id caller) fun ctx s =>
        (∀ sig, ctx.sig = some sig → RefsValid V F (argTypes sig) (extract sig)) ∧
          Clean F d s := by
  refine keeping_is_reentrant_call.bind fun reentrant => ?_
  refine Triple.ite (fun _ => Triple.pure _ fun s hs => ⟨nofun, hs⟩) fun _ => ?_
  refine (keeping_beneath _).bind fun should_log => ?_
  refine Triple.ite (fun _ => Triple.pure _ fun s hs => ⟨nofun, hs⟩) fun _ => ?_
  refine (keeping_beneath _).bind fun ready => ?_
  refine Triple.ite (fun _ => Triple.pure _ fun s hs => ⟨nofun, hs⟩) fun _ => ?_
  refine Triple.bind triple_open fun _ => ?_
  refine (keeping_beneath _).bind fun caller_str => ?_
  refine (keeping_fill_object_strings hpending hcritical hreceiver).bind fun texts => ?_
  refine Triple.bind (triple_beneath _) fun info => Triple.given fun hinfo => ?_
  refine triple_close.bind fun _ => Triple.pure _ fun s hs => ⟨?_, hs⟩
  intro sig hsig
  obtain ⟨vm, rfl⟩ := hinfo
  exact hfits _ vm sig hsig

theorem keeping_prepare_method_log_ctx (hpending : F.pending = none)
    (hcritical : F.critical = false) (hreceiver : Valid V F receiver)
    (hfits : CacheFits V G F method_id extract) :
    Keeping (Clean F d)
      (prepare_method_log_ctx V.watch G.watch env extract receiver method_id caller) := by
  refine (triple_prepare_common hpending hcritical hreceiver hfits).bind fun ctx => ?_
  refine Triple.given fun hrefs => ?_
  refine Triple.ite (fun _ => Keeping.pure ctx) fun _ => ?_
  cases hsig : ctx.sig with
  | none => exact Keeping.pure ctx
  | some sig =>
    refine Triple.bind triple_open fun _ => ?_
    refine (keeping_vis_encode_typed_args sig (hrefs sig hsig)).bind fun encoded => ?_
    exact triple_close.bind fun _ => Keeping.pure _

theorem keeping_emit_method_call_begin (target : CallTarget) (name : CStr) (slot : Int32)
    (ctx : method_log_ctx_t) (method_id : UInt64) :
    Keeping (Clean F d)
      (emit_method_call_begin (G.watch : Logging (Watched σ Obj)) target name slot ctx
        method_id) := by
  refine keeping_is_reentrant_call.bind fun reentrant => ?_
  exact Triple.ite (fun _ => Keeping.pure ()) fun _ => keeping_beneath _

theorem keeping_fieldReceiver (hpending : F.pending = none) (hcritical : F.critical = false)
    (hreceiver : Valid V F receiver) (is_static : Bool) (clazz_name : Option CStr) :
    Keeping (Clean F d) (fieldReceiver V.watch env receiver is_static clazz_name) := by
  have hfill : Keeping (Clean F d) (fill_object_strings V.watch env receiver) :=
    keeping_fill_object_strings hpending hcritical hreceiver
  cases clazz_name with
  | none => exact hfill.bind fun texts => Keeping.pure _
  | some clazz =>
    refine Triple.ite (fun _ => ?_) fun _ => hfill.bind fun texts => Keeping.pure _
    exact (keeping_beneath _).bind fun str => Keeping.pure _

theorem keeping_prepare_field_log_ctx (hpending : F.pending = none)
    (hcritical : F.critical = false) (hreceiver : Valid V F receiver) (field_id : UInt64)
    (is_static : Bool) :
    Keeping (Clean F d)
      (prepare_field_log_ctx V.watch G.watch env receiver field_id caller is_static) := by
  refine keeping_is_reentrant_call.bind fun reentrant => ?_
  refine Triple.ite (fun _ => Keeping.pure _) fun _ => ?_
  refine (keeping_beneath _).bind fun should_log => ?_
  refine Triple.ite (fun _ => Keeping.pure _) fun _ => ?_
  refine (keeping_beneath _).bind fun ready => ?_
  refine Triple.ite (fun _ => Keeping.pure _) fun _ => ?_
  refine Triple.bind triple_open fun _ => ?_
  refine (keeping_beneath _).bind fun caller_str => ?_
  refine (keeping_beneath _).bind fun info => ?_
  refine (keeping_fieldReceiver hpending hcritical hreceiver is_static info.clazz).bind ?_
  intro r
  exact triple_close.bind fun _ => Keeping.pure _

theorem keeping_emit_field_access_begin (name : CStr) (slot : Int32) (ctx : FieldLogCtx)
    (v : FieldValue) : Keeping (Clean F d) (emit_field_access_begin V.watch name slot ctx v) := by
  refine keeping_is_reentrant_call.bind fun reentrant => ?_
  refine Triple.ite (fun _ => Keeping.pure ()) fun _ => ?_
  refine Triple.bind triple_open fun _ => ?_
  exact (keeping_beneath _).bind fun _ => triple_close

theorem keeping_field_obj_parts (hpending : F.pending = none) (hcritical : F.critical = false)
    (hobj : Valid V F obj) : Keeping (Clean F d) (field_obj_parts V.watch env obj) := by
  refine Triple.ite (fun _ => Keeping.pure _) fun hne => ?_
  have hquiet : V.quiet F [obj] = true :=
    quiet_cons (quiet_nil hpending hcritical) (hobj.resolve_left hne)
  refine (keeping_defer (.inl hquiet)).bind fun slotn => ?_
  refine Triple.ite (fun _ => ?_) fun _ => ?_
  · exact (keeping_beneath _).bind fun ph => Keeping.pure _
  · refine (keeping_vis_is_instance _ hobj).bind fun isString => ?_
    refine Triple.ite (fun _ => ?_) fun _ => ?_
    · exact (keeping_vis_string_value hobj).bind fun str => Keeping.pure _
    · refine (keeping_vis_is_instance _ hobj).bind fun isClass => ?_
      refine Triple.ite (fun _ => ?_) fun _ => ?_
      · exact (keeping_vis_class_name hobj).bind fun str => Keeping.pure _
      · refine (keeping_vis_object_class_name hobj).bind fun str => ?_
        exact (keeping_vis_object_tostring_safe hobj str).bind fun extra => Keeping.pure _

end Kept

/-! ## Section 5: A call with something around it -/

section Around

variable {σ γ : Type}

/-- What a hook does before the original, and after it. -/
structure Around (σ : Type) where
  Ctx : Type
  before : Prog σ Ctx
  after : Ctx → UInt64 → Prog σ Unit

/-- The original is called once. -/
def Around.calling (A : Around σ) (original : Op σ UInt64) : Prog σ UInt64 := do
  let ctx ← A.before
  let result ← op original
  A.after ctx result
  return result

/-- Within a hook scope there is nothing around the call. -/
def unlessReentrant (before : Prog σ γ) (after : γ → UInt64 → Prog σ Unit) : Around σ where
  Ctx := Option γ
  before := do
    let reentrant ← is_reentrant_call
    if reentrant then return none
    else do
      let ctx ← before
      return some ctx
  after ctx result :=
    match ctx with
    | none => pure ()
    | some ctx => after ctx result

theorem unlessReentrant_calling (before : Prog σ γ) (after : γ → UInt64 → Prog σ Unit)
    (original : Op σ UInt64) :
    (unlessReentrant before after).calling original = (do
      let reentrant ← is_reentrant_call
      if reentrant then op original
      else do
        let ctx ← before
        let result ← op original
        after ctx result
        return result) := by
  unfold Around.calling unlessReentrant
  rw [bind_assoc]
  refine bind_congr fun reentrant => ?_
  cases reentrant with
  | true => simp only [if_true, pure_bind, bind_pure]
  | false => simp only [Bool.false_eq_true, if_false, bind_assoc, pure_bind]

variable {Obj : Type}

/-- A hook that may be given any entry, and calls it once: from the frame
    and the depth of the app. What the entry `original` answers there is
    the answer, and the frame it leaves is left; no rule is broken. -/
def Transparent (F : Frame Obj) (d : Nat) (original : Op (Watched σ Obj) UInt64)
    (hook : Op (Watched σ Obj) UInt64 → Prog (Watched σ Obj) UInt64) : Prop :=
  ∃ A : Around (Watched σ Obj), hook = A.calling ∧
    ∀ s, Clean F d s → Clean F d (A.before s).2 ∧
      (hook original s).1 = (op original (A.before s).2).1 ∧
      ∃ F', Clean F' d (op original (A.before s).2).2 ∧ Clean F' d (hook original s).2

/-- From the frame of the app the entry keeps the rules. It leaves no
    critical section, and an object it answers may be used. -/
def Behaves (V : VM σ Obj) (F : Frame Obj) (d : Nat) (kind : ReturnKind)
    (original : Op (Watched σ Obj) UInt64) : Prop :=
  Triple (Clean F d) (op original) fun result s =>
    ∃ F', Clean F' d s ∧ F'.critical = false ∧ Returned V F' kind result

variable {V : VM σ Obj} {F : Frame Obj} {d : Nat} {kind : ReturnKind}
  {original : Op (Watched σ Obj) UInt64}

theorem transparent_calling {A : Around (Watched σ Obj)} (hbehaves : Behaves V F d kind original)
    (hbefore : Keeping (Clean F d) A.before)
    (hafter : ∀ F' ctx result, F'.critical = false → Returned V F' kind result →
      Keeping (Clean F' d) (A.after ctx result)) :
    Transparent F d original A.calling := by
  refine ⟨A, rfl, fun s hs => ⟨hbefore s hs, rfl, ?_⟩⟩
  obtain ⟨F', hleft, hcritical, hreturned⟩ := hbehaves _ (hbefore s hs)
  exact ⟨F', hleft, hafter F' _ _ hcritical hreturned _ hleft⟩

theorem keeping_unlessReentrant {γ : Type} {before : Prog (Watched σ Obj) γ}
    {after : γ → UInt64 → Prog (Watched σ Obj) Unit} (h : Keeping (Clean F d) before) :
    Keeping (Clean F d) (unlessReentrant before after).before :=
  keeping_is_reentrant_call.bind fun _ =>
    Triple.ite (fun _ => Keeping.pure none) fun _ => h.bind fun _ => Keeping.pure _

end Around

/-! ## Section 6: Method and field hooks -/

section Hooks

variable {σ Obj : Type} {V : VM σ Obj} {G : Logging σ} {F : Frame Obj} {d : Nat} {env : UInt64}

/-- What a call of the app answers: a new reference, or another value. -/
def invoke (V : VM σ Obj) (kind : ReturnKind) : UInt64 → σ → Frame Obj → UInt64 × Frame Obj :=
  if kind = .RET_OBJECT then V.newRef else V.orThrow

/-- An entry of the original table that answers, or throws: `refs` is what
    it gets of objects. -/
def originalEntry (V : VM σ Obj) (kind : ReturnKind) (refs : List UInt64) (f : Op σ UInt64) :
    Op (Watched σ Obj) UInt64 :=
  ruled (V.quiet · refs) f (invoke V kind)

theorem pending_of_quiet {refs : List UInt64} (hquiet : V.quiet F refs = true) :
    F.pending = none ∧ F.critical = false := by
  unfold VM.quiet at hquiet
  rw [Bool.and_eq_true, Bool.and_eq_true, Option.isNone_iff_eq_none, Bool.not_eq_true'] at hquiet
  exact ⟨hquiet.1.2, hquiet.1.1⟩

theorem critical_invoke (kind : ReturnKind) (a : UInt64) (vm : σ) :
    (invoke V kind a vm F).2.critical = F.critical := by
  unfold invoke
  split
  · exact newRef_critical V a vm F
  · exact orThrow_critical V a vm F

/-- An object that is answered may be used. -/
theorem returned_invoke (kind : ReturnKind) (a : UInt64) (vm : σ) :
    Returned V (invoke V kind a vm F).2 kind (invoke V kind a vm F).1 := by
  rintro hkind -
  unfold invoke
  rw [if_pos hkind]
  exact newRef_alive V a vm F

theorem behaves_originalEntry {kind : ReturnKind} {refs : List UInt64} {f : Op σ UInt64}
    (hquiet : V.quiet F refs = true) : Behaves V F d kind (originalEntry V kind refs f) := by
  have hcritical := (pending_of_quiet hquiet).2
  refine triple_ruled hquiet ?_
  intro a vm s hs
  exact ⟨_, hs, (critical_invoke kind a vm).trans hcritical, returned_invoke kind a vm⟩

/-- **Method hooks are transparent.** Nothing is pending and no critical
    section is open when the app calls, the receiver may be used, and what
    the cache says of the method fits the arguments. Then the hook, of any
    of the families, is one call of the original from the frame of the app
    and at its depth. It answers what the original answers, and leaves the
    frame that the original leaves: the exception that is pending, the
    local references and what is borrowed. No rule is broken. -/
theorem method_hook_transparent (target : CallTarget) (name : CStr) (slot : Int32)
    (kind : ReturnKind) (extract : CStr → List UInt64) (receiver method_id caller : UInt64)
    (original : Op (Watched σ Obj) UInt64) (hpending : F.pending = none)
    (hcritical : F.critical = false) (hreceiver : Valid V F receiver)
    (hfits : CacheFits V G F method_id extract) (hbehaves : Behaves V F d kind original) :
    Transparent F d original fun entry =>
      methodHook V.watch G.watch env target name slot kind extract receiver method_id caller
        (some entry) := by
  -- the hook is one call of its entry, with the logging around it
  have hshape : (fun entry : Op (Watched σ Obj) UInt64 =>
      methodHook V.watch G.watch env target name slot kind extract receiver method_id caller
        (some entry)) = (unlessReentrant
          (do
            let ctx ← prepare_method_log_ctx V.watch G.watch env extract receiver method_id caller
            emit_method_call_begin G.watch target name slot ctx method_id
            return ctx)
          fun ctx result => do
            log_method_return_value V.watch env (some ctx.toMethodLogCtx) name slot kind result
            op V.watch.free
            op V.watch.free
            op V.watch.free).calling := by
    funext entry
    rw [unlessReentrant_calling]
    rfl
  rw [hshape]
  refine transparent_calling hbehaves ?_ ?_
  · refine keeping_unlessReentrant ?_
    refine (keeping_prepare_method_log_ctx hpending hcritical hreceiver hfits).bind fun ctx => ?_
    exact (keeping_emit_method_call_begin target name slot ctx method_id).bind fun _ =>
      Keeping.pure ctx
  · -- after the call, in the frame it has left
    intro F' ctx result hcrit hreturned
    cases ctx with
    | none => exact Keeping.pure ()
    | some ctx =>
      refine (keeping_log_method_return_value _ name slot hcrit hreturned).bind fun _ => ?_
      exact (keeping_beneath _).bind fun _ => (keeping_beneath _).bind fun _ => keeping_beneath _

/-- The shape of the field hooks. -/
theorem transparent_fieldHook {kind : ReturnKind} {original : Op (Watched σ Obj) UInt64}
    {receiver field_id caller : UInt64} {is_static : Bool}
    {before : FieldLogCtx → Prog (Watched σ Obj) Unit}
    {after : FieldLogCtx → UInt64 → Prog (Watched σ Obj) Unit}
    (hpending : F.pending = none) (hcritical : F.critical = false) (hreceiver : Valid V F receiver)
    (hbehaves : Behaves V F d kind original) (hbefore : ∀ ctx, Keeping (Clean F d) (before ctx))
    (hafter : ∀ F' ctx result, F'.critical = false → Returned V F' kind result →
      Keeping (Clean F' d) (after ctx result)) :
    Transparent F d original fun entry =>
      fieldHook V.watch G.watch env receiver field_id caller is_static (some entry) before
        after := by
  have hshape : (fun entry : Op (Watched σ Obj) UInt64 =>
      fieldHook V.watch G.watch env receiver field_id caller is_static (some entry) before after) =
        (unlessReentrant
          (do
            let ctx ← prepare_field_log_ctx V.watch G.watch env receiver field_id caller is_static
            before ctx
            return ctx)
          fun ctx result => do
            after ctx result
            op V.watch.free
            op V.watch.free).calling := by
    funext entry
    rw [unlessReentrant_calling]
    rfl
  rw [hshape]
  refine transparent_calling hbehaves ?_ ?_
  · refine keeping_unlessReentrant ?_
    refine (keeping_prepare_field_log_ctx hpending hcritical hreceiver field_id is_static).bind ?_
    exact fun ctx => (hbefore ctx).bind fun _ => Keeping.pure ctx
  · -- after the call, in the frame it has left
    intro F' ctx result hcrit hreturned
    cases ctx with
    | none => exact Keeping.pure ()
    | some ctx =>
      refine (hafter F' ctx result hcrit hreturned).bind fun _ => ?_
      exact (keeping_beneath _).bind fun _ => keeping_beneath _

/-- A getter, a setter of a primitive field and a setter of an object
    field are the call of the original, with its answer and its frame. -/
structure FieldTransparent (V : VM σ Obj) (G : Logging σ) (env : UInt64) (F : Frame Obj) (d : Nat)
    (name : CStr) (slot : Int32) (receiver field_id caller : UInt64) (is_static : Bool) : Prop where
  get : ∀ kind original, Behaves V F d kind original →
    Transparent F d original fun entry =>
      hooked_GetField V.watch G.watch env name slot kind receiver field_id caller is_static
        (some entry)
  set : ∀ v original, Behaves V F d .RET_VOID original →
    Transparent F d original fun entry =>
      hooked_SetField V.watch G.watch env name slot v receiver field_id caller is_static
        (some entry)
  setObject : ∀ value original, Valid V F value → Behaves V F d .RET_VOID original →
    Transparent F d original fun entry =>
      hooked_SetObjectField V.watch G.watch env name slot value receiver field_id caller is_static
        (some entry)

/-- **Field hooks are transparent**, the static ones and the others. -/
theorem field_hook_transparent (name : CStr) (slot : Int32) (receiver field_id caller : UInt64)
    (is_static : Bool) (hpending : F.pending = none) (hcritical : F.critical = false)
    (hreceiver : Valid V F receiver) :
    FieldTransparent V G env F d name slot receiver field_id caller is_static where
  get kind original hbehaves := by
    refine transparent_fieldHook hpending hcritical hreceiver hbehaves ?_ ?_
    · exact fun ctx => Keeping.pure ()
    · exact fun F' ctx result hcrit hreturned =>
        keeping_log_field_access_result _ name slot hcrit hreturned
  set v original hbehaves := by
    refine transparent_fieldHook hpending hcritical hreceiver hbehaves ?_ ?_
    · exact fun ctx => keeping_emit_field_access_begin name slot ctx v
    · exact fun F' ctx result _ _ => Keeping.pure ()
  setObject value original hvalue hbehaves := by
    refine transparent_fieldHook hpending hcritical hreceiver hbehaves ?_ ?_
    · intro ctx
      refine Keeping.optional fun _ => ?_
      refine Triple.bind triple_open fun _ => ?_
      refine (keeping_field_obj_parts hpending hcritical hvalue).bind fun v => ?_
      refine Triple.bind triple_close fun _ => ?_
      refine (keeping_emit_field_access_begin name slot ctx v).bind fun _ => ?_
      exact (keeping_beneath _).bind fun _ => keeping_beneath _
    · exact fun F' ctx result _ _ => Keeping.pure ()

end Hooks

/-! ## Section 7: Calls that are logged -/

/-- `(LA;I)V`. -/
def objectAndInt : CStr := ⟨[0x28, 0x4c, 0x41, 0x3b, 0x49, 0x29, 0x56], by decide⟩

/-- Everything is logged, and every method takes an object and an `int`. -/
def loggingAll : Logging Unit where
  should_log_from_caller := fun _ _ _ s => (true, s)
  goGetLoggingReady := fun _ s => (true, s)
  address_of_r := fun _ _ s => (default, s)
  lookup_method_info := fun _ _ s => (⟨none, some objectAndInt, none⟩, s)
  lookup_field_info := fun _ _ s => (⟨none, none, none⟩, s)
  log_jni_call := fun _ _ _ _ _ _ _ _ _ _ _ s => ((), s)
  log_missing_original := fun _ _ s => ((), s)

theorem cacheFits_objectAndInt : CacheFits answering loggingAll twoLocals 1 fun _ => [6, 3] := by
  intro d vm sig hsig
  obtain rfl := Option.some.inj hsig
  have htypes : argTypes objectAndInt = [0x4c, 0x41, 0x3b, 0x49, 0x29, 0x56] := by decide
  have hskip : Visualize.skipType [0x4c, 0x41, 0x3b, 0x49, 0x29, 0x56] = [0x49, 0x29, 0x56] := by
    decide
  rw [htypes]
  refine ⟨fun _ => .inr rfl, fun hkind => absurd hkind (by decide), ?_⟩
  rw [hskip]
  refine ⟨fun hkind => absurd hkind (by decide), fun hkind => absurd hkind (by decide), ?_⟩
  exact trivial

/-- A call that is logged, of a method that answers an object. -/
theorem method_hook_transparent_logged :
    Transparent twoLocals 0 (originalEntry answering .RET_OBJECT [5, 6] fun _ s => (9, s))
      fun entry =>
        methodHook answering.watch loggingAll.watch 1 .CALL_TARGET_INSTANCE default 34 .RET_OBJECT
          (fun _ => [6, 3]) 5 1 2 (some entry) :=
  method_hook_transparent .CALL_TARGET_INSTANCE default 34 .RET_OBJECT (fun _ => [6, 3]) 5 1 2
    (originalEntry answering .RET_OBJECT [5, 6] fun _ s => (9, s)) rfl rfl (.inr rfl)
    cacheFits_objectAndInt (behaves_originalEntry rfl)

/-- A getter of an object field that throws nothing. -/
theorem field_hook_transparent_logged :
    Transparent twoLocals 0 (originalEntry answering .RET_OBJECT [5] fun _ s => (9, s))
      fun entry =>
        hooked_GetField answering.watch loggingAll.watch 1 default 95 .RET_OBJECT 5 1 2 false
          (some entry) :=
  (field_hook_transparent default 95 5 1 2 false rfl rfl (.inr rfl)).get .RET_OBJECT
    (originalEntry answering .RET_OBJECT [5] fun _ s => (9, s)) (behaves_originalEntry rfl)

/-- `([[I)V`. -/
def matrix : CStr := ⟨[0x28, 0x5b, 0x5b, 0x49, 0x29, 0x56], by decide⟩

/-- The elements of an `int[][]` are asked for as if they were numbers. -/
theorem encode_matrix_misused :
    (vis_encode_typed_args answering.watch 1 (some matrix) [13]
      ⟨⟨(), twoArrays, false⟩, 0⟩).2.world.misused = true := by
  decide +kernel

end JniLog.HookTransparency
