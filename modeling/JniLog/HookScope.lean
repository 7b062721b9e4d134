import JniLog.Framework.Brackets
import JniLog.EventPipe.Deferred
import JniLog.WireEscape

/-! # The scope of the hooks

    `g_in_hook` of `hook_common.c` counts the hook scopes a thread is in.
    The helpers of `visualize.c`, and the loggers of `hook_logging.c` over
    them, open and close a scope by hand around their JNI calls, on each
    of their paths; the loop over an object array closes the scope it is
    in and opens it again.

    * The counter is zero at first and changed by `set_reentrant_call`
      only, so it is never negative.
    * A JNI call, an allocation or an emitted event is an operation on a
      world of which nothing is known. It may depend on the counter, and
      leaves it as it was.
    * NULL is 0 for handles, and `none` for strings and functions.

    Main result: every helper and every logger returns with the counter as
    it was, `hooks_scoped`. -/

namespace JniLog.HookScope

open Bytes Brackets Grow

/-! ## Section 1: What the helpers call -/

/-- `g_original_jni_table`. The functions it is checked for may be NULL.
    Elements of a primitive array are read through a pointer. -/
structure Jni (σ : Type) where
  ExceptionCheck : Option (Op σ Bool)
  ExceptionClear : Op σ Unit
  FindClass : Option (Bytes → Op σ UInt64)
  IsInstanceOf : Option (UInt64 → UInt64 → Op σ Bool)
  DeleteLocalRef : UInt64 → Op σ Unit
  GetObjectClass : UInt64 → Op σ UInt64
  GetMethodID : UInt64 → Bytes → Bytes → Op σ UInt64
  CallObjectMethod : UInt64 → UInt64 → Op σ UInt64
  GetStringUTFChars : UInt64 → Op σ (Option CStr)
  ReleaseStringUTFChars : UInt64 → Op σ Unit
  GetArrayLength : UInt64 → Op σ Int32
  GetBooleanArrayElements : UInt64 → Op σ (Option (Nat → UInt8))
  GetByteArrayElements : UInt64 → Op σ (Option (Nat → Int8))
  GetCharArrayElements : UInt64 → Op σ (Option (Nat → UInt16))
  GetShortArrayElements : UInt64 → Op σ (Option (Nat → Int16))
  GetIntArrayElements : UInt64 → Op σ (Option (Nat → Int32))
  GetLongArrayElements : UInt64 → Op σ (Option (Nat → Int64))
  GetFloatArrayElements : UInt64 → Op σ (Option (Nat → UInt32))
  GetDoubleArrayElements : UInt64 → Op σ (Option (Nat → UInt64))
  ReleaseBooleanArrayElements : UInt64 → Op σ Unit
  ReleaseByteArrayElements : UInt64 → Op σ Unit
  ReleaseCharArrayElements : UInt64 → Op σ Unit
  ReleaseShortArrayElements : UInt64 → Op σ Unit
  ReleaseIntArrayElements : UInt64 → Op σ Unit
  ReleaseLongArrayElements : UInt64 → Op σ Unit
  ReleaseFloatArrayElements : UInt64 → Op σ Unit
  ReleaseDoubleArrayElements : UInt64 → Op σ Unit
  GetObjectArrayElement : UInt64 → Int32 → Op σ UInt64

/-- The rest of the process. -/
structure Host (σ : Type) where
  g_original_jni_table : Option (Jni σ)
  is_jni_critical : Op σ Int32
  g_class_name_only : Op σ Bool
  malloc : Nat → Op σ (Option Bytes)
  strdup : CStr → Op σ (Option CStr)
  realloc : Realloc σ
  free : Op σ Unit
  event_pipe_defer_render_push : UInt64 → UInt64 → Op σ Int32
  log_jni_return : Int32 → CStr → Int32 → UInt64 → CStr → CStr → Op σ Unit
  log_jni_field_access : Int32 → CStr → Int32 → CStr → CStr → CStr → Int32 → UInt64 → CStr → CStr →
    CStr → Op σ Unit

/-- `is_reentrant_call`. -/
def is_reentrant_call {σ : Type} : Prog σ Bool := do
  return (← depth) > 0

def set_reentrant_call {σ : Type} (val : Bool) : Prog σ Unit :=
  if val then enter else leave

/-! ## Section 2: The helpers of visualize.c -/

section Helpers

variable {σ : Type} (H : Host σ) (env : UInt64)

/-- `ExceptionCheck(env)`, after `vis_safe_to_call` has seen that there is
    one. -/
def exceptionCheck (J : Jni σ) : Prog σ Bool :=
  match J.ExceptionCheck with
  | some check => op check
  | none => pure false

/-- The table, when calls are safe; `none` is 0. -/
def vis_safe_to_call : Prog σ (Option (Jni σ)) :=
  match H.g_original_jni_table with
  | none => pure none
  | some J =>
    if env = 0 then pure none
    else do
      let critical ← op H.is_jni_critical
      if critical ≠ 0 then return none
      else
        match J.ExceptionCheck with
        | none => return none
        | some check => do
          let pending ← op check
          return if pending then none else some J

/-- `obj == NULL || !vis_safe_to_call(env)` is `none`. -/
def callable (obj : UInt64) : Prog σ (Option (Jni σ)) :=
  if obj = 0 then pure none else vis_safe_to_call H env

/-- `vis_is_string` and `vis_is_class`, which differ in the class. -/
def vis_is_instance (name : Bytes) (obj : UInt64) : Prog σ Bool := do
  match ← callable H env obj with
  | none => return false
  | some J => do
    set_reentrant_call true
    match J.FindClass, J.IsInstanceOf with
    | some findClass, some isInstanceOf => do
      let c ← op (findClass name)
      if c = 0 then do
        op J.ExceptionClear
        set_reentrant_call false
        return false
      else do
        let r ← op (isInstanceOf obj c)
        op (J.DeleteLocalRef c)
        set_reentrant_call false
        return r
    | _, _ => do
      set_reentrant_call false
      return false

def vis_is_string (obj : UInt64) : Prog σ Bool :=
  vis_is_instance H env (ascii "java/lang/String") obj

def vis_is_class (obj : UInt64) : Prog σ Bool :=
  vis_is_instance H env (ascii "java/lang/Class") obj

/-- `if (ExceptionCheck(env)) ExceptionClear(env);` -/
def clearPending (J : Jni σ) : Prog σ Unit := do
  let pending ← exceptionCheck J
  if pending then op J.ExceptionClear else pure ()

/-- A copy of the characters of a string. -/
def copyChars (J : Jni σ) (s : UInt64) : Prog σ (Option CStr) := do
  match ← op (J.GetStringUTFChars s) with
  | none => return none
  | some c => do
    let res ← op (H.strdup c)
    op (J.ReleaseStringUTFChars s)
    return res

/-- The same of a local reference, which is deleted afterwards. -/
def takeChars (J : Jni σ) (s : UInt64) : Prog σ (Option CStr) :=
  if s ≠ 0 then do
    let res ← copyChars H J s
    op (J.DeleteLocalRef s)
    return res
  else pure none

/-- The answer of `getName`. -/
def callGetName (J : Jni σ) (clazz mid : UInt64) : Prog σ (Option CStr) :=
  if mid ≠ 0 then do
    let ns ← op (J.CallObjectMethod clazz mid)
    clearPending J
    takeChars H J ns
  else do
    op J.ExceptionClear
    return none

def vis_class_name (clazz : UInt64) : Prog σ (Option CStr) := do
  match ← callable H env clazz with
  | none => return none
  | some J => do
    set_reentrant_call true
    let cc ← op (J.GetObjectClass clazz)
    if cc = 0 then do
      clearPending J
      set_reentrant_call false
      return none
    else do
      let mid ← op (J.GetMethodID cc (ascii "getName") (ascii "()Ljava/lang/String;"))
      let res ← callGetName H J clazz mid
      op (J.DeleteLocalRef cc)
      set_reentrant_call false
      return res

def vis_object_class_name (obj : UInt64) : Prog σ (Option CStr) := do
  match ← callable H env obj with
  | none => return none
  | some J => do
    set_reentrant_call true
    let c ← op (J.GetObjectClass obj)
    if c = 0 then do
      set_reentrant_call false
      return none
    else do
      set_reentrant_call false
      let res ← vis_class_name H env c
      set_reentrant_call true
      op (J.DeleteLocalRef c)
      set_reentrant_call false
      return res

def vis_tostring_blocklist : List Bytes :=
  [ascii "com.facebook.react.bridge.WritableNativeMap",
    ascii "com.facebook.react.bridge.ReadableNativeMap",
    ascii "com.facebook.react.bridge.WritableNativeArray",
    ascii "com.facebook.react.bridge.ReadableNativeArray",
    ascii "com.facebook.react.bridge.NativeMap",
    ascii "com.facebook.react.bridge.NativeArray"]

def vis_is_tostring_blocked (class_name : Option CStr) : Bool :=
  match class_name with
  | none => false
  | some name => vis_tostring_blocklist.any fun blocked => name.val = blocked

/-- The class name to look up in the blocklist. -/
def checkedName (obj : UInt64) (class_name : Option CStr) : Prog σ (Option CStr) :=
  match class_name with
  | some name => pure (some name)
  | none => vis_object_class_name H env obj

/-- `vis_object_tostring_safe` after the checks. -/
def callToString (J : Jni σ) (obj : UInt64) : Prog σ (Option CStr) := do
  set_reentrant_call true
  let c ← op (J.GetObjectClass obj)
  if c = 0 then do
    set_reentrant_call false
    return none
  else do
    let mid ← op (J.GetMethodID c (ascii "toString") (ascii "()Ljava/lang/String;"))
    if mid ≠ 0 then do
      let s ← op (J.CallObjectMethod obj mid)
      let threw ← exceptionCheck J
      if threw then do
        op J.ExceptionClear
        (if s ≠ 0 then op (J.DeleteLocalRef s) else pure ())
        op (J.DeleteLocalRef c)
        set_reentrant_call false
        return none
      else do
        let res ← takeChars H J s
        op (J.DeleteLocalRef c)
        set_reentrant_call false
        return res
    else do
      op J.ExceptionClear
      op (J.DeleteLocalRef c)
      set_reentrant_call false
      return none

def vis_object_tostring_safe (obj : UInt64) (class_name : Option CStr) : Prog σ (Option CStr) := do
  match ← callable H env obj with
  | none => return none
  | some J => do
    let nameOnly ← op H.g_class_name_only
    if nameOnly then return none
    else do
      let check_name ← checkedName H env obj class_name
      op H.free
      if vis_is_tostring_blocked check_name then return none else callToString H J obj

/-- The characters between quotes, in a new block. -/
def quotedChars (J : Jni σ) (str : UInt64) : Prog σ (Option Bytes) := do
  match ← op (J.GetStringUTFChars str) with
  | none => return none
  | some c => do
    let need := c.val.length + 3
    let block ← op (H.malloc need)
    op (J.ReleaseStringUTFChars str)
    return block.map fun _ => JlFmt.snprintf need (ascii "\"%s\"") [.str (some c)]

def vis_string_value (str : UInt64) : Prog σ (Option Bytes) := do
  match ← callable H env str with
  | none => return none
  | some J => do
    set_reentrant_call true
    let res ← quotedChars H J str
    set_reentrant_call false
    return res

def vis_string_value_raw (str : UInt64) : Prog σ (Option CStr) := do
  match ← callable H env str with
  | none => return none
  | some J => do
    set_reentrant_call true
    let res ← copyChars H J str
    set_reentrant_call false
    return res

end Helpers

/-! ## Section 3: Arrays -/

section Arrays

variable {σ : Type} (H : Host σ) (env : UInt64)

/-- `vea_append`; `VEA_CH` is the same for one character. -/
def append (buf : Option Buf) (src : Bytes) : Prog σ (Option Buf) :=
  op fun _ w => WireEscape.vea_append H.realloc buf src w

/-- `vea_append_escaped` of a string. -/
def appendEscaped (buf : Option Buf) (s : CStr) : Prog σ (Option Buf) :=
  op fun _ w => WireEscape.vea_append_escaped H.realloc buf s.val s.val.length w

/-- The items of a primitive array: one of eight cases that differ in how
    an element is written. -/
def primItems {α : Type} (get : Op σ (Option (Nat → α))) (release : Op σ Unit)
    (text : α → Bytes) (count : Nat) (buf : Option Buf) : Prog σ (Option Buf) := do
  match ← op get with
  | none => return buf
  | some elems => do
    let buf ← loop (fun i buf => do
      let buf ← append H buf [0x04]
      append H buf (text (elems i))) (List.range count) buf
    op release
    return buf

/-- The text of an element that is not null. -/
def objectItem (elem : UInt64) (buf : Option Buf) : Prog σ (Option Buf) := do
  let isString ← vis_is_string H env elem
  if isString then do
    match ← vis_string_value_raw H env elem with
    | some sv => do
      let buf ← appendEscaped H buf sv
      op H.free
      return buf
    | none => append H buf []
  else do
    let cn ← vis_object_class_name H env elem
    let ts ← vis_object_tostring_safe H env elem cn
    let buf ← (match cn with
      | some cn => do
        let buf ← appendEscaped H buf cn
        op H.free
        pure buf
      | none => pure buf)
    match ts with
    | some ts => do
      let buf ← append H buf [0x03]
      let buf ← appendEscaped H buf ts
      op H.free
      return buf
    | none => return buf

/-- A round of the loop over an object array, which closes the scope and
    opens it again; `none` is the `break`. -/
def elementRound (J : Jni σ) (arr : UInt64) (i : Nat) (buf : Option Buf) :
    Prog σ (Option (Option Buf)) := do
  set_reentrant_call false
  let elem ← op (J.GetObjectArrayElement arr (Int32.ofNat i))
  let pending ← exceptionCheck J
  if pending then do
    op J.ExceptionClear
    set_reentrant_call true
    return none
  else do
    let buf ← append H buf [0x04]
    let buf ← (if elem = 0 then append H buf (ascii "null") else objectItem H env elem buf)
    op (J.DeleteLocalRef elem)
    set_reentrant_call true
    return some buf

/-- The `switch` on the signature of the items. -/
def arrayItems (J : Jni σ) (arr : UInt64) (itemSigChar : UInt8) (count : Nat)
    (buf : Option Buf) : Prog σ (Option Buf) :=
  if itemSigChar = 0x5a then
    primItems H (J.GetBooleanArrayElements arr) (J.ReleaseBooleanArrayElements arr)
      (fun z => if z ≠ 0 then ascii "1" else ascii "0") count buf
  else if itemSigChar = 0x42 then
    primItems H (J.GetByteArrayElements arr) (J.ReleaseByteArrayElements arr)
      (fun b => Visualize.fmtWord "%d" (Visualize.intWord b.toInt32)) count buf
  else if itemSigChar = 0x43 then
    primItems H (J.GetCharArrayElements arr) (J.ReleaseCharArrayElements arr)
      (fun c => Visualize.fmtWord "%u" c.toUInt64) count buf
  else if itemSigChar = 0x53 then
    primItems H (J.GetShortArrayElements arr) (J.ReleaseShortArrayElements arr)
      (fun s => Visualize.fmtWord "%d" (Visualize.intWord s.toInt32)) count buf
  else if itemSigChar = 0x49 then
    primItems H (J.GetIntArrayElements arr) (J.ReleaseIntArrayElements arr)
      (fun i => Visualize.fmtWord "%d" (Visualize.intWord i)) count buf
  else if itemSigChar = 0x4a then
    primItems H (J.GetLongArrayElements arr) (J.ReleaseLongArrayElements arr)
      (fun j => Visualize.fmtWord "%lld" j.toUInt64) count buf
  else if itemSigChar = 0x46 then
    primItems H (J.GetFloatArrayElements arr) (J.ReleaseFloatArrayElements arr)
      (fun f => Visualize.fmtDouble "%.9g" (Visualize.widen f)) count buf
  else if itemSigChar = 0x44 then
    primItems H (J.GetDoubleArrayElements arr) (J.ReleaseDoubleArrayElements arr)
      (fun d => Visualize.fmtDouble "%.17g" d) count buf
  else if itemSigChar = 0x4c then
    breakLoop (elementRound H env J arr) (List.range count) buf
  else pure buf

/-- `"+N"`, when items are left out. -/
def omittedItems (total : Int32) (buf : Option Buf) : Prog σ (Option Buf) :=
  if total > 16 then do
    let buf ← append H buf [0x04]
    append H buf (Visualize.fmtWord "+%d" (Visualize.intWord (total - 16)))
  else pure buf

/-- The new block, as an empty string. -/
def emptyString (block : Bytes) : Buf := ⟨0 :: block.tail, 0, rfl⟩

/-- The text of the buffer, or NULL. An array that cannot be looked at
    has the empty text. -/
def vis_encode_array_items (arr : UInt64) (itemSigChar : UInt8) : Prog σ (Option Bytes) := do
  match ← callable H env arr with
  | none => do
    let empty ← op (H.strdup default)
    return empty.map Subtype.val
  | some J => do
    match ← op (H.malloc 512) with
    | none => return none
    | some block => do
      let buf ← append H (some (emptyString block)) [itemSigChar]
      set_reentrant_call true
      let total ← op (J.GetArrayLength arr)
      let count := if total > 16 then 16 else total
      let buf ← arrayItems H env J arr itemSigChar count.toInt.toNat buf
      let buf ← omittedItems H total buf
      set_reentrant_call false
      return buf.map Buf.text

end Arrays

/-! ## Section 4: The loggers of hook_logging.c -/

/-- `return_kind_t`. -/
inductive ReturnKind where
  | RET_OBJECT | RET_BOOLEAN | RET_BYTE | RET_CHAR | RET_SHORT | RET_INT | RET_LONG | RET_FLOAT
  | RET_DOUBLE | RET_VOID
  deriving DecidableEq, Repr

def return_kind_to_wire : ReturnKind → Int32
  | .RET_OBJECT => 12
  | .RET_BOOLEAN => 2
  | .RET_BYTE => 3
  | .RET_CHAR => 4
  | .RET_SHORT => 5
  | .RET_INT => 6
  | .RET_LONG => 7
  | .RET_FLOAT => 8
  | .RET_DOUBLE => 9
  | .RET_VOID => 1

/-- `raw` of the value, from the bits of `jni_return_value_t`. -/
def rawValue (value : UInt64) : ReturnKind → UInt64
  | .RET_BOOLEAN | .RET_BYTE => value.toUInt8.toUInt64
  | .RET_CHAR | .RET_SHORT => value.toUInt16.toUInt64
  | .RET_INT | .RET_FLOAT => value.toUInt32.toUInt64
  | .RET_LONG | .RET_DOUBLE | .RET_OBJECT => value
  | .RET_VOID => 0

/-- What the loggers read of `method_log_ctx_t`. -/
structure MethodLogCtx where
  should_log : Bool
  logging_ready : Bool

/-- What they read of `field_log_ctx_t`. -/
structure FieldLogCtx where
  should_log : Bool
  logging_ready : Bool
  receiver_kind : Int32
  receiver_str : Option CStr
  receiver_extra : Option CStr
  field_name : Option CStr
  caller_str : CStr

def classify_object (obj : UInt64) : Int32 := if obj = 0 then 0 else 0xfe

section Loggers

variable {σ : Type} (H : Host σ) (env : UInt64)

def has_no_exception : Prog σ Bool :=
  if env = 0 then pure false
  else
    match H.g_original_jni_table with
    | none => pure false
    | some J =>
      match J.ExceptionCheck with
      | none => pure false
      | some check => do
        let pending ← op check
        return !pending

/-- `*out_str` and `*out_extra`. -/
def fill_object_strings (obj : UInt64) : Prog σ (Option CStr × Option CStr) :=
  if obj = 0 ∨ env = 0 then pure (none, none)
  else do
    let slotn ← op (H.event_pipe_defer_render_push env obj)
    if slotn ≥ 0 then do
      let ph ← op (H.malloc 3)
      return (ph.map fun _ => EventPipe.cstr [0x1a, slotn.toInt.toNat.toUInt8 + 1], none)
    else do
      let isString ← vis_is_string H env obj
      if isString then do
        let str ← vis_string_value_raw H env obj
        return (str, none)
      else do
        let isClass ← vis_is_class H env obj
        if isClass then do
          let str ← vis_class_name H env obj
          return (str, none)
        else do
          let str ← vis_object_class_name H env obj
          let extra ← vis_object_tostring_safe H env obj str
          return (str, extra)

/-- The kind and the texts of a value. -/
def valueParts (kind : ReturnKind) (value : UInt64) :
    Prog σ (Int32 × Option CStr × Option CStr) :=
  if kind = .RET_OBJECT then
    if value ≠ 0 ∧ env ≠ 0 then do
      let (str, extra) ← fill_object_strings H env value
      return (classify_object value, str, extra)
    else pure (0, none, none)
  else pure (return_kind_to_wire kind, none, none)

def log_method_return_value (ctx : Option MethodLogCtx) (name : CStr) (slot : Int32)
    (kind : ReturnKind) (value : UInt64) : Prog σ Unit := do
  let reentrant ← is_reentrant_call
  match ctx with
  | none => return ()
  | some ctx =>
    if ¬ ctx.should_log ∨ ¬ ctx.logging_ready ∨ reentrant then return ()
    else do
      let clean ← has_no_exception H env
      if ¬ clean then op (H.log_jni_return slot name 0 0 default default)
      else do
        set_reentrant_call true
        let (wkind, str, extra) ← valueParts H env kind value
        op (H.log_jni_return slot name wkind (rawValue value kind) (str.getD default)
          (extra.getD default))
        op H.free
        op H.free
        set_reentrant_call false

def log_field_access_result (ctx : Option FieldLogCtx) (name : CStr) (slot : Int32)
    (kind : ReturnKind) (value : UInt64) : Prog σ Unit := do
  let reentrant ← is_reentrant_call
  match ctx with
  | none => return ()
  | some ctx =>
    let log := H.log_jni_field_access slot name ctx.receiver_kind (ctx.receiver_str.getD default)
      (ctx.receiver_extra.getD default) (ctx.field_name.getD (EventPipe.cstr (ascii "?")))
    if ¬ ctx.should_log ∨ ¬ ctx.logging_ready ∨ reentrant then return ()
    else do
      let clean ← has_no_exception H env
      if ¬ clean then op (log 0 0 default default ctx.caller_str)
      else do
        set_reentrant_call true
        let (wkind, str, extra) ← valueParts H env kind value
        op (log wkind (rawValue value kind) (str.getD default) (extra.getD default) ctx.caller_str)
        op H.free
        op H.free
        set_reentrant_call false

end Loggers

/-! ## Section 5: The counter comes back -/

section Keeps

variable {σ : Type} (H : Host σ) (env : UInt64) {d : Nat}

theorem Runs.openScope : Runs d (d + 1) (set_reentrant_call true : Prog σ Unit) := .enter

theorem Runs.closeScope : Runs (d + 1) d (set_reentrant_call false : Prog σ Unit) := .leave

/-- Nothing is left to do but to close the scope and to answer. -/
theorem Runs.closing {α : Type} (a : α) :
    Runs (d + 1) d (do set_reentrant_call false; return a : Prog σ α) :=
  .bind Runs.closeScope fun _ => .pure a

theorem keeps_exceptionCheck (J : Jni σ) : Keeps (exceptionCheck J) := by
  intro d
  unfold exceptionCheck
  cases J.ExceptionCheck with
  | none => exact .pure false
  | some check => exact .op check

theorem keeps_vis_safe_to_call : Keeps (vis_safe_to_call H env) := by
  intro d
  unfold vis_safe_to_call
  cases H.g_original_jni_table with
  | none => exact .pure none
  | some J =>
    refine .ite (.pure none) ?_
    refine .bind (.op _) fun critical => ?_
    refine .ite (.pure none) ?_
    cases J.ExceptionCheck with
    | none => exact .pure none
    | some check => exact .bind (.op _) fun pending => .pure _

theorem keeps_callable (obj : UInt64) : Keeps (callable H env obj) :=
  fun d => .ite (.pure none) (keeps_vis_safe_to_call H env d)

theorem keeps_vis_is_instance (name : Bytes) (obj : UInt64) :
    Keeps (vis_is_instance H env name obj) := by
  intro d
  unfold vis_is_instance
  refine .bind (keeps_callable H env obj d) fun J => ?_
  cases J with
  | none => exact .pure false
  | some J =>
    refine .bind Runs.openScope fun _ => ?_
    split
    · rename_i findClass isInstanceOf _ _
      refine .bind (.op _) fun c => ?_
      refine .ite ?_ ?_
      -- the class is not found
      · exact .bind (.op _) fun _ => Runs.closing false
      · exact .bind (.op _) fun r => .bind (.op _) fun _ => Runs.closing r
    · exact Runs.closing false

theorem keeps_clearPending (J : Jni σ) : Keeps (clearPending J) :=
  fun d => .bind (keeps_exceptionCheck J d) fun _ => .optional (.op _)

theorem keeps_copyChars (J : Jni σ) (s : UInt64) : Keeps (copyChars H J s) := by
  intro d
  unfold copyChars
  refine .bind (.op _) fun c => ?_
  cases c with
  | none => exact .pure none
  | some c => exact .bind (.op _) fun res => .bind (.op _) fun _ => .pure res

theorem keeps_takeChars (J : Jni σ) (s : UInt64) : Keeps (takeChars H J s) := by
  intro d
  refine .ite ?_ (.pure none)
  exact .bind (keeps_copyChars H J s d) fun res => .bind (.op _) fun _ => .pure res

theorem keeps_callGetName (J : Jni σ) (clazz mid : UInt64) :
    Keeps (callGetName H J clazz mid) := by
  intro d
  refine .ite ?_ (.bind (.op _) fun _ => .pure none)
  refine .bind (.op _) fun ns => ?_
  exact .bind (keeps_clearPending J d) fun _ => keeps_takeChars H J ns d

theorem keeps_vis_class_name (clazz : UInt64) : Keeps (vis_class_name H env clazz) := by
  intro d
  unfold vis_class_name
  refine .bind (keeps_callable H env clazz d) fun J => ?_
  cases J with
  | none => exact .pure none
  | some J =>
    refine .bind Runs.openScope fun _ => ?_
    refine .bind (.op _) fun cc => ?_
    refine .ite ?_ ?_
    · exact .bind (keeps_clearPending J _) fun _ => Runs.closing none
    · refine .bind (.op _) fun mid => ?_
      refine .bind (keeps_callGetName H J clazz mid _) fun res => ?_
      exact .bind (.op _) fun _ => Runs.closing res

/-- The scope is closed around the call of `vis_class_name`. -/
theorem keeps_vis_object_class_name (obj : UInt64) : Keeps (vis_object_class_name H env obj) := by
  intro d
  unfold vis_object_class_name
  refine .bind (keeps_callable H env obj d) fun J => ?_
  cases J with
  | none => exact .pure none
  | some J =>
    refine .bind Runs.openScope fun _ => ?_
    refine .bind (.op _) fun c => ?_
    refine .ite (Runs.closing none) ?_
    refine .bind Runs.closeScope fun _ => ?_
    refine .bind (keeps_vis_class_name H env c d) fun res => ?_
    refine .bind Runs.openScope fun _ => ?_
    exact .bind (.op _) fun _ => Runs.closing res

theorem keeps_checkedName (obj : UInt64) (class_name : Option CStr) :
    Keeps (checkedName H env obj class_name) := by
  intro d
  unfold checkedName
  cases class_name with
  | none => exact keeps_vis_object_class_name H env obj d
  | some name => exact .pure _

theorem keeps_callToString (J : Jni σ) (obj : UInt64) : Keeps (callToString H J obj) := by
  intro d
  unfold callToString
  refine .bind Runs.openScope fun _ => ?_
  refine .bind (.op _) fun c => ?_
  refine .ite (Runs.closing none) ?_
  refine .bind (.op _) fun mid => ?_
  refine .ite ?_ ?_
  · refine .bind (.op _) fun s => ?_
    refine .bind (keeps_exceptionCheck J _) fun threw => ?_
    refine .ite ?_ ?_
    · refine .bind (.op _) fun _ => ?_
      refine .bind (.optional (.op _)) fun _ => ?_
      exact .bind (.op _) fun _ => Runs.closing none
    · refine .bind (keeps_takeChars H J s _) fun res => ?_
      exact .bind (.op _) fun _ => Runs.closing res
  · exact .bind (.op _) fun _ => .bind (.op _) fun _ => Runs.closing none

theorem keeps_vis_object_tostring_safe (obj : UInt64) (class_name : Option CStr) :
    Keeps (vis_object_tostring_safe H env obj class_name) := by
  intro d
  unfold vis_object_tostring_safe
  refine .bind (keeps_callable H env obj d) fun J => ?_
  cases J with
  | none => exact .pure none
  | some J =>
    refine .bind (.op _) fun nameOnly => ?_
    refine .ite (.pure none) ?_
    refine .bind (keeps_checkedName H env obj class_name d) fun name => ?_
    refine .bind (.op _) fun _ => ?_
    exact .ite (.pure none) (keeps_callToString H J obj d)

theorem keeps_quotedChars (J : Jni σ) (str : UInt64) : Keeps (quotedChars H J str) := by
  intro d
  unfold quotedChars
  refine .bind (.op _) fun c => ?_
  cases c with
  | none => exact .pure none
  | some c => exact .bind (.op _) fun block => .bind (.op _) fun _ => .pure _

theorem keeps_vis_string_value (str : UInt64) : Keeps (vis_string_value H env str) := by
  intro d
  unfold vis_string_value
  refine .bind (keeps_callable H env str d) fun J => ?_
  cases J with
  | none => exact .pure none
  | some J =>
    refine .bind Runs.openScope fun _ => ?_
    exact .bind (keeps_quotedChars H J str _) fun res => Runs.closing res

theorem keeps_vis_string_value_raw (str : UInt64) : Keeps (vis_string_value_raw H env str) := by
  intro d
  unfold vis_string_value_raw
  refine .bind (keeps_callable H env str d) fun J => ?_
  cases J with
  | none => exact .pure none
  | some J =>
    refine .bind Runs.openScope fun _ => ?_
    exact .bind (keeps_copyChars H J str _) fun res => Runs.closing res

theorem keeps_primItems {α : Type} (get : Op σ (Option (Nat → α))) (release : Op σ Unit)
    (text : α → Bytes) (count : Nat) (buf : Option Buf) :
    Keeps (primItems H get release text count buf) := by
  intro d
  unfold primItems
  refine .bind (.op _) fun elems => ?_
  cases elems with
  | none => exact .pure buf
  | some elems =>
    refine .bind ?_ fun buf => .bind (.op _) fun _ => .pure buf
    exact .loop (fun i buf => .bind (.op _) fun buf => .op _) _ _

theorem keeps_objectItem (elem : UInt64) (buf : Option Buf) :
    Keeps (objectItem H env elem buf) := by
  intro d
  unfold objectItem
  refine .bind (keeps_vis_is_instance H env _ elem d) fun isString => ?_
  refine .ite ?_ ?_
  · refine .bind (keeps_vis_string_value_raw H env elem d) fun sv => ?_
    cases sv with
    | none => exact .op _
    | some sv => exact .bind (.op _) fun buf => .bind (.op _) fun _ => .pure buf
  · refine .bind (keeps_vis_object_class_name H env elem d) fun cn => ?_
    refine .bind (keeps_vis_object_tostring_safe H env elem cn d) fun ts => ?_
    refine .bind (k := d) ?_ fun buf => ?_
    · cases cn with
      | none => exact .pure buf
      | some cn => exact .bind (.op _) fun buf => .bind (.op _) fun _ => .pure buf
    · cases ts with
      | none => exact .pure buf
      | some ts =>
        exact .bind (.op _) fun buf => .bind (.op _) fun buf => .bind (.op _) fun _ => .pure buf

/-- A round begins and ends in the scope of the encoder, and is outside of
    it in between; so it does when it breaks off. -/
theorem runs_elementRound (J : Jni σ) (arr : UInt64) (i : Nat) (buf : Option Buf) :
    Runs (d + 1) (d + 1) (elementRound H env J arr i buf) := by
  unfold elementRound
  refine .bind Runs.closeScope fun _ => ?_
  refine .bind (.op _) fun elem => ?_
  refine .bind (keeps_exceptionCheck J d) fun pending => ?_
  refine .ite ?_ ?_
  · exact .bind (.op _) fun _ => .bind Runs.openScope fun _ => .pure none
  · refine .bind (.op _) fun buf => ?_
    refine .bind (.ite (.op _) (keeps_objectItem H env elem buf d)) fun buf => ?_
    exact .bind (.op _) fun _ => .bind Runs.openScope fun _ => .pure _

theorem runs_arrayItems (J : Jni σ) (arr : UInt64) (itemSigChar : UInt8) (count : Nat)
    (buf : Option Buf) : Runs (d + 1) (d + 1) (arrayItems H env J arr itemSigChar count buf) := by
  unfold arrayItems
  have hprim {α : Type} (get : Op σ (Option (Nat → α))) (release : Op σ Unit)
      (text : α → Bytes) :
      Runs (d + 1) (d + 1) (primItems H get release text count buf) :=
    keeps_primItems H get release text count buf (d + 1)
  refine .ite (hprim _ _ _) ?_
  refine .ite (hprim _ _ _) ?_
  refine .ite (hprim _ _ _) ?_
  refine .ite (hprim _ _ _) ?_
  refine .ite (hprim _ _ _) ?_
  refine .ite (hprim _ _ _) ?_
  refine .ite (hprim _ _ _) ?_
  refine .ite (hprim _ _ _) ?_
  exact .ite (.breakLoop (runs_elementRound H env J arr) _ buf) (.pure buf)

theorem keeps_omittedItems (total : Int32) (buf : Option Buf) :
    Keeps (omittedItems H total buf) := by
  intro d
  unfold omittedItems
  refine .ite ?_ (.pure buf)
  exact .bind (.op _) fun buf => .op _

theorem keeps_vis_encode_array_items (arr : UInt64) (itemSigChar : UInt8) :
    Keeps (vis_encode_array_items H env arr itemSigChar) := by
  intro d
  unfold vis_encode_array_items
  refine .bind (keeps_callable H env arr d) fun J => ?_
  cases J with
  | none => exact .bind (.op _) fun empty => .pure _
  | some J =>
    refine .bind (.op _) fun block => ?_
    cases block with
    | none => exact .pure none
    | some block =>
      refine .bind (.op _) fun buf => ?_
      refine .bind Runs.openScope fun _ => ?_
      refine .bind (.op _) fun total => ?_
      refine .bind (runs_arrayItems H env J arr itemSigChar _ buf) fun buf => ?_
      refine .bind (keeps_omittedItems H total buf _) fun buf => ?_
      exact Runs.closing _

theorem keeps_has_no_exception : Keeps (has_no_exception H env) := by
  intro d
  unfold has_no_exception
  refine .ite (.pure false) ?_
  cases H.g_original_jni_table with
  | none => exact .pure false
  | some J =>
    dsimp only
    cases J.ExceptionCheck with
    | none => exact .pure false
    | some check => exact .bind (.op _) fun pending => .pure _

theorem keeps_fill_object_strings (obj : UInt64) : Keeps (fill_object_strings H env obj) := by
  intro d
  unfold fill_object_strings
  refine .ite (.pure _) ?_
  refine .bind (.op _) fun slotn => ?_
  refine .ite (.bind (.op _) fun ph => .pure _) ?_
  -- the sidecar is full: the object is rendered on this thread
  refine .bind (keeps_vis_is_instance H env _ obj d) fun isString => ?_
  refine .ite (.bind (keeps_vis_string_value_raw H env obj d) fun str => .pure _) ?_
  refine .bind (keeps_vis_is_instance H env _ obj d) fun isClass => ?_
  refine .ite (.bind (keeps_vis_class_name H env obj d) fun str => .pure _) ?_
  refine .bind (keeps_vis_object_class_name H env obj d) fun str => ?_
  exact .bind (keeps_vis_object_tostring_safe H env obj str d) fun extra => .pure _

theorem keeps_valueParts (kind : ReturnKind) (value : UInt64) :
    Keeps (valueParts H env kind value) := by
  intro d
  unfold valueParts
  refine .ite ?_ (.pure _)
  refine .ite ?_ (.pure _)
  exact .bind (keeps_fill_object_strings H env value d) fun parts => .pure _

theorem keeps_log_method_return_value (ctx : Option MethodLogCtx) (name : CStr) (slot : Int32)
    (kind : ReturnKind) (value : UInt64) :
    Keeps (log_method_return_value H env ctx name slot kind value) := by
  intro d
  unfold log_method_return_value
  refine .bind (.bind .depth fun n => .pure _) fun reentrant => ?_
  cases ctx with
  | none => exact .pure ()
  | some ctx =>
    refine .ite (.pure ()) ?_
    refine .bind (keeps_has_no_exception H env d) fun clean => ?_
    refine .ite (.op _) ?_
    refine .bind Runs.openScope fun _ => ?_
    refine .bind (keeps_valueParts H env kind value _) fun parts => ?_
    refine .bind (.op _) fun _ => .bind (.op _) fun _ => .bind (.op _) fun _ => ?_
    exact Runs.closeScope

theorem keeps_log_field_access_result (ctx : Option FieldLogCtx) (name : CStr) (slot : Int32)
    (kind : ReturnKind) (value : UInt64) :
    Keeps (log_field_access_result H env ctx name slot kind value) := by
  intro d
  unfold log_field_access_result
  refine .bind (.bind .depth fun n => .pure _) fun reentrant => ?_
  cases ctx with
  | none => exact .pure ()
  | some ctx =>
    refine .ite (.pure ()) ?_
    refine .bind (keeps_has_no_exception H env d) fun clean => ?_
    refine .ite (.op _) ?_
    refine .bind Runs.openScope fun _ => ?_
    refine .bind (keeps_valueParts H env kind value _) fun parts => ?_
    refine .bind (.op _) fun _ => .bind (.op _) fun _ => .bind (.op _) fun _ => ?_
    exact Runs.closeScope

end Keeps

/-- Every function that is called from a hook leaves the counter as it
    found it, whatever it was. -/
structure Scoped {σ : Type} (H : Host σ) (env : UInt64) : Prop where
  vis_is_string : ∀ obj, Keeps (vis_is_string H env obj)
  vis_is_class : ∀ obj, Keeps (vis_is_class H env obj)
  vis_class_name : ∀ clazz, Keeps (vis_class_name H env clazz)
  vis_object_class_name : ∀ obj, Keeps (vis_object_class_name H env obj)
  vis_object_tostring_safe : ∀ obj class_name,
    Keeps (vis_object_tostring_safe H env obj class_name)
  vis_string_value : ∀ str, Keeps (vis_string_value H env str)
  vis_string_value_raw : ∀ str, Keeps (vis_string_value_raw H env str)
  vis_encode_array_items : ∀ arr itemSigChar,
    Keeps (vis_encode_array_items H env arr itemSigChar)
  log_method_return_value : ∀ ctx name slot kind value,
    Keeps (log_method_return_value H env ctx name slot kind value)
  log_field_access_result : ∀ ctx name slot kind value,
    Keeps (log_field_access_result H env ctx name slot kind value)

/-- **Main result.** The helpers and the loggers are scoped, whatever the
    JNI calls, the allocations and the world answer. -/
theorem hooks_scoped {σ : Type} (H : Host σ) (env : UInt64) : Scoped H env where
  vis_is_string := keeps_vis_is_instance H env _
  vis_is_class := keeps_vis_is_instance H env _
  vis_class_name := keeps_vis_class_name H env
  vis_object_class_name := keeps_vis_object_class_name H env
  vis_object_tostring_safe := keeps_vis_object_tostring_safe H env
  vis_string_value := keeps_vis_string_value H env
  vis_string_value_raw := keeps_vis_string_value_raw H env
  vis_encode_array_items := keeps_vis_encode_array_items H env
  log_method_return_value := keeps_log_method_return_value H env
  log_field_access_result := keeps_log_field_access_result H env

end JniLog.HookScope
