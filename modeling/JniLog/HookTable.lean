import JniLog.Framework.System
import Mathlib.Data.List.Basic
import Mathlib.Logic.Function.Basic

/-! # Installing and restoring the JNI function table

    Model of the table swap in `hooks.c`: `build_hooked_table`,
    `patch_live_table`, `install_jni_hooks`, `restore_jni_hooks`, and the
    two memory-protection helpers of `hook_common.c` they use.

    Both entry points run under `g_install_lock` from start to end, so an
    execution of any number of threads is a sequence of calls. What each
    `mprotect` answers is part of the call.

    Main results:

    * with the hooks recorded as installed, the saved copy is the table
      that was live before the install;
    * a run keeps the saved copy genuine and the installed flag exact
      precisely when no restore fails to make the table writable. -/

namespace JniLog.HookTable

/-! ## Section 1: The function table -/

/-- The types of `JNI_PRIMITIVE_ARRAY_TYPES`. -/
inductive Primitive where
  | Boolean | Byte | Char | Short | Int | Long | Float | Double
  deriving DecidableEq, Repr

/-- The types of `JNI_INSTANCE_NONVOID_TYPES` and `JNI_FIELD_TYPES`. -/
inductive JType where
  | Object
  | prim : Primitive → JType
  deriving DecidableEq, Repr

/-- Return type of a `Call…Method` entry. -/
inductive RetType where
  | nonvoid : JType → RetType
  | Void
  deriving DecidableEq, Repr

/-- The three argument-passing forms of a call entry. -/
inductive ArgForm where
  | plain | V | A
  deriving DecidableEq, Repr

/-- The members of `struct JNINativeInterface`. -/
inductive Member where
  | reserved0 | reserved1 | reserved2 | reserved3
  | GetVersion | DefineClass | FindClass | FromReflectedMethod | FromReflectedField
  | ToReflectedMethod | GetSuperclass | IsAssignableFrom | ToReflectedField
  | Throw | ThrowNew | ExceptionOccurred | ExceptionDescribe | ExceptionClear | FatalError
  | PushLocalFrame | PopLocalFrame | NewGlobalRef | DeleteGlobalRef | DeleteLocalRef
  | IsSameObject | NewLocalRef | EnsureLocalCapacity | AllocObject
  | NewObject : ArgForm → Member
  | GetObjectClass | IsInstanceOf
  | GetMethodID | GetFieldID | GetStaticMethodID | GetStaticFieldID
  | CallMethod : RetType → ArgForm → Member
  | CallNonvirtualMethod : RetType → ArgForm → Member
  | CallStaticMethod : RetType → ArgForm → Member
  | GetField : JType → Member
  | SetField : JType → Member
  | GetStaticField : JType → Member
  | SetStaticField : JType → Member
  | NewString | GetStringLength | GetStringChars | ReleaseStringChars
  | NewStringUTF | GetStringUTFLength | GetStringUTFChars | ReleaseStringUTFChars
  | GetArrayLength | NewObjectArray | GetObjectArrayElement | SetObjectArrayElement
  | NewArray : Primitive → Member
  | GetArrayElements : Primitive → Member
  | ReleaseArrayElements : Primitive → Member
  | GetArrayRegion : Primitive → Member
  | SetArrayRegion : Primitive → Member
  | RegisterNatives | UnregisterNatives | MonitorEnter | MonitorExit | GetJavaVM
  | GetStringRegion | GetStringUTFRegion
  | GetPrimitiveArrayCritical | ReleasePrimitiveArrayCritical
  | GetStringCritical | ReleaseStringCritical
  | NewWeakGlobalRef | DeleteWeakGlobalRef | ExceptionCheck
  | NewDirectByteBuffer | GetDirectBufferAddress | GetDirectBufferCapacity
  | GetObjectRefType
  deriving DecidableEq, Repr

/-- What a slot of the table holds: nothing, a function of the runtime,
    or the library's `hooked_…` function of a member. -/
inductive FnPtr where
  | null
  | native : UInt64 → FnPtr
  | hooked : Member → FnPtr
  deriving DecidableEq, Repr

/-- `jni_table_t`. -/
abbrev jni_table_t := Member → FnPtr

def JNI_PRIMITIVE_ARRAY_TYPES {α : Type} (X : Primitive → List α) : List α :=
  X .Boolean ++ X .Byte ++ X .Char ++ X .Short ++ X .Int ++ X .Long ++ X .Float ++ X .Double

def JNI_INSTANCE_NONVOID_TYPES {α : Type} (X : JType → List α) : List α :=
  X .Object ++ JNI_PRIMITIVE_ARRAY_TYPES fun p => X (.prim p)

def JNI_STATIC_NONVOID_TYPES {α : Type} (X : JType → List α) : List α :=
  JNI_INSTANCE_NONVOID_TYPES X

def JNI_VOID_TYPES {α : Type} (X : RetType → List α) : List α :=
  X .Void

def JNI_FIELD_TYPES {α : Type} (X : JType → List α) : List α :=
  X .Object ++ JNI_PRIMITIVE_ARRAY_TYPES fun p => X (.prim p)

/-- The three assignments of an `INSTALL_…_HOOKS` macro for calls. -/
def callForms (slot : RetType → ArgForm → Member) (t : RetType) : List Member :=
  [slot t .plain, slot t .V, slot t .A]

/-- The members `build_hooked_table` assigns, in the order of its
    statements. -/
def assignedMembers : List Member := List.flatten [
  [.FindClass, .GetMethodID, .GetStaticMethodID, .GetFieldID, .GetStaticFieldID,
    .RegisterNatives, .NewGlobalRef, .DeleteGlobalRef, .DeleteLocalRef, .NewLocalRef,
    .NewWeakGlobalRef, .DeleteWeakGlobalRef, .IsSameObject, .PushLocalFrame, .PopLocalFrame,
    .EnsureLocalCapacity, .NewString, .GetStringLength, .GetStringChars, .ReleaseStringChars,
    .NewStringUTF, .GetStringUTFLength, .GetStringUTFChars, .ReleaseStringUTFChars,
    .GetStringRegion, .GetStringUTFRegion, .NewObject .plain, .NewObject .V, .NewObject .A],
  JNI_INSTANCE_NONVOID_TYPES (fun t => callForms .CallMethod (.nonvoid t)),
  JNI_STATIC_NONVOID_TYPES (fun t => callForms .CallStaticMethod (.nonvoid t)),
  JNI_INSTANCE_NONVOID_TYPES (fun t => callForms .CallNonvirtualMethod (.nonvoid t)),
  JNI_VOID_TYPES (callForms .CallMethod),
  JNI_VOID_TYPES (callForms .CallStaticMethod),
  JNI_VOID_TYPES (callForms .CallNonvirtualMethod),
  JNI_FIELD_TYPES (fun t => [.GetField t]),
  JNI_FIELD_TYPES (fun t => [.SetField t]),
  JNI_FIELD_TYPES (fun t => [.GetStaticField t]),
  JNI_FIELD_TYPES (fun t => [.SetStaticField t]),
  JNI_PRIMITIVE_ARRAY_TYPES (fun p => [.NewArray p]),
  JNI_PRIMITIVE_ARRAY_TYPES (fun p => [.GetArrayElements p]),
  JNI_PRIMITIVE_ARRAY_TYPES (fun p => [.ReleaseArrayElements p]),
  [.NewObjectArray, .GetObjectArrayElement, .SetObjectArrayElement, .GetArrayLength,
    .GetPrimitiveArrayCritical, .ReleasePrimitiveArrayCritical, .GetStringCritical,
    .ReleaseStringCritical],
  JNI_PRIMITIVE_ARRAY_TYPES (fun p => [.GetArrayRegion p, .SetArrayRegion p]),
  [.Throw, .ThrowNew, .ExceptionOccurred, .ExceptionDescribe, .ExceptionClear, .FatalError,
    .ExceptionCheck, .AllocObject, .IsInstanceOf, .DefineClass, .GetSuperclass,
    .IsAssignableFrom, .GetObjectClass, .GetObjectRefType, .NewDirectByteBuffer,
    .GetDirectBufferAddress, .GetDirectBufferCapacity, .MonitorEnter, .MonitorExit,
    .GetVersion, .GetJavaVM, .UnregisterNatives, .ToReflectedMethod, .FromReflectedMethod,
    .FromReflectedField, .ToReflectedField]]

/-- `build_hooked_table`: the saved table with every assigned member
    replaced by its hook. -/
def build_hooked_table (saved : jni_table_t) : jni_table_t :=
  assignedMembers.foldl (fun t m => Function.update t m (.hooked m)) saved

/-- The table dispatches every assigned member to its hook. -/
def HoldsHooks (t : jni_table_t) : Prop :=
  ∀ m ∈ assignedMembers, t m = .hooked m

/-- A table of the runtime: no slot is one of the library's hooks. -/
def Genuine (t : jni_table_t) : Prop :=
  ∀ m k, t m ≠ .hooked k

/-- Assigning hooks leaves at each slot a hook if the slot was assigned,
    and what was there before otherwise. -/
theorem foldl_hook_apply (ms : List Member) (t : jni_table_t) (m : Member) :
    ms.foldl (fun t m => Function.update t m (.hooked m)) t m =
      if m ∈ ms then .hooked m else t m := by
  induction ms generalizing t with
  | nil => simp
  | cons k ms ih =>
    rw [List.foldl_cons, ih]
    by_cases hm : m ∈ ms
    · simp [hm]
    · by_cases hk : m = k
      · subst hk
        simp [hm]
      · simp [hm, hk]

theorem build_hooked_table_apply (saved : jni_table_t) (m : Member) :
    build_hooked_table saved m = if m ∈ assignedMembers then .hooked m else saved m :=
  foldl_hook_apply assignedMembers saved m

theorem holdsHooks_build (saved : jni_table_t) : HoldsHooks (build_hooked_table saved) := by
  intro m hm
  rw [build_hooked_table_apply, if_pos hm]

theorem Genuine.not_holdsHooks {t : jni_table_t} (h : Genuine t) : ¬ HoldsHooks t := by
  intro hh
  exact h .FindClass .FindClass (hh .FindClass (by simp [assignedMembers]))

/-! ## Section 2: Page protection -/

/-- `prot_region_t`. -/
structure prot_region_t where
  page_start : UInt64
  region_size : UInt64

/-- `jni_table_region`: the pages the table lies on. `page_size` is what
    `jl_page_size` answers; `uintptr_t` is 64 bits wide. -/
def jni_table_region (page_size : Int64) (table table_size : UInt64) : prot_region_t :=
  let page_size := if page_size ≤ 0 then 4096 else page_size.toUInt64
  let page_start := table &&& ~~~(page_size - 1)
  let page_end := (table + table_size + page_size - 1) &&& ~~~(page_size - 1)
  { page_start := page_start, region_size := page_end - page_start }

/-- `protect_region`; `mprotect` is what the system call answers. -/
def protect_region (region : prot_region_t) (mprotect : Int32) : Int32 :=
  if region.page_start = 0 then -1 else mprotect

/-! ## Section 3: Install and restore -/

/-- The table the calls are about, and the page size of the system. -/
structure Target where
  table : UInt64
  table_size : UInt64
  page_size : Int64

/-- The statics of `hooks.c` and the memory of the live table. -/
structure State where
  /-- contents of the table every `JNIEnv` points to -/
  live : jni_table_t
  g_saved_jni_table : jni_table_t
  g_hooked_jni_table : jni_table_t
  /-- `g_live_jni_table`, as an address (0 for NULL) -/
  g_live_jni_table : UInt64
  /-- `g_original_jni_table` points to the saved table, rather than to NULL -/
  g_original_jni_table : Bool
  g_jni_hooks_installed : Bool

/-- What the two `mprotect` calls of a patch answer: making the table
    writable, and making it read-only again. -/
structure Mprotect where
  rw : Int32
  ro : Int32

/-- `patch_live_table`. -/
def patch_live_table (tg : Target) (mp : Mprotect) (s : State) : Int32 × State :=
  let region := jni_table_region tg.page_size s.g_live_jni_table tg.table_size
  if protect_region region mp.rw ≠ 0 then (-1, s)
  else (0, { s with live := s.g_hooked_jni_table })

/-- `install_jni_hooks`; `env` says that the pointer is not NULL. -/
def install_jni_hooks (tg : Target) (env : Bool) (mp : Mprotect) (s : State) : Int32 × State :=
  if !env then (-1, s)
  else if s.g_jni_hooks_installed then (0, s)
  else
    let s := { s with
      g_live_jni_table := tg.table
      g_saved_jni_table := s.live
      g_original_jni_table := true
      g_hooked_jni_table := build_hooked_table s.live }
    let (rc, s) := patch_live_table tg mp s
    if rc ≠ 0 then (-1, s)
    else (0, { s with g_jni_hooks_installed := true })

/-- `restore_jni_hooks`. The flag is cleared whether or not the table
    could be made writable. -/
def restore_jni_hooks (tg : Target) (env : Bool) (mp : Mprotect) (s : State) : Int32 × State :=
  if !env then (-1, s)
  else if !s.g_jni_hooks_installed then (0, s)
  else
    let region := jni_table_region tg.page_size s.g_live_jni_table tg.table_size
    let s := if protect_region region mp.rw = 0 then { s with live := s.g_saved_jni_table } else s
    (0, { s with g_jni_hooks_installed := false })

inductive Op where
  | install : Bool → Mprotect → Op
  | restore : Bool → Mprotect → Op

/-- The swap as a machine; the return codes are dropped, as the callers
    drop them. -/
def machine (tg : Target) : Machine State Op where
  next s
    | .install env mp => (install_jni_hooks tg env mp s).2
    | .restore env mp => (restore_jni_hooks tg env mp s).2

/-- Before the first call: the live table is the runtime's own, the
    statics are zero. -/
def initialState (orig : jni_table_t) : State where
  live := orig
  g_saved_jni_table := fun _ => .null
  g_hooked_jni_table := fun _ => .null
  g_live_jni_table := 0
  g_original_jni_table := false
  g_jni_hooks_installed := false

/-- The table `g_original_jni_table` points to. -/
def State.original (s : State) : Option jni_table_t :=
  if s.g_original_jni_table then some s.g_saved_jni_table else none

/-! ## Section 4: Consistency of the saved table, the live table and the flag -/

/-- What callers rely on, with `orig` the runtime's own table: calling
    through `g_original_jni_table` reaches the runtime, never a hook, and
    the installed flag tells whether the live table dispatches to hooks. -/
structure Consistent (orig : jni_table_t) (s : State) : Prop where
  original_genuine : ∀ t, s.original = some t → t = orig ∧ Genuine t
  installed_iff : s.g_jni_hooks_installed = true ↔ HoldsHooks s.live

/-- A restore that finds the hooks installed can make the table writable. -/
def RestoreUnprotects (tg : Target) (s : State) (op : Op) : Prop :=
  ∀ mp, op = .restore true mp → s.g_jni_hooks_installed = true →
    protect_region (jni_table_region tg.page_size tg.table tg.table_size) mp.rw = 0

/-- The invariant behind `Consistent`: the hooks are either out, with the
    runtime's table live, or in, with the runtime's table saved. -/
inductive Swapped (tg : Target) (orig : jni_table_t) (s : State) : Prop where
  | out : s.g_jni_hooks_installed = false → s.live = orig →
      (s.g_original_jni_table = true → s.g_saved_jni_table = orig) → Swapped tg orig s
  | «in» : s.g_jni_hooks_installed = true → s.live = build_hooked_table orig →
      s.g_original_jni_table = true → s.g_saved_jni_table = orig →
      s.g_live_jni_table = tg.table → Swapped tg orig s

section Invariant

variable {tg : Target} {orig : jni_table_t} {s : State}

theorem swapped_init : Swapped tg orig (initialState orig) :=
  .out rfl rfl (by simp [initialState])

theorem Swapped.saved (h : Swapped tg orig s) :
    s.g_original_jni_table = true → s.g_saved_jni_table = orig := by
  cases h with
  | out _ _ hsaved => exact hsaved
  | «in» _ _ _ hsaved _ => exact fun _ => hsaved

theorem Swapped.consistent (horig : Genuine orig) (h : Swapped tg orig s) :
    Consistent orig s where
  original_genuine := by
    intro t ht
    by_cases hp : s.g_original_jni_table = true
    · have hst : s.g_saved_jni_table = t := by simpa [State.original, hp] using ht
      have : t = orig := hst ▸ h.saved hp
      exact ⟨this, this ▸ horig⟩
    · simp [State.original, hp] at ht
  installed_iff := by
    cases h with
    | out hflag hlive _ => simp [hflag, hlive, horig.not_holdsHooks]
    | «in» hflag hlive _ _ _ => simp [hflag, hlive, holdsHooks_build]

/-- What an install can do: nothing, take the copies only, or take the
    copies and patch the live table. -/
theorem install_cases (tg : Target) (env : Bool) (mp : Mprotect) (s : State) :
    (install_jni_hooks tg env mp s).2 = s ∨
      s.g_jni_hooks_installed = false ∧
        ((install_jni_hooks tg env mp s).2 = { s with
            g_live_jni_table := tg.table
            g_saved_jni_table := s.live
            g_original_jni_table := true
            g_hooked_jni_table := build_hooked_table s.live } ∨
          (install_jni_hooks tg env mp s).2 = { s with
            live := build_hooked_table s.live
            g_live_jni_table := tg.table
            g_saved_jni_table := s.live
            g_original_jni_table := true
            g_hooked_jni_table := build_hooked_table s.live
            g_jni_hooks_installed := true }) := by
  cases env with
  | false => exact .inl rfl
  | true =>
    cases hflag : s.g_jni_hooks_installed with
    | true => exact .inl (by simp [install_jni_hooks, hflag])
    | false =>
      refine .inr ⟨rfl, ?_⟩
      by_cases hrw : protect_region (jni_table_region tg.page_size tg.table tg.table_size) mp.rw = 0
      · exact .inr (by simp [install_jni_hooks, patch_live_table, hflag, hrw])
      · exact .inl (by simp [install_jni_hooks, patch_live_table, hflag, hrw])

/-- An install keeps the two tables swapped, whatever `mprotect` answers. -/
theorem Swapped.install (h : Swapped tg orig s) (env : Bool) (mp : Mprotect) :
    Swapped tg orig (install_jni_hooks tg env mp s).2 := by
  rcases install_cases tg env mp s with hs | ⟨hflag, hs | hs⟩
  · rw [hs]
    exact h
  · -- the patch failed: the copies are taken, the live table is untouched
    cases h with
    | «in» hin _ _ _ _ => simp [hin] at hflag
    | out _ hlive _ =>
      rw [hs]
      exact .out hflag hlive (fun _ => hlive)
  · cases h with
    | «in» hin _ _ _ _ => simp [hin] at hflag
    | out _ hlive _ =>
      rw [hs]
      exact .in rfl (by simp only [hlive]) rfl hlive rfl

/-- A restore that can write the table keeps the two tables swapped. -/
theorem Swapped.restore (h : Swapped tg orig s) {env : Bool} {mp : Mprotect}
    (hok : RestoreUnprotects tg s (.restore env mp)) :
    Swapped tg orig (restore_jni_hooks tg env mp s).2 := by
  cases env with
  | false => exact h
  | true =>
    rcases h with ⟨hflag, hlive, hsaved⟩ | ⟨hflag, _, _, hsaved, haddr⟩
    · have hs : (restore_jni_hooks tg true mp s).2 = s := by simp [restore_jni_hooks, hflag]
      rw [hs]
      exact .out hflag hlive hsaved
    · have hrw := hok mp rfl hflag
      have hs : (restore_jni_hooks tg true mp s).2 =
          { s with live := s.g_saved_jni_table, g_jni_hooks_installed := false } := by
        simp [restore_jni_hooks, hflag, haddr, hrw]
      rw [hs]
      exact .out rfl hsaved (fun _ => hsaved)

theorem swapped_step (h : Swapped tg orig s) {op : Op} (hok : RestoreUnprotects tg s op) :
    Swapped tg orig ((machine tg).next s op) := by
  cases op with
  | install env mp => exact h.install env mp
  | restore env mp => exact h.restore hok

/-- A restore that finds the hooks installed and cannot write the table
    leaves the hooks live under a cleared flag. -/
theorem Swapped.restore_failed (h : Swapped tg orig s) {op : Op}
    (hno : ¬ RestoreUnprotects tg s op) :
    HoldsHooks ((machine tg).next s op).live ∧
      ((machine tg).next s op).g_jni_hooks_installed = false := by
  simp only [RestoreUnprotects, not_forall] at hno
  obtain ⟨mp, rfl, hflag, hrw⟩ := hno
  cases h with
  | out hout _ _ => simp [hout] at hflag
  | «in» _ hlive _ _ haddr =>
    simp [machine, restore_jni_hooks, hflag, haddr, hrw, hlive, holdsHooks_build]

theorem Swapped.not_consistent (h : Swapped tg orig s) {op : Op}
    (hno : ¬ RestoreUnprotects tg s op) : ¬ Consistent orig ((machine tg).next s op) := by
  intro hc
  obtain ⟨hlive, hflag⟩ := h.restore_failed hno
  simpa [hflag] using hc.installed_iff.mpr hlive

end Invariant

/-! ## Section 5: Whole runs -/

/-- **Exactness of the table swap.** Along a run from the runtime's own
    table, every state is consistent exactly when each restore that finds
    the hooks installed can make the table writable. -/
theorem consistent_iff_restores_unprotect (tg : Target) {orig : jni_table_t}
    (horig : Genuine orig) (ops : List Op) :
    (∀ s ∈ (machine tg).trace (initialState orig) ops, Consistent orig s) ↔
      (machine tg).Meets (RestoreUnprotects tg) (initialState orig) ops :=
  Machine.good_iff_meets (fun _ h => h.consistent horig)
    (fun _ _ h hok => swapped_step h hok) (fun _ _ h hno => h.not_consistent hno) swapped_init

/-- A table of the runtime, for the runs below. -/
def nativeTable : jni_table_t := fun _ => .native 0x1000

theorem nativeTable_genuine : Genuine nativeTable := by
  intro m k
  simp [nativeTable]

/-- The table the runs below are about: two pages into the address space. -/
def nativeTarget : Target where
  table := 0x2000
  table_size := 1864
  page_size := 4096

/-- An install, and a restore whose first `mprotect` fails. -/
def failedRestore : List Op :=
  [.install true ⟨0, 0⟩, .restore true ⟨-1, 0⟩]

theorem consistent_after_install :
    (∀ s ∈ (machine nativeTarget).trace (initialState nativeTable) [.install true ⟨0, 0⟩],
        Consistent nativeTable s) ↔
      (machine nativeTarget).Meets (RestoreUnprotects nativeTarget) (initialState nativeTable)
        [.install true ⟨0, 0⟩] :=
  consistent_iff_restores_unprotect nativeTarget nativeTable_genuine _

/-- After the failed restore the flag is clear while the hooks are live;
    the next install then saves the hooks as if they were the runtime's,
    and `FindClass` of the original table is the hook itself. -/
theorem failed_restore_saves_hooks :
    ¬ (∀ s ∈ (machine nativeTarget).trace (initialState nativeTable)
          (failedRestore ++ [.install true ⟨0, 0⟩]), Consistent nativeTable s) ∧
      (((machine nativeTarget).exec (initialState nativeTable)
          (failedRestore ++ [.install true ⟨0, 0⟩])).original.map fun t => t .FindClass) =
        some (.hooked .FindClass) := by
  have hrun : ((machine nativeTarget).exec (initialState nativeTable)
      (failedRestore ++ [.install true ⟨0, 0⟩])).original.map (fun t => t .FindClass) =
        some (.hooked .FindClass) := by
    have hpage : (jni_table_region nativeTarget.page_size nativeTarget.table
        nativeTarget.table_size).page_start ≠ 0 := by decide
    have hhook (t : jni_table_t) : build_hooked_table t .FindClass = .hooked .FindClass :=
      holdsHooks_build t _ (by simp [assignedMembers])
    simp [failedRestore, machine, install_jni_hooks, restore_jni_hooks, patch_live_table,
      protect_region, initialState, State.original, hpage, hhook]
  refine ⟨?_, hrun⟩
  intro h
  have hc := h _ (Machine.exec_mem_trace _ _ _)
  obtain ⟨t, ht, hfc⟩ := Option.map_eq_some_iff.mp hrun
  exact (hc.original_genuine t ht).2 _ _ hfc

end JniLog.HookTable
