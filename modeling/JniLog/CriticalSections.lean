import JniLog.Framework.System
import JniLog.JlFmt

/-! # Critical sections

    The four hooks of `hooks.c` around critical sections, and the counter
    of the thread that they keep. While it is not zero the logger does not
    render objects: JNI calls are prohibited in a critical section.

    * A hook gets what the original function returns, `none` where the
      table or its entry is NULL, and whether the caller is logged.
    * The regions an app holds are history, which nothing reads.

    Main result: the counter is the number of regions held along a run
    exactly when no acquisition of the run fails. -/

namespace JniLog.CriticalSections

open Bytes JlFmt

/-! ## Section 1: The hooks -/

/-- What a hook logs. -/
inductive Event where
  | call (name enc caller : Bytes)
  | ret (name : Bytes) (kind : Int32) (raw : UInt64)
  deriving DecidableEq, Repr

/-- The variables of a thread, and its log. -/
structure Thread where
  g_in_hook : Nat
  g_jni_critical : Int32
  logged : List Event

def WIRE_KIND_VOID : Int32 := 1
def WIRE_KIND_POINTER : Int32 := 14

section Hooks

variable (t : Thread)

def is_reentrant_call : Bool := t.g_in_hook > 0

def set_reentrant_call (val : Bool) : Thread :=
  if val then { t with g_in_hook := t.g_in_hook + 1 }
  else if t.g_in_hook > 0 then { t with g_in_hook := t.g_in_hook - 1 }
  else t

def is_jni_critical : Int32 := t.g_jni_critical

def set_jni_critical (val : Int32) : Thread := { t with g_jni_critical := val }

/-- `log_jni_call` and the return macro, in a scope of their own. -/
def logPair (name enc : Bytes) (kind : Int32) (raw : UInt64) (caller : CStr) : Thread :=
  let t := set_reentrant_call t true
  let t := { t with logged := t.logged ++ [.call name enc caller.val, .ret name kind raw] }
  set_reentrant_call t false

/-- The two hooks that begin a section. -/
def hookedGet (name : Bytes) (original : Option UInt64) (should_log : Bool) (caller : CStr) :
    UInt64 × Thread :=
  if is_reentrant_call t then (original.getD 0, t)
  else
    let result := original.getD 0
    -- whatever the result is
    let t := set_jni_critical t (is_jni_critical t + 1)
    let t := if should_log then logPair t name [] WIRE_KIND_POINTER result caller else t
    (result, t)

/-- The two hooks that end one. -/
def hookedRelease (name enc : Bytes) (should_log : Bool) (caller : CStr) : Thread :=
  if is_reentrant_call t then t
  else
    let crit := is_jni_critical t
    let t := if crit > 0 then set_jni_critical t (crit - 1) else t
    if should_log then logPair t name enc WIRE_KIND_VOID 0 caller else t

def hooked_GetPrimitiveArrayCritical (original : Option UInt64) (should_log : Bool)
    (caller : CStr) : UInt64 × Thread :=
  hookedGet t (ascii "GetPrimitiveArrayCritical") original should_log caller

def hooked_ReleasePrimitiveArrayCritical (carray : UInt64) (mode : Int32) (should_log : Bool)
    (caller : CStr) : Thread :=
  hookedRelease t (ascii "ReleasePrimitiveArrayCritical")
    (snprintf 64 (ascii "p\x010x%lx\x02I\x01%d\x02")
      [.word carray, .word mode.toUInt32.toUInt64]) should_log caller

def hooked_GetStringCritical (original : Option UInt64) (should_log : Bool) (caller : CStr) :
    UInt64 × Thread :=
  hookedGet t (ascii "GetStringCritical") original should_log caller

def hooked_ReleaseStringCritical (cstring : UInt64) (should_log : Bool) (caller : CStr) : Thread :=
  hookedRelease t (ascii "ReleaseStringCritical")
    (snprintf 64 (ascii "p\x010x%lx\x02") [.word cstring]) should_log caller

/-- `vis_safe_to_call`: `exceptionCheck` is the answer of `ExceptionCheck`,
    `none` where the entry is NULL. -/
def vis_safe_to_call (env_null table_null : Bool) (exceptionCheck : Option Bool) : Bool :=
  if env_null || table_null then false
  else if is_jni_critical t ≠ 0 then false
  else
    match exceptionCheck with
    | none => false
    | some pending => !pending

end Hooks

/-! ## Section 2: An app's thread -/

inductive Kind where
  | array | string
  deriving DecidableEq, Repr

/-- What a successful acquisition returned. -/
structure Region where
  kind : Kind
  ptr : UInt64
  deriving DecidableEq, Repr

/-- A thread, and the regions it has acquired and not released yet. -/
structure App where
  thread : Thread
  held : List Region

def App.initial : App := ⟨⟨0, 0, []⟩, []⟩

/-- A call of one of the hooks. -/
inductive Op where
  | get (kind : Kind) (original : Option UInt64) (should_log : Bool) (caller : CStr)
  | release (region : Region) (mode : Int32) (should_log : Bool) (caller : CStr)

def App.get (s : App) (kind : Kind) (r : UInt64 × Thread) : App where
  thread := r.2
  held := if r.1 = 0 then s.held else ⟨kind, r.1⟩ :: s.held

def app : Machine App Op where
  next s
    | .get .array original should_log caller =>
      s.get .array (hooked_GetPrimitiveArrayCritical s.thread original should_log caller)
    | .get .string original should_log caller =>
      s.get .string (hooked_GetStringCritical s.thread original should_log caller)
    | .release ⟨.array, ptr⟩ mode should_log caller =>
      ⟨hooked_ReleasePrimitiveArrayCritical s.thread ptr mode should_log caller,
        s.held.erase ⟨.array, ptr⟩⟩
    | .release ⟨.string, ptr⟩ _ should_log caller =>
      ⟨hooked_ReleaseStringCritical s.thread ptr should_log caller, s.held.erase ⟨.string, ptr⟩⟩

/-- The app releases what it holds. -/
def Releases (s : App) : Op → Prop
  | .get .. => True
  | .release region .. => region ∈ s.held

instance (s : App) : (op : Op) → Decidable (Releases s op)
  | .get .. => inferInstanceAs (Decidable True)
  | .release region .. => inferInstanceAs (Decidable (region ∈ s.held))

/-- The counter counts the regions. -/
def App.Counted (s : App) : Prop :=
  s.thread.g_jni_critical.toInt = s.held.length

instance (s : App) : Decidable s.Counted := inferInstanceAs (Decidable (_ = _))

/-- An acquisition succeeds. The counter is an `int`. -/
def Succeeds (s : App) : Op → Prop
  | .get _ original _ _ => original.getD 0 ≠ 0 ∧ s.held.length + 1 < 2 ^ 31
  | .release .. => True

/-! ## Section 3: Runs -/

/-- Outside of the hooks, with a counter that is right. -/
structure App.Inv (s : App) : Prop where
  outside : s.thread.g_in_hook = 0
  counted : s.Counted

section Steps

variable {s : App} {t : Thread}

/-- Logging leaves the counters. -/
theorem logPair_counters (t : Thread) (name enc : Bytes) (kind : Int32) (raw : UInt64)
    (caller : CStr) : (logPair t name enc kind raw caller).g_in_hook = t.g_in_hook ∧
      (logPair t name enc kind raw caller).g_jni_critical = t.g_jni_critical :=
  ⟨rfl, rfl⟩

/-- Outside of the hooks a section that begins is counted, whatever the
    original function returns. -/
theorem hookedGet_spec (hout : t.g_in_hook = 0) (name : Bytes) (original : Option UInt64)
    (should_log : Bool) (caller : CStr) :
    (hookedGet t name original should_log caller).1 = original.getD 0 ∧
      (hookedGet t name original should_log caller).2.g_in_hook = 0 ∧
      (hookedGet t name original should_log caller).2.g_jni_critical = t.g_jni_critical + 1 := by
  have hno : ¬ is_reentrant_call t = true := by simp [is_reentrant_call, hout]
  unfold hookedGet
  rw [if_neg hno]
  cases should_log with
  | false => exact ⟨rfl, hout, rfl⟩
  | true =>
    obtain ⟨hin, hcrit⟩ := logPair_counters (set_jni_critical t (is_jni_critical t + 1)) name []
      WIRE_KIND_POINTER (original.getD 0) caller
    exact ⟨rfl, hin.trans hout, hcrit⟩

/-- One that ends is taken off, down to zero. -/
theorem hookedRelease_spec (hout : t.g_in_hook = 0) (name enc : Bytes) (should_log : Bool)
    (caller : CStr) :
    (hookedRelease t name enc should_log caller).g_in_hook = 0 ∧
      (hookedRelease t name enc should_log caller).g_jni_critical =
        if t.g_jni_critical > 0 then t.g_jni_critical - 1 else t.g_jni_critical := by
  have hno : ¬ is_reentrant_call t = true := by simp [is_reentrant_call, hout]
  have hset : (if is_jni_critical t > 0 then set_jni_critical t (is_jni_critical t - 1)
      else t).g_in_hook = 0 ∧ (if is_jni_critical t > 0 then
        set_jni_critical t (is_jni_critical t - 1) else t).g_jni_critical =
        if t.g_jni_critical > 0 then t.g_jni_critical - 1 else t.g_jni_critical := by
    unfold is_jni_critical
    split <;> exact ⟨hout, rfl⟩
  unfold hookedRelease
  rw [if_neg hno]
  cases should_log with
  | false => exact hset
  | true =>
    obtain ⟨hin, hcrit⟩ := logPair_counters (if is_jni_critical t > 0 then
      set_jni_critical t (is_jni_critical t - 1) else t) name enc WIRE_KIND_VOID 0 caller
    exact ⟨hin.trans hset.1, hcrit.trans hset.2⟩

/-- What a call does to the counter and to the regions. -/
theorem next_cases (hout : s.thread.g_in_hook = 0) (op : Op) :
    (app.next s op).thread.g_in_hook = 0 ∧
    match op with
    | .get kind original _ _ =>
      (app.next s op).thread.g_jni_critical = s.thread.g_jni_critical + 1 ∧
        (app.next s op).held =
          if original.getD 0 = 0 then s.held else ⟨kind, original.getD 0⟩ :: s.held
    | .release region _ _ _ =>
      (app.next s op).thread.g_jni_critical =
          (if s.thread.g_jni_critical > 0 then s.thread.g_jni_critical - 1
          else s.thread.g_jni_critical) ∧
        (app.next s op).held = s.held.erase region := by
  match op with
  | .get .array original log caller =>
    obtain ⟨hres, hin, hcrit⟩ := hookedGet_spec hout (ascii "GetPrimitiveArrayCritical") original
      log caller
    refine ⟨hin, hcrit, ?_⟩
    show (if (hookedGet _ _ _ _ _).1 = 0 then _ else Region.mk _ (hookedGet _ _ _ _ _).1 :: _) = _
    rw [hres]
  | .get .string original log caller =>
    obtain ⟨hres, hin, hcrit⟩ := hookedGet_spec hout (ascii "GetStringCritical") original
      log caller
    refine ⟨hin, hcrit, ?_⟩
    show (if (hookedGet _ _ _ _ _).1 = 0 then _ else Region.mk _ (hookedGet _ _ _ _ _).1 :: _) = _
    rw [hres]
  -- the two releases differ in what they log
  | .release ⟨.array, ptr⟩ mode log caller =>
    obtain ⟨hin, hcrit⟩ := hookedRelease_spec hout (ascii "ReleasePrimitiveArrayCritical")
      (snprintf 64 (ascii "p\x010x%lx\x02I\x01%d\x02")
        [.word ptr, .word mode.toUInt32.toUInt64]) log caller
    exact ⟨hin, hcrit, rfl⟩
  | .release ⟨.string, ptr⟩ mode log caller =>
    obtain ⟨hin, hcrit⟩ := hookedRelease_spec hout (ascii "ReleaseStringCritical")
      (snprintf 64 (ascii "p\x010x%lx\x02") [.word ptr]) log caller
    exact ⟨hin, hcrit, rfl⟩

/-- One more, where the counter has room. -/
theorem toInt_succ {x : Int32} {n : Nat} (hx : x.toInt = n) (hn : n + 1 < 2 ^ 31) :
    (x + 1).toInt = (n + 1 : Nat) := by
  have hone : (1 : Int32).toInt = 1 := rfl
  rw [Int32.toInt_add, hx, hone, Int.bmod_eq_of_le (by omega) (by omega)]
  rfl

/-- It is never the same number. -/
theorem toInt_succ_ne {x : Int32} {n : Nat} (hx : x.toInt = n) : (x + 1).toInt ≠ n := by
  have hone : (1 : Int32).toInt = 1 := rfl
  have hlt : x.toInt < 2 ^ 31 := x.toInt_lt
  rw [hx] at hlt
  by_cases hroom : n + 1 < 2 ^ 31
  · rw [toInt_succ hx hroom]
    omega
  · -- at the greatest `int` the sum wraps
    have hmax : (n : Int) + 1 = 2 ^ 31 := by omega
    have hwrap : (2 ^ 31 : Int).bmod (2 ^ 32) < 0 := by decide
    rw [Int32.toInt_add, hx, hone, hmax]
    omega

/-- **Step.** The counter stays right with an acquisition that succeeds. -/
theorem App.Inv.next (h : s.Inv) {op : Op} (hfair : Releases s op) (hok : Succeeds s op) :
    (app.next s op).Inv := by
  obtain ⟨hout, hop⟩ := next_cases h.outside op
  refine ⟨hout, ?_⟩
  have hcounted : s.thread.g_jni_critical.toInt = s.held.length := h.counted
  cases op with
  | get kind original log caller =>
    obtain ⟨hcrit, hheld⟩ := hop
    rw [if_neg hok.1] at hheld
    unfold App.Counted
    rw [hcrit, hheld]
    exact toInt_succ hcounted hok.2
  | release region mode log caller =>
    obtain ⟨hcrit, hheld⟩ := hop
    have hlen : (s.held.erase region).length + 1 = s.held.length :=
      List.length_erase_add_one hfair
    have hzero : (0 : Int32).toInt = 0 := rfl
    -- a region is held, so the counter is not cut off at zero
    have hpos : s.thread.g_jni_critical > 0 := by
      rw [gt_iff_lt, Int32.lt_iff_toInt_lt, hcounted, hzero]
      omega
    have hlt : s.thread.g_jni_critical.toInt < 2 ^ 31 := Int32.toInt_lt _
    have hone : (1 : Int32).toInt = 1 := rfl
    unfold App.Counted
    rw [hcrit, if_pos hpos, hheld, Int32.toInt_sub, hcounted, hone,
      Int.bmod_eq_of_le (by omega) (by omega)]
    omega

/-- An acquisition that fails is counted, and nothing is acquired. -/
theorem not_counted (h : s.Inv) {op : Op} (hok : ¬ Succeeds s op) :
    ¬ (app.next s op).Counted := by
  obtain ⟨-, hop⟩ := next_cases h.outside op
  have hcounted : s.thread.g_jni_critical.toInt = s.held.length := h.counted
  cases op with
  | release => exact absurd trivial hok
  | get kind original log caller =>
    obtain ⟨hcrit, hheld⟩ := hop
    unfold App.Counted
    rw [hcrit, hheld]
    by_cases hnull : original.getD 0 = 0
    · -- nothing is held, and the counter has changed
      rw [if_pos hnull]
      exact toInt_succ_ne hcounted
    · -- the region is one more than an `int` can count
      rw [if_neg hnull]
      have hfull : ¬ s.held.length + 1 < 2 ^ 31 := fun hroom => hok ⟨hnull, hroom⟩
      have hlt : (s.thread.g_jni_critical + 1).toInt < 2 ^ 31 := Int32.toInt_lt _
      rw [List.length_cons]
      omega

end Steps

theorem App.inv_initial : App.initial.Inv := ⟨rfl, rfl⟩

/-- With a right counter objects are rendered exactly while no region is
    held. -/
theorem vis_safe_to_call_iff {s : App} (h : s.Counted) :
    vis_safe_to_call s.thread false false (some false) = true ↔ s.held = [] := by
  have hzero : s.thread.g_jni_critical = 0 ↔ s.held = [] := by
    rw [← Int32.toInt_inj, h, ← List.length_eq_zero_iff]
    exact Int.natCast_eq_zero
  rw [← hzero]
  simp [vis_safe_to_call, is_jni_critical]

/-- **Main result.** Along a run of an app that releases what it holds the
    counter is the number of regions held exactly when no acquisition
    returns NULL, with less than 2^31 regions at a time. -/
theorem counted_iff {ops : List Op} (hfair : app.Meets Releases App.initial ops) :
    (∀ s ∈ app.trace App.initial ops, s.Counted) ↔ app.Meets Succeeds App.initial ops :=
  Machine.good_iff_meets_of (fun _ h => h.counted) (fun _ _ h hfair hok => h.next hfair hok)
    (fun _ _ h _ hok => not_counted h hok) App.inv_initial hfair

/-- An array and a string, released in the order of their acquisition. -/
def nestedRun : List Op :=
  [.get .array (some 0x1000) true default, .get .string (some 0x2000) true default,
    .release ⟨.array, 0x1000⟩ 0 true default, .release ⟨.string, 0x2000⟩ 0 false default]

theorem counted_nestedRun :
    app.Meets Succeeds App.initial nestedRun ∧
      ∀ s ∈ app.trace App.initial nestedRun, s.Counted := by
  have hfair : app.Meets Releases App.initial nestedRun :=
    ⟨trivial, trivial, by decide, by decide, trivial⟩
  have hok : app.Meets Succeeds App.initial nestedRun :=
    ⟨⟨by decide, by decide⟩, ⟨by decide, by decide⟩, trivial, trivial, trivial⟩
  exact ⟨hok, (counted_iff hfair).mpr hok⟩

/-- One acquisition fails: the counter is 1, with no region to release. -/
theorem failed_get_counts :
    ¬ ∀ ops : List Op, app.Meets Releases App.initial ops →
      ∀ s ∈ app.trace App.initial ops, s.Counted := by
  intro h
  have hrun : app.Meets Releases App.initial [.get .array (some 0) false default] :=
    ⟨trivial, trivial⟩
  have hcounted := h _ hrun _ (Machine.exec_mem_trace app _ _)
  exact absurd hcounted (by decide)

end JniLog.CriticalSections
