import JniLog.Framework.Triples
import JniLog.HookScope

/-! # The rules of JNI

    What a native thread has open with the virtual machine, and what the
    calls of the helpers of `visualize.c` do to it. The answers come from
    a virtual machine of which nothing is known; the rules say when a
    call is allowed.

    * While an exception is pending only the calls that look at it, clear
      it or give something back are allowed; in a critical section none.
    * A reference may be used while it is a local one of the frame or a
      global one.
    * An array is read by the functions for its elements: those of its
      primitive type, or the one for objects. Only an array has a length.
    * A call that throws answers NULL and makes no reference. Asking for
      the class or the length of an object, or for its contents, does not
      throw.
    * Chars and elements that were got are given back once.
    * A call that is not allowed is recorded, and nothing is said about
      what it does. -/

namespace JniLog.JniRules

open Bytes Brackets Grow HookScope

/-! ## Section 1: The frame of a native call -/

/-- Something the virtual machine has lent. -/
inductive Pin where
  | chars (str : UInt64)
  | elements (item : UInt8) (arr : UInt64)
  deriving DecidableEq, Repr

/-- What a thread has open, where the objects are `Obj`. -/
structure Frame (Obj : Type) where
  /-- the exception that is pending -/
  pending : Option Obj
  critical : Bool
  /-- the local references, the newest first -/
  locals : List (UInt64 × Obj)
  /-- how many there were when each of the open local frames was pushed -/
  marks : List Nat
  pins : List Pin

/-- The machine that answers, and what can be seen of it. -/
structure VM (σ Obj : Type) where
  host : Host σ
  /-- what the call that was just made has thrown -/
  thrown : σ → Option Obj
  /-- what a new reference refers to -/
  object : σ → UInt64 → Obj
  /-- the elements of an array, by the letter of their primitive type or
      `L`; there are none of another object -/
  element : Obj → Option UInt8
  /-- the global references -/
  global : UInt64 → Option Obj
  /-- a consumer of the events is attached -/
  consumer : σ → Bool
  /-- another object can be put aside for it -/
  room : σ → Bool

/-- A machine that is watched. -/
structure Watched (σ Obj : Type) where
  vm : σ
  frame : Frame Obj
  misused : Bool

section Frames

variable {σ Obj : Type} (V : VM σ Obj) (F : Frame Obj)

/-- `r` is one of the local references. -/
def Frame.has (r : UInt64) : Bool := F.locals.any fun l => l.1 == r

def Frame.push (r : UInt64) (o : Obj) : Frame Obj := { F with locals := (r, o) :: F.locals }

/-- `DeleteLocalRef`. -/
def Frame.drop (r : UInt64) : Frame Obj :=
  { F with locals := F.locals.eraseP fun l => l.1 == r }

def Frame.pin (p : Pin) : Frame Obj := { F with pins := p :: F.pins }

def Frame.unpin (p : Pin) : Frame Obj := { F with pins := F.pins.erase p }

def Frame.throw (e : Obj) : Frame Obj := { F with pending := some e }

def Frame.clear : Frame Obj := { F with pending := none }

/-- The reference may be used. -/
def VM.alive (r : UInt64) : Bool := (V.global r).isSome || F.has r

/-- The object a reference refers to. -/
def VM.denotes (r : UInt64) : Option Obj :=
  ((F.locals.find? fun l => l.1 == r).map Prod.snd).or (V.global r)

/-- Nothing is pending, and the references may be used. -/
def VM.quiet (refs : List UInt64) : Bool :=
  !F.critical && F.pending.isNone && refs.all (V.alive F)

/-- The length of `arr` may be asked for. -/
def VM.measurable (arr : UInt64) : Bool :=
  V.quiet F [arr] && (V.denotes F arr).any fun o => (V.element o).isSome

/-- The elements of `arr` may be read as those of the type `item`. -/
def VM.readable (item : UInt8) (arr : UInt64) : Bool :=
  V.quiet F [arr] && (V.denotes F arr).any fun o => V.element o == some item

@[simp] theorem push_pending (r : UInt64) (o : Obj) : (F.push r o).pending = F.pending := rfl

@[simp] theorem push_critical (r : UInt64) (o : Obj) : (F.push r o).critical = F.critical := rfl

@[simp] theorem pin_pending (p : Pin) : (F.pin p).pending = F.pending := rfl

@[simp] theorem pin_critical (p : Pin) : (F.pin p).critical = F.critical := rfl

theorem drop_push (r : UInt64) (o : Obj) : (F.push r o).drop r = F := by
  simp [Frame.drop, Frame.push]

theorem unpin_pin (p : Pin) : (F.pin p).unpin p = F := by
  simp [Frame.unpin, Frame.pin]

theorem clear_throw {F : Frame Obj} (h : F.pending = none) (e : Obj) : (F.throw e).clear = F := by
  unfold Frame.clear Frame.throw
  rw [← h]

theorem clear_eq {F : Frame Obj} (h : F.pending = none) : F.clear = F := by
  unfold Frame.clear
  rw [← h]

theorem has_push (r : UInt64) (o : Obj) : (F.push r o).has r = true := by
  unfold Frame.has Frame.push
  rw [List.any_cons, beq_self_eq_true, Bool.true_or]

theorem alive_push (r : UInt64) (o : Obj) : V.alive (F.push r o) r = true := by
  unfold VM.alive
  rw [has_push, Bool.or_true]

theorem denotes_push (r : UInt64) (o : Obj) : V.denotes (F.push r o) r = some o := by
  unfold VM.denotes Frame.push
  simp

variable {V F}

/-- A new reference does not end the life of another. -/
theorem alive_push_of_alive {r : UInt64} (h : V.alive F r = true) (c : UInt64) (o : Obj) :
    V.alive (F.push c o) r = true := by
  unfold VM.alive Frame.has Frame.push at *
  rw [List.any_cons]
  rw [Bool.or_eq_true] at *
  exact h.imp_right fun hr => by rw [hr, Bool.or_true]

theorem alive_of_denotes {r : UInt64} {o : Obj} (h : V.denotes F r = some o) :
    V.alive F r = true := by
  unfold VM.denotes at h
  unfold VM.alive Frame.has
  rw [Bool.or_eq_true, List.any_eq_true]
  cases hfind : F.locals.find? fun l => l.1 == r with
  | none =>
    rw [hfind, Option.map_none, Option.none_or] at h
    exact .inl (by rw [h]; rfl)
  | some l =>
    have hl : (l.1 == r) = true := by simpa using List.find?_some hfind
    exact .inr ⟨l, List.mem_of_find?_eq_some hfind, hl⟩

theorem quiet_nil (hpending : F.pending = none) (hcritical : F.critical = false) :
    V.quiet F [] = true := by
  unfold VM.quiet
  rw [hpending, hcritical]
  rfl

theorem quiet_cons {r : UInt64} {refs : List UInt64} (h : V.quiet F refs = true)
    (hr : V.alive F r = true) : V.quiet F (r :: refs) = true := by
  unfold VM.quiet at *
  rw [List.all_cons, hr, Bool.true_and]
  exact h

end Frames

/-! ## Section 2: Watching the machine -/

section Watching

variable {σ Obj α : Type} (V : VM σ Obj)

/-- An operation that is no call of JNI. -/
def beneath (f : Op σ α) : Op (Watched σ Obj) α := fun d w =>
  ((f d w.vm).1, { w with vm := (f d w.vm).2 })

/-- A call of JNI: the frames it is allowed in, and what the rules make of
    the answer and of the frame. -/
def ruled (allowed : Frame Obj → Bool) (f : Op σ α) (effect : α → σ → Frame Obj → α × Frame Obj) :
    Op (Watched σ Obj) α := fun d w =>
  let answer := f d w.vm
  if allowed w.frame then
    let e := effect answer.1 answer.2 w.frame
    (e.1, ⟨answer.2, e.2, w.misused⟩)
  else (answer.1, ⟨answer.2, w.frame, true⟩)

/-- A call that answers a new reference, or throws. -/
def VM.newRef (r : UInt64) (vm : σ) (F : Frame Obj) : UInt64 × Frame Obj :=
  match V.thrown vm with
  | some e => (0, F.throw e)
  | none => if r = 0 then (0, F) else (r, F.push r (V.object vm r))

/-- A call that answers a new reference and does not throw. -/
def VM.plainRef (r : UInt64) (vm : σ) (F : Frame Obj) : UInt64 × Frame Obj :=
  if r = 0 then (0, F) else (r, F.push r (V.object vm r))

/-- A call that answers something else, or throws. -/
def VM.orThrow (a : UInt64) (vm : σ) (F : Frame Obj) : UInt64 × Frame Obj :=
  match V.thrown vm with
  | some e => (0, F.throw e)
  | none => (a, F)

theorem newRef_critical (r : UInt64) (vm : σ) (F : Frame Obj) :
    (V.newRef r vm F).2.critical = F.critical := by
  unfold VM.newRef
  cases V.thrown vm with
  | some e => rfl
  | none =>
    dsimp only
    split <;> rfl

theorem orThrow_critical (a : UInt64) (vm : σ) (F : Frame Obj) :
    (V.orThrow a vm F).2.critical = F.critical := by
  unfold VM.orThrow
  cases V.thrown vm with
  | some e => rfl
  | none => rfl

/-- What is answered as a new reference is NULL, or may be used. -/
theorem newRef_alive (r : UInt64) (vm : σ) (F : Frame Obj) :
    (V.newRef r vm F).1 = 0 ∨ V.alive (V.newRef r vm F).2 (V.newRef r vm F).1 = true := by
  unfold VM.newRef
  cases V.thrown vm with
  | some e => exact .inl rfl
  | none =>
    dsimp only
    split
    · exact .inl rfl
    · exact .inr (alive_push V F r _)

/-- `ExceptionCheck`. -/
def asked (_ : Bool) (_ : σ) (F : Frame Obj) : Bool × Frame Obj := (F.pending.isSome, F)

/-- `ExceptionClear`. -/
def cleared (_ : Unit) (_ : σ) (F : Frame Obj) : Unit × Frame Obj := ((), F.clear)

def unchanged (a : α) (_ : σ) (F : Frame Obj) : α × Frame Obj := (a, F)

/-- What is got is lent; NULL is not. -/
def lend (p : Pin) (a : Option α) (_ : σ) (F : Frame Obj) : Option α × Frame Obj :=
  match a with
  | none => (none, F)
  | some a => (some a, F.pin p)

def giveBack (p : Pin) (_ : Unit) (_ : σ) (F : Frame Obj) : Unit × Frame Obj := ((), F.unpin p)

def outsideCritical (F : Frame Obj) : Bool := !F.critical

/-- `DeleteLocalRef` of NULL does nothing. -/
def deletable (r : UInt64) (F : Frame Obj) : Bool := !F.critical && (r == 0 || F.has r)

def deleted (r : UInt64) (_ : Unit) (_ : σ) (F : Frame Obj) : Unit × Frame Obj :=
  ((), if r = 0 then F else F.drop r)

def lent (p : Pin) (F : Frame Obj) : Bool := !F.critical && F.pins.contains p

/-- `Get<Type>ArrayElements` and its release. -/
def VM.getElements (item : UInt8) (get : UInt64 → Op σ (Option α)) (arr : UInt64) :
    Op (Watched σ Obj) (Option α) :=
  ruled (V.readable · item arr) (get arr) (lend (.elements item arr))

def releaseElements (item : UInt8) (release : UInt64 → Op σ Unit) (arr : UInt64) :
    Op (Watched σ Obj) Unit :=
  ruled (lent (.elements item arr)) (release arr) (giveBack (.elements item arr))

/-- The table of a watched machine. -/
def VM.checked (J : Jni σ) : Jni (Watched σ Obj) where
  ExceptionCheck := J.ExceptionCheck.map fun check => ruled outsideCritical check asked
  ExceptionClear := ruled outsideCritical J.ExceptionClear cleared
  FindClass := J.FindClass.map fun findClass name => ruled (V.quiet · []) (findClass name) V.newRef
  IsInstanceOf := J.IsInstanceOf.map fun isInstanceOf obj c =>
    ruled (V.quiet · [obj, c]) (isInstanceOf obj c) unchanged
  DeleteLocalRef r := ruled (deletable r) (J.DeleteLocalRef r) (deleted r)
  GetObjectClass obj := ruled (V.quiet · [obj]) (J.GetObjectClass obj) V.plainRef
  GetMethodID c name sig := ruled (V.quiet · [c]) (J.GetMethodID c name sig) V.orThrow
  CallObjectMethod obj mid := ruled (V.quiet · [obj]) (J.CallObjectMethod obj mid) V.newRef
  GetStringUTFChars str := ruled (V.quiet · [str]) (J.GetStringUTFChars str) (lend (.chars str))
  ReleaseStringUTFChars str :=
    ruled (lent (.chars str)) (J.ReleaseStringUTFChars str) (giveBack (.chars str))
  GetArrayLength arr := ruled (V.measurable · arr) (J.GetArrayLength arr) unchanged
  GetBooleanArrayElements := V.getElements 0x5a J.GetBooleanArrayElements
  GetByteArrayElements := V.getElements 0x42 J.GetByteArrayElements
  GetCharArrayElements := V.getElements 0x43 J.GetCharArrayElements
  GetShortArrayElements := V.getElements 0x53 J.GetShortArrayElements
  GetIntArrayElements := V.getElements 0x49 J.GetIntArrayElements
  GetLongArrayElements := V.getElements 0x4a J.GetLongArrayElements
  GetFloatArrayElements := V.getElements 0x46 J.GetFloatArrayElements
  GetDoubleArrayElements := V.getElements 0x44 J.GetDoubleArrayElements
  ReleaseBooleanArrayElements := releaseElements 0x5a J.ReleaseBooleanArrayElements
  ReleaseByteArrayElements := releaseElements 0x42 J.ReleaseByteArrayElements
  ReleaseCharArrayElements := releaseElements 0x43 J.ReleaseCharArrayElements
  ReleaseShortArrayElements := releaseElements 0x53 J.ReleaseShortArrayElements
  ReleaseIntArrayElements := releaseElements 0x49 J.ReleaseIntArrayElements
  ReleaseLongArrayElements := releaseElements 0x4a J.ReleaseLongArrayElements
  ReleaseFloatArrayElements := releaseElements 0x46 J.ReleaseFloatArrayElements
  ReleaseDoubleArrayElements := releaseElements 0x44 J.ReleaseDoubleArrayElements
  GetObjectArrayElement arr i :=
    ruled (V.readable · 0x4c arr) (J.GetObjectArrayElement arr i) V.newRef

/-- `realloc` beneath. -/
def realloc (A : Realloc σ) : Realloc (Watched σ Obj) where
  call mem n w := ((A.call mem n w.vm).1, { w with vm := (A.call mem n w.vm).2 })
  length_eq mem n w mem' h := A.length_eq mem n w.vm mem' h
  keeps mem n w mem' h := A.keeps mem n w.vm mem' h

/-- `event_pipe_defer_render_push` makes a global reference to the object,
    if it comes so far. -/
def VM.defer (env obj : UInt64) : Op (Watched σ Obj) Int32 :=
  fun d w =>
    if V.consumer w.vm && V.room w.vm then
      ruled (V.quiet · [obj]) (V.host.event_pipe_defer_render_push env obj) unchanged d w
    else beneath (V.host.event_pipe_defer_render_push env obj) d w

/-- The process on a watched machine. -/
def VM.watch : Host (Watched σ Obj) where
  g_original_jni_table := V.host.g_original_jni_table.map V.checked
  is_jni_critical := fun _ w => (if w.frame.critical then 1 else 0, w)
  g_class_name_only := beneath V.host.g_class_name_only
  malloc n := beneath (V.host.malloc n)
  strdup s := beneath (V.host.strdup s)
  realloc := realloc V.host.realloc
  free := beneath V.host.free
  event_pipe_defer_render_push := V.defer
  log_jni_return slot name kind raw str extra :=
    beneath (V.host.log_jni_return slot name kind raw str extra)
  log_jni_field_access slot name rkind rstr rextra field kind raw str extra caller :=
    beneath
      (V.host.log_jni_field_access slot name rkind rstr rextra field kind raw str extra caller)

end Watching

/-! ## Section 3: What the calls do -/

section Calls

variable {σ Obj α : Type} {V : VM σ Obj} {F : Frame Obj} {d : Nat} {J : Jni σ}

/-- The frame is `F`, `d` scopes are open, and the rules have been kept. -/
def Clean (F : Frame Obj) (d : Nat) : Assertion (Watched σ Obj) := fun s =>
  s.depth = d ∧ s.world.frame = F ∧ s.world.misused = false

/-- The frame is `F`, but for an exception that may be pending. -/
def Threw (F : Frame Obj) (d : Nat) : Assertion (Watched σ Obj) := fun s =>
  Clean F d s ∨ ∃ e, Clean (F.throw e) d s

/-- The reference `r` is new. -/
def Holding (F : Frame Obj) (d : Nat) (r : UInt64) : Assertion (Watched σ Obj) := fun s =>
  ∃ o, Clean (F.push r o) d s

/-- A call that does not throw has answered `r`. -/
def Given (F : Frame Obj) (d : Nat) (r : UInt64) : Assertion (Watched σ Obj) :=
  if r = 0 then Clean F d else Holding F d r

/-- A call that may throw has answered the reference `r`. -/
def Answered (F : Frame Obj) (d : Nat) (r : UInt64) : Assertion (Watched σ Obj) :=
  if r = 0 then Threw F d else Holding F d r

/-- A call that may throw has answered `a`, which is no reference. -/
def Found (F : Frame Obj) (d : Nat) (a : UInt64) : Assertion (Watched σ Obj) :=
  if a = 0 then Threw F d else Clean F d

/-- `p` has been asked for. -/
def Lent (F : Frame Obj) (d : Nat) (p : Pin) : Option α → Assertion (Watched σ Obj)
  | none => Clean F d
  | some _ => Clean (F.pin p) d

/-- **A call of JNI** that is allowed. -/
theorem triple_ruled {allowed : Frame Obj → Bool} {f : Op σ α}
    {effect : α → σ → Frame Obj → α × Frame Obj} {Q : α → Assertion (Watched σ Obj)}
    (hallowed : allowed F = true)
    (hpost : ∀ a vm s, Clean (effect a vm F).2 d s → Q (effect a vm F).1 s) :
    Triple (Clean F d) (op (ruled allowed f effect)) Q := by
  refine Triple.op ?_
  rintro s ⟨hdepth, hframe, hkept⟩
  have hcall : ruled allowed f effect s.depth s.world =
      ((effect (f s.depth s.world.vm).1 (f s.depth s.world.vm).2 F).1,
        ⟨(f s.depth s.world.vm).2,
          (effect (f s.depth s.world.vm).1 (f s.depth s.world.vm).2 F).2, false⟩) := by
    unfold ruled
    rw [hframe, if_pos hallowed, hkept]
  rw [hcall]
  exact hpost _ _ _ ⟨hdepth, rfl, rfl⟩

theorem keeping_beneath (f : Op σ α) :
    Keeping (Clean F d) (op (beneath f : Op (Watched σ Obj) α)) :=
  fun _ hs => hs

theorem keeping_unchanged {allowed : Frame Obj → Bool} {f : Op σ α} (hallowed : allowed F = true) :
    Keeping (Clean F d) (op (ruled allowed f unchanged)) :=
  triple_ruled hallowed fun _ _ _ hs => hs

/-- An object may be put aside, or there is nobody to put it aside for. -/
theorem keeping_defer {env obj : UInt64}
    (h : V.quiet F [obj] = true ∨ ∀ vm, V.consumer vm = false) :
    Keeping (Clean F d) (op (V.defer env obj)) := by
  refine Triple.op ?_
  intro s hs
  unfold VM.defer
  split
  · rename_i hready
    rcases h with hquiet | hnobody
    · exact keeping_unchanged hquiet s hs
    · rw [hnobody, Bool.false_and] at hready
      exact absurd hready Bool.false_ne_true
  · exact hs

theorem triple_newRef {allowed : Frame Obj → Bool} {f : Op σ UInt64}
    (hallowed : allowed F = true) :
    Triple (Clean F d) (op (ruled allowed f V.newRef)) (Answered F d) := by
  refine triple_ruled hallowed ?_
  intro r vm s hs
  unfold VM.newRef at hs ⊢
  cases hthrown : V.thrown vm with
  | some e =>
    rw [hthrown] at hs
    exact .inr ⟨e, hs⟩
  | none =>
    rw [hthrown] at hs
    by_cases hr : r = 0
    · simp only [hr, if_true] at hs ⊢
      exact .inl hs
    · simp only [hr, if_false, Answered] at hs ⊢
      exact ⟨_, hs⟩

theorem triple_plainRef {allowed : Frame Obj → Bool} {f : Op σ UInt64}
    (hallowed : allowed F = true) :
    Triple (Clean F d) (op (ruled allowed f V.plainRef)) (Given F d) := by
  refine triple_ruled hallowed ?_
  intro r vm s hs
  unfold VM.plainRef at hs ⊢
  by_cases hr : r = 0
  · simp only [hr, if_true] at hs ⊢
    exact hs
  · simp only [hr, if_false, Given] at hs ⊢
    exact ⟨_, hs⟩

theorem triple_orThrow {allowed : Frame Obj → Bool} {f : Op σ UInt64}
    (hallowed : allowed F = true) :
    Triple (Clean F d) (op (ruled allowed f V.orThrow)) (Found F d) := by
  refine triple_ruled hallowed ?_
  intro a vm s hs
  unfold VM.orThrow at hs ⊢
  cases hthrown : V.thrown vm with
  | some e =>
    rw [hthrown] at hs
    exact .inr ⟨e, hs⟩
  | none =>
    rw [hthrown] at hs
    by_cases ha : a = 0
    · simp only [ha, Found, if_true]
      exact .inl hs
    · simp only [ha, Found, if_false]
      exact hs

theorem triple_lend {allowed : Frame Obj → Bool} {f : Op σ (Option α)} {p : Pin}
    (hallowed : allowed F = true) :
    Triple (Clean F d) (op (ruled allowed f (lend p))) (Lent F d p) := by
  refine triple_ruled hallowed ?_
  intro a vm s hs
  cases a with
  | none => exact hs
  | some a => exact hs

/-- What was lent last is given back. -/
theorem triple_giveBack {f : Op σ Unit} {p : Pin} (hcritical : F.critical = false) :
    Triple (Clean (F.pin p) d) (op (ruled (lent p) f (giveBack p))) fun _ => Clean F d := by
  refine triple_ruled ?_ ?_
  · unfold lent Frame.pin
    simp [hcritical]
  · intro a vm s hs
    rwa [giveBack, unpin_pin] at hs

/-- The reference that was made last is deleted. -/
theorem triple_delete {r : UInt64} (hcritical : F.critical = false) (hr : r ≠ 0) :
    Triple (Holding F d r) (op ((V.checked J).DeleteLocalRef r)) fun _ => Clean F d := by
  refine Triple.exists fun o => triple_ruled ?_ ?_
  · unfold deletable
    rw [has_push, push_critical, hcritical, Bool.or_true]
    rfl
  · intro a vm s hs
    rwa [deleted, if_neg hr, drop_push] at hs

/-- So is one that may be NULL. -/
theorem triple_deleteGiven {r : UInt64} (hcritical : F.critical = false) :
    Triple (Given F d r) (op ((V.checked J).DeleteLocalRef r)) fun _ => Clean F d := by
  by_cases hr : r = 0
  · rw [Given, if_pos hr]
    refine triple_ruled ?_ ?_
    · unfold deletable
      rw [hr, hcritical]
      rfl
    · intro a vm s hs
      rwa [deleted, if_pos hr] at hs
  · rw [Given, if_neg hr]
    exact triple_delete hcritical hr

/-- An exception that may be pending is cleared. -/
theorem triple_clear (hpending : F.pending = none) (hcritical : F.critical = false) :
    Triple (Threw F d) (op (V.checked J).ExceptionClear) fun _ => Clean F d := by
  refine Triple.or ?_ (Triple.exists fun e => ?_)
  · refine triple_ruled (by rw [outsideCritical, hcritical]; rfl) ?_
    intro a vm s hs
    rwa [cleared, clear_eq hpending] at hs
  · refine triple_ruled (by rw [outsideCritical, Frame.throw, hcritical]; rfl) ?_
    intro a vm s hs
    rwa [cleared, clear_throw hpending] at hs

theorem checked_ExceptionCheck (V : VM σ Obj) (J : Jni σ) :
    (V.checked J).ExceptionCheck =
      J.ExceptionCheck.map fun check => ruled outsideCritical check asked :=
  rfl

/-- `ExceptionCheck` sees what is pending. -/
theorem triple_asked {check : Op σ Bool} (hcritical : F.critical = false) :
    Triple (Clean F d) (op (ruled outsideCritical check asked)) fun a s =>
      a = F.pending.isSome ∧ Clean F d s := by
  refine triple_ruled (by rw [outsideCritical, hcritical]; rfl) ?_
  intro a vm s hs
  exact ⟨rfl, hs⟩

theorem triple_exceptionCheck (hJ : J.ExceptionCheck ≠ none) (hcritical : F.critical = false) :
    Triple (Clean F d) (exceptionCheck (V.checked J)) fun a s =>
      a = F.pending.isSome ∧ Clean F d s := by
  obtain ⟨check, hcheck⟩ := Option.ne_none_iff_exists'.mp hJ
  unfold exceptionCheck
  rw [checked_ExceptionCheck, hcheck, Option.map_some]
  exact triple_asked hcritical

end Calls

/-! ## Section 4: A machine that answers -/

/-- Classes are 7, strings are 8, other objects 9; nothing throws. -/
def answeringTable : Jni Unit where
  ExceptionCheck := some fun _ s => (false, s)
  ExceptionClear := fun _ s => ((), s)
  FindClass := some fun _ _ s => (7, s)
  IsInstanceOf := some fun _ _ _ s => (false, s)
  DeleteLocalRef := fun _ _ s => ((), s)
  GetObjectClass := fun _ _ s => (7, s)
  GetMethodID := fun _ _ _ _ s => (1, s)
  CallObjectMethod := fun _ _ _ s => (8, s)
  GetStringUTFChars := fun _ _ s => (some default, s)
  ReleaseStringUTFChars := fun _ _ s => ((), s)
  GetArrayLength := fun _ _ s => (0, s)
  GetBooleanArrayElements := fun _ _ s => (none, s)
  GetByteArrayElements := fun _ _ s => (none, s)
  GetCharArrayElements := fun _ _ s => (none, s)
  GetShortArrayElements := fun _ _ s => (none, s)
  GetIntArrayElements := fun _ _ s => (none, s)
  GetLongArrayElements := fun _ _ s => (none, s)
  GetFloatArrayElements := fun _ _ s => (none, s)
  GetDoubleArrayElements := fun _ _ s => (none, s)
  ReleaseBooleanArrayElements := fun _ _ s => ((), s)
  ReleaseByteArrayElements := fun _ _ s => ((), s)
  ReleaseCharArrayElements := fun _ _ s => ((), s)
  ReleaseShortArrayElements := fun _ _ s => ((), s)
  ReleaseIntArrayElements := fun _ _ s => ((), s)
  ReleaseLongArrayElements := fun _ _ s => ((), s)
  ReleaseFloatArrayElements := fun _ _ s => ((), s)
  ReleaseDoubleArrayElements := fun _ _ s => ((), s)
  GetObjectArrayElement := fun _ _ _ s => (0, s)

def answeringHost : Host Unit where
  g_original_jni_table := some answeringTable
  is_jni_critical := fun _ s => (0, s)
  g_class_name_only := fun _ s => (false, s)
  malloc := fun n _ s => (some (List.replicate n 0), s)
  strdup := fun str _ s => (some str, s)
  realloc := WireEscape.zeroing
  free := fun _ s => ((), s)
  event_pipe_defer_render_push := fun _ _ _ s => (-1, s)
  log_jni_return := fun _ _ _ _ _ _ _ s => ((), s)
  log_jni_field_access := fun _ _ _ _ _ _ _ _ _ _ _ _ s => ((), s)

/-- Objects are named by the reference they are first met with; 12 is an
    `int[]`, and 13 an `int[][]`. -/
def answering : VM Unit UInt64 where
  host := answeringHost
  thrown := fun _ => none
  object := fun _ r => r
  element := fun o => if o = 12 then some 0x49 else if o = 13 then some 0x4c else none
  global := fun _ => none
  consumer := fun _ => true
  room := fun _ => true

/-- The receiver is 5, and 6 an argument. -/
def twoLocals : Frame UInt64 := ⟨none, false, [(6, 6), (5, 5)], [], []⟩

/-- Two arrays. -/
def twoArrays : Frame UInt64 := ⟨none, false, [(13, 13), (12, 12)], [], []⟩

end JniLog.JniRules
