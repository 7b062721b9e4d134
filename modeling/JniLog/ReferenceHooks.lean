import JniLog.UtilityHooks

/-! # The hooks for references

    `hooks.c` records the calls that make and delete references. The
    object is put aside for the consumer by a global reference: before a
    reference is deleted, and after one is made or a local frame is
    popped.

    * The original is any operation, in any state. What it makes or
      deletes is in the state that it leaves.
    * The references a hook looks at are NULL or may be used when it does:
      but not the result of `PopLocalFrame`, which was a reference of the
      frame that is popped.

    Main result: with a consumer attached, the hooks are transparent just
    when nothing is pending at the time the object is put aside and, for
    `PopLocalFrame`, the result may still be used,
    `reference_hooks_exact`. So a reference that is deleted while an
    exception is pending, which the app may do, and a reference to the
    result that goes with the frame, are used against the rules. -/

namespace JniLog.ReferenceHooks

open Bytes Brackets HookScope JniRules FrameKept HookTransparency ExceptionHooks UtilityHooks

/-! ## Section 1: The hooks -/

section Hooks

variable {σ : Type} (H : Host σ) (G : Logging σ) (E : Entries σ) (B : Events σ) (env : UInt64)

/-- The hooks that delete a reference. -/
def deleteHook (name : CStr) (slot : Int32) (original : UInt64 → Op σ Unit) (ref caller : UInt64) :
    Prog σ Unit :=
  beforeHook H G E B env name slot (original ref) (.obj ref) .void caller

def hooked_DeleteGlobalRef (slot : Int32) (original : UInt64 → Op σ Unit)
    (globalRef caller : UInt64) : Prog σ Unit :=
  deleteHook H G E B env (named "DeleteGlobalRef") slot original globalRef caller

def hooked_DeleteLocalRef (slot : Int32) (original : UInt64 → Op σ Unit)
    (localRef caller : UInt64) : Prog σ Unit :=
  deleteHook H G E B env (named "DeleteLocalRef") slot original localRef caller

def hooked_DeleteWeakGlobalRef (slot : Int32) (original : UInt64 → Op σ Unit)
    (ref caller : UInt64) : Prog σ Unit :=
  deleteHook H G E B env (named "DeleteWeakGlobalRef") slot original ref caller

/-- The hooks that get a reference and answer another. -/
def referenceHook (name : CStr) (slot : Int32) (original : UInt64 → Op σ UInt64)
    (ref caller : UInt64) : Prog σ UInt64 :=
  afterHook H G E B env name slot (original ref) (.obj ref) .obj caller

def hooked_NewGlobalRef (slot : Int32) (original : UInt64 → Op σ UInt64) (obj caller : UInt64) :
    Prog σ UInt64 :=
  referenceHook H G E B env (named "NewGlobalRef") slot original obj caller

def hooked_NewLocalRef (slot : Int32) (original : UInt64 → Op σ UInt64) (ref caller : UInt64) :
    Prog σ UInt64 :=
  referenceHook H G E B env (named "NewLocalRef") slot original ref caller

def hooked_NewWeakGlobalRef (slot : Int32) (original : UInt64 → Op σ UInt64)
    (obj caller : UInt64) : Prog σ UInt64 :=
  referenceHook H G E B env (named "NewWeakGlobalRef") slot original obj caller

def hooked_PopLocalFrame (slot : Int32) (original : UInt64 → Op σ UInt64)
    (result caller : UInt64) : Prog σ UInt64 :=
  referenceHook H G E B env (named "PopLocalFrame") slot original result caller

end Hooks

/-! ## Section 2: What the hooks leave -/

section Exact

variable {σ Obj : Type} (M : JavaMachine σ Obj) (F : Frame Obj)

/-- The hook comes to the call of the original in a state `s'` that is as
    the app left it, unless a reference was put aside against the rules;
    what it leaves is what the original leaves from there. -/
def Deletes (hook : (UInt64 → Op (Watched σ Obj) Unit) → UInt64 → Prog (Watched σ Obj) Unit) :
    Prop :=
  ∀ delete ref s, F.critical = false → Valid M.toVM F ref → Clean F 0 s →
    ∃ s', Verdict F 0 (ref == 0 || F.pending.isNone) s' ∧ hook delete ref s = op (delete ref) s'

/-- The original leaves the frame `F`, and answers NULL or a reference
    that may be used, as `ref` may. -/
def Makes (hook : (UInt64 → Op (Watched σ Obj) UInt64) → UInt64 → Prog (Watched σ Obj) UInt64) :
    Prop :=
  ∀ make ref s r, r = (op (make ref) s).1 → Clean F 0 (op (make ref) s).2 → F.critical = false →
    Valid M.toVM F ref → Valid M.toVM F r →
    (hook make ref s).1 = r ∧
      Verdict F 0 ((ref == 0 && r == 0) || F.pending.isNone) (hook make ref s).2

/-- The original leaves the frame `F`, in which `result` may be used no
    more. NULL is answered for NULL. -/
def Pops (hook : (UInt64 → Op (Watched σ Obj) UInt64) → UInt64 → Prog (Watched σ Obj) UInt64) :
    Prop :=
  ∀ pop result s r, r = (op (pop result) s).1 → Clean F 0 (op (pop result) s).2 →
    F.critical = false → Valid M.toVM F r → (result = 0 → r = 0) →
    (hook pop result s).1 = r ∧
      Verdict F 0 (result == 0 || (F.pending.isNone && M.alive F result)) (hook pop result s).2

variable {M F}

theorem quiet_singleton (hcritical : F.critical = false) (ref : UInt64) :
    M.quiet F [ref] = (F.pending.isNone && M.alive F ref) := by
  unfold VM.quiet
  rw [hcritical, List.all_cons, List.all_nil, Bool.not_false, Bool.true_and, Bool.and_true]

/-- Only what is pending keeps a valid reference from being used. -/
theorem usable_of_valid (hcritical : F.critical = false) {ref : UInt64}
    (hvalid : Valid M.toVM F ref) : usable M F [ref] = (ref == 0 || F.pending.isNone) := by
  by_cases hnull : ref = 0
  · rw [usable_null ref hnull, beq_iff_eq.mpr hnull, Bool.true_or]
  · rw [usable_object ref hnull, quiet_singleton hcritical, hvalid.resolve_left hnull,
      beq_eq_false_iff_ne.mpr hnull, Bool.and_true, Bool.false_or]

theorem usable_pair (ref r : UInt64) :
    usable M F [ref, r] = (usable M F [ref] && usable M F [r]) :=
  usable_append [ref] [r]

variable {G : Logging σ} {env caller : UInt64} {name : CStr} {slot : Int32}

theorem deletes_deleteHook (h : Deferring M G env caller name) :
    Deletes M F fun delete ref =>
      deleteHook M.watch G.watch M.watchEntries M.watchEvents env name slot delete ref caller := by
  intro delete ref s hcritical hvalid hs
  have hrecord : HooksRecord M G env caller name slot (usable M) := hooksRecord_logged h
  obtain ⟨s', hverdict, heq⟩ := hrecord.before (delete ref) (.obj ref) .void F s hs
  refine ⟨s', ?_, heq⟩
  rwa [← usable_of_valid hcritical hvalid]

/-- What is put aside is the argument and the answer. -/
theorem verdict_referenceHook (h : Deferring M G env caller name) (slot : Int32)
    (original : UInt64 → Op (Watched σ Obj) UInt64) (ref : UInt64) {s : Counted (Watched σ Obj)}
    (hs : Clean F 0 (op (original ref) s).2) :
    Verdict F 0 (usable M F [ref] && usable M F [(op (original ref) s).1])
      (referenceHook M.watch G.watch M.watchEntries M.watchEvents env name slot original ref caller
        s).2 := by
  have hrecord : HooksRecord M G env caller name slot (usable M) := hooksRecord_logged h
  have hverdict := (hrecord.after UInt64 (original ref) (.obj ref) .obj F s hs).2
  rwa [← usable_pair]

theorem makes_referenceHook (h : Deferring M G env caller name) :
    Makes M F fun make ref =>
      referenceHook M.watch G.watch M.watchEntries M.watchEvents env name slot make ref caller := by
  rintro make ref s r rfl hs hcritical href hr
  refine ⟨rfl, ?_⟩
  have hverdict := verdict_referenceHook h slot make ref hs
  rwa [usable_of_valid hcritical href, usable_of_valid hcritical hr, ← Bool.or_and_distrib_right]
    at hverdict

theorem pops_referenceHook (h : Deferring M G env caller name) :
    Pops M F fun pop result =>
      referenceHook M.watch G.watch M.watchEntries M.watchEvents env name slot pop result
        caller := by
  rintro pop result s r rfl hs hcritical hr hnull
  refine ⟨rfl, ?_⟩
  have hverdict := verdict_referenceHook h slot pop result hs
  rw [usable_of_valid hcritical hr] at hverdict
  by_cases hresult : result = 0
  · -- NULL is answered for NULL, and neither is put aside
    rw [usable_null result hresult, hnull hresult] at hverdict
    rw [beq_iff_eq.mpr hresult]
    exact hverdict
  · -- the result may have gone with its frame; the answer is in the frame that is left
    rw [usable_object result hresult, quiet_singleton hcritical] at hverdict
    rw [beq_eq_false_iff_ne.mpr hresult, Bool.false_or]
    cases hpending : F.pending.isNone with
    | true => rwa [hpending, Bool.or_true, Bool.and_true] at hverdict
    | false => rwa [hpending] at hverdict

end Exact

/-! ## Section 3: Main theorem -/

/-- What each of the hooks leaves, where it comes to the frame `F`. -/
structure ReferencesExact {σ Obj : Type} (M : JavaMachine σ Obj) (G : Logging σ)
    (env caller : UInt64) (slot : Int32) (F : Frame Obj) : Prop where
  deleteGlobal : Deletes M F fun delete globalRef =>
    hooked_DeleteGlobalRef M.watch G.watch M.watchEntries M.watchEvents env slot delete globalRef
      caller
  deleteLocal : Deletes M F fun delete localRef =>
    hooked_DeleteLocalRef M.watch G.watch M.watchEntries M.watchEvents env slot delete localRef
      caller
  deleteWeak : Deletes M F fun delete ref =>
    hooked_DeleteWeakGlobalRef M.watch G.watch M.watchEntries M.watchEvents env slot delete ref
      caller
  newGlobal : Makes M F fun make obj =>
    hooked_NewGlobalRef M.watch G.watch M.watchEntries M.watchEvents env slot make obj caller
  newLocal : Makes M F fun make ref =>
    hooked_NewLocalRef M.watch G.watch M.watchEntries M.watchEvents env slot make ref caller
  newWeak : Makes M F fun make obj =>
    hooked_NewWeakGlobalRef M.watch G.watch M.watchEntries M.watchEvents env slot make obj caller
  popFrame : Pops M F fun pop result =>
    hooked_PopLocalFrame M.watch G.watch M.watchEntries M.watchEvents env slot pop result caller

/-- **Main result.** With a consumer attached and room in the sidecar, and
    outside of critical sections, the hooks for references are transparent
    except when an exception is pending as an object is put aside, and
    when the result of `PopLocalFrame` went with the frame: then it is put
    aside against the rules. -/
theorem reference_hooks_exact {σ Obj : Type} (M : JavaMachine σ Obj) (G : Logging σ)
    (env caller : UInt64) (slot : Int32) (F : Frame Obj)
    (hdeferring : ∀ name, Deferring M G env caller name) :
    ReferencesExact M G env caller slot F where
  deleteGlobal := deletes_deleteHook (hdeferring _)
  deleteLocal := deletes_deleteHook (hdeferring _)
  deleteWeak := deletes_deleteHook (hdeferring _)
  newGlobal := makes_referenceHook (hdeferring _)
  newLocal := makes_referenceHook (hdeferring _)
  newWeak := makes_referenceHook (hdeferring _)
  popFrame := pops_referenceHook (hdeferring _)

/-- `PopLocalFrame`, which may be called with an exception pending: the
    references that were made since the frame was pushed are gone, and `r`
    refers to the result in the frame before. -/
def popLocalFrame {σ Obj : Type} (M : JavaMachine σ Obj) (r : UInt64) (result : UInt64) :
    Op (Watched σ Obj) UInt64 := fun _ w =>
  let popped : Frame Obj :=
    { w.frame with
      locals := w.frame.locals.drop (w.frame.locals.length - w.frame.marks.headD 0)
      marks := w.frame.marks.tail }
  match M.denotes w.frame result with
  | none => (0, { w with frame := popped })
  | some o => (r, { w with frame := popped.push r o })

/-- The object 6 is local to a frame that has been pushed. -/
def pushedLocals : Frame UInt64 := ⟨none, false, [(6, 6), (4, 4)], [1], []⟩

/-- The reference 6 goes with its frame, and 8 is answered for it. -/
theorem reference_hooks_exact_popped :
    (hooked_PopLocalFrame answeringMachine.watch loggingAll.watch answeringMachine.watchEntries
      answeringMachine.watchEvents 1 20 (popLocalFrame answeringMachine 8) 6 2
      ⟨⟨(), pushedLocals, false⟩, 0⟩).2.world.misused = true :=
  ((reference_hooks_exact answeringMachine loggingAll 1 2 20 ⟨none, false, [(8, 6), (4, 4)], [], []⟩
    fun _ => ⟨⟨fun _ _ => rfl, fun _ _ => rfl, fun _ => rfl⟩, fun _ => rfl⟩).popFrame
      (popLocalFrame answeringMachine 8) 6 ⟨⟨(), pushedLocals, false⟩, 0⟩ 8 rfl ⟨rfl, rfl, rfl⟩ rfl
      (.inr (by decide)) (by decide)).2

end JniLog.ReferenceHooks
