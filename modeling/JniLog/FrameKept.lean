import JniLog.JniRules

/-! # The helpers and the frame

    What a hook does beside the call it stands for happens in the frame of
    the app: a local reference it forgets stays in the table until the
    native method returns, an exception it leaves pending is one the app
    did not raise, and a call that the rules forbid ends the process.

    Each helper of `visualize.c`, and each logger over them, keeps the
    frame and the rules, on each of its paths: what it makes it deletes,
    what it throws it clears, what it borrows it gives back.

    * With an exception pending a helper makes no call but the one that
      asks for the exception, and in a critical section none.
    * The loggers ask for the exception without a look at the critical
      section: the app may not call from there.
    * `vis_encode_array_items` reads the elements of the type that it is
      told. Nothing in it makes sure that the array has them.

    Main result: `helpers_keep_frame`. -/

namespace JniLog.FrameKept

open Bytes Brackets Grow HookScope JniRules

/-! ## Section 1: Scopes, and calls that are allowed -/

section Scopes

variable {σ Obj α : Type} {V : VM σ Obj} {F : Frame Obj} {d : Nat} {J : Jni σ} {env obj : UInt64}

theorem triple_open :
    Triple (Clean F d) (set_reentrant_call true : Prog (Watched σ Obj) Unit) fun _ =>
      Clean F (d + 1) := by
  rintro s ⟨hdepth, hframe, hkept⟩
  exact ⟨congrArg Nat.succ hdepth, hframe, hkept⟩

theorem triple_close :
    Triple (Clean F (d + 1)) (set_reentrant_call false : Prog (Watched σ Obj) Unit) fun _ =>
      Clean F d := by
  rintro s ⟨hdepth, hframe, hkept⟩
  have hpos : s.depth > 0 := by omega
  have hleave : (leave : Prog (Watched σ Obj) Unit) s = ((), { s with depth := s.depth - 1 }) := by
    unfold leave
    rw [if_pos hpos]
  show Clean F d ((leave : Prog (Watched σ Obj) Unit) s).2
  rw [hleave]
  exact ⟨show s.depth - 1 = d by omega, hframe, hkept⟩

/-- Nothing is left to do but to close the scope and to answer. -/
theorem triple_closing (a : α) :
    Triple (Clean F (d + 1))
      (do set_reentrant_call false; return a : Prog (Watched σ Obj) α) fun _ => Clean F d :=
  triple_close.bind fun _ => Keeping.pure a

/-- NULL, or a reference that may be used. -/
def Valid (V : VM σ Obj) (F : Frame Obj) (r : UInt64) : Prop := r = 0 ∨ V.alive F r = true

/-- Calls of the table are allowed in the frame. -/
structure Calling (F : Frame Obj) (J : Jni σ) : Prop where
  pending : F.pending = none
  critical : F.critical = false
  check : J.ExceptionCheck ≠ none

theorem Calling.push (h : Calling F J) (r : UInt64) (o : Obj) : Calling (F.push r o) J :=
  ⟨h.pending, h.critical, h.check⟩

theorem Calling.quiet (h : Calling F J) {refs : List UInt64}
    (hrefs : ∀ r ∈ refs, V.alive F r = true) : V.quiet F refs = true := by
  unfold VM.quiet
  rw [h.pending, h.critical]
  exact List.all_eq_true.mpr hrefs

theorem Calling.quiet_one (h : Calling F J) {r : UInt64} (hr : V.alive F r = true) :
    V.quiet F [r] = true :=
  h.quiet fun _ hmem => (List.mem_singleton.mp hmem) ▸ hr

theorem Calling.quiet_pushed (h : Calling F J) {r : UInt64} (o : Obj) :
    V.quiet (F.push r o) [r] = true :=
  (h.push r o).quiet_one (alive_push V F r o)

/-- The table that a helper goes on with, if it does. -/
def Checks (V : VM σ Obj) (F : Frame Obj) (T : Option (Jni (Watched σ Obj))) : Prop :=
  ∀ T', T = some T' → ∃ J, Calling F J ∧ T' = V.checked J

/-- The helper goes no further. -/
theorem triple_none :
    Triple (Clean F d) (pure none : Prog (Watched σ Obj) (Option (Jni _))) fun T s =>
      Checks V F T ∧ Clean F d s :=
  Triple.pure none fun _ hs => ⟨nofun, hs⟩

theorem triple_is_jni_critical :
    Triple (Clean F d) (op V.watch.is_jni_critical) fun c s =>
      (c = 0 → F.critical = false) ∧ Clean F d s := by
  refine Triple.op ?_
  rintro s ⟨hdepth, rfl, hkept⟩
  refine ⟨?_, hdepth, rfl, hkept⟩
  intro hzero
  by_contra hcritical
  rw [Bool.not_eq_false] at hcritical
  have hone : V.watch.is_jni_critical s.depth s.world = (1, s.world) := by
    show ((if s.world.frame.critical then 1 else 0 : Int32), s.world) = (1, s.world)
    rw [if_pos hcritical]
  rw [hone] at hzero
  exact absurd (show (1 : Int32) = 0 from hzero) (by decide)

/-- `vis_safe_to_call` answers the table when calls are allowed. -/
theorem triple_vis_safe_to_call :
    Triple (Clean F d) (vis_safe_to_call V.watch env) fun T s => Checks V F T ∧ Clean F d s := by
  unfold vis_safe_to_call
  cases htable : V.watch.g_original_jni_table with
  | none => exact triple_none
  | some T =>
    obtain ⟨J, -, rfl⟩ := Option.map_eq_some_iff.mp htable
    refine Triple.ite (fun _ => triple_none) fun _ => ?_
    refine Triple.bind triple_is_jni_critical fun critical => Triple.given fun hout => ?_
    refine Triple.ite (fun _ => triple_none) fun hzero => ?_
    have hcritical := hout (not_not.mp hzero)
    rw [checked_ExceptionCheck]
    cases hJ : J.ExceptionCheck with
    | none => exact triple_none
    | some check =>
      refine Triple.bind (triple_asked hcritical) fun pending => Triple.given fun hpending => ?_
      refine Triple.pure _ fun s hs => ⟨?_, hs⟩
      intro T' hT'
      cases hF : F.pending with
      | none =>
        rw [hpending, hF] at hT'
        exact ⟨J, ⟨hF, hcritical, by rw [hJ]; exact nofun⟩, (Option.some.inj hT').symm⟩
      | some e =>
        rw [hpending, hF] at hT'
        exact nomatch hT'

theorem triple_callable :
    Triple (Clean F d) (callable V.watch env obj) fun T s =>
      ((T ≠ none → obj ≠ 0) ∧ Checks V F T) ∧ Clean F d s := by
  refine Triple.ite (fun _ => ?_) fun hne => ?_
  · exact Triple.pure none fun _ hs => ⟨⟨fun h => absurd rfl h, nofun⟩, hs⟩
  · refine triple_vis_safe_to_call.post ?_
    rintro T s ⟨hT, hs⟩
    exact ⟨⟨fun _ => hne, hT⟩, hs⟩

end Scopes

/-! ## Section 2: The helpers of visualize.c -/

section Helpers

variable {σ Obj α : Type} {V : VM σ Obj} {F : Frame Obj} {d : Nat} {J : Jni σ}
  {env obj : UInt64}

/-- A helper that makes no call unless calls are allowed. -/
theorem keeping_called {go : Option (Jni (Watched σ Obj)) → Prog (Watched σ Obj) α}
    (hstop : Keeping (Clean F d) (go none))
    (hgo : ∀ J, Calling F J → obj ≠ 0 → Keeping (Clean F d) (go (some (V.checked J)))) :
    Keeping (Clean F d) (callable V.watch env obj >>= go) := by
  refine Triple.bind triple_callable fun T => Triple.given fun hT => ?_
  cases T with
  | none => exact hstop
  | some T =>
    obtain ⟨J, hJ, rfl⟩ := hT.2 T rfl
    exact hgo J hJ (hT.1 nofun)

theorem keeping_vis_is_instance (name : Bytes) (hobj : Valid V F obj) :
    Keeping (Clean F d) (vis_is_instance V.watch env name obj) := by
  refine keeping_called (.pure false) fun J hJ hne => ?_
  have halive := hobj.resolve_left hne
  refine Triple.bind triple_open fun _ => ?_
  split
  · rename_i findClass isInstanceOf hfind hinst
    obtain ⟨find, -, rfl⟩ := Option.map_eq_some_iff.mp hfind
    obtain ⟨inst, -, rfl⟩ := Option.map_eq_some_iff.mp hinst
    refine Triple.bind (triple_newRef (quiet_nil hJ.pending hJ.critical)) fun c => ?_
    refine Triple.choose (fun _ => ?_) fun hc => ?_
    -- the class is not found
    · exact (triple_clear hJ.pending hJ.critical).bind fun _ => triple_closing false
    · refine Triple.exists fun o => ?_
      have hquiet : V.quiet (F.push c o) [obj, c] = true :=
        quiet_cons (hJ.quiet_pushed o) (alive_push_of_alive halive c o)
      refine (keeping_unchanged hquiet).bind fun r => ?_
      refine Triple.bind ?_ fun _ => triple_closing r
      exact (triple_delete (F := F) hJ.critical hc).weaken (fun s hs => ⟨o, hs⟩) fun _ _ h => h
  · exact triple_closing false

theorem triple_clearPending (hJ : Calling F J) :
    Triple (Threw F d) (clearPending (V.checked J)) fun _ => Clean F d := by
  refine Triple.or ?_ (Triple.exists fun e => ?_)
  · refine Triple.bind (triple_exceptionCheck hJ.check hJ.critical) fun pending => ?_
    refine Triple.given fun hpending => ?_
    rw [hJ.pending] at hpending
    subst hpending
    exact Keeping.pure ()
  · have hcritical : (F.throw e).critical = false := hJ.critical
    refine Triple.bind (triple_exceptionCheck hJ.check hcritical) fun pending => ?_
    refine Triple.given fun hpending => ?_
    subst hpending
    exact (triple_clear hJ.pending hJ.critical).weaken (fun s hs => .inr ⟨e, hs⟩) fun _ _ h => h

/-- A call that may have thrown, when what it has thrown is cleared. -/
theorem triple_clearAnswered (hJ : Calling F J) {r : UInt64} :
    Triple (Answered F d r) (clearPending (V.checked J)) fun _ => Given F d r := by
  unfold Answered Given
  by_cases hr : r = 0
  · rw [if_pos hr, if_pos hr]
    exact triple_clearPending hJ
  · rw [if_neg hr, if_neg hr]
    refine Triple.exists fun o => ?_
    have hclear : Keeping (Clean (F.push r o) d) (clearPending (V.checked J)) :=
      (triple_clearPending (hJ.push r o)).weaken (fun s hs => .inl hs) fun _ _ h => h
    exact hclear.post fun _ s hs => ⟨o, hs⟩

/-- What `ExceptionCheck` sees of a call that may have thrown. -/
theorem triple_exceptionCheck_answered (hJ : Calling F J) {r : UInt64} :
    Triple (Answered F d r) (exceptionCheck (V.checked J)) fun threw =>
      if threw then fun s => r = 0 ∧ Threw F d s else Given F d r := by
  have hnot : ∀ {G : Frame Obj}, Calling G J →
      Triple (Clean G d) (exceptionCheck (V.checked J)) fun threw s =>
        threw = false ∧ Clean G d s := by
    intro G hG
    refine (triple_exceptionCheck hG.check hG.critical).post ?_
    rintro threw s ⟨hthrew, hs⟩
    rw [hG.pending] at hthrew
    exact ⟨hthrew, hs⟩
  unfold Answered
  by_cases hr : r = 0
  · rw [if_pos hr]
    refine Triple.or ?_ (Triple.exists fun e => ?_)
    · refine (hnot hJ).post ?_
      rintro threw s ⟨rfl, hs⟩
      rwa [if_neg Bool.false_ne_true, Given, if_pos hr]
    · have hcritical : (F.throw e).critical = false := hJ.critical
      refine (triple_exceptionCheck hJ.check hcritical).post ?_
      rintro threw s ⟨rfl, hs⟩
      exact ⟨hr, .inr ⟨e, hs⟩⟩
  · rw [if_neg hr]
    refine Triple.exists fun o => (hnot (hJ.push r o)).post ?_
    rintro threw s ⟨rfl, hs⟩
    rw [if_neg Bool.false_ne_true, Given, if_neg hr]
    exact ⟨o, hs⟩

theorem keeping_copyChars (hJ : Calling F J) {str : UInt64} (hstr : V.alive F str = true) :
    Keeping (Clean F d) (copyChars V.watch (V.checked J) str) := by
  refine Triple.bind (triple_lend (hJ.quiet_one hstr)) fun c => ?_
  cases c with
  | none => exact Keeping.pure none
  | some c =>
    refine (keeping_beneath _).bind fun res => ?_
    exact (triple_giveBack hJ.critical).bind fun _ => Keeping.pure res

/-- A new reference to a string is used up. -/
theorem triple_takeChars (hJ : Calling F J) {str : UInt64} :
    Triple (Given F d str) (takeChars V.watch (V.checked J) str) fun _ => Clean F d := by
  unfold Given takeChars
  by_cases hstr : str = 0
  · rw [if_pos hstr, if_neg (not_not.mpr hstr)]
    exact Keeping.pure none
  · rw [if_neg hstr, if_pos hstr]
    refine Triple.exists fun o => ?_
    refine (keeping_copyChars (hJ.push str o) (alive_push V F str o)).bind fun res => ?_
    have hdelete := triple_delete (V := V) (J := J) (d := d) hJ.critical hstr
    exact (hdelete.weaken (fun s hs => ⟨o, hs⟩) fun _ _ h => h).bind fun _ => Keeping.pure res

theorem triple_callGetName (hJ : Calling F J) {clazz mid : UInt64}
    (hclazz : V.alive F clazz = true) :
    Triple (Found F d mid) (callGetName V.watch (V.checked J) clazz mid) fun _ => Clean F d := by
  unfold Found callGetName
  by_cases hmid : mid = 0
  · rw [if_pos hmid, if_neg (not_not.mpr hmid)]
    exact (triple_clear hJ.pending hJ.critical).bind fun _ => Keeping.pure none
  · rw [if_neg hmid, if_pos hmid]
    refine Triple.bind (triple_newRef (hJ.quiet_one hclazz)) fun ns => ?_
    exact (triple_clearAnswered hJ).bind fun _ => triple_takeChars hJ

/-- The reference in hand is deleted, the scope closed. -/
theorem triple_deleteClosing {c : UInt64} (hJ : Calling F J) (hc : c ≠ 0) (o : Obj) (a : α) :
    Triple (Clean (F.push c o) (d + 1)) (do
      op ((V.checked J).DeleteLocalRef c)
      set_reentrant_call false
      return a) fun _ => Clean F d := by
  have hdelete := triple_delete (V := V) (J := J) (d := d + 1) hJ.critical hc
  exact (hdelete.weaken (fun s hs => ⟨o, hs⟩) fun _ _ h => h).bind fun _ => triple_closing a

theorem keeping_vis_class_name {clazz : UInt64} (hclazz : Valid V F clazz) :
    Keeping (Clean F d) (vis_class_name V.watch env clazz) := by
  refine keeping_called (.pure none) fun J hJ hne => ?_
  have halive := hclazz.resolve_left hne
  refine Triple.bind triple_open fun _ => ?_
  refine Triple.bind (triple_plainRef (hJ.quiet_one halive)) fun cc => ?_
  refine Triple.choose (fun _ => ?_) fun hcc => ?_
  · refine Triple.bind ?_ fun _ => triple_closing none
    exact (triple_clearPending hJ).weaken (fun s hs => .inl hs) fun _ _ h => h
  · refine Triple.exists fun o => ?_
    refine Triple.bind (triple_orThrow (hJ.quiet_pushed o)) fun mid => ?_
    have hpushed := alive_push_of_alive halive cc o
    refine Triple.bind (triple_callGetName (hJ.push cc o) hpushed) fun res => ?_
    exact triple_deleteClosing hJ hcc o res

/-- The scope is closed around the call of `vis_class_name`, with the
    reference in hand. -/
theorem keeping_vis_object_class_name (hobj : Valid V F obj) :
    Keeping (Clean F d) (vis_object_class_name V.watch env obj) := by
  refine keeping_called (.pure none) fun J hJ hne => ?_
  have halive := hobj.resolve_left hne
  refine Triple.bind triple_open fun _ => ?_
  refine Triple.bind (triple_plainRef (hJ.quiet_one halive)) fun c => ?_
  refine Triple.choose (fun _ => triple_closing none) fun hc => ?_
  refine Triple.exists fun o => ?_
  refine Triple.bind triple_close fun _ => ?_
  refine (keeping_vis_class_name (.inr (alive_push V F c o))).bind fun res => ?_
  exact triple_open.bind fun _ => triple_deleteClosing hJ hc o res

theorem keeping_checkedName (hobj : Valid V F obj) (class_name : Option CStr) :
    Keeping (Clean F d) (checkedName V.watch env obj class_name) := by
  cases class_name with
  | none => exact keeping_vis_object_class_name hobj
  | some name => exact Keeping.pure _

theorem keeping_callToString (hJ : Calling F J) (halive : V.alive F obj = true) :
    Keeping (Clean F d) (callToString V.watch (V.checked J) obj) := by
  refine Triple.bind triple_open fun _ => ?_
  refine Triple.bind (triple_plainRef (hJ.quiet_one halive)) fun c => ?_
  refine Triple.choose (fun _ => triple_closing none) fun hc => ?_
  refine Triple.exists fun o => ?_
  have hJc := hJ.push c o
  refine Triple.bind (triple_orThrow (hJ.quiet_pushed o)) fun mid => ?_
  unfold Found
  by_cases hmid : mid = 0
  · rw [if_pos hmid, if_neg (not_not.mpr hmid)]
    exact (triple_clear hJc.pending hJc.critical).bind fun _ => triple_deleteClosing hJ hc o none
  · rw [if_neg hmid, if_pos hmid]
    have hquiet := hJc.quiet_one (alive_push_of_alive halive c o)
    refine Triple.bind (triple_newRef hquiet) fun s => ?_
    refine Triple.bind (triple_exceptionCheck_answered hJc) fun threw => ?_
    refine Triple.choose (fun _ => ?_) fun _ => ?_
    -- it threw, and answered no reference
    · refine Triple.given fun hs => ?_
      refine (triple_clear hJc.pending hJc.critical).bind fun _ => ?_
      refine (Keeping.optional fun hne => absurd hs hne).bind fun _ => ?_
      exact triple_deleteClosing hJ hc o none
    · exact (triple_takeChars hJc).bind fun res => triple_deleteClosing hJ hc o res

theorem keeping_vis_object_tostring_safe (hobj : Valid V F obj) (class_name : Option CStr) :
    Keeping (Clean F d) (vis_object_tostring_safe V.watch env obj class_name) := by
  refine keeping_called (.pure none) fun J hJ hne => ?_
  have halive := hobj.resolve_left hne
  refine (keeping_beneath _).bind fun nameOnly => ?_
  refine Triple.ite (fun _ => Keeping.pure none) fun _ => ?_
  refine (keeping_checkedName hobj class_name).bind fun name => ?_
  refine (keeping_beneath _).bind fun _ => ?_
  exact Triple.ite (fun _ => Keeping.pure none) fun _ => keeping_callToString hJ halive

theorem keeping_quotedChars (hJ : Calling F J) {str : UInt64} (hstr : V.alive F str = true) :
    Keeping (Clean F d) (quotedChars V.watch (V.checked J) str) := by
  refine Triple.bind (triple_lend (hJ.quiet_one hstr)) fun c => ?_
  cases c with
  | none => exact Keeping.pure none
  | some c =>
    refine (keeping_beneath _).bind fun block => ?_
    exact (triple_giveBack hJ.critical).bind fun _ => Keeping.pure _

theorem keeping_vis_string_value {str : UInt64} (hstr : Valid V F str) :
    Keeping (Clean F d) (vis_string_value V.watch env str) := by
  refine keeping_called (.pure none) fun J hJ hne => ?_
  have halive := hstr.resolve_left hne
  refine Triple.bind triple_open fun _ => ?_
  exact (keeping_quotedChars hJ halive).bind fun res => triple_closing res

theorem keeping_vis_string_value_raw {str : UInt64} (hstr : Valid V F str) :
    Keeping (Clean F d) (vis_string_value_raw V.watch env str) := by
  refine keeping_called (.pure none) fun J hJ hne => ?_
  have halive := hstr.resolve_left hne
  refine Triple.bind triple_open fun _ => ?_
  exact (keeping_copyChars hJ halive).bind fun res => triple_closing res

end Helpers

/-! ## Section 3: Arrays -/

section Arrays

variable {σ Obj : Type} {V : VM σ Obj} {F : Frame Obj} {d : Nat} {J : Jni σ} {env : UInt64}

/-- The frame, and that the rules have been kept. -/
def SameFrame (F : Frame Obj) (w : Watched σ Obj) : Prop := w.frame = F ∧ w.misused = false

theorem realloc_maintains (A : Realloc σ) (F : Frame Obj) :
    (JniRules.realloc A).Maintains (SameFrame F) :=
  fun _ _ _ hs => hs

theorem keeping_append (buf : Option Buf) (src : Bytes) :
    Keeping (Clean F d) (HookScope.append V.watch buf src) := by
  refine Triple.op ?_
  rintro s ⟨hdepth, hsame⟩
  have hkept : SameFrame F s.world := hsame
  exact ⟨hdepth, WireEscape.vea_append_maintains (realloc_maintains V.host.realloc F) buf src hkept⟩

theorem keeping_appendEscaped (buf : Option Buf) (str : CStr) :
    Keeping (Clean F d) (appendEscaped V.watch buf str) := by
  refine Triple.op ?_
  rintro s ⟨hdepth, hsame⟩
  have hkept : SameFrame F s.world := hsame
  exact ⟨hdepth, WireEscape.vea_append_escaped_maintains (realloc_maintains V.host.realloc F) buf
    str.val _ hkept⟩

/-- The letters of the elements that `vis_encode_array_items` reads. -/
def itemLetters : List UInt8 := [0x5a, 0x42, 0x43, 0x53, 0x49, 0x4a, 0x46, 0x44, 0x4c]

/-- NULL, or an array whose elements are of the type that is named, unless
    that is a letter for which none are read. -/
def Fits (V : VM σ Obj) (F : Frame Obj) (arr : UInt64) (item : UInt8) : Prop :=
  arr = 0 ∨ ∃ o e, V.denotes F arr = some o ∧ V.element o = some e ∧ (item ∈ itemLetters → e = item)

theorem Fits.valid {arr : UInt64} {item : UInt8} (h : Fits V F arr item) : Valid V F arr := by
  rcases h with hnull | ⟨o, e, hdenotes, -, -⟩
  · exact .inl hnull
  · exact .inr (alive_of_denotes hdenotes)

theorem Fits.measurable {arr : UInt64} {item : UInt8} (h : Fits V F arr item) (hJ : Calling F J)
    (hne : arr ≠ 0) : V.measurable F arr = true := by
  obtain ⟨o, e, hdenotes, helement, -⟩ := h.resolve_left hne
  have hquiet : V.quiet F [arr] = true := hJ.quiet_one (alive_of_denotes hdenotes)
  unfold VM.measurable
  rw [hquiet, hdenotes, Option.any_some, helement]
  rfl

theorem Fits.readable {arr : UInt64} {item : UInt8} (h : Fits V F arr item) (hJ : Calling F J)
    (hne : arr ≠ 0) (hitem : item ∈ itemLetters) : V.readable F item arr = true := by
  obtain ⟨o, e, hdenotes, helement, he⟩ := h.resolve_left hne
  -- the elements are read only when they are of the type that is named
  have hquiet : V.quiet F [arr] = true := hJ.quiet_one (alive_of_denotes hdenotes)
  unfold VM.readable
  rw [hquiet, hdenotes, Option.any_some, helement, he hitem, Bool.true_and]
  exact beq_self_eq_true _

theorem keeping_primItems {α : Type} (hJ : Calling F J) {arr : UInt64} {item : UInt8}
    (harr : V.readable F item arr = true) (get : UInt64 → Op σ (Option (Nat → α)))
    (release : UInt64 → Op σ Unit) (text : α → Bytes) (count : Nat) (buf : Option Buf) :
    Keeping (Clean F d) (primItems V.watch (V.getElements item get arr)
      (releaseElements item release arr) text count buf) := by
  refine Triple.bind (triple_lend harr) fun elems => ?_
  cases elems with
  | none => exact Keeping.pure buf
  | some elems =>
    refine Keeping.bind (Keeping.loop _ buf fun i _ buf => ?_) fun buf => ?_
    · exact (keeping_append buf _).bind fun buf => keeping_append buf _
    · exact (triple_giveBack hJ.critical).bind fun _ => Keeping.pure buf

theorem keeping_objectItem {elem : UInt64} (helem : Valid V F elem) (buf : Option Buf) :
    Keeping (Clean F d) (objectItem V.watch env elem buf) := by
  refine (keeping_vis_is_instance _ helem).bind fun isString => ?_
  refine Triple.ite (fun _ => ?_) fun _ => ?_
  · refine (keeping_vis_string_value_raw helem).bind fun sv => ?_
    cases sv with
    | none => exact keeping_append buf []
    | some sv =>
      refine (keeping_appendEscaped buf sv).bind fun buf => ?_
      exact (keeping_beneath _).bind fun _ => Keeping.pure buf
  · refine (keeping_vis_object_class_name helem).bind fun cn => ?_
    refine (keeping_vis_object_tostring_safe helem cn).bind fun ts => ?_
    refine Keeping.bind ?_ fun buf => ?_
    · cases cn with
      | none => exact Keeping.pure buf
      | some cn =>
        refine (keeping_appendEscaped buf cn).bind fun buf => ?_
        exact (keeping_beneath _).bind fun _ => Keeping.pure buf
    · cases ts with
      | none => exact Keeping.pure buf
      | some ts =>
        refine (keeping_append buf _).bind fun buf => ?_
        refine (keeping_appendEscaped buf ts).bind fun buf => ?_
        exact (keeping_beneath _).bind fun _ => Keeping.pure buf

/-- What is done with a reference, or with none. -/
theorem keeping_given {α : Type} {p : Prog (Watched σ Obj) α} {r : UInt64}
    (hnull : r = 0 → Keeping (Clean F d) p)
    (hnew : r ≠ 0 → ∀ o, Keeping (Clean (F.push r o) d) p) : Keeping (Given F d r) p := by
  by_cases hr : r = 0
  · rw [Given, if_pos hr]
    exact hnull hr
  · rw [Given, if_neg hr]
    exact Triple.exists fun o => (hnew hr o).post fun _ s hs => ⟨o, hs⟩

/-- The element of a round is deleted at its end; when there is none, an
    exception is cleared. -/
theorem keeping_elementRound (hJ : Calling F J) {arr : UInt64}
    (harr : V.readable F 0x4c arr = true) (i : Nat) (buf : Option Buf) :
    Keeping (Clean F (d + 1)) (elementRound V.watch env (V.checked J) arr i buf) := by
  refine Triple.bind triple_close fun _ => ?_
  refine Triple.bind (triple_newRef harr) fun elem => ?_
  refine Triple.bind (triple_exceptionCheck_answered hJ) fun pending => ?_
  refine Triple.choose (fun _ => ?_) fun _ => ?_
  · refine Triple.given fun _ => ?_
    refine (triple_clear hJ.pending hJ.critical).bind fun _ => ?_
    exact triple_open.bind fun _ => Keeping.pure none
  · have hmark : Keeping (Given F d elem) (HookScope.append V.watch buf [0x04]) :=
      keeping_given (fun _ => keeping_append buf _) fun _ o => keeping_append buf _
    refine hmark.bind fun buf => ?_
    have hitem : Keeping (Given F d elem)
        (if elem = 0 then HookScope.append V.watch buf (ascii "null")
          else objectItem V.watch env elem buf) := by
      refine keeping_given (fun hzero => ?_) fun hne o => ?_
      · rw [if_pos hzero]
        exact keeping_append buf _
      · rw [if_neg hne]
        exact keeping_objectItem (.inr (alive_push V F elem o)) buf
    refine hitem.bind fun buf => ?_
    refine Triple.bind (triple_deleteGiven hJ.critical) fun _ => ?_
    exact triple_open.bind fun _ => Keeping.pure _

/-- The elements are read as those of the type they are of. -/
theorem keeping_arrayItems (hJ : Calling F J) {arr : UInt64} {itemSigChar : UInt8}
    (harr : itemSigChar ∈ itemLetters → V.readable F itemSigChar arr = true) (count : Nat)
    (buf : Option Buf) :
    Keeping (Clean F (d + 1)) (arrayItems V.watch env (V.checked J) arr itemSigChar count buf) := by
  have his : ∀ {item}, item ∈ itemLetters → itemSigChar = item → V.readable F item arr = true := by
    rintro item hitem rfl
    exact harr hitem
  unfold arrayItems
  refine Triple.ite (fun h => keeping_primItems hJ (his (by decide) h) _ _ _ count buf) fun _ => ?_
  refine Triple.ite (fun h => keeping_primItems hJ (his (by decide) h) _ _ _ count buf) fun _ => ?_
  refine Triple.ite (fun h => keeping_primItems hJ (his (by decide) h) _ _ _ count buf) fun _ => ?_
  refine Triple.ite (fun h => keeping_primItems hJ (his (by decide) h) _ _ _ count buf) fun _ => ?_
  refine Triple.ite (fun h => keeping_primItems hJ (his (by decide) h) _ _ _ count buf) fun _ => ?_
  refine Triple.ite (fun h => keeping_primItems hJ (his (by decide) h) _ _ _ count buf) fun _ => ?_
  refine Triple.ite (fun h => keeping_primItems hJ (his (by decide) h) _ _ _ count buf) fun _ => ?_
  refine Triple.ite (fun h => keeping_primItems hJ (his (by decide) h) _ _ _ count buf) fun _ => ?_
  refine Triple.ite (fun h => ?_) fun _ => Keeping.pure buf
  exact Keeping.breakLoop (keeping_elementRound hJ (his (by decide) h)) _ buf

theorem keeping_omittedItems (total : Int32) (buf : Option Buf) :
    Keeping (Clean F d) (omittedItems V.watch total buf) := by
  refine Triple.ite (fun _ => ?_) fun _ => Keeping.pure buf
  exact (keeping_append buf _).bind fun buf => keeping_append buf _

/-- Nothing is asked of the array unless calls are allowed. -/
theorem keeping_vis_encode_array_items {arr : UInt64} {itemSigChar : UInt8}
    (h : F.pending = none → F.critical = false → Fits V F arr itemSigChar) :
    Keeping (Clean F d) (vis_encode_array_items V.watch env arr itemSigChar) := by
  refine keeping_called ?_ fun J hJ hne => ?_
  · exact (keeping_beneath _).bind fun empty => Keeping.pure _
  · refine (keeping_beneath _).bind fun block => ?_
    cases block with
    | none => exact Keeping.pure none
    | some block =>
      have harr : Fits V F arr itemSigChar := h hJ.pending hJ.critical
      refine (keeping_append _ _).bind fun buf => ?_
      refine Triple.bind triple_open fun _ => ?_
      refine (keeping_unchanged (harr.measurable hJ hne)).bind fun total => ?_
      refine (keeping_arrayItems hJ (harr.readable hJ hne) _ buf).bind fun buf => ?_
      exact (keeping_omittedItems total buf).bind fun buf => triple_closing _

end Arrays

/-! ## Section 4: The loggers of hook_logging.c -/

section Loggers

variable {σ Obj : Type} {V : VM σ Obj} {F : Frame Obj} {d : Nat} {env : UInt64}

/-- `has_no_exception` asks outside of critical sections only. -/
theorem triple_has_no_exception (hcritical : F.critical = false) :
    Triple (Clean F d) (has_no_exception V.watch env) fun clean s =>
      (clean = true → F.pending = none) ∧ Clean F d s := by
  have hfalse : Triple (Clean F d) (pure false : Prog (Watched σ Obj) Bool) fun clean s =>
      (clean = true → F.pending = none) ∧ Clean F d s :=
    Triple.pure false fun _ hs => ⟨nofun, hs⟩
  refine Triple.ite (fun _ => hfalse) fun _ => ?_
  cases htable : V.watch.g_original_jni_table with
  | none => exact hfalse
  | some T =>
    obtain ⟨J, -, rfl⟩ := Option.map_eq_some_iff.mp htable
    dsimp only
    rw [checked_ExceptionCheck]
    cases hJ : J.ExceptionCheck with
    | none => exact hfalse
    | some check =>
      refine Triple.bind (triple_asked hcritical) fun pending => Triple.given fun hpending => ?_
      refine Triple.pure _ fun s hs => ⟨?_, hs⟩
      intro hclean
      rw [hpending, Bool.not_eq_true', Option.isSome_eq_false_iff] at hclean
      exact Option.isNone_iff_eq_none.mp hclean

theorem keeping_fill_object_strings {obj : UInt64} (hpending : F.pending = none)
    (hcritical : F.critical = false) (hobj : Valid V F obj) :
    Keeping (Clean F d) (fill_object_strings V.watch env obj) := by
  refine Triple.ite (fun _ => Keeping.pure _) fun hne => ?_
  rw [not_or] at hne
  have hquiet : V.quiet F [obj] = true :=
    quiet_cons (quiet_nil hpending hcritical) (hobj.resolve_left hne.1)
  refine (keeping_defer (.inl hquiet)).bind fun slotn => ?_
  refine Triple.ite (fun _ => ?_) fun _ => ?_
  · exact (keeping_beneath _).bind fun ph => Keeping.pure _
  -- the sidecar is full: the object is rendered on this thread
  · refine (keeping_vis_is_instance _ hobj).bind fun isString => ?_
    refine Triple.ite (fun _ => ?_) fun _ => ?_
    · exact (keeping_vis_string_value_raw hobj).bind fun str => Keeping.pure _
    · refine (keeping_vis_is_instance _ hobj).bind fun isClass => ?_
      refine Triple.ite (fun _ => ?_) fun _ => ?_
      · exact (keeping_vis_class_name hobj).bind fun str => Keeping.pure _
      · refine (keeping_vis_object_class_name hobj).bind fun str => ?_
        exact (keeping_vis_object_tostring_safe hobj str).bind fun extra => Keeping.pure _

/-- The value a call has returned: an object, unless the call threw. -/
def Returned (V : VM σ Obj) (F : Frame Obj) (kind : ReturnKind) (value : UInt64) : Prop :=
  kind = .RET_OBJECT → F.pending = none → Valid V F value

theorem keeping_valueParts {kind : ReturnKind} {value : UInt64} (hpending : F.pending = none)
    (hcritical : F.critical = false) (hvalue : Returned V F kind value) :
    Keeping (Clean F d) (valueParts V.watch env kind value) := by
  refine Triple.ite (fun hkind => ?_) fun _ => Keeping.pure _
  refine Triple.ite (fun _ => ?_) fun _ => Keeping.pure _
  have hfill : Keeping (Clean F d) (fill_object_strings V.watch env value) :=
    keeping_fill_object_strings hpending hcritical (hvalue hkind hpending)
  exact hfill.bind fun parts => Keeping.pure _

theorem keeping_is_reentrant_call :
    Keeping (Clean F d) (is_reentrant_call : Prog (Watched σ Obj) Bool) :=
  fun _ hs => hs

/-- The shape of both loggers: nothing, a note that the call threw, or a
    record with the value in it. -/
theorem keeping_logged {kind : ReturnKind} {value : UInt64} {c : Prop} [Decidable c]
    (hcritical : F.critical = false) (hvalue : Returned V F kind value)
    {threw : Op σ Unit} {log : Int32 × Option CStr × Option CStr → Op σ Unit} :
    Keeping (Clean F d) (if c then pure () else do
      let clean ← has_no_exception V.watch env
      if ¬ clean then op (beneath threw)
      else do
        set_reentrant_call true
        let parts ← valueParts V.watch env kind value
        op (beneath (log parts))
        op V.watch.free
        op V.watch.free
        set_reentrant_call false) := by
  refine Triple.ite (fun _ => Keeping.pure ()) fun _ => ?_
  refine Triple.bind (triple_has_no_exception hcritical) fun clean => Triple.given fun hclean => ?_
  refine Triple.ite (fun _ => keeping_beneath _) fun hyes => ?_
  have hpending := hclean (not_not.mp hyes)
  refine Triple.bind triple_open fun _ => ?_
  refine (keeping_valueParts hpending hcritical hvalue).bind fun parts => ?_
  refine (keeping_beneath _).bind fun _ => ?_
  exact (keeping_beneath _).bind fun _ => (keeping_beneath _).bind fun _ => triple_close

theorem keeping_log_method_return_value (ctx : Option MethodLogCtx) (name : CStr) (slot : Int32)
    {kind : ReturnKind} {value : UInt64} (hcritical : F.critical = false)
    (hvalue : Returned V F kind value) :
    Keeping (Clean F d) (log_method_return_value V.watch env ctx name slot kind value) := by
  refine keeping_is_reentrant_call.bind fun reentrant => ?_
  cases ctx with
  | none => exact Keeping.pure ()
  | some ctx => exact keeping_logged hcritical hvalue

theorem keeping_log_field_access_result (ctx : Option FieldLogCtx) (name : CStr) (slot : Int32)
    {kind : ReturnKind} {value : UInt64} (hcritical : F.critical = false)
    (hvalue : Returned V F kind value) :
    Keeping (Clean F d) (log_field_access_result V.watch env ctx name slot kind value) := by
  refine keeping_is_reentrant_call.bind fun reentrant => ?_
  cases ctx with
  | none => exact Keeping.pure ()
  | some ctx => exact keeping_logged hcritical hvalue

end Loggers

/-! ## Section 5: Main theorem -/

/-- In this frame, with so many scopes open, every function that is called
    from a hook comes back to the frame and keeps the rules: the helpers
    in every frame, the loggers outside of critical sections. -/
structure KeepsFrame {σ Obj : Type} (V : VM σ Obj) (env : UInt64) (F : Frame Obj) (d : Nat) :
    Prop where
  vis_is_string : ∀ obj, Valid V F obj → Keeping (Clean F d) (vis_is_string V.watch env obj)
  vis_is_class : ∀ obj, Valid V F obj → Keeping (Clean F d) (vis_is_class V.watch env obj)
  vis_class_name : ∀ clazz, Valid V F clazz →
    Keeping (Clean F d) (vis_class_name V.watch env clazz)
  vis_object_class_name : ∀ obj, Valid V F obj →
    Keeping (Clean F d) (vis_object_class_name V.watch env obj)
  vis_object_tostring_safe : ∀ obj class_name, Valid V F obj →
    Keeping (Clean F d) (vis_object_tostring_safe V.watch env obj class_name)
  vis_string_value : ∀ str, Valid V F str →
    Keeping (Clean F d) (vis_string_value V.watch env str)
  vis_string_value_raw : ∀ str, Valid V F str →
    Keeping (Clean F d) (vis_string_value_raw V.watch env str)
  vis_encode_array_items : ∀ arr itemSigChar, Fits V F arr itemSigChar →
    Keeping (Clean F d) (vis_encode_array_items V.watch env arr itemSigChar)
  log_method_return_value : ∀ ctx name slot kind value, F.critical = false →
    Returned V F kind value →
    Keeping (Clean F d) (log_method_return_value V.watch env ctx name slot kind value)
  log_field_access_result : ∀ ctx name slot kind value, F.critical = false →
    Returned V F kind value →
    Keeping (Clean F d) (log_field_access_result V.watch env ctx name slot kind value)

end JniLog.FrameKept
