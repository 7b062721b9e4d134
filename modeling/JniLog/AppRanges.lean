import JniLog.ExecRanges
import JniLog.EventPipe.Deferred

/-! # The code of the app

    What `rangeset.c` and the hooks of `main.c` find of the app's code, in
    a process that does not fork: the loader's list of modules, the maps
    file, the libraries that are opened through a hooked loader, and the
    pages that `mprotect` makes executable.

    * A package name that is not known yet is looked for in the path of a
      library, in our own path, and in the command line.
    * What is printed to the log is left out, and with it
      `sanitize_for_log`. Our own range has been captured.

    Main results:
    * `caller_filter_exact`: over whole runs, a query answers 1 exactly
      for the addresses of what has been found so far, but for our own.
    * `loaded_library_logged`: a library of the app that has been opened
      is logged from then on. -/

namespace JniLog.AppRanges

open Bytes Text ProcMaps RangeSet ExecRanges Intervals

/-! ## Section 1: The hooks -/

/-- The package in the path of an installed app, by
    `hooked_loader_android_dlopen_ext`. -/
def packageOfAppPath (path : Bytes) : Option Bytes :=
  match index (ascii "/data/app/") path with
  | none => none
  | some marker =>
    let rest := path.drop (marker + 10)
    match index (ascii "==/") rest with
    | none => none
    | some pkg_start =>
      match cut 0x2d (rest.drop (pkg_start + 3)) with
      | none => none
      | some (pkg, _) =>
        if pkg.length > 3 ∧ pkg.length < 256 ∧ 0x2e ∈ pkg then some pkg else none

section Hooks

variable (e : SeedEnv) (s : Proc)

/-- What the hooks do when a library has been opened. -/
def reseed : Proc := (c_seed_exec_ranges_from_maps e (c_reset_seed_attempted s)).2

/-- `hooked_loader_dlopen` and `android_dlopen_ext`, once the function they
    stand for has answered `handle`. -/
def hooked_loader_dlopen (handle : UInt64) : Proc := if handle = 0 then s else reseed e s

/-- The package name is taken from the path when there is none. -/
def resolvePackage (filename : Option CStr) : Proc :=
  if s.g_range_package_name = [] then
    match filename.bind fun f => packageOfAppPath f.val with
    | some pkg => c_set_package_name s (some (EventPipe.cstr pkg))
    | none => s
  else s

def hooked_loader_android_dlopen_ext (handle : UInt64) (filename : Option CStr) : Proc :=
  if handle = 0 then s else reseed e (resolvePackage s filename)

def c_path_contains_package (path : Bytes) : Bool × Proc :=
  let s :=
    { s with g_range_package_name := refresh_package_name_if_needed e s.g_range_package_name }
  if path = [] then (false, s)
  else if s.g_range_package_name = [] then (false, s)
  else ((index s.g_range_package_name path).isSome, s)

def PROT_EXEC : Int32 := 4

/-- `sr` is what the system call answers, `in_hook` is
    `g_in_mprotect_hook`, and `dli_fname` what `dladdr` says of the
    address. `errno` is left as the call has set it. -/
def mprotect (addr len : UInt64) (prot : Int32) (sr : Int64) (in_hook : Bool)
    (dli_fname : Option CStr) : Int32 × Proc :=
  let result : Int32 := if sr < 0 then -1 else 0
  if result = 0 ∧ prot &&& PROT_EXEC ≠ 0 ∧ in_hook = false then
    match dli_fname with
    | none => (result, s)
    | some fname =>
      if c_is_system_lib_path fname.val then (result, s)
      else
        let (contained, s) := c_path_contains_package e s fname.val
        if contained then
          (result,
            { s with g_exec_ranges := (c_add_exec_range s.pid s.g_exec_ranges addr len).2 })
        else (result, s)
  else (result, s)

end Hooks

/-- What happens in the process. -/
inductive Event where
  | call (c : Call)
  | dlopen (e : SeedEnv) (handle : UInt64)
  | android_dlopen_ext (e : SeedEnv) (handle : UInt64) (filename : Option CStr)
  | mprotect (e : SeedEnv) (addr len : UInt64) (prot : Int32) (sr : Int64) (in_hook : Bool)
      (dli_fname : Option CStr)

def Proc.event (s : Proc) : Event → Proc
  | .call c => (s.call c).1
  | .dlopen e handle => hooked_loader_dlopen e s handle
  | .android_dlopen_ext e handle filename => hooked_loader_android_dlopen_ext e s handle filename
  | .mprotect e addr len prot sr in_hook dli_fname =>
    (mprotect e s addr len prot sr in_hook dli_fname).2

def process : Machine Proc Event where
  next := Proc.event

/-! ## Section 2: What is found -/

section Found

variable (e : SeedEnv) (s : Proc) (pkg : Bytes)

/-- A module of the app `pkg`, and not ours. -/
def isAppModule (info : DlPhdrInfo) : Bool :=
  match info.dlpi_name with
  | none => false
  | some lib_name =>
    lib_name.val ≠ [] && !c_is_self_addr s info.dlpi_addr && !c_is_system_lib_path lib_name.val &&
      pkg ≠ [] && (index pkg lib_name.val).isSome

def loadSegments (info : DlPhdrInfo) : List (UInt64 × UInt64) :=
  (info.dlpi_phdr.filter (·.p_type = PT_LOAD)).map fun ph =>
    (info.dlpi_addr + ph.p_vaddr, ph.p_memsz)

/-- The segments that the loader lists. -/
def moduleSegments : List (UInt64 × UInt64) :=
  if isRealName pkg then (e.modules.filter (isAppModule s pkg)).flatMap loadSegments else []

/-- The executable mapping of the app in a line of the maps file. -/
def mappedSegment (line : CStr) : Option (UInt64 × UInt64) :=
  match jl_parse_maps_head line.val with
  | none => none
  | some head =>
    match seedPath line.val with
    | none => none
    | some path =>
      if head.executable && !isSystemDir path && !c_is_self_addr s head.lo &&
          (index pkg path).isSome then
        some (head.lo, head.hi - head.lo)
      else none

def mappedSegments : List (UInt64 × UInt64) :=
  if isRealName pkg then (e.maps.getD []).filterMap (mappedSegment s pkg) else []

/-- What a seeding finds; the maps are read when the table is empty
    otherwise. -/
def seeded : List (UInt64 × UInt64) :=
  let s := dropInherited s
  let pkg := refresh_package_name_if_needed e s.g_range_package_name
  let listed := moduleSegments e s pkg
  if s.g_exec_ranges ≠ [] ∨ listed.any (fun c => valid c.1 c.2) then listed
  else listed ++ mappedSegments e s pkg

/-- What a query finds. -/
def queried (env_null : Bool) (caller : UInt64) : List (UInt64 × UInt64) :=
  if env_null = true ∨ caller = 0 then []
  else if c_is_self_addr s caller then []
  else if c_should_try_seed s then seeded e s
  else []

/-- What `mprotect` finds. -/
def madeExecutable (addr len : UInt64) (prot : Int32) (sr : Int64) (in_hook : Bool)
    (dli_fname : Option CStr) : List (UInt64 × UInt64) :=
  if ¬ sr < 0 ∧ prot &&& PROT_EXEC ≠ 0 ∧ in_hook = false then
    match dli_fname with
    | none => []
    | some fname =>
      if c_is_system_lib_path fname.val then []
      else if (c_path_contains_package e s fname.val).1 then [(addr, len)]
      else []
  else []

end Found

/-- What an event finds in the process. -/
def finds (s : Proc) : Event → List (UInt64 × UInt64)
  | .call (.add_exec_range base size) => [(base, size)]
  | .call (.seed_exec_ranges e) => seeded e s
  | .call (.should_log e env_null caller) => queried e s env_null caller
  | .call (.set_package_name _) => []
  | .call .reset_seed_attempted => []
  | .dlopen e handle => if handle = 0 then [] else seeded e s
  | .android_dlopen_ext e handle filename =>
    if handle = 0 then [] else seeded e (resolvePackage s filename)
  | .mprotect e addr len prot sr in_hook dli_fname =>
    madeExecutable e s addr len prot sr in_hook dli_fname

/-- What a run finds. -/
def found : Proc → List Event → List (UInt64 × UInt64)
  | _, [] => []
  | s, ev :: evs => finds s ev ++ found (Proc.event s ev) evs

/-! ## Section 3: The scans -/

section Adds

variable {me : Nat} {ranges : List ExecRange} {calls : List (UInt64 × UInt64)}

theorem addCounted_table (st : List ExecRange × Int) (start size : UInt64) :
    (addCounted me st start size).1 = (adds me).next st.1 (start, size) := by
  show _ = (c_add_exec_range me st.1 start size).2
  unfold addCounted
  by_cases hsize : size > 0
  · rw [if_pos hsize]
  · -- a size of 0 is not added
    have hzero : size = 0 := by
      rw [gt_iff_lt, UInt64.lt_iff_toNat_lt] at hsize
      exact UInt64.toNat_inj.mp (by simpa using hsize)
    rw [if_neg hsize, c_add_exec_range, if_pos hzero]

/-- A scan that adds what `found` has for each item. -/
theorem foldl_adds {α : Type} {step : List ExecRange × Int → α → List ExecRange × Int}
    {found : α → List (UInt64 × UInt64)}
    (hstep : ∀ st a, (step st a).1 = (adds me).exec st.1 (found a)) (items : List α)
    (st : List ExecRange × Int) :
    (items.foldl step st).1 = (adds me).exec st.1 (items.flatMap found) := by
  induction items generalizing st with
  | nil => rfl
  | cons a items ih =>
    rw [List.foldl_cons, ih, hstep, List.flatMap_cons, Machine.exec_append]

theorem add_ne_nil {α : Type} [LinearOrder α] (new : α × α) (l : List (α × α)) :
    Intervals.add new l ≠ [] := by
  intro h
  have hcovered : (absorb new l).getD (l ++ [new]) = [] := h
  cases l with
  | nil => simp [absorb] at hcovered
  | cons i l =>
    rw [absorb] at hcovered
    split at hcovered
    · cases hcovered
    · rcases hrest : absorb new l with _ | l' <;> simp [hrest] at hcovered

/-- A call leaves an empty table empty only when there is nothing to add. -/
theorem next_eq_nil (c : UInt64 × UInt64) :
    (adds me).next ranges c = [] ↔ ranges = [] ∧ valid c.1 c.2 = false := by
  show (c_add_exec_range me ranges c.1 c.2).2 = [] ↔ _
  obtain ⟨hleft, htable⟩ | ⟨hvalid, -, htable⟩ := c_add_exec_range_spans me ranges c.1 c.2
  · rw [htable]
    refine ⟨fun hnil => ⟨hnil, hleft.resolve_right fun hrefused => ?_⟩, fun h => h.1⟩
    -- the empty table has room
    rw [hnil] at hrefused
    simp [refused, MAX_EXEC_RANGES] at hrefused
  · constructor
    · intro hnil
      rw [hnil, List.map_nil] at htable
      exact absurd htable.symm (add_ne_nil _ _)
    · rintro ⟨-, hnot⟩
      rw [hvalid] at hnot
      cases hnot

theorem exec_eq_nil :
    (adds me).exec ranges calls = [] ↔
      ranges = [] ∧ calls.any (fun c => valid c.1 c.2) = false := by
  induction calls generalizing ranges with
  | nil => simp
  | cons c calls ih =>
    rw [Machine.exec_cons, ih, next_eq_nil, List.any_cons, Bool.or_eq_false_iff, and_assoc]

end Adds

section Scans

variable (e : SeedEnv) (s : Proc) (pkg : Bytes)

/-- The loop over the program headers. -/
theorem phdrs_adds (me : Nat) (info : DlPhdrInfo) (st : List ExecRange × Int) :
    (info.dlpi_phdr.foldl (fun st ph =>
        if ph.p_type ≠ PT_LOAD then st
        else addCounted me st (info.dlpi_addr + ph.p_vaddr) ph.p_memsz) st).1 =
      (adds me).exec st.1 (loadSegments info) := by
  unfold loadSegments
  induction info.dlpi_phdr generalizing st with
  | nil => rfl
  | cons ph phs ih =>
    rw [List.foldl_cons, ih]
    by_cases hload : ph.p_type = PT_LOAD
    · rw [if_neg (not_not.mpr hload), List.filter_cons_of_pos (by simpa using hload),
        List.map_cons, Machine.exec_cons, addCounted_table]
    · rw [if_pos hload, List.filter_cons_of_neg (by simpa using hload)]

theorem seed_iter_cb_adds (st : List ExecRange × Int) (info : DlPhdrInfo) :
    (seed_iter_cb s pkg st info).1 =
      (adds s.pid).exec st.1 (if isAppModule s pkg info then loadSegments info else []) := by
  unfold seed_iter_cb isAppModule
  cases info.dlpi_name with
  | none => rfl
  | some lib_name =>
    dsimp only
    by_cases hname : lib_name.val = []
    · simp [hname]
    by_cases hself : c_is_self_addr s info.dlpi_addr = true
    · simp [hname, hself]
    by_cases hsystem : c_is_system_lib_path lib_name.val = true
    · simp [hname, hsystem]
    by_cases hpkg : pkg = []
    · simp [hname, hpkg]
    by_cases hfound : (index pkg lib_name.val).isSome = true
    · have hguard : ¬ (pkg = [] ∨ (index pkg lib_name.val).isNone = true) := by
        simp [hpkg, Option.isSome_iff_ne_none.mp hfound]
      have happ : (decide (lib_name.val ≠ []) && !c_is_self_addr s info.dlpi_addr &&
          !c_is_system_lib_path lib_name.val && decide (pkg ≠ []) &&
          (index pkg lib_name.val).isSome) = true := by
        simp [hname, hself, hsystem, hpkg, hfound]
      rw [if_neg hname, if_neg hself, if_neg hsystem, if_neg hguard, if_pos happ]
      exact phdrs_adds s.pid info st
    · have hnone : index pkg lib_name.val = none := by simpa using hfound
      simp [hnone]

theorem modules_adds (st : List ExecRange × Int) (modules : List DlPhdrInfo) :
    (modules.foldl (seed_iter_cb s pkg) st).1 =
      (adds s.pid).exec st.1 ((modules.filter (isAppModule s pkg)).flatMap loadSegments) := by
  have hfilter : (modules.filter (isAppModule s pkg)).flatMap loadSegments =
      modules.flatMap fun info => if isAppModule s pkg info then loadSegments info else [] := by
    induction modules with
    | nil => rfl
    | cons info modules ih =>
      cases happ : isAppModule s pkg info <;> simp [happ, ih]
  rw [hfilter]
  exact foldl_adds (seed_iter_cb_adds s pkg) modules st

theorem seedLine_adds (st : List ExecRange × Int) (line : CStr) :
    (seedLine s pkg st line).1 = (adds s.pid).exec st.1 (mappedSegment s pkg line).toList := by
  unfold seedLine mappedSegment
  cases jl_parse_maps_head line.val with
  | none => rfl
  | some head =>
    dsimp only
    cases hexecutable : head.executable with
    | false => cases seedPath line.val <;> rfl
    | true =>
      cases seedPath line.val with
      | none => rfl
      | some path =>
        dsimp only
        cases hsystem : isSystemDir path with
        | true => rfl
        | false =>
          cases hself : c_is_self_addr s head.lo with
          | true => rfl
          | false =>
            cases hfound : index pkg path with
            | none => rfl
            | some i => exact addCounted_table st _ _

theorem mapped_adds (ranges : List ExecRange) :
    (c_seed_exec_ranges_from_proc_maps e s ranges).1 =
      (adds s.pid).exec ranges (mappedSegments e s s.g_range_package_name) := by
  unfold c_seed_exec_ranges_from_proc_maps mappedSegments
  cases hreal : isRealName s.g_range_package_name with
  | false => rfl
  | true =>
    cases e.maps with
    | none => rfl
    | some lines =>
      have hmap : lines.filterMap (mappedSegment s s.g_range_package_name) =
          lines.flatMap fun line => (mappedSegment s s.g_range_package_name line).toList := by
        induction lines with
        | nil => rfl
        | cons line lines ih =>
          cases hline : mappedSegment s s.g_range_package_name line <;> simp [hline, ih]
      simp only [Bool.true_eq_false, if_false, if_true, Option.getD_some, hmap]
      exact foldl_adds (seedLine_adds s s.g_range_package_name) lines (ranges, 0)

/-- **Seeding**: the table after it. -/
theorem c_seed_exec_ranges_from_maps_table :
    (c_seed_exec_ranges_from_maps e s).2.g_exec_ranges =
      (adds (dropInherited s).pid).exec (dropInherited s).g_exec_ranges (seeded e s) := by
  show (seedRanges e { dropInherited s with
    g_range_package_name :=
      refresh_package_name_if_needed e (dropInherited s).g_range_package_name }).1 = _
  unfold seeded
  dsimp only
  generalize dropInherited s = s
  generalize refresh_package_name_if_needed e s.g_range_package_name = pkg
  let s' : Proc := { s with g_range_package_name := pkg }
  have hlisted : (if isRealName pkg then
      e.modules.foldl (seed_iter_cb s' pkg) (s.g_exec_ranges, 0) else (s.g_exec_ranges, 0)).1 =
        (adds s.pid).exec s.g_exec_ranges (moduleSegments e s pkg) := by
    unfold moduleSegments
    cases isRealName pkg with
    | false => rfl
    | true => exact modules_adds s' pkg (s.g_exec_ranges, 0) e.modules
  have hempty : (adds s.pid).exec s.g_exec_ranges (moduleSegments e s pkg) = [] ↔
      ¬ (s.g_exec_ranges ≠ [] ∨ (moduleSegments e s pkg).any (fun c => valid c.1 c.2) = true) := by
    rw [exec_eq_nil, not_or, not_not, Bool.not_eq_true]
  unfold seedRanges
  rcases hscan : (if isRealName s'.g_range_package_name then
      e.modules.foldl (seed_iter_cb s' s'.g_range_package_name) (s'.g_exec_ranges, 0)
    else (s'.g_exec_ranges, 0)) with ⟨ranges, added⟩
  have hranges : ranges = (adds s.pid).exec s.g_exec_ranges (moduleSegments e s pkg) := by
    rw [← hlisted]
    exact (congrArg Prod.fst hscan).symm
  dsimp only
  by_cases hsome : s.g_exec_ranges ≠ [] ∨
      (moduleSegments e s pkg).any (fun c => valid c.1 c.2) = true
  · have hlength : ranges.length > 0 := by
      rw [hranges, gt_iff_lt, List.length_pos_iff]
      exact fun hnil => hempty.mp hnil hsome
    rw [if_pos hlength, if_pos hsome]
    exact hranges
  · have hlength : ¬ ranges.length > 0 := by
      rw [hranges, hempty.mpr hsome]
      exact Nat.lt_irrefl 0
    rw [if_neg hlength, if_neg hsome, Machine.exec_append, ← hranges]
    exact mapped_adds e s' ranges

end Scans

/-! ## Section 4: Events -/

/-- Nobody has seeded, or the process itself. -/
def OwnSeed (s : Proc) : Prop := s.g_seed_pid = 0 ∨ s.g_seed_pid = s.pid

/-- The process goes on: its pid and our range stay. -/
structure Follows (s s' : Proc) : Prop where
  pid : s'.pid = s.pid
  self_base : s'.g_self_base = s.g_self_base
  self_end : s'.g_self_end = s.g_self_end
  own : OwnSeed s → OwnSeed s'

section Events

variable {s s' s'' : Proc} (e : SeedEnv)

theorem Follows.refl (s : Proc) : Follows s s := ⟨rfl, rfl, rfl, id⟩

theorem Follows.trans (h : Follows s s') (h' : Follows s' s'') : Follows s s'' where
  pid := h'.pid.trans h.pid
  self_base := h'.self_base.trans h.self_base
  self_end := h'.self_end.trans h.self_end
  own hs := h'.own (h.own hs)

theorem Follows.is_self (h : Follows s s') (addr : UInt64) :
    c_is_self_addr s' addr = c_is_self_addr s addr := by
  unfold c_is_self_addr
  rw [h.self_base, h.self_end]

theorem dropInherited_of_own (h : OwnSeed s) :
    dropInherited s = { s with g_seed_pid := s.pid } := by
  unfold dropInherited
  by_cases hpid : s.g_seed_pid = s.pid
  · rw [if_neg (not_not.mpr hpid)]
    obtain ⟨pid, name, attempted, seed_pid, self_base, self_end, ranges, inherited⟩ := s
    obtain rfl : seed_pid = pid := hpid
    rfl
  · have hzero : s.g_seed_pid = 0 := h.resolve_right hpid
    rw [if_pos hpid, if_neg (not_not.mpr hzero)]

theorem seed_follows (s : Proc) : Follows s (c_seed_exec_ranges_from_maps e s).2 := by
  obtain ⟨hpid, hseed, -, -⟩ := c_seed_exec_ranges_from_maps_spec e s
  have hself : (dropInherited s).g_self_base = s.g_self_base ∧
      (dropInherited s).g_self_end = s.g_self_end := by
    unfold dropInherited
    split
    · split <;> exact ⟨rfl, rfl⟩
    · exact ⟨rfl, rfl⟩
  exact ⟨hpid, hself.1, hself.2, fun _ => .inr (hseed.trans hpid.symm)⟩

/-- Seeding in a process that has not been forked. -/
theorem seed_adds (h : OwnSeed s) :
    (c_seed_exec_ranges_from_maps e s).2.g_exec_ranges =
      (adds s.pid).exec s.g_exec_ranges (seeded e s) := by
  rw [c_seed_exec_ranges_from_maps_table, dropInherited_of_own h]

/-- The flag that a seeding was attempted says nothing to the seeding. -/
theorem seeded_reset (s : Proc) : seeded e (c_reset_seed_attempted s) = seeded e s := by
  unfold seeded c_reset_seed_attempted dropInherited
  dsimp only
  split
  · split <;> rfl
  · rfl

theorem resolvePackage_follows (s : Proc) (filename : Option CStr) :
    Follows s (resolvePackage s filename) := by
  unfold resolvePackage
  split
  · cases filename.bind fun f => packageOfAppPath f.val <;> exact ⟨rfl, rfl, rfl, id⟩
  · exact Follows.refl s

theorem resolvePackage_table (s : Proc) (filename : Option CStr) :
    (resolvePackage s filename).g_exec_ranges = s.g_exec_ranges := by
  unfold resolvePackage
  split
  · cases filename.bind fun f => packageOfAppPath f.val <;> rfl
  · rfl

theorem reseed_follows (s : Proc) : Follows s (reseed e s) :=
  (show Follows s (c_reset_seed_attempted s) from ⟨rfl, rfl, rfl, id⟩).trans (seed_follows e _)

theorem reseed_adds (h : OwnSeed s) :
    (reseed e s).g_exec_ranges = (adds s.pid).exec s.g_exec_ranges (seeded e s) := by
  have hown : OwnSeed (c_reset_seed_attempted s) := h
  unfold reseed
  rw [seed_adds e hown, seeded_reset]
  rfl

/-- A query may seed first. -/
theorem should_log_adds (h : OwnSeed s) (env_null : Bool) (caller : UInt64) :
    (should_log_from_caller e s env_null caller).1.g_exec_ranges =
      (adds s.pid).exec s.g_exec_ranges (queried e s env_null caller) := by
  unfold should_log_from_caller queried
  by_cases hnull : env_null = true ∨ caller = 0
  · rw [if_pos hnull, if_pos hnull]
    rfl
  · rw [if_neg hnull, if_neg hnull]
    by_cases hself : c_is_self_addr s caller = true
    · rw [if_pos hself, if_pos hself]
      rfl
    · rw [if_neg hself, if_neg hself]
      dsimp only
      by_cases hseed : c_should_try_seed s = true
      · simp only [if_pos hseed, ← seed_adds e h]
        split <;> rfl
      · simp only [if_neg hseed]
        split <;> rfl

theorem c_path_contains_package_follows (s : Proc) (path : Bytes) :
    Follows s (c_path_contains_package e s path).2 ∧
      (c_path_contains_package e s path).2.g_exec_ranges = s.g_exec_ranges := by
  unfold c_path_contains_package
  dsimp only
  split
  · exact ⟨⟨rfl, rfl, rfl, id⟩, rfl⟩
  · split <;> exact ⟨⟨rfl, rfl, rfl, id⟩, rfl⟩

theorem mprotect_adds (s : Proc) (addr len : UInt64) (prot : Int32) (sr : Int64) (in_hook : Bool)
    (dli_fname : Option CStr) :
    Follows s (mprotect e s addr len prot sr in_hook dli_fname).2 ∧
      (mprotect e s addr len prot sr in_hook dli_fname).2.g_exec_ranges =
        (adds s.pid).exec s.g_exec_ranges
          (madeExecutable e s addr len prot sr in_hook dli_fname) := by
  have hresult : (if sr < 0 then (-1 : Int32) else 0) = 0 ↔ ¬ sr < 0 := by
    by_cases hneg : sr < 0 <;> simp [hneg]
  unfold mprotect madeExecutable
  dsimp only
  by_cases hexec : ¬ sr < 0 ∧ prot &&& PROT_EXEC ≠ 0 ∧ in_hook = false
  · rw [if_pos (and_congr_left' hresult |>.mpr hexec), if_pos hexec]
    cases dli_fname with
    | none => exact ⟨Follows.refl s, rfl⟩
    | some fname =>
      dsimp only
      obtain ⟨hfollows, hranges⟩ := c_path_contains_package_follows e s fname.val
      by_cases hsystem : c_is_system_lib_path fname.val = true
      · rw [if_pos hsystem, if_pos hsystem]
        exact ⟨Follows.refl s, rfl⟩
      · rw [if_neg hsystem, if_neg hsystem]
        by_cases hcontained : (c_path_contains_package e s fname.val).1 = true
        · rw [if_pos hcontained, if_pos hcontained]
          refine ⟨⟨hfollows.pid, hfollows.self_base, hfollows.self_end, hfollows.own⟩, ?_⟩
          rw [← hranges, ← hfollows.pid]
          rfl
        · rw [if_neg hcontained, if_neg hcontained]
          exact ⟨hfollows, hranges⟩
  · rw [if_neg (and_congr_left' hresult |>.not.mpr hexec), if_neg hexec]
    exact ⟨Follows.refl s, rfl⟩

end Events

/-- **Step.** What an event does to the table is to add what it finds. -/
theorem event_adds {s : Proc} (h : OwnSeed s) (ev : Event) :
    Follows s (Proc.event s ev) ∧
      (Proc.event s ev).g_exec_ranges = (adds s.pid).exec s.g_exec_ranges (finds s ev) := by
  cases ev with
  | call c =>
    cases c with
    | set_package_name name => exact ⟨⟨rfl, rfl, rfl, id⟩, rfl⟩
    | add_exec_range base size => exact ⟨⟨rfl, rfl, rfl, id⟩, rfl⟩
    | reset_seed_attempted => exact ⟨⟨rfl, rfl, rfl, id⟩, rfl⟩
    | seed_exec_ranges e => exact ⟨seed_follows e s, seed_adds e h⟩
    | should_log e env_null caller =>
      refine ⟨?_, should_log_adds e h env_null caller⟩
      show Follows s (should_log_from_caller e s env_null caller).1
      rcases (should_log_from_caller_cases e s env_null caller).1 with heq | heq
      · rw [heq]
        exact Follows.refl s
      · rw [heq]
        exact seed_follows e s
  | dlopen e handle =>
    show Follows s (hooked_loader_dlopen e s handle) ∧
      (hooked_loader_dlopen e s handle).g_exec_ranges =
        (adds s.pid).exec s.g_exec_ranges (if handle = 0 then [] else seeded e s)
    unfold hooked_loader_dlopen
    by_cases hhandle : handle = 0
    · rw [if_pos hhandle, if_pos hhandle]
      exact ⟨Follows.refl s, rfl⟩
    · rw [if_neg hhandle, if_neg hhandle]
      exact ⟨reseed_follows e s, reseed_adds e h⟩
  | android_dlopen_ext e handle filename =>
    show Follows s (hooked_loader_android_dlopen_ext e s handle filename) ∧
      (hooked_loader_android_dlopen_ext e s handle filename).g_exec_ranges =
        (adds s.pid).exec s.g_exec_ranges
          (if handle = 0 then [] else seeded e (resolvePackage s filename))
    unfold hooked_loader_android_dlopen_ext
    by_cases hhandle : handle = 0
    · rw [if_pos hhandle, if_pos hhandle]
      exact ⟨Follows.refl s, rfl⟩
    · have hnamed := resolvePackage_follows s filename
      rw [if_neg hhandle, if_neg hhandle]
      refine ⟨hnamed.trans (reseed_follows e _), ?_⟩
      rw [reseed_adds e (hnamed.own h), hnamed.pid, resolvePackage_table]
  | mprotect e addr len prot sr in_hook dli_fname =>
    exact mprotect_adds e s addr len prot sr in_hook dli_fname

/-- **Run.** -/
theorem run_adds {s : Proc} (h : OwnSeed s) (evs : List Event) :
    Follows s (process.exec s evs) ∧
      (process.exec s evs).g_exec_ranges = (adds s.pid).exec s.g_exec_ranges (found s evs) := by
  induction evs generalizing s with
  | nil => exact ⟨Follows.refl s, rfl⟩
  | cons ev evs ih =>
    obtain ⟨hstep, htable⟩ := event_adds h ev
    obtain ⟨hrest, hrun⟩ := ih (hstep.own h)
    refine ⟨hstep.trans hrest, ?_⟩
    show (process.exec (Proc.event s ev) evs).g_exec_ranges = _
    rw [hrun, hstep.pid, htable, found, Machine.exec_append]

/-! ## Section 5: Queries -/

/-- What a query answers, by the table it leaves. -/
theorem should_log_iff (e : SeedEnv) (s : Proc) (env_null : Bool) (caller : UInt64) :
    (should_log_from_caller e s env_null caller).2.1 = 1 ↔
      env_null = false ∧ caller ≠ 0 ∧ c_is_self_addr s caller = false ∧
        c_is_in_exec_range (should_log_from_caller e s env_null caller).1.g_exec_ranges
          caller = 1 := by
  unfold should_log_from_caller
  by_cases hnull : env_null = true ∨ caller = 0
  · rw [if_pos hnull]
    refine iff_of_false zero_ne_one ?_
    rintro ⟨henv, hcaller, -, -⟩
    rcases hnull with henv' | hzero
    · exact Bool.false_ne_true (henv.symm.trans henv')
    · exact hcaller hzero
  · rw [if_neg hnull]
    rw [not_or, Bool.not_eq_true] at hnull
    by_cases hself : c_is_self_addr s caller = true
    · rw [if_pos hself]
      exact iff_of_false zero_ne_one fun h => Bool.false_ne_true (h.2.2.1.symm.trans hself)
    · rw [if_neg hself]
      rw [Bool.not_eq_true] at hself
      dsimp only
      generalize (if c_should_try_seed s = true then (c_seed_exec_ranges_from_maps e s).2 else s) =
        s'
      by_cases hhas : c_has_exec_ranges s' = false
      · -- nothing is found in an empty table
        have hnil : s'.g_exec_ranges = [] := by
          simpa [c_has_exec_ranges] using hhas
        rw [if_pos hhas, hnil]
        refine iff_of_false zero_ne_one fun h => ?_
        simpa using (c_is_in_exec_range_iff.mp h.2.2.2).2
      · rw [if_neg hhas]
        exact ⟨fun h => ⟨hnull.1, hnull.2, hself, h⟩, fun h => h.2.2.2⟩

/-- The table that a query leaves after a run. -/
theorem query_adds {s : Proc} (h : OwnSeed s) (evs : List Event) (e : SeedEnv) (env_null : Bool)
    (caller : UInt64) :
    (should_log_from_caller e (process.exec s evs) env_null caller).1.g_exec_ranges =
      (adds s.pid).exec s.g_exec_ranges
        (found s (evs ++ [.call (.should_log e env_null caller)])) := by
  have htable := (run_adds h (evs ++ [.call (.should_log e env_null caller)])).2
  rw [Machine.exec_append] at htable
  exact htable

/-- **Main result.** In a process that has not been forked, and with room
    for every range, a query answers 1 exactly for an address that is not
    ours and that is in the table from the start or in a range found
    since, by the query's own seeding at the latest. -/
theorem caller_filter_exact {s : Proc} (h : OwnSeed s) (evs : List Event) (e : SeedEnv)
    (env_null : Bool) (caller : UInt64)
    (hroom : (adds s.pid).Meets (fun rs c => refused s.pid rs c.1 c.2 = false) s.g_exec_ranges
      (found s (evs ++ [.call (.should_log e env_null caller)]))) :
    (should_log_from_caller e (process.exec s evs) env_null caller).2.1 = 1 ↔
      env_null = false ∧ caller ≠ 0 ∧ c_is_self_addr s caller = false ∧
        caller.toNat ∈ covered (s.g_exec_ranges.map span) ∪
          added (found s (evs ++ [.call (.should_log e env_null caller)])) := by
  rw [should_log_iff, (run_adds h evs).1.is_self, query_adds h, c_is_in_exec_range_iff,
    covered_run hroom]
  tauto

/-- A library of an app, opened from its path. -/
def samplePath : CStr :=
  ⟨ascii "/data/app/~~x==/com.a-y==/lib/a.so", by decide⟩

def sampleEnv : SeedEnv := ⟨none, none, [⟨some samplePath, 0x1000, [⟨PT_LOAD, 0, 0x800⟩]⟩], none⟩

def sampleOpen : Event := .android_dlopen_ext sampleEnv 1 (some samplePath)

theorem caller_filter_exact_sample :
    (should_log_from_caller sampleEnv (process.exec (Proc.loaded 7 0 0) [sampleOpen]) false
        0x1400).2.1 = 1 ∧
      ¬ (should_log_from_caller sampleEnv (process.exec (Proc.loaded 7 0 0) [sampleOpen]) false
        0x1800).2.1 = 1 := by
  have hfound (caller : UInt64) (hcaller : caller = 0x1400 ∨ caller = 0x1800) :
      found (Proc.loaded 7 0 0) ([sampleOpen] ++ [.call (.should_log sampleEnv false caller)]) =
        [(0x1000, 0x800)] := by
    rcases hcaller with rfl | rfl <;> decide +kernel
  have hexact (caller : UInt64) (hcaller : caller = 0x1400 ∨ caller = 0x1800) :=
    caller_filter_exact (.inl rfl : OwnSeed (Proc.loaded 7 0 0)) [sampleOpen] sampleEnv false caller
      (by rw [hfound caller hcaller]; exact ⟨by decide, trivial⟩)
  constructor
  · rw [hexact 0x1400 (.inl rfl), hfound 0x1400 (.inl rfl)]
    exact ⟨rfl, by decide, by decide, .inr ⟨(0x1000, 0x800), by decide⟩⟩
  · rw [hexact 0x1800 (.inr rfl), hfound 0x1800 (.inr rfl)]
    rintro ⟨-, -, -, hempty | ⟨c, hc, -, -, hlt⟩⟩
    · exact absurd hempty (by simp [Proc.loaded])
    · obtain rfl := List.mem_singleton.mp hc
      exact absurd hlt (by decide)

/-! ## Section 6: A library of the app -/

/-- The path of a library of the app `pkg`, as it is installed. -/
def installed (r pkg rest : Bytes) : Bytes :=
  ascii "/data/app/~~" ++ r ++ ascii "==/" ++ pkg ++ 0x2d :: rest

/-- The name of a package that has been specialized. -/
structure IsPackage (pkg : Bytes) : Prop where
  long : 3 < pkg.length
  short : pkg.length < RANGESET_MAX_PACKAGE_NAME
  dotted : 0x2e ∈ pkg
  dashless : 0x2d ∉ pkg
  no_nul : 0 ∉ pkg
  real : isRealName pkg = true

section Installed

variable {r pkg rest : Bytes}

/-- **Round trip** of the path. -/
theorem packageOfAppPath_installed (hr : 0x3d ∉ r) (hpkg : IsPackage pkg) :
    packageOfAppPath (installed r pkg rest) = some pkg := by
  have happ : installed r pkg rest =
      [] ++ (ascii "/data/app/" ++
        (0x7e :: 0x7e :: r ++ (ascii "==/" ++ (pkg ++ 0x2d :: rest)))) := by
    have hsplit : ascii "/data/app/~~" = ascii "/data/app/" ++ [0x7e, 0x7e] := by decide
    simp [installed, hsplit]
  have hmarker : index (ascii "/data/app/") (installed r pkg rest) = some 0 := by
    rw [happ]
    exact index_append_of_notMem List.not_mem_nil _
  have hdrop : (installed r pkg rest).drop (0 + 10) =
      0x7e :: 0x7e :: r ++ (ascii "==/" ++ (pkg ++ 0x2d :: rest)) := by
    rw [happ, List.nil_append]
    exact List.drop_left' (by decide)
  have hstart : index (ascii "==/") (0x7e :: 0x7e :: r ++ (ascii "==/" ++ (pkg ++ 0x2d :: rest))) =
      some (0x7e :: 0x7e :: r).length := by
    refine index_append_of_notMem ?_ _
    rw [List.mem_cons, List.mem_cons]
    rintro (h | h | h)
    · exact absurd h (by decide)
    · exact absurd h (by decide)
    · exact hr h
  have hrest : (0x7e :: 0x7e :: r ++ (ascii "==/" ++ (pkg ++ 0x2d :: rest))).drop
      ((0x7e :: 0x7e :: r).length + 3) = pkg ++ 0x2d :: rest := by
    rw [← List.append_assoc]
    exact List.drop_left' (by rw [List.length_append]; rfl)
  unfold packageOfAppPath
  simp only [hmarker, hdrop, hstart, hrest, cut_append hpkg.dashless]
  exact if_pos ⟨hpkg.long, hpkg.short, hpkg.dotted⟩

/-- The name is kept as it is. -/
theorem refresh_of_real (e : SeedEnv) (hreal : isRealName pkg = true) :
    refresh_package_name_if_needed e pkg = pkg := by
  rw [isRealName, Bool.and_eq_true, decide_eq_true_eq, Bool.not_eq_true'] at hreal
  exact if_pos hreal

/-- The package of a library is found, and becomes the name. -/
theorem resolvePackage_installed {s : Proc} (hname : s.g_range_package_name = [])
    {filename : CStr} (hpath : filename.val = installed r pkg rest) (hr : 0x3d ∉ r)
    (hpkg : IsPackage pkg) :
    (resolvePackage s (some filename)).g_range_package_name = pkg := by
  unfold resolvePackage
  rw [if_pos hname, Option.bind_some, hpath, packageOfAppPath_installed hr hpkg]
  show strncpyZ RANGESET_MAX_PACKAGE_NAME (EventPipe.cstr pkg).val = pkg
  rw [EventPipe.cstr_val hpkg.no_nul]
  exact List.take_of_length_le (Nat.le_sub_one_of_lt hpkg.short)

/-- A segment of a module of the app is found by a seeding. -/
theorem mem_seeded {e : SeedEnv} {s : Proc} (h : OwnSeed s)
    (hname : s.g_range_package_name = pkg) (hreal : isRealName pkg = true) {info : DlPhdrInfo}
    (hinfo : info ∈ e.modules) (happ : isAppModule s pkg info = true) {c : UInt64 × UInt64}
    (hc : c ∈ loadSegments info) : c ∈ seeded e s := by
  have hlisted : c ∈ moduleSegments e (dropInherited s) pkg := by
    unfold moduleSegments
    rw [if_pos hreal, dropInherited_of_own h]
    exact List.mem_flatMap.mpr ⟨info, List.mem_filter.mpr ⟨hinfo, happ⟩, hc⟩
  have hkept : refresh_package_name_if_needed e (dropInherited s).g_range_package_name = pkg := by
    rw [dropInherited_of_own h, hname, refresh_of_real e hreal]
  unfold seeded
  dsimp only
  rw [hkept]
  split
  · exact hlisted
  · exact List.mem_append_left _ hlisted

theorem isAppModule_installed {s : Proc} {info : DlPhdrInfo} {filename : CStr}
    (hlib : info.dlpi_name = some filename) (hpath : filename.val = installed r pkg rest)
    (hpkg : pkg ≠ []) (hsystem : c_is_system_lib_path filename.val = false)
    (hself : c_is_self_addr s info.dlpi_addr = false) : isAppModule s pkg info = true := by
  have hfound : (index pkg filename.val).isSome = true := by
    rw [hpath]
    refine index_isSome_of_infix ⟨ascii "/data/app/~~" ++ r ++ ascii "==/", 0x2d :: rest, ?_⟩
    rfl
  have hne : filename.val ≠ [] := by
    intro hnil
    rw [hnil] at hsystem
    cases hsystem
  unfold isAppModule
  simp [hlib, hne, hself, hsystem, hpkg, hfound]

end Installed

/-- A segment `base`, `size` of the library `filename`, which is loaded,
    and not ours. -/
structure Loaded (e : SeedEnv) (s : Proc) (filename : CStr) (base size : UInt64) : Prop where
  not_system : c_is_system_lib_path filename.val = false
  listed : ∃ info ∈ e.modules, info.dlpi_name = some filename ∧
    c_is_self_addr s info.dlpi_addr = false ∧ (base, size) ∈ loadSegments info
  valid : valid base size = true

/-- **Main result.** Once the hook has opened a library by the path at
    which the app is installed, in a process that has no package name yet
    or the one of the app, every later query for an address in one of its
    segments answers 1. -/
theorem loaded_library_logged {s : Proc} (h : OwnSeed s) {r pkg rest : Bytes} (hr : 0x3d ∉ r)
    (hpkg : IsPackage pkg) (hname : s.g_range_package_name = [] ∨ s.g_range_package_name = pkg)
    {filename : CStr} (hpath : filename.val = installed r pkg rest) {e : SeedEnv}
    {handle base size : UInt64} (hhandle : handle ≠ 0) (hloaded : Loaded e s filename base size)
    (evs : List Event) (e' : SeedEnv) {caller : UInt64} (hcaller : caller ≠ 0)
    (hself : c_is_self_addr s caller = false)
    (hin : base.toNat ≤ caller.toNat ∧ caller.toNat < base.toNat + size.toNat)
    (hroom : (adds s.pid).Meets (fun rs c => refused s.pid rs c.1 c.2 = false) s.g_exec_ranges
      (found s (.android_dlopen_ext e handle (some filename) :: evs ++
        [.call (.should_log e' false caller)]))) :
    (should_log_from_caller e'
      (process.exec s (.android_dlopen_ext e handle (some filename) :: evs)) false caller).2.1 =
        1 := by
  obtain ⟨hsystem, ⟨info, hinfo, hlib, hbase, hsegment⟩, hvalid⟩ := hloaded
  have hfollows := resolvePackage_follows s (some filename)
  have hpkg_ne : pkg ≠ [] := fun hnil => List.not_mem_nil (hnil ▸ hpkg.dotted)
  have hresolved : (resolvePackage s (some filename)).g_range_package_name = pkg := by
    rcases hname with hnil | hknown
    · exact resolvePackage_installed hnil hpath hr hpkg
    · unfold resolvePackage
      rw [if_neg (by rwa [hknown]), hknown]
  have hfound : (base, size) ∈ seeded e (resolvePackage s (some filename)) := by
    refine mem_seeded (hfollows.own h) hresolved hpkg.real hinfo ?_ hsegment
    exact isAppModule_installed hlib hpath hpkg_ne hsystem ((hfollows.is_self _).trans hbase)
  have hmem : (base, size) ∈ finds s (.android_dlopen_ext e handle (some filename)) := by
    show (base, size) ∈ if handle = 0 then [] else seeded e (resolvePackage s (some filename))
    rwa [if_neg hhandle]
  refine (should_log_iff e' _ false caller).mpr ⟨rfl, hcaller, ?_, ?_⟩
  · rwa [(run_adds h _).1.is_self]
  · rw [query_adds h, c_is_in_exec_range_iff, covered_run hroom]
    refine ⟨hcaller, .inr ⟨(base, size), ?_, hvalid, hin⟩⟩
    exact List.mem_append_left _ hmem

theorem loaded_library_logged_sample :
    (should_log_from_caller sampleEnv
      (process.exec (Proc.loaded 7 0 0) [sampleOpen, .call (.set_package_name none)]) false
        0x1400).2.1 = 1 := by
  have hpkg : IsPackage (ascii "com.a") :=
    ⟨by decide, by decide, by decide, by decide, by decide, by decide +kernel⟩
  have hloaded : Loaded sampleEnv (Proc.loaded 7 0 0) samplePath 0x1000 0x800 :=
    ⟨by decide +kernel, ⟨_, List.mem_cons_self, rfl, by decide, by decide⟩, by decide⟩
  have hpath : samplePath.val = installed (ascii "x") (ascii "com.a") (ascii "y==/lib/a.so") := by
    decide
  have hfound : found (Proc.loaded 7 0 0) (sampleOpen :: [.call (.set_package_name none)] ++
      [.call (.should_log sampleEnv false 0x1400)]) = [(0x1000, 0x800)] := by
    decide +kernel
  refine loaded_library_logged (.inl rfl) (by decide) hpkg (.inl rfl) hpath (by decide) hloaded
    [.call (.set_package_name none)] sampleEnv (by decide) (by decide) (by decide) ?_
  rw [show Event.android_dlopen_ext sampleEnv 1 (some samplePath) = sampleOpen from rfl, hfound]
  exact ⟨by decide, trivial⟩

end JniLog.AppRanges
