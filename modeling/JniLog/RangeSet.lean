import JniLog.Framework.System
import JniLog.ProcMaps
import Mathlib.Logic.Function.Basic

/-! # Tracking the app's executable ranges

    Model of `rangeset.c` and of its reader `should_log_from_caller` of
    `hook_common.c`, in a process and in the processes forked from it.

    * What the loader, the maps file, the command line and the path of
      our own library say is an argument of each call that reads it.
    * `addedBy` and `inherited` are history, which nothing reads: the
      processes whose calls made a range, and what a process was forked
      with.

    Main results:
    * `c_seed_exec_ranges_from_maps_spec`: what seeding drops and adds.
    * `inherited_ranges_dropped_iff`: no query looks at a range of another
      process exactly when each query of a process forked with ranges
      comes after a seeding of its own that could see the fork. -/

namespace JniLog.RangeSet

open Bytes Text ProcMaps

/-! ## Section 1: The package name -/

def RANGESET_MAX_PACKAGE_NAME : Nat := 256

/-- `strncpy` into a buffer of `size` bytes, and the NUL at its end. -/
def strncpyZ (size : Nat) (s : Bytes) : Bytes :=
  s.take (size - 1)

/-- The names of a process that is not specialized yet. -/
def isPlaceholder (name : Bytes) : Bool :=
  (index (ascii "zygote") name).isSome || (index (ascii "app_process") name).isSome ||
    (index (ascii "<pre-initialized>") name).isSome

/-- The package in the path of our own library. -/
def packageOfPath (path : Bytes) : Option Bytes :=
  let pkg_start :=
    if ascii "/data/data/" <+: path then some (path.drop 11)
    else if ascii "/data/user/0/" <+: path then some (path.drop 13)
    else none
  match pkg_start.bind (cut 0x2f) with
  | some (pkg, _) =>
    if 0 < pkg.length ∧ pkg.length < RANGESET_MAX_PACKAGE_NAME then some pkg else none
  | none => none

/-- The package in what was read of the command line. -/
def packageOfCmdline (buf : Bytes) : Option Bytes :=
  let name := (buf.take (RANGESET_MAX_PACKAGE_NAME - 1)).takeWhile (· ≠ 0)
  if name.length > 0 ∧ isPlaceholder name = false then some name else none

/-- A segment in a module's program headers. -/
structure Phdr where
  p_type : UInt32
  p_vaddr : UInt64
  p_memsz : UInt64
  deriving DecidableEq, Repr

/-- `dl_phdr_info`. -/
structure DlPhdrInfo where
  dlpi_name : Option CStr
  dlpi_addr : UInt64
  dlpi_phdr : List Phdr

/-- What a call of `c_seed_exec_ranges_from_maps` reads: the path `dladdr`
    gives for our own code, the bytes read of `/proc/self/cmdline`, the
    modules the loader iterates over, and the maps. -/
structure SeedEnv where
  self_path : Option CStr
  cmdline : Option Bytes
  modules : List DlPhdrInfo
  maps : Snapshot

/-- The package name after `refresh_package_name_if_needed`. -/
def refresh_package_name_if_needed (e : SeedEnv) (name : Bytes) : Bytes :=
  if name ≠ [] ∧ isPlaceholder name = false then name
  else
    match e.self_path.bind fun path => packageOfPath path.val with
    | some pkg => pkg
    | none => (e.cmdline.bind packageOfCmdline).getD name

/-! ## Section 2: Ranges -/

def MAX_EXEC_RANGES : Nat := 1024

/-- `c_exec_range_t`, with the processes that added it or extended it. -/
structure ExecRange where
  base : UInt64
  fin : UInt64
  addedBy : List Nat
  deriving DecidableEq, Repr

/-- The loop of `c_add_exec_range` over the table; `none` when no entry
    contains the range or meets it. -/
def mergeLoop (me : Nat) (base fin : UInt64) : List ExecRange → Option (Int × List ExecRange)
  | [] => none
  | r :: rs =>
    if base ≥ r.base ∧ fin ≤ r.fin then some (0, r :: rs)
    else if ¬ (fin < r.base ∨ base > r.fin) then
      some (1, { base := if base < r.base then base else r.base
                 fin := if fin > r.fin then fin else r.fin
                 addedBy := me :: r.addedBy } :: rs)
    else (mergeLoop me base fin rs).map fun (res, rs) => (res, r :: rs)

/-- `me` is the process that calls. -/
def c_add_exec_range (me : Nat) (ranges : List ExecRange) (base size : UInt64) :
    Int × List ExecRange :=
  if size = 0 then (0, ranges)
  else
    let fin := base + size
    if fin ≤ base then (0, ranges)
    else
      match mergeLoop me base fin ranges with
      | some r => r
      | none =>
        if ranges.length < MAX_EXEC_RANGES then (1, ranges ++ [⟨base, fin, [me]⟩])
        else (0, ranges)

def ExecRange.holds (addr : UInt64) (r : ExecRange) : Bool :=
  addr ≥ r.base && addr < r.fin

def c_is_in_exec_range (ranges : List ExecRange) (addr : UInt64) : Int :=
  if addr = 0 then 0
  else if (ranges.find? (·.holds addr)).isSome then 1
  else 0

/-! ## Section 3: A process -/

/-- The static variables of a process, its pid, and whether it was forked
    with ranges in the table: then the pid that had seeded last. -/
structure Proc where
  pid : Nat
  g_range_package_name : Bytes
  g_seed_attempted : Bool
  g_seed_pid : Nat
  g_self_base : UInt64
  g_self_end : UInt64
  g_exec_ranges : List ExecRange
  inherited : Option Nat

section Calls

variable (s : Proc)

def c_set_package_name (name : Option CStr) : Proc :=
  { s with
    g_range_package_name :=
      match name with
      | some name => strncpyZ RANGESET_MAX_PACKAGE_NAME name.val
      | none => []
    g_seed_attempted := false }

def c_is_self_addr (addr : UInt64) : Bool :=
  s.g_self_base ≠ 0 && addr ≥ s.g_self_base && addr < s.g_self_end

def c_has_exec_ranges : Bool :=
  s.g_exec_ranges.length > 0

def c_should_try_seed : Bool :=
  if s.g_exec_ranges.length > 0 then false
  else if s.g_seed_attempted then false
  else true

def c_reset_seed_attempted : Proc :=
  { s with g_seed_attempted := false }

end Calls

/-- The directories of system libraries. -/
def isSystemDir (path : Bytes) : Bool :=
  decide (ascii "/system/" <+: path) || decide (ascii "/system_ext/" <+: path) ||
    decide (ascii "/apex/" <+: path) || decide (ascii "/vendor/" <+: path) ||
    decide (ascii "/product/" <+: path) || decide (ascii "/odm/" <+: path) ||
    (index (ascii "/bionic") path).isSome

def c_is_system_lib_path (path : Bytes) : Bool :=
  if path = [] ∨ path.head? ≠ some 0x2f then true
  else if path.length > 5 ∧ (ascii ".odex" <:+ path ∨ ascii ".vdex" <:+ path) then true
  else if path.length > 4 ∧ (ascii ".oat" <:+ path ∨ ascii ".art" <:+ path) then true
  else isSystemDir path

def PT_LOAD : UInt32 := 1

/-- `if (size > 0 && c_add_exec_range(start, size)) added++`, on the table
    and the count. -/
def addCounted (me : Nat) (st : List ExecRange × Int) (start size : UInt64) :
    List ExecRange × Int :=
  if size > 0 then
    let (res, ranges) := c_add_exec_range me st.1 start size
    (ranges, if res ≠ 0 then st.2 + 1 else st.2)
  else st

/-- `seed_iter_cb`. -/
def seed_iter_cb (s : Proc) (pkg_snap : Bytes) (st : List ExecRange × Int) (info : DlPhdrInfo) :
    List ExecRange × Int :=
  match info.dlpi_name with
  | none => st
  | some lib_name =>
    if lib_name.val = [] then st
    else if c_is_self_addr s info.dlpi_addr then st
    else if c_is_system_lib_path lib_name.val then st
    else if pkg_snap = [] ∨ (index pkg_snap lib_name.val).isNone then st
    else
      info.dlpi_phdr.foldl (fun st ph =>
        if ph.p_type ≠ PT_LOAD then st
        else addCounted s.pid st (info.dlpi_addr + ph.p_vaddr) ph.p_memsz) st

/-- The path in a line, as the scan of the maps file finds it. -/
def seedPath (line : Bytes) : Option Bytes :=
  match jl_maps_path line with
  | none => none
  | some path =>
    let path := if path.getLast? = some 0x0a then path.dropLast else path
    if path = [] then none
    else
      let path := stripDeleted path
      if path.head? ≠ some 0x2f then none else some path

/-- One line of `c_seed_exec_ranges_from_proc_maps`. -/
def seedLine (s : Proc) (pkg_snap : Bytes) (st : List ExecRange × Int) (line : CStr) :
    List ExecRange × Int :=
  match jl_parse_maps_head line.val with
  | none => st
  | some head =>
    if head.executable = false then st
    else
      match seedPath line.val with
      | none => st
      | some path =>
        if isSystemDir path then st
        else if c_is_self_addr s head.lo then st
        else if (index pkg_snap path).isNone then st
        else addCounted s.pid st head.lo (head.hi - head.lo)

/-- A package name that ranges can be looked up for. -/
def isRealName (name : Bytes) : Bool :=
  name ≠ [] && !isPlaceholder name

/-- The table and the number of ranges added to it. -/
def c_seed_exec_ranges_from_proc_maps (e : SeedEnv) (s : Proc) (ranges : List ExecRange) :
    List ExecRange × Int :=
  if isRealName s.g_range_package_name = false then (ranges, 0)
  else
    match e.maps with
    | none => (ranges, 0)
    | some lines => lines.foldl (seedLine s s.g_range_package_name) (ranges, 0)

/-- The fork check at the start of `c_seed_exec_ranges_from_maps`. -/
def dropInherited (s : Proc) : Proc :=
  if s.g_seed_pid ≠ s.pid then
    if s.g_seed_pid ≠ 0 then
      { s with g_exec_ranges := [], g_range_package_name := [], g_seed_attempted := false,
               g_seed_pid := s.pid }
    else { s with g_seed_pid := s.pid }
  else s

/-- The table and the count after both scans. -/
def seedRanges (e : SeedEnv) (s : Proc) : List ExecRange × Int :=
  let (ranges, added) :=
    if isRealName s.g_range_package_name then
      e.modules.foldl (seed_iter_cb s s.g_range_package_name) (s.g_exec_ranges, 0)
    else (s.g_exec_ranges, 0)
  if ranges.length > 0 then (ranges, added)
  else
    let (ranges, more) := c_seed_exec_ranges_from_proc_maps e s ranges
    (ranges, added + more)

def c_seed_exec_ranges_from_maps (e : SeedEnv) (s : Proc) : Int × Proc :=
  let s := dropInherited s
  let s :=
    { s with g_range_package_name := refresh_package_name_if_needed e s.g_range_package_name }
  let (ranges, added) := seedRanges e s
  (added, { s with g_exec_ranges := ranges, g_seed_attempted := true })

/-- A query that got to the table. -/
structure Consult where
  pid : Nat
  caller : UInt64
  table : List ExecRange
  answer : Int
  deriving DecidableEq, Repr

/-- `env_null` is `env == NULL`. The process after the query, its answer,
    and the look at the table, if there was one. -/
def should_log_from_caller (e : SeedEnv) (s : Proc) (env_null : Bool) (caller : UInt64) :
    Proc × Int × Option Consult :=
  if env_null = true ∨ caller = 0 then (s, 0, none)
  else if c_is_self_addr s caller then (s, 0, none)
  else
    let s := if c_should_try_seed s then (c_seed_exec_ranges_from_maps e s).2 else s
    if c_has_exec_ranges s = false then (s, 0, none)
    else
      let answer := c_is_in_exec_range s.g_exec_ranges caller
      (s, answer, some ⟨s.pid, caller, s.g_exec_ranges, answer⟩)

/-! ## Section 4: Processes -/

/-- The processes by their pids, and the looks at the tables so far. -/
structure World where
  procs : Nat → Option Proc
  consults : List Consult

/-- A process whose library was just loaded. -/
def Proc.loaded (pid : Nat) (self_base self_end : UInt64) : Proc :=
  ⟨pid, [], false, 0, self_base, self_end, [], none⟩

/-- One process; pids are positive. -/
def World.initial (root : Nat) (self_base self_end : UInt64) : World :=
  ⟨Function.update (fun _ => none) root (some (Proc.loaded root self_base self_end)), []⟩

/-- A call in a process. -/
inductive Call where
  | set_package_name (name : Option CStr)
  | add_exec_range (base size : UInt64)
  | reset_seed_attempted
  | seed_exec_ranges (e : SeedEnv)
  | should_log (e : SeedEnv) (env_null : Bool) (caller : UInt64)

inductive Op where
  | call (p : Nat) (c : Call)
  | fork (p q : Nat)

/-- The process after a call, and its look at the table. -/
def Proc.call (s : Proc) : Call → Proc × Option Consult
  | .set_package_name name => (c_set_package_name s name, none)
  | .add_exec_range base size =>
    ({ s with g_exec_ranges := (c_add_exec_range s.pid s.g_exec_ranges base size).2 }, none)
  | .reset_seed_attempted => (c_reset_seed_attempted s, none)
  | .seed_exec_ranges e => ((c_seed_exec_ranges_from_maps e s).2, none)
  | .should_log e env_null caller =>
    let (s, _, consult) := should_log_from_caller e s env_null caller
    (s, consult)

/-- The copy of a process under a new pid. -/
def Proc.forked (s : Proc) (q : Nat) : Proc :=
  { s with pid := q, inherited := if s.g_exec_ranges = [] then none else some s.g_seed_pid }

/-- The processes call and fork in any order; a fork gives a pid that no
    process has. -/
def world : Machine World Op where
  next w op :=
    match op with
    | .call p c =>
      match w.procs p with
      | none => w
      | some s =>
        let (s, consult) := s.call c
        ⟨Function.update w.procs p (some s), w.consults ++ consult.toList⟩
    | .fork p q =>
      match w.procs p, w.procs q with
      | some s, none =>
        if q = 0 then w else { w with procs := Function.update w.procs q (some (s.forked q)) }
      | _, _ => w

/-! ## Section 5: Adding and seeding -/

/-- How a table changes when the process `p` adds ranges: no contribution
    is lost, and a new one is by `p`. -/
structure Grows (p : Nat) (rs rs' : List ExecRange) : Prop where
  keep : ∀ r ∈ rs, ∀ q ∈ r.addedBy, ∃ r' ∈ rs', q ∈ r'.addedBy
  new : ∀ r' ∈ rs', ∀ q ∈ r'.addedBy, q = p ∨ ∃ r ∈ rs, q ∈ r.addedBy
  tagged : (∀ r ∈ rs, r.addedBy ≠ []) → ∀ r' ∈ rs', r'.addedBy ≠ []

section Adding

variable {p : Nat} {rs rs' rs'' : List ExecRange}

theorem Grows.refl (p : Nat) (rs : List ExecRange) : Grows p rs rs where
  keep r hr _ hq := ⟨r, hr, hq⟩
  new r hr _ hq := .inr ⟨r, hr, hq⟩
  tagged h := h

theorem Grows.trans (h : Grows p rs rs') (h' : Grows p rs' rs'') : Grows p rs rs'' where
  keep r hr q hq := by
    obtain ⟨r', hr', hq'⟩ := h.keep r hr q hq
    exact h'.keep r' hr' q hq'
  new r'' hr'' q hq := by
    rcases h'.new r'' hr'' q hq with hp | ⟨r', hr', hq'⟩
    · exact .inl hp
    · exact h.new r' hr' q hq'
  tagged ht := h'.tagged (h.tagged ht)

theorem Grows.cons (h : Grows p rs rs') (r : ExecRange) : Grows p (r :: rs) (r :: rs') where
  keep x hx q hq := by
    rcases List.mem_cons.mp hx with rfl | hx
    · exact ⟨x, List.mem_cons_self, hq⟩
    · obtain ⟨x', hx', hq'⟩ := h.keep x hx q hq
      exact ⟨x', List.mem_cons_of_mem _ hx', hq'⟩
  new x' hx' q hq := by
    rcases List.mem_cons.mp hx' with rfl | hx'
    · exact .inr ⟨x', List.mem_cons_self, hq⟩
    · refine (h.new x' hx' q hq).imp_right ?_
      rintro ⟨x, hx, hqx⟩
      exact ⟨x, List.mem_cons_of_mem _ hx, hqx⟩
  tagged ht x hx := by
    rcases List.mem_cons.mp hx with rfl | hx
    · exact ht x List.mem_cons_self
    · exact h.tagged (fun y hy => ht y (List.mem_cons_of_mem _ hy)) x hx

/-- An entry that the process extends. -/
theorem Grows.extend (r r' : ExecRange) (rs : List ExecRange) (h : r'.addedBy = p :: r.addedBy) :
    Grows p (r :: rs) (r' :: rs) where
  keep x hx q hq := by
    rcases List.mem_cons.mp hx with rfl | hx
    · exact ⟨r', List.mem_cons_self, by simp [h, hq]⟩
    · exact ⟨x, List.mem_cons_of_mem _ hx, hq⟩
  new x hx q hq := by
    rcases List.mem_cons.mp hx with rfl | hx
    · rw [h] at hq
      refine (List.mem_cons.mp hq).imp_right fun hq => ?_
      exact ⟨r, List.mem_cons_self, hq⟩
    · exact .inr ⟨x, List.mem_cons_of_mem _ hx, hq⟩
  tagged ht x hx := by
    rcases List.mem_cons.mp hx with rfl | hx
    · simp [h]
    · exact ht x (List.mem_cons_of_mem _ hx)

theorem Grows.append_new (rs : List ExecRange) (base fin : UInt64) :
    Grows p rs (rs ++ [⟨base, fin, [p]⟩]) where
  keep r hr q hq := ⟨r, List.mem_append_left _ hr, hq⟩
  new r hr q hq := by
    rcases List.mem_append.mp hr with hr | hr
    · exact .inr ⟨r, hr, hq⟩
    · obtain rfl := List.mem_singleton.mp hr
      exact .inl (by simpa using hq)
  tagged ht r hr := by
    rcases List.mem_append.mp hr with hr | hr
    · exact ht r hr
    · obtain rfl := List.mem_singleton.mp hr
      simp

theorem mergeLoop_grows {base fin : UInt64} {res : Int}
    (h : mergeLoop p base fin rs = some (res, rs')) : Grows p rs rs' := by
  induction rs generalizing rs' with
  | nil => cases h
  | cons r rs ih =>
    unfold mergeLoop at h
    split at h
    · obtain ⟨-, rfl⟩ := Prod.mk.inj (Option.some.inj h)
      exact Grows.refl p _
    · split at h
      · obtain ⟨-, rfl⟩ := Prod.mk.inj (Option.some.inj h)
        exact Grows.extend r _ rs rfl
      · obtain ⟨⟨res', rs''⟩, hloop, heq⟩ := Option.map_eq_some_iff.mp h
        obtain ⟨rfl, rfl⟩ := Prod.mk.inj heq
        exact (ih hloop).cons r

theorem c_add_exec_range_grows (p : Nat) (rs : List ExecRange) (base size : UInt64) :
    Grows p rs (c_add_exec_range p rs base size).2 := by
  unfold c_add_exec_range
  split
  · exact Grows.refl p rs
  · dsimp only
    split
    · exact Grows.refl p rs
    · split
      · rename_i r heq
        exact mergeLoop_grows heq
      · split
        · exact Grows.append_new rs base (base + size)
        · exact Grows.refl p rs

theorem addCounted_grows (st : List ExecRange × Int) (start size : UInt64) :
    Grows p st.1 (addCounted p st start size).1 := by
  unfold addCounted
  split
  · exact c_add_exec_range_grows p st.1 start size
  · exact Grows.refl p _

/-- A scan adds ranges one after the other. -/
theorem foldl_grows {α : Type} {f : List ExecRange × Int → α → List ExecRange × Int}
    (hf : ∀ st a, Grows p st.1 (f st a).1) (as : List α) (st : List ExecRange × Int) :
    Grows p st.1 (as.foldl f st).1 := by
  induction as generalizing st with
  | nil => exact Grows.refl p _
  | cons a as ih => exact (hf st a).trans (ih (f st a))

end Adding

section Seeding

variable (e : SeedEnv) (s : Proc)

theorem seed_iter_cb_grows (pkg : Bytes) (st : List ExecRange × Int) (info : DlPhdrInfo) :
    Grows s.pid st.1 (seed_iter_cb s pkg st info).1 := by
  unfold seed_iter_cb
  repeat' split
  all_goals first
    | exact Grows.refl _ _
    | skip
  apply foldl_grows
  intro st ph
  split
  · exact Grows.refl _ _
  · exact addCounted_grows st _ _

theorem seedLine_grows (pkg : Bytes) (st : List ExecRange × Int) (line : CStr) :
    Grows s.pid st.1 (seedLine s pkg st line).1 := by
  unfold seedLine
  repeat' split
  all_goals first
    | exact Grows.refl _ _
    | exact addCounted_grows st _ _

theorem c_seed_exec_ranges_from_proc_maps_grows (ranges : List ExecRange) :
    Grows s.pid ranges (c_seed_exec_ranges_from_proc_maps e s ranges).1 := by
  unfold c_seed_exec_ranges_from_proc_maps
  split
  · exact Grows.refl _ _
  · split
    · exact Grows.refl _ _
    · exact foldl_grows (seedLine_grows s _) _ (ranges, 0)

theorem seedRanges_grows : Grows s.pid s.g_exec_ranges (seedRanges e s).1 := by
  have hmodules : Grows s.pid s.g_exec_ranges
      (if isRealName s.g_range_package_name then
        e.modules.foldl (seed_iter_cb s s.g_range_package_name) (s.g_exec_ranges, 0)
      else (s.g_exec_ranges, 0)).1 := by
    split
    · exact foldl_grows (seed_iter_cb_grows s _) e.modules (s.g_exec_ranges, 0)
    · exact Grows.refl _ _
  unfold seedRanges
  generalize (if isRealName s.g_range_package_name then
      e.modules.foldl (seed_iter_cb s s.g_range_package_name) (s.g_exec_ranges, 0)
    else (s.g_exec_ranges, 0)) = st at hmodules ⊢
  obtain ⟨ranges, added⟩ := st
  dsimp only at hmodules ⊢
  split
  · exact hmodules
  · exact hmodules.trans (c_seed_exec_ranges_from_proc_maps_grows e s ranges)

/-- **Seeding**: a process that another one seeded last drops all ranges
    first; one that was never seeded keeps them. -/
theorem c_seed_exec_ranges_from_maps_spec :
    (c_seed_exec_ranges_from_maps e s).2.pid = s.pid ∧
    (c_seed_exec_ranges_from_maps e s).2.g_seed_pid = s.pid ∧
    (c_seed_exec_ranges_from_maps e s).2.inherited = s.inherited ∧
    Grows s.pid (if s.g_seed_pid ≠ s.pid ∧ s.g_seed_pid ≠ 0 then [] else s.g_exec_ranges)
      (c_seed_exec_ranges_from_maps e s).2.g_exec_ranges := by
  have hdrop : (dropInherited s).pid = s.pid ∧ (dropInherited s).g_seed_pid = s.pid ∧
      (dropInherited s).inherited = s.inherited ∧ (dropInherited s).g_exec_ranges =
        if s.g_seed_pid ≠ s.pid ∧ s.g_seed_pid ≠ 0 then [] else s.g_exec_ranges := by
    unfold dropInherited
    by_cases hpid : s.g_seed_pid = s.pid
    · simp [hpid]
    · by_cases hzero : s.g_seed_pid = 0
      · rw [if_pos hpid, if_neg (not_not.mpr hzero), if_neg fun h => h.2 hzero]
        exact ⟨rfl, rfl, rfl, rfl⟩
      · rw [if_pos hpid, if_pos hzero, if_pos ⟨hpid, hzero⟩]
        exact ⟨rfl, rfl, rfl, rfl⟩
  obtain ⟨h₁, h₂, h₃, h₄⟩ := hdrop
  refine ⟨h₁, h₂, h₃, ?_⟩
  have hgrows := seedRanges_grows e { dropInherited s with
    g_range_package_name :=
      refresh_package_name_if_needed e (dropInherited s).g_range_package_name }
  rw [← h₄, ← h₁]
  exact hgrows

end Seeding

/-! ## Section 6: Ranges of other processes -/

/-- Only the process itself made the range. -/
def ExecRange.Own (p : Nat) (r : ExecRange) : Prop :=
  ∀ q ∈ r.addedBy, q = p

theorem Grows.stale {p : Nat} {rs rs' : List ExecRange} (h : Grows p rs rs')
    (hs : ∃ r ∈ rs, ¬ r.Own p) : ∃ r' ∈ rs', ¬ r'.Own p := by
  obtain ⟨r, hr, hown⟩ := hs
  unfold ExecRange.Own at hown
  push Not at hown
  obtain ⟨q, hq, hne⟩ := hown
  obtain ⟨r', hr', hq'⟩ := h.keep r hr q hq
  exact ⟨r', hr', fun h' => hne (h' q hq')⟩

/-- The process was not forked with ranges, or it was, from a process that
    had seeded or inherited a seeding, and it has seeded since. -/
def Proc.Dropped (s : Proc) : Prop :=
  s.inherited = none ∨ ∃ k, s.inherited = some k ∧ k ≠ 0 ∧ s.g_seed_pid = s.pid

instance (s : Proc) : Decidable s.Dropped :=
  decidable_of_iff (s.inherited = none ∨ s.inherited ≠ some 0 ∧ s.g_seed_pid = s.pid) <| by
    unfold Proc.Dropped
    cases s.inherited <;> simp

/-- The first range the query found the caller in. -/
def Consult.basis (c : Consult) : Option ExecRange :=
  c.table.find? (·.holds c.caller)

/-- No answer 1 rests on a range of another process, and no such range is
    in a table that was looked at. -/
def World.Good (w : World) : Prop :=
  ∀ c ∈ w.consults, (c.answer = 1 → ∀ r, c.basis = some r → r.Own c.pid) ∧
    ∀ r ∈ c.table, r.Own c.pid

/-- What an operation must meet: a query that gets past its first checks
    is made in a process that has dropped what it inherited. -/
def ok (w : World) : Op → Prop
  | .call p (.should_log _ env_null caller) =>
    ∀ s, w.procs p = some s → env_null = false → caller ≠ 0 → c_is_self_addr s caller = false →
      s.Dropped
  | _ => True

/-- A process with the pid `p`, where `known` are the pids in use. -/
structure Proc.Inv (known : Nat → Prop) (p : Nat) (s : Proc) : Prop where
  pid : s.pid = p
  pos : p ≠ 0
  tagged : ∀ r ∈ s.g_exec_ranges, r.addedBy ≠ []
  tags : ∀ r ∈ s.g_exec_ranges, ∀ q ∈ r.addedBy, known q
  seeder : s.g_seed_pid = 0 ∨ known s.g_seed_pid
  forked : ∀ k, s.inherited = some k → k ≠ p ∧ (s.g_seed_pid = k ∨ s.g_seed_pid = p)
  dropped : s.Dropped → ∀ r ∈ s.g_exec_ranges, r.Own p
  stale : ¬ s.Dropped → ∃ r ∈ s.g_exec_ranges, ¬ r.Own p

structure World.Inv (w : World) : Prop where
  procs : ∀ p s, w.procs p = some s → s.Inv (fun q => w.procs q ≠ none) p
  consults : w.Good

theorem known_mono {known known' : Nat → Prop} {p : Nat} {s : Proc} (h : s.Inv known p)
    (hmono : ∀ q, known q → known' q) : s.Inv known' p :=
  { h with
    tags := fun r hr q hq => hmono q (h.tags r hr q hq)
    seeder := h.seeder.imp_right (hmono _) }

section Steps

variable {known : Nat → Prop} {p : Nat} {s : Proc}

/-- The process adds ranges of its own and changes nothing else. -/
theorem Proc.Inv.grow (h : s.Inv known p) (hp : known p) {rs : List ExecRange}
    (hg : Grows p s.g_exec_ranges rs) {name : Bytes} {attempted : Bool} :
    Proc.Inv known p { s with g_exec_ranges := rs, g_range_package_name := name,
                              g_seed_attempted := attempted } := by
  refine ⟨h.pid, h.pos, hg.tagged h.tagged, ?_, h.seeder, h.forked, ?_, ?_⟩
  · intro r hr q hq
    rcases hg.new r hr q hq with rfl | ⟨r', hr', hq'⟩
    · exact hp
    · exact h.tags r' hr' q hq'
  · intro hd r hr q hq
    rcases hg.new r hr q hq with rfl | ⟨r', hr', hq'⟩
    · rfl
    · exact h.dropped hd r' hr' q hq'
  · intro hd
    exact hg.stale (h.stale hd)

theorem Proc.Inv.seed (h : s.Inv known p) (hp : known p) (e : SeedEnv) :
    Proc.Inv known p (c_seed_exec_ranges_from_maps e s).2 := by
  obtain ⟨hpid, hseed, hinh, hg⟩ := c_seed_exec_ranges_from_maps_spec e s
  generalize (c_seed_exec_ranges_from_maps e s).2 = s' at hpid hseed hinh hg ⊢
  rw [h.pid] at hpid hseed hg
  have hclear : ∀ r' ∈ s'.g_exec_ranges, ∀ q ∈ r'.addedBy,
      q = p ∨ ((s.g_seed_pid = p ∨ s.g_seed_pid = 0) ∧ ∃ r ∈ s.g_exec_ranges, q ∈ r.addedBy) := by
    intro r' hr' q hq
    refine (hg.new r' hr' q hq).imp_right ?_
    rintro ⟨r, hr, hqr⟩
    split at hr
    · exact absurd hr List.not_mem_nil
    · rename_i hno
      -- the table was not cleared: it was seeded here or nowhere
      exact ⟨by tauto, r, hr, hqr⟩
  have htagged : ∀ r' ∈ s'.g_exec_ranges, r'.addedBy ≠ [] := by
    apply hg.tagged
    intro r hr
    split at hr
    · exact absurd hr List.not_mem_nil
    · exact h.tagged r hr
  have htags : ∀ r' ∈ s'.g_exec_ranges, ∀ q ∈ r'.addedBy, known q := by
    intro r' hr' q hq
    rcases hclear r' hr' q hq with rfl | ⟨-, r, hr, hqr⟩
    · exact hp
    · exact h.tags r hr q hqr
  have hforked : ∀ k, s'.inherited = some k → k ≠ p ∧ (s'.g_seed_pid = k ∨ s'.g_seed_pid = p) := by
    intro k hk
    exact ⟨(h.forked k (hinh ▸ hk)).1, .inr hseed⟩
  refine ⟨hpid, h.pos, htagged, htags, .inr (hseed ▸ hp), hforked, ?_, ?_⟩
  · -- what is left of before was own, or was dropped
    intro hd r' hr' q hq
    rcases hclear r' hr' q hq with rfl | ⟨hkept, r, hr, hqr⟩
    · rfl
    · refine h.dropped ?_ r hr q hqr
      unfold Proc.Dropped at hd ⊢
      rw [hinh] at hd
      rcases hd with hnone | ⟨k, hk, hk0, -⟩
      · exact .inl hnone
      · refine .inr ⟨k, hk, hk0, ?_⟩
        rw [h.pid]
        rcases h.forked k hk with ⟨hkp, hseeder | hseeder⟩
        · rcases hkept with hkept | hkept
          · exact hkept
          · exact absurd (hseeder.symm.trans hkept) hk0
        · exact hseeder
  · -- only a process forked before any seeding is stale after one
    intro hd
    have hstale : s.inherited = some 0 := by
      unfold Proc.Dropped at hd
      rw [hinh, hseed, hpid] at hd
      push Not at hd
      cases hs : s.inherited with
      | none => exact absurd hs hd.1
      | some k =>
        by_cases hk : k = 0
        · rw [hk]
        · exact absurd rfl (hd.2 k hs hk)
    have hnot : ¬ s.Dropped := by
      unfold Proc.Dropped
      simp [hstale]
    have hkept : ¬ (s.g_seed_pid ≠ p ∧ s.g_seed_pid ≠ 0) := by
      have := (h.forked 0 hstale).2
      tauto
    rw [if_neg hkept] at hg
    exact hg.stale (h.stale hnot)

/-- What a query does to its process and what it looks at. -/
theorem should_log_from_caller_cases (e : SeedEnv) (s : Proc) (env_null : Bool) (caller : UInt64) :
    ((should_log_from_caller e s env_null caller).1 = s ∨
      (should_log_from_caller e s env_null caller).1 = (c_seed_exec_ranges_from_maps e s).2) ∧
    ∀ c, (should_log_from_caller e s env_null caller).2.2 = some c →
      env_null = false ∧ caller ≠ 0 ∧ c_is_self_addr s caller = false ∧
      c.pid = (should_log_from_caller e s env_null caller).1.pid ∧
      c.table = (should_log_from_caller e s env_null caller).1.g_exec_ranges := by
  unfold should_log_from_caller
  by_cases hnull : env_null = true ∨ caller = 0
  · rw [if_pos hnull]
    exact ⟨.inl rfl, fun c hc => nomatch hc⟩
  · rw [if_neg hnull]
    cases hself : c_is_self_addr s caller with
    | true => exact ⟨.inl rfl, fun c hc => nomatch hc⟩
    | false =>
      rw [not_or, Bool.not_eq_true] at hnull
      -- the state the query goes on with, seeded or not
      have hs' : (if c_should_try_seed s then (c_seed_exec_ranges_from_maps e s).2 else s) = s ∨
          (if c_should_try_seed s then (c_seed_exec_ranges_from_maps e s).2 else s) =
            (c_seed_exec_ranges_from_maps e s).2 := by
        split
        · exact .inr rfl
        · exact .inl rfl
      dsimp only
      generalize (if c_should_try_seed s then (c_seed_exec_ranges_from_maps e s).2 else s) = s'
        at hs' ⊢
      cases c_has_exec_ranges s' with
      | false => exact ⟨hs', fun c hc => nomatch hc⟩
      | true =>
        refine ⟨hs', fun c hc => ?_⟩
        obtain rfl := Option.some.inj hc
        exact ⟨hnull.1, hnull.2, rfl, rfl, rfl⟩

/-- A query that passes its first checks looks at a table with ranges. -/
theorem should_log_from_caller_consults (e : SeedEnv) {s : Proc} {env_null : Bool}
    {caller : UInt64} (hnull : env_null = false) (hcaller : caller ≠ 0)
    (hself : c_is_self_addr s caller = false) (hne : s.g_exec_ranges ≠ []) :
    (should_log_from_caller e s env_null caller).2.2 =
      some ⟨s.pid, caller, s.g_exec_ranges, c_is_in_exec_range s.g_exec_ranges caller⟩ := by
  have hlen : s.g_exec_ranges.length > 0 := List.length_pos_iff.mpr hne
  have hguard : ¬ (env_null = true ∨ caller = 0) := by simp [hnull, hcaller]
  have hseed : c_should_try_seed s = false := if_pos hlen
  have hhas : c_has_exec_ranges s = true := decide_eq_true hlen
  unfold should_log_from_caller
  rw [if_neg hguard, hself]
  simp [hseed, hhas]

theorem Proc.Inv.call (h : s.Inv known p) (hp : known p) (c : Call) :
    (s.call c).1.Inv known p := by
  cases c with
  | set_package_name name => exact h.grow hp (Grows.refl p _)
  | add_exec_range base size =>
    have hg : Grows p s.g_exec_ranges (c_add_exec_range s.pid s.g_exec_ranges base size).2 := by
      rw [h.pid]
      exact c_add_exec_range_grows p s.g_exec_ranges base size
    exact h.grow hp hg
  | reset_seed_attempted => exact h.grow hp (Grows.refl p _)
  | seed_exec_ranges e => exact h.seed hp e
  | should_log e env_null caller =>
    show Proc.Inv known p (should_log_from_caller e s env_null caller).1
    rcases (should_log_from_caller_cases e s env_null caller).1 with heq | heq
    · rw [heq]
      exact h
    · rw [heq]
      exact h.seed hp e

/-- Seeding does not undo a drop. -/
theorem Proc.Dropped.seed (hd : s.Dropped) (e : SeedEnv) :
    (c_seed_exec_ranges_from_maps e s).2.Dropped := by
  obtain ⟨hpid, hseed, hinh, -⟩ := c_seed_exec_ranges_from_maps_spec e s
  unfold Proc.Dropped at hd ⊢
  rw [hinh, hpid, hseed]
  refine hd.imp_right ?_
  rintro ⟨k, hk, hk0, -⟩
  exact ⟨k, hk, hk0, rfl⟩

/-- A process that has dropped what it inherited looks at its own ranges. -/
theorem call_consult_own (h : s.Inv known p) (hp : known p) {c : Call} {v : Consult}
    (hv : (s.call c).2 = some v)
    (hok : ∀ e env_null caller, c = .should_log e env_null caller → env_null = false →
      caller ≠ 0 → c_is_self_addr s caller = false → s.Dropped) :
    ∀ r ∈ v.table, r.Own v.pid := by
  have hinv := h.call hp c
  cases c with
  | set_package_name name => cases hv
  | add_exec_range base size => cases hv
  | reset_seed_attempted => cases hv
  | seed_exec_ranges e => cases hv
  | should_log e env_null caller =>
    obtain ⟨hcase, hlook⟩ := should_log_from_caller_cases e s env_null caller
    obtain ⟨hnull, hcaller, hself, hpid, htable⟩ := hlook v hv
    have hd := hok e env_null caller rfl hnull hcaller hself
    have hd' : (should_log_from_caller e s env_null caller).1.Dropped := by
      rcases hcase with heq | heq
      · rw [heq]
        exact hd
      · rw [heq]
        exact hd.seed e
    have hp' : (should_log_from_caller e s env_null caller).1.pid = p := hinv.pid
    rw [htable, hpid, hp']
    exact hinv.dropped hd'

end Steps

/-! ## Section 7: Runs -/

/-- A look at a table of own ranges is good. -/
theorem good_append {w : World} {procs : Nat → Option Proc} {v : Option Consult} (h : w.Good)
    (hv : ∀ c, v = some c → ∀ r ∈ c.table, r.Own c.pid) :
    World.Good ⟨procs, w.consults ++ v.toList⟩ := by
  intro c hc
  rcases List.mem_append.mp hc with hc | hc
  · exact h c hc
  · have hown := hv c (by simpa using hc)
    refine ⟨fun _ r hr => ?_, hown⟩
    exact hown r (List.mem_of_find?_eq_some hr)

/-- The processes after the one with pid `q` is replaced or created. -/
theorem World.Inv.put {w : World} (h : w.Inv) {q : Nat} {s : Proc}
    (hs : s.Inv (fun t => w.procs t ≠ none) q) {p' : Nat} {s' : Proc}
    (hs' : Function.update w.procs q (some s) p' = some s') :
    s'.Inv (fun t => Function.update w.procs q (some s) t ≠ none) p' := by
  -- a pid in use stays in use
  have hmono : ∀ t, w.procs t ≠ none → Function.update w.procs q (some s) t ≠ none := by
    intro t ht
    by_cases htq : t = q
    · simp [htq]
    · rwa [Function.update_of_ne htq]
  by_cases hpq : p' = q
  · subst hpq
    have heq : some s = some s' := by
      rw [← hs']
      exact (Function.update_self p' (some s) w.procs).symm
    obtain rfl := Option.some.inj heq
    exact known_mono hs hmono
  · have hold : w.procs p' = some s' := by
      rw [← hs']
      exact (Function.update_of_ne hpq (some s) w.procs).symm
    exact known_mono (h.procs p' s' hold) hmono

theorem World.Inv.call {w : World} (h : w.Inv) {p : Nat} {c : Call} (hok : ok w (.call p c)) :
    (world.next w (.call p c)).Inv := by
  cases hs : w.procs p with
  | none =>
    have hnext : world.next w (.call p c) = w := by simp only [world, hs]
    rw [hnext]
    exact h
  | some s =>
    have hnext : world.next w (.call p c) =
        ⟨Function.update w.procs p (some (s.call c).1), w.consults ++ (s.call c).2.toList⟩ := by
      simp only [world, hs]
    have hknown : w.procs p ≠ none := by simp [hs]
    rw [hnext]
    refine ⟨?_, ?_⟩
    · intro p' s' hs'
      exact h.put ((h.procs p s hs).call hknown c) hs'
    · refine good_append h.consults fun v hv => ?_
      refine call_consult_own (h.procs p s hs) hknown hv ?_
      rintro e env_null caller rfl
      exact hok s hs

/-- The new process inherits what is stale for it, unless the table was
    empty. -/
theorem Proc.Inv.fork {known : Nat → Prop} {p q : Nat} {s : Proc} (h : s.Inv known p)
    (hq : ¬ known q) (hq0 : q ≠ 0) : (s.forked q).Inv known q := by
  have hseed : s.g_seed_pid ≠ q := by
    intro heq
    rcases h.seeder with h0 | hk
    · exact hq0 (heq ▸ h0)
    · exact hq (heq ▸ hk)
  refine ⟨rfl, hq0, h.tagged, h.tags, h.seeder, ?_, ?_, ?_⟩
  · intro k hk
    have hkeq : s.g_seed_pid = k := by
      unfold Proc.forked at hk
      dsimp only at hk
      split at hk
      · cases hk
      · exact Option.some.inj hk
    exact ⟨hkeq ▸ hseed, .inl hkeq⟩
  · -- a new pid is not the seeder's, so nothing is dropped but an empty table
    rintro (hnone | ⟨k, -, -, hpid⟩)
    · have hnil : s.g_exec_ranges = [] := by
        by_contra hne
        simp [Proc.forked, hne] at hnone
      intro r hr
      have hr' : r ∈ s.g_exec_ranges := hr
      rw [hnil] at hr'
      exact absurd hr' List.not_mem_nil
    · exact absurd hpid hseed
  · intro hd
    -- any range will do: it was made under a pid in use, and `q` is not one
    have hne : s.g_exec_ranges ≠ [] := by
      intro hnil
      exact hd (.inl (by simp [Proc.forked, hnil]))
    obtain ⟨r, hr⟩ := List.exists_mem_of_ne_nil _ hne
    refine ⟨r, hr, fun hown => ?_⟩
    obtain ⟨t, ht⟩ := List.exists_mem_of_ne_nil _ (h.tagged r hr)
    exact hq (hown t ht ▸ h.tags r hr t ht)

theorem World.Inv.fork {w : World} (h : w.Inv) (p q : Nat) : (world.next w (.fork p q)).Inv := by
  cases hs : w.procs p with
  | none =>
    have hnext : world.next w (.fork p q) = w := by simp only [world, hs]
    rw [hnext]
    exact h
  | some s =>
    cases hq : w.procs q with
    | some s' =>
      have hnext : world.next w (.fork p q) = w := by simp only [world, hs, hq]
      rw [hnext]
      exact h
    | none =>
      by_cases hq0 : q = 0
      · have hnext : world.next w (.fork p q) = w := by simp only [world, hs, hq, if_pos hq0]
        rw [hnext]
        exact h
      · have hnext : world.next w (.fork p q) =
            { w with procs := Function.update w.procs q (some (s.forked q)) } := by
          simp only [world, hs, hq, if_neg hq0]
        have hnew : ¬ w.procs q ≠ none := by simp [hq]
        rw [hnext]
        refine ⟨?_, h.consults⟩
        intro p' s' hs'
        exact h.put ((h.procs p s hs).fork hnew hq0) hs'

theorem World.Inv.next {w : World} (h : w.Inv) {op : Op} (hok : ok w op) :
    (world.next w op).Inv := by
  cases op with
  | call p c => exact h.call hok
  | fork p q => exact h.fork p q

/-- A query before the drop looks at a stale range. -/
theorem not_good_of_not_ok {w : World} (h : w.Inv) {op : Op} (hok : ¬ ok w op) :
    ¬ (world.next w op).Good := by
  cases op with
  | fork p q => exact absurd trivial hok
  | call p c =>
    cases c with
    | set_package_name name => exact absurd trivial hok
    | add_exec_range base size => exact absurd trivial hok
    | reset_seed_attempted => exact absurd trivial hok
    | seed_exec_ranges e => exact absurd trivial hok
    | should_log e env_null caller =>
      unfold ok at hok
      push Not at hok
      obtain ⟨s, hs, hnull, hcaller, hself, hd⟩ := hok
      have hinv := h.procs p s hs
      obtain ⟨r, hr, hown⟩ := hinv.stale hd
      have hlook := should_log_from_caller_consults e hnull hcaller hself (List.ne_nil_of_mem hr)
      intro hgood
      have hmem : (⟨s.pid, caller, s.g_exec_ranges, c_is_in_exec_range s.g_exec_ranges caller⟩ :
          Consult) ∈ (world.next w (.call p (.should_log e env_null caller))).consults := by
        have hnext : (world.next w (.call p (.should_log e env_null caller))).consults =
            w.consults ++ (should_log_from_caller e s env_null caller).2.2.toList := by
          simp only [world, hs, Proc.call]
        rw [hnext, hlook]
        simp
      have hbad := (hgood _ hmem).2 r hr
      rw [hinv.pid] at hbad
      exact hown hbad

theorem World.inv_initial {root : Nat} (hroot : root ≠ 0) (self_base self_end : UInt64) :
    (World.initial root self_base self_end).Inv := by
  refine ⟨?_, fun c hc => absurd hc List.not_mem_nil⟩
  intro p s hs
  by_cases hp : p = root
  · subst hp
    have heq : Function.update (fun _ => none) p (some (Proc.loaded p self_base self_end)) p =
        some s := hs
    rw [Function.update_self] at heq
    obtain rfl := Option.some.inj heq
    refine ⟨rfl, hroot, ?_, ?_, .inl rfl, ?_, ?_, ?_⟩
    · exact fun r hr => absurd hr List.not_mem_nil
    · exact fun r hr => absurd hr List.not_mem_nil
    · exact fun k hk => nomatch hk
    · exact fun _ r hr => absurd hr List.not_mem_nil
    · exact fun hd => absurd (.inl rfl) hd
  · have heq : Function.update (fun _ => none) root (some (Proc.loaded root self_base self_end)) p =
        some s := hs
    rw [Function.update_of_ne hp] at heq
    cases heq

/-- **Inherited ranges**: along a run of the processes no answer rests on
    a range of another process, and no table with one is looked at,
    exactly when each query past its first checks is made in a process
    that was not forked with ranges, or that was forked after a seeding
    and has seeded since. -/
theorem inherited_ranges_dropped_iff {root : Nat} (hroot : root ≠ 0) (self_base self_end : UInt64)
    (ops : List Op) :
    (∀ w ∈ world.trace (World.initial root self_base self_end) ops, w.Good) ↔
      world.Meets ok (World.initial root self_base self_end) ops :=
  Machine.good_iff_meets (fun _ h => h.consults) (fun _ _ h hok => h.next hok)
    (fun _ _ h hok => not_good_of_not_ok h hok) (World.inv_initial hroot self_base self_end)

/-- A process adds a range, seeds and forks. -/
def seedThenFork : List Op :=
  [.call 1 (.add_exec_range 0x1000 0x100), .call 1 (.seed_exec_ranges ⟨none, none, [], none⟩),
    .fork 1 2]

/-- The child seeds before it asks. -/
def childSeeds : List Op :=
  seedThenFork ++ [.call 2 (.seed_exec_ranges ⟨none, none, [], none⟩),
    .call 2 (.should_log ⟨none, none, [], none⟩ false 0x1010)]

theorem inherited_ranges_dropped_child_seeds :
    world.Meets ok (World.initial 1 0 0) childSeeds ∧
      ∀ w ∈ world.trace (World.initial 1 0 0) childSeeds, w.Good := by
  have hmeets : world.Meets ok (World.initial 1 0 0) childSeeds := by
    refine ⟨trivial, trivial, trivial, trivial, ?_, trivial⟩
    intro s hs _ _ _
    obtain rfl := Option.some.inj hs
    exact .inr ⟨1, rfl, by decide, rfl⟩
  exact ⟨hmeets, (inherited_ranges_dropped_iff (by decide) 0 0 childSeeds).mpr hmeets⟩

/-- A child that asks at once gets its answer from the parent's range. -/
theorem child_answers_from_parent_range :
    ¬ ∀ (root : Nat) (self_base self_end : UInt64) (ops : List Op), root ≠ 0 →
      ∀ w ∈ world.trace (World.initial root self_base self_end) ops, ∀ c ∈ w.consults,
        c.answer = 1 → ∀ r, c.basis = some r → r.Own c.pid := by
  intro h
  have hrun := h 1 0 0 (seedThenFork ++
    [.call 2 (.should_log ⟨none, none, [], none⟩ false 0x1010)]) (by decide) _
    (Machine.exec_mem_trace world _ _)
  have hconsults : (world.exec (World.initial 1 0 0) (seedThenFork ++
      [.call 2 (.should_log ⟨none, none, [], none⟩ false 0x1010)])).consults =
        [⟨2, 0x1010, [⟨0x1000, 0x1100, [1]⟩], 1⟩] := by
    decide +kernel
  rw [hconsults] at hrun
  have hown := hrun _ List.mem_cons_self rfl ⟨0x1000, 0x1100, [1]⟩ (by decide)
  exact absurd (hown 1 (by decide)) (by decide)

end JniLog.RangeSet
