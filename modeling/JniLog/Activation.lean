import JniLog.Once

/-! # Going live

    Model of how the hooks come up: `init_once_handler`,
    `try_install_hooks`, `hooked_vm_GetEnv` and the entry points of
    `main.c`, with `bridge_activate_go` of `bridge.c` and `goBridgeInit`
    of `init.go`, run by any number of threads.

    * A thread has a list of tasks: what is left of the functions it is
      in. A task that runs under a lock is one step, and so is a call into
      ART or the kernel, whose outcome is part of the step's label.
    * `bridge_activate_go` is `jl_once`, taken step by step from `Once`.
      The tasks of `goBridgeInit` are stages, run by the thread that is in
      the init routine.

    Main results:
    * `hooks_behind_bridge`: no hook is live before the Go side is up.
    * `reader_decided`: when the reader of the event pipe is started, and
      the order of steps in which it never is. -/

namespace JniLog.Activation

/-! ## Section 1: Model -/

/-- A function that a thread is about to run, or the rest of one. -/
inductive Task where
  | init_once_handler
  /-- `maps_find_lib_base` and `elf_find_sym`. -/
  | find_libart
  /-- `bridge_init`. -/
  | event_pipe_init
  | try_install_hooks_from_created_vms
  /-- What `JNI_GetCreatedJavaVMs` does behind `init_once_handler`. -/
  | get_created_vms
  | try_install_hooks
  | bridge_activate_go
  /-- `GetEnv`, and `AttachCurrentThread` when it fails. -/
  | get_env
  | hooked_vm_GetEnv
  | install_jni_hooks
  | install_vm_hooks
  deriving DecidableEq, Repr

/-- Where calls from outside come in. -/
inductive Entry where
  | library_constructor
  | JNI_OnLoad
  | JNI_GetCreatedJavaVMs
  /-- Somebody calls `GetEnv` through the table of the VM. -/
  | GetEnv
  deriving DecidableEq, Repr

def Entry.tasks : Entry → List Task
  | .library_constructor => [.init_once_handler]
  | .JNI_OnLoad => [.init_once_handler, .bridge_activate_go, .try_install_hooks]
  | .JNI_GetCreatedJavaVMs => [.init_once_handler, .get_created_vms]
  | .GetEnv => [.hooked_vm_GetEnv]

/-- What a call into ART or the kernel comes to. -/
inductive Outcome where
  | ok
  /-- There is no env, but the thread could be attached. -/
  | attached
  | failed
  deriving DecidableEq, Repr

/-- What `goBridgeInit` does next. -/
inductive Stage where
  | loadConfig
  /-- The package name and the ranges. -/
  | seed
  | goSetLoggingReady
  | startEventPipeReader
  | done
  deriving DecidableEq, Repr

/-- The static variables of both sides, and the threads. -/
@[ext]
structure State (Thread : Type) where
  todo : Thread → List Task
  g_go_bridge_once : Once.State Thread
  stage : Stage
  g_initialized : Bool
  /-- `original_JNI_GetCreatedJavaVMs != NULL`. -/
  resolved : Bool
  /-- `g_writer_fd >= 0`. -/
  pipe : Bool
  /-- `loadConfig` has run. -/
  config : Bool
  loggingReady : Bool
  /-- What `startEventPipeReader` found, when it has run: whether there is
      a consumer fd. -/
  reader : Option Bool
  /-- `g_jni_hooks_installed`. -/
  jni_hooks : Bool
  /-- The table of the VM is ours. -/
  vm_hooks : Bool

variable {Thread : Type} [DecidableEq Thread]

/-- Thread `t` has these tasks now. -/
def State.set (s : State Thread) (t : Thread) (todo : List Task) : State Thread :=
  { s with todo := Function.update s.todo t todo }

/-- `goBridgeInit`, one stage. -/
def State.goBridgeInit (s : State Thread) : State Thread :=
  match s.stage with
  | .loadConfig => { s with config := true, stage := .seed }
  | .seed => { s with stage := .goSetLoggingReady }
  | .goSetLoggingReady => { s with loggingReady := true, stage := .startEventPipeReader }
  | .startEventPipeReader => { s with reader := some s.pipe, stage := .done }
  | .done => s

/-- The functions a task calls, in order. -/
def State.calls (s : State Thread) (task : Task) (outcome : Outcome) : List Task :=
  match task with
  | .init_once_handler =>
    if s.g_initialized then []
    else [.find_libart, .event_pipe_init, .try_install_hooks_from_created_vms]
  | .try_install_hooks_from_created_vms | .get_created_vms =>
    if s.resolved ∧ outcome = .ok then [.try_install_hooks] else []
  | .try_install_hooks => [.bridge_activate_go, .get_env, .install_vm_hooks]
  | .get_env =>
    match outcome with
    | .ok =>
      -- through our table the call installs the hooks itself
      if s.vm_hooks then [.bridge_activate_go, .install_jni_hooks, .install_jni_hooks]
      else [.install_jni_hooks]
    | .attached => [.install_jni_hooks]
    | .failed => []
  | .hooked_vm_GetEnv =>
    if outcome = .ok then [.bridge_activate_go, .install_jni_hooks] else []
  | .find_libart | .event_pipe_init | .bridge_activate_go | .install_jni_hooks
  | .install_vm_hooks => []

/-- What a task does to the static variables. -/
def State.effect (s : State Thread) (task : Task) (outcome : Outcome) : State Thread :=
  match task with
  | .init_once_handler => { s with g_initialized := true }
  | .find_libart => { s with resolved := outcome = .ok }
  | .event_pipe_init => { s with pipe := s.pipe || outcome = .ok }
  | .install_jni_hooks => { s with jni_hooks := s.jni_hooks || outcome = .ok }
  | .install_vm_hooks => { s with vm_hooks := true }
  | .try_install_hooks_from_created_vms | .get_created_vms | .try_install_hooks
  | .bridge_activate_go | .get_env | .hooked_vm_GetEnv => s

/-- Steps. -/
inductive Op (Thread : Type) where
  /-- A thread comes in from outside. -/
  | enter (t : Thread) (entry : Entry)
  /-- A thread runs its next task. -/
  | run (t : Thread) (outcome : Outcome)
  /-- A step of `jl_once` in `bridge_activate_go`. -/
  | once (op : Once.Op Thread)
  /-- The next stage of `goBridgeInit`. -/
  | goBridgeInit (t : Thread)

/-- The tasks of a thread behind a step of `jl_once`: the call is over
    when its place is free again. -/
def afterOnce (op : Once.Op Thread) (todo : List Task) : List Task :=
  match op with
  | .again _ => todo.tail
  | _ => todo

/-- The library from its load on. -/
def activation : System (State Thread) (Op Thread) where
  init s :=
    (∀ t, s.todo t = []) ∧ Once.once.init s.g_go_bridge_once ∧ s.stage = .loadConfig ∧
      s.g_initialized = false ∧ s.resolved = false ∧ s.pipe = false ∧ s.config = false ∧
      s.loggingReady = false ∧ s.reader = none ∧ s.jni_hooks = false ∧ s.vm_hooks = false
  step s op s' :=
    match op with
    | .enter t entry =>
      s.todo t = [] ∧ (entry = .GetEnv → s.vm_hooks = true) ∧ s' = s.set t entry.tasks
    | .run t outcome =>
      ∃ task rest, s.todo t = task :: rest ∧ task ≠ .bridge_activate_go ∧
        s' = (s.effect task outcome).set t (s.calls task outcome ++ rest)
    | .once op =>
      ∃ rest o', s.todo op.thread = .bridge_activate_go :: rest ∧
        Once.once.step s.g_go_bridge_once op o' ∧
        (op = .init_routine op.thread → s.stage = .done) ∧
        s' = { s.set op.thread (afterOnce op (s.todo op.thread)) with g_go_bridge_once := o' }
    | .goBridgeInit t =>
      s.g_go_bridge_once.place t = .running ∧ s.stage ≠ .done ∧ s' = s.goBridgeInit

/-! ## Section 2: Tasks behind tasks -/

/-- Every `guarded` task comes behind a `guard`. -/
def Behind (guard guarded : Task → Prop) : List Task → Prop
  | [] => True
  | task :: rest => guard task ∨ (¬ guarded task ∧ Behind guard guarded rest)

section Behind

variable {guard guarded : Task → Prop} {task : Task} {tasks rest : List Task}

theorem Behind.append (h : Behind guard guarded tasks) (hrest : Behind guard guarded rest) :
    Behind guard guarded (tasks ++ rest) := by
  induction tasks with
  | nil => exact hrest
  | cons task tasks ih => exact h.imp_right (And.imp_right ih)

theorem Behind.tail (h : Behind guard guarded (task :: rest)) (htask : ¬ guard task) :
    ¬ guarded task ∧ Behind guard guarded rest :=
  h.resolve_left htask

end Behind

/-- The tasks that install hooks, with no activation of their own. -/
def Task.Installs (task : Task) : Prop :=
  task = .get_env ∨ task = .install_jni_hooks ∨ task = .install_vm_hooks

instance (task : Task) : Decidable task.Installs :=
  inferInstanceAs (Decidable (_ ∨ _))

/-- Nothing is installed before the bridge is activated. -/
abbrev Activates : List Task → Prop :=
  Behind (· = .bridge_activate_go) Task.Installs

theorem Entry.activates (entry : Entry) : Activates entry.tasks := by
  cases entry <;> simp [Entry.tasks, Behind, Task.Installs]

omit [DecidableEq Thread] in
/-- What a task calls installs nothing before the bridge is activated, if
    the task does not. -/
theorem State.calls_activates (s : State Thread) {task : Task} (outcome : Outcome)
    (h : ¬ task.Installs) : Activates (s.calls task outcome) := by
  cases task with
  | get_env => exact absurd (by decide) h
  | install_jni_hooks => exact absurd (by decide) h
  | install_vm_hooks => exact absurd (by decide) h
  | init_once_handler =>
    simp only [State.calls]
    split <;> simp [Behind, Task.Installs]
  | try_install_hooks_from_created_vms | get_created_vms | hooked_vm_GetEnv =>
    simp only [State.calls]
    split <;> simp [Behind, Task.Installs]
  | find_libart | event_pipe_init | try_install_hooks | bridge_activate_go =>
    simp [State.calls, Behind, Task.Installs]

/-! ## Section 3: The bridge is up first -/

/-- The init routine of `bridge_activate_go` has run. -/
def State.Activated (s : State Thread) : Prop :=
  s.g_go_bridge_once.finished ≠ 0

structure Inv (s : State Thread) : Prop where
  once : Once.once.Reachable s.g_go_bridge_once
  activated : s.Activated → s.stage = .done
  config : s.stage ≠ .loadConfig → s.config = true
  ready : s.stage = .startEventPipeReader ∨ s.stage = .done → s.loggingReady = true
  reader : s.stage = .done ↔ s.reader ≠ none
  tasks : ∀ t, s.Activated ∨ Activates (s.todo t)
  hooks : s.jni_hooks = true ∨ s.vm_hooks = true → s.Activated

section Safety

variable {s s' : State Thread} {op : Op Thread} {t : Thread}

@[simp] theorem set_todo_self {todo : List Task} : (s.set t todo).todo t = todo :=
  Function.update_self _ _ _

theorem set_todo_of_ne {u : Thread} {todo : List Task} (h : u ≠ t) :
    (s.set t todo).todo u = s.todo u :=
  Function.update_of_ne h _ _

theorem set_forall {P : List Task → Prop} {todo : List Task} (h : ∀ u, P (s.todo u)) (hp : P todo)
    (u : Thread) : P ((s.set t todo).todo u) := by
  by_cases hu : u = t
  · subst hu
    rwa [set_todo_self]
  · rw [set_todo_of_ne hu]
    exact h u

/-- A thread gets other tasks, and nothing else changes. -/
theorem Inv.set (h : Inv s) {todo : List Task} (htodo : s.Activated ∨ Activates todo) :
    Inv (s.set t todo) where
  once := h.once
  activated := h.activated
  config := h.config
  ready := h.ready
  reader := h.reader
  tasks := set_forall (P := fun todo => s.Activated ∨ Activates todo) h.tasks htodo
  hooks := h.hooks

/-- What a task does keeps the invariant, when one that installs hooks
    runs behind the activation. -/
theorem Inv.effect (h : Inv s) {task : Task} (outcome : Outcome)
    (htask : s.Activated ∨ ¬ task.Installs) : Inv (s.effect task outcome) := by
  have hinstalls : task.Installs → s.Activated := fun hi => htask.resolve_right (not_not.mpr hi)
  cases task with
  | install_jni_hooks =>
    exact ⟨h.once, h.activated, h.config, h.ready, h.reader, h.tasks,
      fun _ => hinstalls (by decide)⟩
  | install_vm_hooks =>
    exact ⟨h.once, h.activated, h.config, h.ready, h.reader, h.tasks,
      fun _ => hinstalls (by decide)⟩
  | init_once_handler | find_libart | event_pipe_init =>
    exact ⟨h.once, h.activated, h.config, h.ready, h.reader, h.tasks, h.hooks⟩
  | try_install_hooks_from_created_vms | get_created_vms | try_install_hooks
  | bridge_activate_go | get_env | hooked_vm_GetEnv => exact h

omit [DecidableEq Thread] in
theorem effect_activated (task : Task) (outcome : Outcome) :
    (s.effect task outcome).Activated ↔ s.Activated := by
  cases task <;> exact Iff.rfl

/-- **Step lemma**: a task is run. -/
theorem Inv.run (h : Inv s) {task : Task} {rest : List Task} (outcome : Outcome)
    (htodo : s.todo t = task :: rest) (htask : task ≠ .bridge_activate_go) :
    Inv ((s.effect task outcome).set t (s.calls task outcome ++ rest)) := by
  have htasks := h.tasks t
  rw [htodo] at htasks
  have hsplit : s.Activated ∨ (¬ task.Installs ∧ Activates rest) :=
    htasks.imp_right fun hb => hb.tail htask
  refine (h.effect outcome (hsplit.imp_right And.left)).set ?_
  rw [effect_activated]
  refine hsplit.imp_right ?_
  rintro ⟨hinstalls, hrest⟩
  exact (s.calls_activates outcome hinstalls).append hrest

/-- **Step lemma**: a step of `jl_once`. -/
theorem Inv.once_step (h : Inv s) {op : Once.Op Thread} {rest : List Task}
    {o' : Once.State Thread} (htodo : s.todo op.thread = .bridge_activate_go :: rest)
    (hs : Once.once.step s.g_go_bridge_once op o')
    (hinit : op = .init_routine op.thread → s.stage = .done) :
    Inv { s.set op.thread (afterOnce op (s.todo op.thread)) with g_go_bridge_once := o' } := by
  obtain ⟨hle, hnew⟩ := Once.finished_step hs
  have hkeep : s.Activated → o'.finished ≠ 0 := by
    intro hact hzero
    rw [hzero] at hle
    exact hact (Nat.le_zero.mp hle)
  refine ⟨h.once.step trivial hs, ?_, h.config, h.ready, h.reader, ?_, fun hh => hkeep (h.hooks hh)⟩
  · intro hfin
    by_cases heq : o'.finished = s.g_go_bridge_once.finished
    · exact h.activated fun hzero => hfin (heq.trans hzero)
    · exact hinit (hnew heq)
  · refine set_forall (P := fun todo => o'.finished ≠ 0 ∨ Activates todo)
      (fun u => (h.tasks u).imp_left hkeep) ?_
    have hmine := (h.tasks op.thread).imp_left hkeep
    cases op with
    | again t =>
      -- the call of `jl_once` is over: the init routine has run
      have hone := (Once.once_sound h.once).2.1 t hs.1
      exact .inl (hkeep (by rw [State.Activated, hone]; decide))
    | enter t | compare_exchange t | init_routine t | store t | futex_wake t | load t
    | futex_wait t | wake_up t => exact hmine

/-- **Step lemma**: a stage of `goBridgeInit`. -/
theorem Inv.goBridgeInit (h : Inv s) (hstage : s.stage ≠ .done) : Inv s.goBridgeInit := by
  have hnot : ¬ s.Activated := fun hact => hstage (h.activated hact)
  have hnone : s.reader = none := by
    by_contra hne
    exact hstage (h.reader.mpr hne)
  unfold State.goBridgeInit
  cases hs : s.stage with
  | loadConfig =>
    exact ⟨h.once, fun hact => absurd hact hnot, fun _ => rfl, by simp, by simp [hnone], h.tasks,
      h.hooks⟩
  | seed =>
    exact ⟨h.once, fun hact => absurd hact hnot, fun _ => h.config (by simp [hs]), by simp,
      by simp [hnone], h.tasks, h.hooks⟩
  | goSetLoggingReady =>
    exact ⟨h.once, fun hact => absurd hact hnot, fun _ => h.config (by simp [hs]), fun _ => rfl,
      by simp [hnone], h.tasks, h.hooks⟩
  | startEventPipeReader =>
    exact ⟨h.once, fun _ => rfl, fun _ => h.config (by simp [hs]), fun _ => h.ready (.inl hs),
      by simp, h.tasks, h.hooks⟩
  | done => exact absurd hs hstage

/-- **Step lemma**: the invariant is preserved. -/
theorem Inv.step (h : Inv s) (hs : activation.step s op s') : Inv s' := by
  cases op with
  | enter t entry =>
    obtain ⟨-, -, rfl⟩ := hs
    exact h.set (.inr entry.activates)
  | run t outcome =>
    obtain ⟨task, rest, htodo, htask, rfl⟩ := hs
    exact h.run outcome htodo htask
  | once op =>
    obtain ⟨rest, o', htodo, hstep, hinit, rfl⟩ := hs
    exact h.once_step htodo hstep hinit
  | goBridgeInit t =>
    obtain ⟨-, hstage, rfl⟩ := hs
    exact h.goBridgeInit hstage

theorem inv_initial (h : activation.init s) : Inv s := by
  obtain ⟨htodo, honce, hstage, -, -, -, -, -, hreader, hjni, hvm⟩ := h
  refine ⟨.init honce, ?_, ?_, ?_, ?_, ?_, ?_⟩
  · intro hact
    exact absurd honce.2.2.2 hact
  · intro hne
    exact absurd hstage hne
  · rw [hstage]
    exact fun h => absurd h (by decide)
  · rw [hstage, hreader]
    decide
  · intro t
    rw [htodo t]
    exact .inr trivial
  · rw [hjni, hvm]
    exact fun h => absurd h (by decide)

theorem reachable_inv (h : activation.Reachable s) : Inv s :=
  System.Reachable.invariant (fun _ => inv_initial) (fun _ _ _ => Inv.step) h

/-- **No hook is live before the Go side is up.** In every interleaving
    of any number of threads that come in through the constructor, the two
    exports or the hooked `GetEnv`: the Go side is initialized at most
    once, and while the JNI hooks or the hooked table of the VM are in
    place, the configuration is loaded, logging is ready and the reader
    has been decided on. -/
theorem hooks_behind_bridge (h : activation.Reachable s) :
    s.g_go_bridge_once.started ≤ 1 ∧
    (s.jni_hooks = true ∨ s.vm_hooks = true →
      s.config = true ∧ s.loggingReady = true ∧ s.reader ≠ none) := by
  have hinv := reachable_inv h
  refine ⟨(Once.once_sound hinv.once).1, ?_⟩
  intro hh
  have hdone := hinv.activated (hinv.hooks hh)
  exact ⟨hinv.config (by rw [hdone]; decide), hinv.ready (.inr hdone), hinv.reader.mp hdone⟩

end Safety

/-! ## Section 4: The reader -/

/-- Nobody leaves `init_once_handler` early while the event pipe is not
    there, and the pipe can be made. -/
def InOrder (s : State Thread) (op : Op Thread) : Prop :=
  match op with
  | .run t outcome =>
    ((s.todo t).head? = some .init_once_handler ∧ s.g_initialized = true → s.pipe = true) ∧
      ((s.todo t).head? = some .event_pipe_init → outcome = .ok)
  | _ => True

/-- The tasks behind which the pipe is there. -/
def Task.Opens (task : Task) : Prop :=
  task = .init_once_handler ∨ task = .event_pipe_init

instance (task : Task) : Decidable task.Opens :=
  inferInstanceAs (Decidable (_ ∨ _))

/-- Only the search for libart comes before the pipe is there. -/
abbrev Opened : List Task → Prop :=
  Behind Task.Opens (· ≠ .find_libart)

structure Ordered (s : State Thread) : Prop extends Inv s where
  opened : ∀ t, s.pipe = true ∨ Opened (s.todo t)
  calls : ∀ t, s.g_go_bridge_once.place t ≠ .outside → (s.todo t).head? = some .bridge_activate_go
  pipe : s.Activated → s.pipe = true
  reads : s.reader ≠ some false

section Reader

variable {s s' : State Thread} {op : Op Thread} {t : Thread}

/-- A thread in the call has the pipe. -/
theorem Ordered.pipe_of_place (h : Ordered s) (ht : s.g_go_bridge_once.place t ≠ .outside) :
    s.pipe = true := by
  refine (h.opened t).resolve_right fun hopened => ?_
  obtain ⟨rest, htodo⟩ := List.head?_eq_some_iff.mp (h.calls t ht)
  rw [htodo] at hopened
  exact (hopened.tail (by decide)).1 (by decide)

/-- A thread outside of the call gets other tasks. -/
theorem Ordered.set (h : Ordered s) {todo : List Task} (hinv : Inv (s.set t todo))
    (hout : s.g_go_bridge_once.place t = .outside) (htodo : s.pipe = true ∨ Opened todo) :
    Ordered (s.set t todo) where
  toInv := hinv
  opened := set_forall (P := fun todo => s.pipe = true ∨ Opened todo) h.opened htodo
  calls u hu := by
    have hne : u ≠ t := by
      rintro rfl
      exact hu hout
    rw [set_todo_of_ne hne]
    exact h.calls u hu
  pipe := h.pipe
  reads := h.reads

omit [DecidableEq Thread] in
theorem effect_pipe {task : Task} {outcome : Outcome} (h : s.pipe = true) :
    (s.effect task outcome).pipe = true := by
  cases task <;> simp [State.effect, h]

/-- **Step lemma**: a task is run in order. -/
theorem Ordered.run (h : Ordered s) {task : Task} {rest : List Task} {outcome : Outcome}
    (htodo : s.todo t = task :: rest) (htask : task ≠ .bridge_activate_go)
    (hok : InOrder s (.run t outcome)) :
    Ordered ((s.effect task outcome).set t (s.calls task outcome ++ rest)) := by
  have hinv := h.toInv.run outcome htodo htask
  have hout : s.g_go_bridge_once.place t = .outside := by
    by_contra hne
    have hhead := h.calls t hne
    rw [htodo] at hhead
    exact htask (Option.some.inj hhead)
  simp only [InOrder, htodo, List.head?_cons, Option.some.injEq] at hok
  have heffect : Ordered (s.effect task outcome) := by
    refine ⟨?_, ?_, ?_, ?_, ?_⟩
    · exact h.toInv.effect outcome <| (h.tasks t).imp_right fun hb => by
        rw [htodo] at hb
        exact (hb.tail htask).1
    · intro u
      refine (h.opened u).imp effect_pipe ?_
      cases task <;> exact id
    · cases task <;> exact h.calls
    · intro hact
      exact effect_pipe (h.pipe ((effect_activated task outcome).mp hact))
    · cases task <;> exact h.reads
  refine heffect.set hinv (by cases task <;> exact hout) ?_
  rcases h.opened t with hpipe | hopened
  · exact .inl (effect_pipe hpipe)
  · rw [htodo] at hopened
    cases task with
    | init_once_handler =>
      by_cases hdone : s.g_initialized = true
      · exact .inl (effect_pipe (hok.1 ⟨rfl, hdone⟩))
      · -- the thread makes the pipe itself
        refine .inr ?_
        simp [State.calls, hdone, Behind, Task.Opens]
    | event_pipe_init =>
      refine .inl ?_
      simp [State.effect, hok.2 rfl]
    | find_libart => exact .inr (hopened.resolve_left (by decide)).2
    | try_install_hooks_from_created_vms | get_created_vms | try_install_hooks
    | bridge_activate_go | get_env | hooked_vm_GetEnv | install_jni_hooks | install_vm_hooks =>
      exact absurd (by decide) (hopened.tail (by decide)).1

/-- **Step lemma**: a step of `jl_once`. -/
theorem Ordered.once_step (h : Ordered s) {op : Once.Op Thread} {rest : List Task}
    {o' : Once.State Thread} (htodo : s.todo op.thread = .bridge_activate_go :: rest)
    (hs : Once.once.step s.g_go_bridge_once op o')
    (hinit : op = .init_routine op.thread → s.stage = .done) :
    Ordered { s.set op.thread (afterOnce op (s.todo op.thread)) with g_go_bridge_once := o' } := by
  have hpipe : s.pipe = true := by
    refine (h.opened op.thread).resolve_right fun hopened => ?_
    rw [htodo] at hopened
    exact (hopened.tail (by decide)).1 (by decide)
  refine ⟨h.toInv.once_step htodo hs hinit, fun _ => .inl hpipe, ?_, fun _ => hpipe, h.reads⟩
  intro u hu
  by_cases hne : u = op.thread
  · subst hne
    cases op with
    | again t =>
      obtain ⟨-, rfl⟩ := hs
      exact absurd Once.move_place_self hu
    | enter t | compare_exchange t | init_routine t | store t | futex_wake t | load t
    | futex_wait t | wake_up t =>
      simp only [set_todo_self, afterOnce, htodo, List.head?_cons]
  · simp only [set_todo_of_ne hne]
    exact h.calls u (Once.place_step hs hne hu)

/-- **Step lemma**: a stage of `goBridgeInit`. -/
theorem Ordered.goBridgeInit (h : Ordered s) (ht : s.g_go_bridge_once.place t = .running)
    (hstage : s.stage ≠ .done) : Ordered s.goBridgeInit := by
  have hpipe : s.pipe = true := h.pipe_of_place (t := t) (by rw [ht]; decide)
  have hinv := h.toInv.goBridgeInit hstage
  unfold State.goBridgeInit at hinv ⊢
  cases hs : s.stage with
  | startEventPipeReader =>
    rw [hs] at hinv
    exact ⟨hinv, fun _ => .inl hpipe, h.calls, fun _ => hpipe, by simp [hpipe]⟩
  | loadConfig | seed | goSetLoggingReady | done =>
    rw [hs] at hinv
    exact ⟨hinv, fun _ => .inl hpipe, h.calls, fun _ => hpipe, h.reads⟩

/-- **Step lemma**: steps in order. -/
theorem Ordered.step (h : Ordered s) (hok : InOrder s op) (hs : activation.step s op s') :
    Ordered s' := by
  cases op with
  | enter t entry =>
    have hstep : Inv s' := h.toInv.step hs
    obtain ⟨hidle, hvm, rfl⟩ := hs
    refine h.set hstep ?_ ?_
    · by_contra hne
      have hhead := h.calls t hne
      rw [hidle] at hhead
      exact absurd hhead nofun
    · cases entry with
      | GetEnv => exact .inl (h.pipe (h.hooks (.inr (hvm rfl))))
      | library_constructor | JNI_OnLoad | JNI_GetCreatedJavaVMs => exact .inr (.inl (.inl rfl))
  | run t outcome =>
    obtain ⟨task, rest, htodo, htask, rfl⟩ := hs
    exact h.run htodo htask hok
  | once op =>
    obtain ⟨rest, o', htodo, hstep, hinit, rfl⟩ := hs
    exact h.once_step htodo hstep hinit
  | goBridgeInit t =>
    obtain ⟨ht, hstage, rfl⟩ := hs
    exact h.goBridgeInit ht hstage

theorem ordered_initial (h : activation.init s) : Ordered s := by
  have hinv := inv_initial h
  obtain ⟨htodo, honce, -, -, -, -, -, -, hreader, -, -⟩ := h
  refine ⟨hinv, ?_, ?_, ?_, ?_⟩
  · intro t
    rw [htodo t]
    exact .inr trivial
  · intro t ht
    exact absurd (honce.2.1 t) ht
  · intro hact
    exact absurd honce.2.2.2 hact
  · rw [hreader]
    exact nofun

theorem reachable_ordered (h : activation.ReachableBy InOrder s) : Ordered s :=
  System.ReachableBy.invariant (fun _ => ordered_initial) (fun _ _ _ h hok => h.step hok) h

/-- What was found when the reader was to be started is final. -/
theorem reader_stays {found : Bool} (h : activation.Reachable s) (hreader : s.reader = some found)
    (hs : activation.Leads s s') : s'.reader = some found := by
  have hkept : ∀ (s : State Thread) op s', (Inv s ∧ s.reader = some found) →
      activation.step s op s' → Inv s' ∧ s'.reader = some found := by
    rintro s op s' ⟨hinv, hfound⟩ hstep
    refine ⟨hinv.step hstep, ?_⟩
    cases op with
    | enter t entry =>
      obtain ⟨-, -, rfl⟩ := hstep
      exact hfound
    | run t outcome =>
      obtain ⟨task, rest, -, -, rfl⟩ := hstep
      cases task <;> exact hfound
    | once op =>
      obtain ⟨rest, o', -, -, -, rfl⟩ := hstep
      exact hfound
    | goBridgeInit t =>
      obtain ⟨-, hstage, -⟩ := hstep
      exact absurd (hinv.reader.mpr (by rw [hfound]; exact nofun)) hstage
  exact (hs.invariant hkept ⟨reachable_inv h, hreader⟩).2

/-- Thread 1 is behind `init_once_handler` in `JNI_OnLoad`. Thread 0 has
    called it first and has these tasks left. -/
def loaded (pipe : Bool) (todo : List Task) : State Nat where
  todo t := match t with
    | 0 => todo
    | 1 => [.bridge_activate_go, .try_install_hooks]
    | _ => []
  g_go_bridge_once := ⟨0, fun _ => .outside, 0, 0⟩
  stage := .loadConfig
  g_initialized := true
  resolved := pipe
  pipe := pipe
  config := false
  loggingReady := false
  reader := none
  jni_hooks := false
  vm_hooks := false

/-- From there thread 1 goes on alone until its hooks are live. -/
theorem live_of_loaded {ok : State Nat → Op Nat → Prop} (hok : ∀ s op, InOrder s op → ok s op)
    {pipe : Bool} {todo : List Task} (h : activation.ReachableBy ok (loaded pipe todo)) :
    ∃ s, activation.ReachableBy ok s ∧ s.todo 0 = todo ∧ s.jni_hooks = true ∧
      s.pipe = pipe ∧ s.resolved = pipe ∧ s.reader = some pipe := by
  have honce : ∀ (s : State Nat) (op : Once.Op Nat), ok s (.once op) := fun s op => hok s _ trivial
  have hgo : ∀ (s : State Nat), ok s (.goBridgeInit 1) := fun s => hok s _ trivial
  have hrun : ∀ {s : State Nat} (task : Task), (s.todo 1).head? = some task → ¬ task.Opens →
      ok s (.run 1 .ok) := by
    intro s task hhead hopens
    refine hok s _ ⟨?_, fun _ => rfl⟩
    rintro ⟨hinit, -⟩
    rw [hhead] at hinit
    exact absurd (.inl (Option.some.inj hinit)) hopens
  have hentered := h.step (honce _ (.enter 1)) ⟨_, _, rfl, ⟨rfl, rfl⟩, nofun, rfl⟩
  have hwon := hentered.step (honce _ (.compare_exchange 1)) ⟨_, _, rfl, ⟨rfl, rfl⟩, nofun, rfl⟩
  have hconfig := hwon.step (hgo _) ⟨rfl, nofun, rfl⟩
  have hseeded := hconfig.step (hgo _) ⟨rfl, nofun, rfl⟩
  have hready := hseeded.step (hgo _) ⟨rfl, nofun, rfl⟩
  have hreader := hready.step (hgo _) ⟨rfl, nofun, rfl⟩
  have hran := hreader.step (honce _ (.init_routine 1)) ⟨_, _, rfl, ⟨rfl, rfl⟩, fun _ => rfl, rfl⟩
  have hstored := hran.step (honce _ (.store 1)) ⟨_, _, rfl, ⟨rfl, rfl⟩, nofun, rfl⟩
  have hwoke := hstored.step (honce _ (.futex_wake 1)) ⟨_, _, rfl, ⟨rfl, rfl⟩, nofun, rfl⟩
  have hactive := hwoke.step (honce _ (.again 1)) ⟨_, _, rfl, ⟨rfl, rfl⟩, nofun, rfl⟩
  have hinstall := hactive.step (hrun .try_install_hooks rfl (by decide))
    ⟨_, _, rfl, nofun, rfl⟩
  have hagain := hinstall.step (honce _ (.enter 1)) ⟨_, _, rfl, ⟨rfl, rfl⟩, nofun, rfl⟩
  have hstill := hagain.step (honce _ (.again 1)) ⟨_, _, rfl, ⟨rfl, rfl⟩, nofun, rfl⟩
  have henv := hstill.step (hrun .get_env rfl (by decide)) ⟨_, _, rfl, nofun, rfl⟩
  have hlive := henv.step (hrun .install_jni_hooks rfl (by decide)) ⟨_, _, rfl, nofun, rfl⟩
  exact ⟨_, hlive, rfl, rfl, rfl, rfl, rfl⟩

/-- The library is loaded, and nobody has come in. -/
def idle : State Nat where
  todo _ := []
  g_go_bridge_once := ⟨0, fun _ => .outside, 0, 0⟩
  stage := .loadConfig
  g_initialized := false
  resolved := false
  pipe := false
  config := false
  loggingReady := false
  reader := none
  jni_hooks := false
  vm_hooks := false

theorem init_idle : activation.init idle :=
  ⟨fun _ => rfl, ⟨rfl, fun _ => rfl, rfl, rfl⟩, rfl, rfl, rfl, rfl, rfl, rfl, rfl, rfl, rfl⟩

/-- Thread 1 leaves `init_once_handler` while thread 0 is still in it. -/
theorem reachable_loaded_early :
    activation.Reachable
      (loaded false [.find_libart, .event_pipe_init, .try_install_hooks_from_created_vms]) := by
  have hidle : activation.Reachable idle := .init init_idle
  have hfirst := hidle.step (l := Op.enter 0 .library_constructor) trivial ⟨rfl, nofun, rfl⟩
  have hinside := hfirst.step (l := Op.run 0 .ok) trivial ⟨_, _, rfl, nofun, rfl⟩
  have hsecond := hinside.step (l := Op.enter 1 .JNI_OnLoad) trivial ⟨rfl, nofun, rfl⟩
  refine hsecond.step (l := Op.run 1 .ok) trivial ⟨_, _, rfl, nofun, ?_⟩
  refine State.ext (funext ?_) rfl rfl rfl rfl rfl rfl rfl rfl rfl rfl
  rintro (_ | _ | t) <;> rfl

/-- Thread 1 comes in when thread 0 is behind `init_once_handler`. -/
theorem reachable_loaded_late : activation.ReachableBy InOrder (loaded true []) := by
  have hidle : activation.ReachableBy InOrder idle := .init init_idle
  have hfirst := hidle.step (l := Op.enter 0 .library_constructor) trivial ⟨rfl, nofun, rfl⟩
  have hinside := hfirst.step (l := Op.run 0 .ok) ⟨nofun, nofun⟩ ⟨_, _, rfl, nofun, rfl⟩
  have hlibart := hinside.step (l := Op.run 0 .ok) ⟨nofun, nofun⟩ ⟨_, _, rfl, nofun, rfl⟩
  have hpipe := hlibart.step (l := Op.run 0 .ok) ⟨nofun, fun _ => rfl⟩ ⟨_, _, rfl, nofun, rfl⟩
  have hbehind := hpipe.step (l := Op.run 0 .failed) ⟨nofun, nofun⟩ ⟨_, _, rfl, nofun, rfl⟩
  have hsecond := hbehind.step (l := Op.enter 1 .JNI_OnLoad) trivial ⟨rfl, nofun, rfl⟩
  refine hsecond.step (l := Op.run 1 .ok) ⟨fun _ => rfl, nofun⟩ ⟨_, _, rfl, nofun, ?_⟩
  refine State.ext (funext ?_) rfl rfl rfl rfl rfl rfl rfl rfl rfl rfl
  rintro (_ | _ | t) <;> rfl

theorem hooks_behind_bridge_live :
    ∃ s : State Nat, s.jni_hooks = true ∧ s.g_go_bridge_once.started ≤ 1 ∧
      s.config = true ∧ s.loggingReady = true ∧ s.reader ≠ none := by
  obtain ⟨s, hs, -, hlive, -⟩ := live_of_loaded (fun _ _ _ => trivial) reachable_loaded_early
  have hbehind := hooks_behind_bridge hs
  exact ⟨s, hlive, hbehind.1, hbehind.2 (.inl hlive)⟩

/-- **The reader.** When nobody leaves `init_once_handler` while the thread
    that runs it has yet to make the event pipe, and the pipe can be made,
    the reader runs whenever hooks are live. Otherwise the pipe may come
    too late: there is a run after which the hooks are live and the pipe
    is there, and in no continuation does anybody ever read it. -/
theorem reader_decided :
    (∀ s : State Nat, activation.ReachableBy InOrder s →
      s.jni_hooks = true ∨ s.vm_hooks = true → s.reader = some true) ∧
    ∃ s : State Nat, activation.Reachable s ∧ s.jni_hooks = true ∧ s.pipe = true ∧
      ∀ s', activation.Leads s s' → s'.reader = some false := by
  constructor
  · intro s hs hh
    have hordered := reachable_ordered hs
    have hsome := hordered.reader.mp (hordered.activated (hordered.hooks hh))
    have hreads := hordered.reads
    match hreader : s.reader with
    | none => exact absurd hreader hsome
    | some false => exact absurd hreader hreads
    | some true => rfl
  · obtain ⟨s, hs, htodo, hlive, -, -, hreader⟩ :=
      live_of_loaded (fun _ _ _ => trivial) reachable_loaded_early
    -- thread 0 goes on with the pipe
    have hlibart := hs.step (l := Op.run 0 .ok) trivial ⟨_, _, htodo, nofun, rfl⟩
    have hpipe := hlibart.step (l := Op.run 0 .ok) trivial
      ⟨.event_pipe_init, [.try_install_hooks_from_created_vms], by simp [State.calls], nofun, rfl⟩
    refine ⟨_, hpipe, hlive, ?_, ?_⟩
    · simp [State.effect, State.set]
    · intro s' hs'
      exact reader_stays hpipe hreader hs'

theorem reader_decided_live :
    ∃ s : State Nat, activation.ReachableBy InOrder s ∧ s.jni_hooks = true ∧
      s.reader = some true := by
  obtain ⟨s, hs, -, hlive, -⟩ := live_of_loaded (fun _ _ h => h) reachable_loaded_late
  exact ⟨s, hs, hlive, reader_decided.1 s hs (.inl hlive)⟩

end Reader

end JniLog.Activation
