import AnanicyRs.Daemon.CgroupCreation
import AnanicyRs.Daemon.WorkLoop
import AnanicyRs.Platform.Linux

/-!
Contract: the running daemon on Linux, from a received process to the kernel.

Owns the runs of `Daemon.WorkLoop` over the platform of `Platform.Linux`, with the creation of
cgroups among their events. A reload puts its rules in force before it creates their cgroups,
so messages may come between the two.

Two results say what such a run does to the machine. `run_touches` accounts for every call
that changes a task and for everything that is done to the cgroup file system: the processes
that were received, the signal thread itself and the cgroups that rules in force declare are
all the daemon has its hands on. `run_keeps_cgroups` says that a cgroup, once made, serves
every later process.

The creation of the cgroups is taken as a whole, and the manager is the one that was built at
the start. There are no events after a panic.
-/

set_option autoImplicit false

namespace AnanicyRs.Daemon.OnLinux

open AnanicyRs.Core
open AnanicyRs.Lib
open AnanicyRs.Lib.CallLog
open AnanicyRs.Lib.FileSystem
open AnanicyRs.Lib.StateInvariant
open AnanicyRs.Lib.UnixPath
open AnanicyRs.Platform (Errno)
open AnanicyRs.Platform.Cgroup (CgroupManager Protected controlFile_clean ownership protected_file
  resolveTargetDir)
open AnanicyRs.Platform.Linux hiding State
open AnanicyRs.Daemon.WorkLoop (Aims Lists Parts State aims_step host_step_maintains)

variable {τ ρ κ : Type}

/-! ## Runs -/

inductive Event where
  | loop (event : WorkLoop.Event)
  | createCgroups (order : IterationOrder)

/-- The events of the worker and the signal thread, but for the creation of cgroups. -/
def loopEvents (events : List Event) : List WorkLoop.Event :=
  events.filterMap fun
    | .loop event => some event
    | .createCgroups _ => none

def messages (events : List Event) : List Process := WorkLoop.messages (loopEvents events)

/-- Everything of the daemon that does not change while it runs. -/
structure Fixed (τ ρ κ : Type) where
  worker : Worker
  crates : Crates ρ κ
  setup : Setup
  calls : Calls τ
  signalThread : Int32
  benchmarkCount : Option Nat

/-- The platform, beside the log of its deeds. -/
abbrev Host (τ : Type) := Platform.Linux.State (τ × Log Deed Errno)

abbrev LoggedHost (τ : Type) := Host τ × Log Setter PlatformError

namespace Fixed

variable (daemon : Fixed τ ρ κ)

def parts : Parts (Host τ) ρ κ where
  worker := daemon.worker
  crates := daemon.crates
  platform := Platform.Linux.platform daemon.setup daemon.calls.logged
  probe := onKernel (testLatniceSupport daemon.calls.logged daemon.signalThread)
  benchmarkCount := daemon.benchmarkCount

/-- `create_cgroups` on the rules in force. -/
def createCgroups (order : IterationOrder) (state : State (LoggedHost τ) ρ κ) :
    State (LoggedHost τ) ρ κ :=
  { state with
    host := ({ state.host.1 with
      world := Daemon.createCgroups daemon.setup.manager daemon.setup.machine order
        state.running.rules.cgroups state.host.1.world }, state.host.2) }

def step (event : Event) (state : State (LoggedHost τ) ρ κ) : State (LoggedHost τ) ρ κ :=
  if state.host.1.aborted then state
  else
    match event with
    | .loop event => daemon.parts.logged.step event state
    | .createCgroups order => daemon.createCgroups order state

def run (events : List Event) (state : State (LoggedHost τ) ρ κ) : State (LoggedHost τ) ρ κ :=
  events.foldl (fun now event => daemon.step event now) state

end Fixed

/-- A started daemon that has done nothing yet. -/
def started (running : Running ρ κ) (kernel : τ) (fs : Fs) : State (LoggedHost τ) ρ κ :=
  .started running (⟨(kernel, []), ⟨fs, []⟩, false⟩, [])

/-! ## What a run may touch -/

section Touches

variable (daemon : Fixed τ ρ κ)

/-- The process itself, or a thread that its `/proc/<pid>/task` listed. -/
def IsTask (received : Process) (task : Int32) : Prop :=
  task = received.pid ∨ ∃ kernel names,
    (daemon.calls.taskNames received.pid kernel).1 = .ok names ∧
      task ∈ names.filterMap Text.parseI32

/-- What is done to the cgroup file system for a process: it is moved, or the cgroup that it
is in is given a weight. -/
def DoneFor (received : Process) (effect : Effect) : Prop :=
  (∃ cgroupName, Asked daemon.setup daemon.calls (.addPidToCgroup received.pid cgroupName) effect) ∨
    ∃ weight, Asked daemon.setup daemon.calls (.setCpuWeight received.pid weight) effect

/-- A cgroup of a rule in force is created. -/
def DeclaredIn (state : State (LoggedHost τ) ρ κ) (effect : Effect) : Prop :=
  ∃ name ∈ state.running.rules.cgroups, Creates daemon.setup.manager name effect

/-- The cgroups of the rules in force at some point of the run were created then. -/
def MadeBy (events : List Event) (start : State (LoggedHost τ) ρ κ) (effect : Effect) : Prop :=
  ∃ before order after, events = before ++ .createCgroups order :: after ∧
    DeclaredIn daemon (daemon.run before start) effect

/-- Every deed is one of a probe or serves a request, and so does every effect that is not
accounted for otherwise. -/
def Traces (probing : Prop) (made : Effect → Prop) (condition : Fs → Prop) (host : LoggedHost τ) :
    Prop :=
  Done (Allowed fun deed => probing ∧ IsProbe daemon.signalThread deed ∨
      ∃ request ∈ host.2, Serves request.1 deed)
    (fun effect =>
      made effect ∨ ∃ request ∈ host.2, Asked daemon.setup daemon.calls request.1 effect)
    condition host.1

variable {daemon} {probing : Prop} {made : Effect → Prop} {condition : Fs → Prop}

/-- Every answer of the platform leaves an account of what was done. -/
theorem traces_keeps (kept : KeptByDirs condition) :
    daemon.parts.logged.platform.Keeps (Traces daemon probing made condition) where
  isRealtime pid host traces :=
    onKernel_maintains (isRealtime_maintains _ (asks_logged daemon.calls) pid) host.1 traces
  getProcessName pid host traces :=
    onKernel_maintains ((asks_logged daemon.calls).commandName pid) host.1 traces
  getTids pid host traces :=
    onKernel_maintains (getTids_maintains _ (asks_logged daemon.calls) daemon.setup.describe pid)
      host.1 traces
  perform setter host traces := by
    let asked : Log Setter PlatformError :=
      host.2 ++ [(setter, (daemon.parts.platform.perform setter host.1).1)]
    have last : (setter, (daemon.parts.platform.perform setter host.1).1) ∈ asked :=
      List.mem_append_right _ (List.mem_singleton_self _)
    have before : Done (Allowed fun deed => probing ∧ IsProbe daemon.signalThread deed ∨
          ∃ request ∈ asked, Serves request.1 deed)
        (fun effect =>
          made effect ∨ ∃ request ∈ asked, Asked daemon.setup daemon.calls request.1 effect)
        condition host.1 := by
      refine ⟨?_, ?_, traces.world.tree⟩
      · intro entry member
        refine (traces.kernel entry member).imp_right fun accounted => ?_
        obtain ⟨request, isLogged, serves⟩ := accounted
        exact ⟨request, List.mem_append_left _ isLogged, serves⟩
      · intro effect member
        refine (traces.world.log effect member).imp_right fun accounted => ?_
        obtain ⟨request, isLogged, isAsked⟩ := accounted
        exact ⟨request, List.mem_append_left _ isLogged, isAsked⟩
    exact perform_maintains daemon.setup daemon.calls.logged kept (asks_logged daemon.calls) setter
      (fun deed serves => deed_maintains daemon.calls (.inr ⟨_, last, serves⟩))
      (fun effect isAsked => .inr ⟨_, last, isAsked.of_logged⟩) host.1 before

theorem traces_probe (isProbing : probing) :
    Maintains (Traces daemon probing made condition) daemon.parts.logged.probe := by
  intro host traces
  refine onKernel_maintains (testLatniceSupport_maintains ?_ ?_) host.1 traces
  · exact (asks_logged daemon.calls).schedGetattr daemon.signalThread
  · exact fun deed isProbe => deed_maintains daemon.calls (.inl ⟨isProbing, isProbe⟩)

theorem Traces.mono {weaker : Effect → Prop} {host : LoggedHost τ}
    (traces : Traces daemon probing made condition host)
    (implies : ∀ effect, made effect → weaker effect) :
    Traces daemon probing weaker condition host :=
  ⟨traces.kernel,
    fun effect member => (traces.world.log effect member).imp_left (implies effect),
    traces.world.tree⟩

/-- What the event itself makes is added to the account. -/
theorem traces_step (kept : KeptByDirs condition) (event : Event)
    (probed : event = .loop .probe → probing) {state : State (LoggedHost τ) ρ κ}
    (traces : Traces daemon probing made condition state.host) :
    Traces daemon probing (fun effect => made effect ∨
      ∃ order, event = .createCgroups order ∧ DeclaredIn daemon state effect) condition
        (daemon.step event state).host := by
  have wider : Traces daemon probing (fun effect => made effect ∨
      ∃ order, event = .createCgroups order ∧ DeclaredIn daemon state effect) condition state.host :=
    traces.mono fun _ => .inl
  unfold Fixed.step
  split
  · exact wider
  · cases event with
    | loop event =>
        exact host_step_maintains (traces_keeps kept) event
          (fun isProbe => traces_probe (probed (congrArg Event.loop isProbe))) wider
    | createCgroups order =>
        refine ⟨wider.kernel, ?_⟩
        exact createCgroups_creates kept order state.running.rules.cgroups
          (fun name declared effect creates => .inl (.inr ⟨order, rfl, name, declared, creates⟩))
          wider.world

theorem traces_run (kept : KeptByDirs condition) (events : List Event)
    (probed : .loop .probe ∈ events → probing) {state : State (LoggedHost τ) ρ κ}
    (traces : Traces daemon probing made condition state.host) :
    Traces daemon probing (fun effect => made effect ∨ MadeBy daemon events state effect) condition
      (daemon.run events state).host := by
  induction events generalizing state made with
  | nil => exact traces.mono fun _ => .inl
  | cons event rest inductionHypothesis =>
      have stepped := traces_step kept event
        (fun isProbe => probed (isProbe ▸ List.mem_cons_self)) traces
      apply (inductionHypothesis (fun later => probed (List.mem_cons_of_mem event later))
        stepped).mono
      intro effect accounted
      rcases accounted with (before | now) | later
      · exact .inl before
      · obtain ⟨order, rfl, declared⟩ := now
        exact .inr ⟨[], order, rest, rfl, declared⟩
      · obtain ⟨before, order, after, split, declared⟩ := later
        exact .inr ⟨event :: before, order, after, by rw [split]; rfl, declared⟩

theorem messages_cons (event : Event) (rest : List Event) :
    messages (event :: rest) = messages [event] ++ messages rest := by
  have split : loopEvents (event :: rest) = loopEvents [event] ++ loopEvents rest :=
    List.filterMap_append (l := [event])
  unfold messages
  rw [split]
  exact List.filterMap_append

theorem aims_event (event : Event) (state : State (LoggedHost τ) ρ κ) :
    ∀ entry ∈ (daemon.step event state).host.2, entry ∈ state.host.2 ∨
      ∃ received ∈ messages [event], Aims daemon.parts received entry.1 := by
  intro entry member
  unfold Fixed.step at member
  split at member
  · exact .inl member
  · cases event with
    | loop event => exact aims_step daemon.parts event state entry member
    | createCgroups order => exact .inl member

/-- Every request of a run is for a process it received. -/
theorem aims_run (events : List Event) (state : State (LoggedHost τ) ρ κ) :
    ∀ entry ∈ (daemon.run events state).host.2, entry ∈ state.host.2 ∨
      ∃ received ∈ messages events, Aims daemon.parts received entry.1 := by
  induction events generalizing state with
  | nil => exact fun entry member => .inl member
  | cons event rest inductionHypothesis =>
      intro entry member
      rw [messages_cons]
      rcases inductionHypothesis (daemon.step event state) entry member with before | later
      · refine (aims_event event state entry before).imp_right fun now => ?_
        obtain ⟨received, isMessage, aims⟩ := now
        exact ⟨received, List.mem_append_left _ isMessage, aims⟩
      · obtain ⟨received, isMessage, aims⟩ := later
        exact .inr ⟨received, List.mem_append_right _ isMessage, aims⟩

/-- A task that a request names is the process or one of its listed threads. -/
theorem isTask_of_aims {received : Process} {request : Setter} {task : Int32}
    (aims : Aims daemon.parts received request) (named : task ∈ request.tasks) :
    IsTask daemon received task := by
  rcases aims.tasks with alone | ⟨_, host, listed⟩
  · rw [alone, List.mem_singleton] at named
    exact .inl named
  · right
    have asked : (getTids daemon.setup.describe daemon.calls.logged received.pid host.kernel).1 =
        .ok request.tasks := listed
    obtain ⟨names, answered, isTids⟩ := taskNames_of_getTids asked
    rw [isTids] at named
    exact ⟨host.kernel.1, names, answered, named⟩

theorem doneFor_of_aims {received : Process} {request : Setter} {effect : Effect}
    (aims : Aims daemon.parts received request)
    (asked : Asked daemon.setup daemon.calls request effect) :
    DoneFor daemon received effect := by
  cases request with
  | addPidToCgroup pid cgroupName =>
      have same : pid = received.pid := aims.pid
      subst same
      exact .inl ⟨cgroupName, asked⟩
  | setCpuWeight pid weight =>
      have same : pid = received.pid := aims.pid
      subst same
      exact .inr ⟨weight, asked⟩
  | _ => exact absurd asked (by simp [Asked])

/-- On cgroup v2 nothing that is done for a process leaves the delegated subtree, but for a
weight that was there. -/
theorem protected_of_doneFor {received : Process} {effect : Effect}
    (version : daemon.setup.manager.info.version = .v2) (doneFor : DoneFor daemon received effect) :
    Protected daemon.setup.manager effect := by
  rcases doneFor with ⟨cgroupName, target, kernel, number, resolved, owned, _, written⟩ |
    ⟨weight, target, kernel, path, text, _, resolved, written, present⟩
  · have inside := protected_file version resolved
      (controlFile_clean (procsFile daemon.setup.manager) (by simp [procsFile, version])) owned
      effect.before (toString number ++ "\n")
    rw [← written] at inside
    exact inside
  · have isWeight : weightFile daemon.setup.manager = "cpu.weight" := by
      rw [weightFile, if_pos version]
    rw [isWeight] at written present
    exact .inr ⟨components target, text, written, present⟩

end Touches

/-! ## Whole runs -/

theorem traces_started (daemon : Fixed τ ρ κ) (probing : Prop) (running : Running ρ κ) (kernel : τ)
    (fs : Fs) :
    Traces daemon probing (fun _ => False) (fun _ => True) (started running kernel fs).host :=
  ⟨fun _ member => (List.not_mem_nil member).elim,
    fun _ member => (List.not_mem_nil member).elim, trivial⟩

/-- Every call of a run that changes a task is one of a probe, on the signal thread itself, or it
is on a process the run received or on a thread of one, and never on pid 0; then it asks for
the value of a request that was made for that process. Everything that was done to the cgroup
file system created a cgroup declared by the rules in force at the time, or was done for a
received process; on v2 the latter stays in the delegated subtree, except for a weight that was
there. -/
theorem run_touches (daemon : Fixed τ ρ κ) (running : Running ρ κ) (kernel : τ) (fs : Fs)
    (events : List Event) :
    let start := started running kernel fs
    let host := (daemon.run events start).host
    (∀ entry ∈ host.1.kernel.2,
      .loop .probe ∈ events ∧ IsProbe daemon.signalThread entry.1 ∨
      ∃ received ∈ messages events, received.pid ≠ 0 ∧ IsTask daemon received entry.1.task ∧
        ∃ request ∈ host.2, request.1.pid = received.pid ∧ Serves request.1 entry.1) ∧
    ∀ effect ∈ host.1.world.log, MadeBy daemon events start effect ∨
      (∃ received ∈ messages events, received.pid ≠ 0 ∧ DoneFor daemon received effect) ∧
        (daemon.setup.manager.info.version = .v2 → Protected daemon.setup.manager effect) := by
  intro start host
  have traces := traces_run keptByDirs_true events id
    (traces_started daemon (.loop .probe ∈ events) running kernel fs)
  have aimed : ∀ request ∈ (daemon.run events start).host.2,
      ∃ received ∈ messages events, Aims daemon.parts received request.1 := by
    intro request isLogged
    exact (aims_run events start request isLogged).resolve_left List.not_mem_nil
  constructor
  · intro entry member
    refine (traces.kernel entry member).imp_right fun accounted => ?_
    obtain ⟨request, isLogged, serves⟩ := accounted
    obtain ⟨received, isMessage, aims⟩ := aimed request isLogged
    exact ⟨received, isMessage, aims.notIdle, isTask_of_aims aims serves.task,
      request, isLogged, aims.pid, serves⟩
  · intro effect member
    rcases traces.world.log effect member with (impossible | made) | ⟨request, isLogged, asked⟩
    · exact impossible.elim
    · exact .inl made
    · obtain ⟨received, isMessage, aims⟩ := aimed request isLogged
      have doneFor := doneFor_of_aims aims asked
      exact .inr ⟨⟨received, isMessage, aims.notIdle, doneFor⟩,
        fun version => protected_of_doneFor version doneFor⟩

section Panic

variable {daemon : Fixed τ ρ κ}

/-- The daemon is gone exactly if a CPU set was asked for that overruns the mask. -/
def AbortedBy (daemon : Fixed τ ρ κ) (host : LoggedHost τ) : Prop :=
  host.1.aborted = true ↔ ∃ request ∈ host.2, Overruns (maxCores daemon.setup) request.1

theorem abortedBy_keeps : daemon.parts.logged.platform.Keeps (AbortedBy daemon) where
  isRealtime _ _ accounted := accounted
  getProcessName _ _ accounted := accounted
  getTids _ _ accounted := accounted
  perform setter host accounted := by
    have before : host.1.aborted = true ↔
        ∃ request ∈ host.2, Overruns (maxCores daemon.setup) request.1 := accounted
    show (perform daemon.setup daemon.calls.logged setter host.1).2.aborted = true ↔
      ∃ request ∈ host.2 ++ [(setter, _)], Overruns (maxCores daemon.setup) request.1
    rw [perform_aborted_iff, before]
    simp only [List.mem_append, List.mem_singleton, or_and_right, exists_or, exists_eq_left]

theorem abortedBy_step (event : Event) {state : State (LoggedHost τ) ρ κ}
    (accounted : AbortedBy daemon state.host) : AbortedBy daemon (daemon.step event state).host := by
  unfold Fixed.step
  split
  · exact accounted
  · cases event with
    | loop event =>
        exact host_step_maintains abortedBy_keeps event (fun _ _ held => held) accounted
    | createCgroups order => exact accounted

theorem abortedBy_run (events : List Event) (state : State (LoggedHost τ) ρ κ)
    (accounted : AbortedBy daemon state.host) : AbortedBy daemon (daemon.run events state).host := by
  induction events generalizing state with
  | nil => exact accounted
  | cons event rest inductionHypothesis =>
      exact inductionHypothesis (daemon.step event state) (abortedBy_step event accounted)

end Panic

/-- A run brings the daemon down exactly when a process was to be put on a CPU beyond the
last full byte of the mask, so never on a machine with a multiple of eight CPUs. -/
theorem run_aborts_iff (daemon : Fixed τ ρ κ) (running : Running ρ κ) (kernel : τ) (fs : Fs)
    (events : List Event) :
    let host := (daemon.run events (started running kernel fs)).host
    (host.1.aborted = true ↔ ∃ request ∈ host.2, ∃ received ∈ messages events,
      Aims daemon.parts received request.1 ∧ Overruns (maxCores daemon.setup) request.1) ∧
    (8 ∣ maxCores daemon.setup → host.1.aborted = false) := by
  intro host
  have alive : AbortedBy daemon (started running kernel fs).host :=
    iff_of_false (fun aborted => Bool.noConfusion aborted) (by simp [started, State.started])
  have account := abortedBy_run events _ alive
  constructor
  · refine account.trans (exists_congr fun request => and_congr_right fun isLogged => ?_)
    have aimed := (aims_run events (started running kernel fs) request isLogged).resolve_left
      List.not_mem_nil
    obtain ⟨received, isMessage, aims⟩ := aimed
    exact ⟨fun overruns => ⟨received, isMessage, aims, overruns⟩,
      fun given => given.elim fun _ held => held.2.2⟩
  · intro full
    by_contra aborted
    obtain ⟨request, _, overruns⟩ := account.mp (Bool.not_eq_false _ ▸ aborted)
    exact not_overruns_of_dvd full request.1 overruns

/-- When the cgroups of the rules in force were created, a declared one that the daemon may
make is there from then on, through all later messages and reloads, and no process is kept
out of it because it were missing; or else its own creation failed when its turn came. -/
theorem run_keeps_cgroups (daemon : Fixed τ ρ κ) (running : Running ρ κ) (kernel : τ) (fs : Fs)
    (before after : List Event) (order : IterationOrder) {name target : String}
    (alive : (daemon.run before (started running kernel fs)).host.1.aborted = false)
    (declared : name ∈ (daemon.run before (started running kernel fs)).running.rules.cgroups)
    (resolved : resolveTargetDir daemon.setup.manager name = some target)
    (notForeign : ownership daemon.setup.manager target ≠ .foreign)
    (nonempty : components target ≠ []) :
    let state := daemon.run before (started running kernel fs)
    CreationFailed daemon.setup.manager daemon.setup.machine target
      (atTurn daemon.setup.manager daemon.setup.machine
        (cgroupRequests order state.running.rules.cgroups) name state.host.1.world) ∨
    ∀ later ∈ states daemon.step after (daemon.step (.createCgroups order) state),
      later.host.1.world.fs.isDir (components target) = true ∧
        ∀ reads pid, (addPidToCgroup daemon.setup reads pid name later.host.1.world).1 ≠
          .error .notFound := by
  intro state
  have created : (daemon.step (.createCgroups order) state).host.1.world =
      Daemon.createCgroups daemon.setup.manager daemon.setup.machine order
        state.running.rules.cgroups state.host.1.world := by
    rw [Fixed.step, if_neg (by rw [alive]; decide)]
    rfl
  rcases @createCgroups_made _ daemon.setup.machine order _ _ _ declared resolved notForeign nonempty
    state.host.1.world with isDir | failed
  · right
    rw [← created] at isDir
    let there : Fs → Prop := fun fs => fs.isDir (components target) = true
    have kept : KeptByDirs there := keptByDirs_isDir (components target)
    have account := traces_step keptByDirs_true (.createCgroups order) (fun _ => trivial)
      (traces_run keptByDirs_true before (fun _ => trivial)
        (traces_started daemon True running kernel fs))
    have start : Traces daemon True (fun _ => True) there
        (daemon.step (.createCgroups order) state).host :=
      ⟨account.kernel, fun _ _ => .inl trivial, isDir⟩
    have keeps : ∀ (now : State (LoggedHost τ) ρ κ) event,
        Traces daemon True (fun _ => True) there now.host →
          Traces daemon True (fun _ => True) there (daemon.step event now).host :=
      fun _ event traces =>
        (traces_step kept event (fun _ => trivial) traces).mono fun _ _ => trivial
    intro later member
    have present : later.host.1.world.fs.isDir (components target) = true :=
      (invariant_of_step keeps after _ start later member).world.tree
    exact ⟨present, fun reads pid => addPidToCgroup_present resolved reads pid later.host.1.world
      (Fs.pathExists_of_isDir present)⟩
  · exact .inl failed

def silentCalls : Calls Unit where
  deed _ := pure (.ok ())
  schedGetattr _ := pure (.ok {})
  commandName _ := pure "<unknown>"
  taskNames _ := pure (.ok [])
  cpuFiles := pure ⟨fun _ => none, none, none⟩
  pidReads _ := pure ⟨none, none, none⟩
  processCgroup _ := pure none

/-- A service with its own subtree on cgroup v2. -/
def serviceDaemon : Fixed Unit String (List (String × Option String)) where
  worker := ⟨∅, fun _ => 100⟩
  crates := Rules.literalCrates Rules.redefinition
  setup := ⟨fun _ => "", Platform.Cgroup.serviceManager, Platform.Cgroup.openMachine, 4, true⟩
  calls := silentCalls
  signalThread := 3
  benchmarkCount := none

/-- One rule is in force, `{"cgroup":"games"}`. -/
def gamesRunning : Running String (List (String × Option String)) where
  config := .default
  logLevel := .info
  levelOverride := none
  rules :=
    { Rules.new serviceDaemon.crates .empty with
      cgroups := AList.insert "games" ⟨.object [("cgroup", .string "games")], by decide⟩ ∅ }

def asListed : IterationOrder := ⟨id, fun _ => List.Perm.refl _⟩

/-- A reload that drops the rule, and a process after it. -/
def ruleDropped : List Event :=
  [.loop .probe, .loop (.swap (.config (WorkLoop.niceMoment "apply_nice=true"))),
    .loop (.swap (.rules (WorkLoop.niceMoment "apply_nice=true"))),
    .loop (.message ⟨7, "a", true⟩ [])]

/-- The cgroup of the rule outlives the reload. -/
theorem run_keeps_cgroups_games :
    (serviceDaemon.run ruleDropped (serviceDaemon.step (.createCgroups asListed)
      (started gamesRunning () Platform.Cgroup.serviceTree))).host.1.world.fs.isDir
        (components "/sys/fs/cgroup/ananicy/games") = true := by
  have declared : "games" ∈ gamesRunning.rules.cgroups := by
    decide
  have resolved : resolveTargetDir Platform.Cgroup.serviceManager "games" =
      some "/sys/fs/cgroup/ananicy/games" := by
    decide +kernel
  have made := run_keeps_cgroups serviceDaemon gamesRunning () Platform.Cgroup.serviceTree []
    ruleDropped asListed rfl declared resolved (by decide +kernel) (by decide +kernel)
  have succeeded : ¬CreationFailed Platform.Cgroup.serviceManager Platform.Cgroup.openMachine
      "/sys/fs/cgroup/ananicy/games" ⟨Platform.Cgroup.serviceTree, []⟩ := by
    rintro (isFile | ⟨_, isFile | ⟨_, reason, error⟩⟩)
    · exact absurd isFile (by decide +kernel)
    · exact absurd isFile (by decide +kernel)
    · have isOk : (createDirAll Platform.Cgroup.openMachine.kernel
          (components "/sys/fs/cgroup/ananicy/games") (beforeMaking Platform.Cgroup.serviceManager
            Platform.Cgroup.openMachine "/sys/fs/cgroup/ananicy/games"
              ⟨Platform.Cgroup.serviceTree, []⟩)).1.isOk = true := by
        decide +kernel
      rw [error] at isOk
      exact Bool.noConfusion isOk
  exact (made.resolve_left succeeded _ (foldl_mem_states serviceDaemon.step _ _)).1

end AnanicyRs.Daemon.OnLinux
