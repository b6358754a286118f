import AnanicyRs.Daemon.WorkLoop
import AnanicyRs.Platform.TaskStates

/-!
Contract: what the runs of the daemon make of the tasks of the machine.

Owns the loop of `Daemon.WorkLoop` on Linux, over a kernel whose tasks can be seen. A run is
compared with the requests its messages planned, each taken as the effect it is for.

`run_explained` bounds what any kernel can be made to do, `run_settles` says what a kernel
that accepts everything ends in, and `run_of_same_messages` that it does not matter then in
what order and how often the event sources report the processes of a batch.

A probe writes to the task of the signal thread what no message planned, so runs with a probe
say nothing about that one. The tasks do not change by themselves while the daemon is at work.
-/

set_option autoImplicit false

namespace AnanicyRs.Daemon.TaskRuns

open AnanicyRs.Core
open AnanicyRs.Lib
open AnanicyRs.Lib.CallLog
open AnanicyRs.Lib.StateInvariant
open AnanicyRs.Daemon.WorkLoop
open AnanicyRs.Platform (Errno)
open AnanicyRs.Platform.Linux hiding State

variable {τ ρ κ : Type}

/-- Everything of the daemon that does not change while it runs. -/
structure Fixed (τ ρ κ : Type) where
  worker : Worker
  crates : Crates ρ κ
  setup : Setup
  kernel : TaskKernel τ
  signalThread : Int32
  benchmarkCount : Option Nat

abbrev Host (τ : Type) := Platform.Linux.State τ

abbrev LoggedHost (τ : Type) := Host τ × Log Setter PlatformError

namespace Fixed

variable (daemon : Fixed τ ρ κ)

def parts : Parts (Host τ) ρ κ where
  worker := daemon.worker
  crates := daemon.crates
  platform := Platform.Linux.platform daemon.setup daemon.kernel.calls
  probe := onKernel (testLatniceSupport daemon.kernel.calls daemon.signalThread)
  benchmarkCount := daemon.benchmarkCount

/-- The states of the tasks. -/
def tasks (host : Host τ) : Int32 → TaskState := daemon.kernel.view host.kernel

def settle : (Int32 → TaskState) → Setter → Int32 → TaskState :=
  daemon.kernel.settle (maxCores daemon.setup)

/-- No probe among the events is on this task. -/
def Spared (events : List WorkLoop.Event) (task : Int32) : Prop :=
  .probe ∈ events → task ≠ aimedAt daemon.kernel.caller daemon.signalThread

/-- The turns of a started daemon on these events. -/
def turns (startup : Moment) (host : Host τ) (events : List WorkLoop.Event) : List Turn :=
  daemon.parts.logged.turns events (.started (.started daemon.crates startup) (host, []))

/-- The started daemon after these events. -/
def run (args : Args) (startup : Moment) (host : Host τ) (events : List WorkLoop.Event) :
    WorkLoop.State (LoggedHost τ) ρ κ :=
  daemon.parts.logged.run events (.started (start daemon.crates args startup) (host, []))

end Fixed

section Keeping

variable {daemon : Fixed τ ρ κ}

/-- What no question can take away, only the requests have to keep. -/
theorem keeps_of_perform {inv : (Int32 → TaskState) → Bool → Log Setter PlatformError → Prop}
    (perform : ∀ setter (held : LoggedHost τ),
      inv (daemon.tasks held.1) held.1.aborted held.2 →
        let answered := daemon.parts.platform.perform setter held.1
        inv (daemon.tasks answered.2) answered.2.aborted (held.2 ++ [(setter, answered.1)])) :
    daemon.parts.logged.platform.Keeps fun held : LoggedHost τ =>
      inv (daemon.tasks held.1) held.1.aborted held.2 where
  isRealtime pid held holds :=
    isRealtime_maintains daemon.kernel.calls
      (daemon.kernel.asks_view fun tasks => inv tasks held.1.aborted held.2) pid held.1.kernel holds
  getProcessName pid held holds :=
    (daemon.kernel.asks_view fun tasks => inv tasks held.1.aborted held.2).commandName pid
      held.1.kernel holds
  getTids pid held holds :=
    getTids_maintains daemon.kernel.calls
      (daemon.kernel.asks_view fun tasks => inv tasks held.1.aborted held.2) daemon.setup.describe
      pid held.1.kernel holds
  perform := perform

theorem tasks_probe {task : Int32}
    (other : task ≠ aimedAt daemon.kernel.caller daemon.signalThread) (now : Host τ) :
    daemon.tasks (daemon.parts.probe now).2 task = daemon.tasks now task :=
  daemon.kernel.testLatniceSupport_frame other now.kernel

/-- What is so at first and kept by every request and probe is so after a run, of the requests
its messages planned. -/
theorem run_of_perform {inv : (Int32 → TaskState) → Bool → List Setter → Prop}
    (perform : ∀ setter requests (now : Host τ), inv (daemon.tasks now) now.aborted requests →
      let next := (daemon.parts.platform.perform setter now).2
      inv (daemon.tasks next) next.aborted (requests ++ [setter]))
    {events : List WorkLoop.Event}
    (probe : .probe ∈ events → ∀ requests (now : Host τ),
      inv (daemon.tasks now) now.aborted requests →
        inv (daemon.tasks (daemon.parts.probe now).2) now.aborted requests)
    {spec : Spec (LoggedHost τ) ρ} {state : WorkLoop.State (LoggedHost τ) ρ κ}
    (related : Related daemon.parts.logged spec state)
    (notFull : (daemon.parts.logged.run events state).running.rules.names.NotFull)
    (holds : inv (daemon.tasks state.host.1) state.host.1.aborted []) :
    let reached := (daemon.parts.logged.run events state).host.1
    inv (daemon.tasks reached) reached.aborted
      ((daemon.parts.logged.turns events spec).flatMap Turn.planned) := by
  intro reached
  -- The invariant is kept of what the log has gained.
  let gained := fun (tasks : Int32 → TaskState) aborted (log : Log Setter PlatformError) =>
    ∃ requests, log.map Prod.fst = state.host.2.map Prod.fst ++ requests ∧
      inv tasks aborted requests
  have keeps := @keeps_of_perform _ _ _ daemon gained fun setter held before => by
    obtain ⟨requests, logged, now⟩ := before
    refine ⟨requests ++ [setter], ?_, perform setter requests held.1 now⟩
    rw [List.map_append, logged, List.append_assoc]
    rfl
  have probes : .probe ∈ events → Maintains
      (fun held : LoggedHost τ => gained (daemon.tasks held.1) held.1.aborted held.2)
      daemon.parts.logged.probe := by
    intro isProbing held before
    obtain ⟨requests, logged, now⟩ := before
    exact ⟨requests, logged, probe isProbing requests held.1 now⟩
  obtain ⟨requests, logged, reachedHolds⟩ :=
    @host_run_maintains _ _ _ daemon.parts.logged _ keeps events probes state
      ⟨[], (List.append_nil _).symm, holds⟩
  have asked := log_specRun daemon.parts events spec
  rw [← (related_run related events notFull).host, ← related.host, logged] at asked
  rw [← List.append_cancel_left asked]
  exact reachedHolds

end Keeping

/-! ## Any kernel -/

section AnyKernel

variable {daemon : Fixed τ ρ κ}

/-- Each of these tasks was given some of what was asked for it, in the order it was asked. -/
def Granted (daemon : Fixed τ ρ κ) (among : Int32 → Prop) (first : Int32 → TaskState)
    (requests : List Setter) (tasks : Int32 → TaskState) : Prop :=
  ∀ task, among task → ∃ granted : List (Setter × Assignment),
    (granted.map Prod.fst).Sublist
      (requests.filter fun request => decide (task ∈ daemon.kernel.targets request)) ∧
    (∀ entry ∈ granted, Obeys (maxCores daemon.setup) entry.1 entry.2) ∧
    tasks task = granted.foldl (fun now entry => entry.2.applyTo now) (first task)

variable {among : Int32 → Prop}

theorem Granted.request {first before after : Int32 → TaskState} {requests : List Setter}
    (granted : Granted daemon among first requests before) {setter : Setter}
    (moves : daemon.kernel.MovesAll (maxCores daemon.setup) setter before after) :
    Granted daemon among first (requests ++ [setter]) after := by
  intro task isAmong
  obtain ⟨given, inOrder, obey, reached⟩ := granted task isAmong
  rw [List.filter_append]
  have stays : after task = before task →
      ∃ granted : List (Setter × Assignment),
        (granted.map Prod.fst).Sublist
          (requests.filter (fun request => decide (task ∈ daemon.kernel.targets request)) ++
            [setter].filter fun request => decide (task ∈ daemon.kernel.targets request)) ∧
        (∀ entry ∈ granted, Obeys (maxCores daemon.setup) entry.1 entry.2) ∧
        after task = granted.foldl (fun now entry => entry.2.applyTo now) (first task) := by
    intro same
    exact ⟨given, inOrder.trans (List.sublist_append_left _ _), obey, same.trans reached⟩
  by_cases named : task ∈ daemon.kernel.targets setter
  · cases (moves task).1 named with
    | inl same => exact stays same
    | inr assigned =>
        obtain ⟨assignment, obeys, isAssigned⟩ := assigned
        refine ⟨given ++ [(setter, assignment)], ?_, ?_, ?_⟩
        · rw [List.map_append, List.filter_singleton, decide_eq_true named]
          exact inOrder.append (List.Sublist.refl [setter])
        · intro entry member
          cases List.mem_append.mp member with
          | inl earlier => exact obey entry earlier
          | inr last =>
              rw [List.mem_singleton.mp last]
              exact obeys
        · rw [List.foldl_append, ← reached]
          exact isAssigned
  · exact stays ((moves task).2 named)

theorem Granted.congr {first before after : Int32 → TaskState} {requests : List Setter}
    (granted : Granted daemon among first requests before)
    (same : ∀ task, among task → after task = before task) :
    Granted daemon among first requests after := by
  intro task isAmong
  rw [same task isAmong]
  exact granted task isAmong

end AnyKernel

section Accepting

variable {daemon : Fixed τ ρ κ}

/-- These of the tasks after these requests, and when the daemon did not survive them. -/
structure Settled (daemon : Fixed τ ρ κ) (among : Int32 → Prop) (host : Host τ)
    (tasks : Int32 → TaskState) (aborted : Bool) (requests : List Setter) : Prop where
  dies : aborted = true ↔
    host.aborted = true ∨ ∃ request ∈ requests, Overruns (maxCores daemon.setup) request
  lives : aborted = false → ∀ task, among task →
    tasks task = requests.foldl daemon.settle (daemon.tasks host) task

variable {among : Int32 → Prop}

theorem Settled.perform (accepts : daemon.kernel.AcceptsAll) {host : Host τ} (setter : Setter)
    (requests : List Setter) (now : Host τ)
    (settled : Settled daemon among host (daemon.tasks now) now.aborted requests) :
    let next := (daemon.parts.platform.perform setter now).2
    Settled daemon among host (daemon.tasks next) next.aborted (requests ++ [setter]) := by
  intro next
  have dies : next.aborted = true ↔
      now.aborted = true ∨ Overruns (maxCores daemon.setup) setter :=
    perform_aborted_iff daemon.setup daemon.kernel.calls setter now
  constructor
  · rw [dies, settled.dies]
    simp only [List.mem_append, List.mem_singleton, or_and_right, exists_or, exists_eq_left,
      or_assoc]
  · intro survives task isAmong
    have alive : now.aborted = false ∧ ¬ Overruns (maxCores daemon.setup) setter := by
      rw [← Bool.not_eq_true, ← not_or, ← dies, survives]
      decide
    have isLive : next = (performLive daemon.setup daemon.kernel.calls setter now).2 := by
      show (Platform.Linux.perform daemon.setup daemon.kernel.calls setter now).2 = _
      rw [Platform.Linux.perform, alive.1]
      rfl
    have moved : daemon.tasks next = daemon.settle (daemon.tasks now) setter := by
      rw [isLive]
      exact TaskKernel.performLive_view accepts daemon.setup alive.2 now
    rw [moved, List.foldl_append]
    exact daemon.kernel.settle_local _ (settled.lives alive.1 task isAmong) setter

theorem Settled.congr {host : Host τ} {before after : Int32 → TaskState} {aborted : Bool}
    {requests : List Setter} (settled : Settled daemon among host before aborted requests)
    (same : ∀ task, among task → after task = before task) :
    Settled daemon among host after aborted requests :=
  ⟨settled.dies,
    fun alive task isAmong => (same task isAmong).trans (settled.lives alive task isAmong)⟩

/-- What a run leaves behind on a kernel that accepts everything. -/
theorem settled_run (accepts : daemon.kernel.AcceptsAll) {events : List WorkLoop.Event}
    {spec : Spec (LoggedHost τ) ρ} {state : WorkLoop.State (LoggedHost τ) ρ κ}
    (related : Related daemon.parts.logged spec state)
    (notFull : (daemon.parts.logged.run events state).running.rules.names.NotFull) :
    let reached := (daemon.parts.logged.run events state).host.1
    Settled daemon (daemon.Spared events) state.host.1 (daemon.tasks reached) reached.aborted
      ((daemon.parts.logged.turns events spec).flatMap Turn.planned) :=
  run_of_perform (Settled.perform accepts)
    (fun isProbing _ now settled =>
      settled.congr fun _ spared => tasks_probe (spared isProbing) now)
    related notFull ⟨by simp, fun _ _ _ => rfl⟩

end Accepting

/-- A kernel that does what it is told, with two threads for every process. -/
def obedientKernel : TaskKernel (Int32 → TaskState) where
  calls :=
    { deed := fun deed tasks => (.ok (), Function.update tasks (aimedAt 1 deed.task)
        (deed.applyTo (tasks (aimedAt 1 deed.task))))
      schedGetattr := fun _ => pure (.ok {})
      commandName := fun _ => pure "<unknown>"
      taskNames := fun pid => pure (.ok [toString pid, toString (pid + 1)])
      cpuFiles := pure ⟨fun _ => none, none, none⟩
      pidReads := fun _ => pure ⟨none, none, none⟩
      processCgroup := fun _ => pure none }
  caller := 1
  view := id
  refused _ _ _ refusal := nomatch refusal
  accepted _ _ _ := rfl
  asks _ :=
    { schedGetattr := fun _ => maintains_pure _
      commandName := fun _ => maintains_pure _
      taskNames := fun _ => maintains_pure _
      cpuFiles := maintains_pure _
      pidReads := fun _ => maintains_pure _
      processCgroup := fun _ => maintains_pure _ }

def niceDaemon : Fixed (Int32 → TaskState) String (List (String × Option String)) where
  worker := ⟨∅, fun _ => 100⟩
  crates := Rules.literalCrates Rules.redefinition
  setup := ⟨fun _ => "", Platform.Cgroup.serviceManager, Platform.Cgroup.openMachine, 4, true⟩
  kernel := obedientKernel
  signalThread := 3
  benchmarkCount := none

/-- All tasks are as they were created. -/
def freshHost : Host (Int32 → TaskState) :=
  ⟨fun _ => ⟨⟨0, 0, 0, 0⟩, 0, 0, fun _ => true⟩, ⟨Platform.Cgroup.serviceTree, []⟩, false⟩

theorem setPriority_of_obeys {numCpus : Nat} {request : Setter} {value : Int32}
    (obeys : Obeys numCpus request (.nice value)) :
    ∃ pid tids, request = .setPriority pid tids value := by
  have isNice : .nice = request.kind := obeys.kind
  cases request with
  | setPriority pid tids nice =>
      rcases obeys with assigned | ⟨_, _, _, _, isAffinity, _⟩
      · have same : nice = value := Assignment.nice.inj (Option.some.inj assigned)
        exact ⟨pid, tids, by rw [same]⟩
      · exact absurd isAffinity (by simp)
  | _ => exact absurd isNice (by simp [Setter.kind])

/-- The priority of a task is the first one or one that was asked for. -/
theorem nice_foldl {numCpus : Nat} {granted : List (Setter × Assignment)} {values : List Int32}
    (obey : ∀ entry ∈ granted, Obeys numCpus entry.1 entry.2)
    (asked : ∀ entry ∈ granted, ∀ pid tids value,
      entry.1 = .setPriority pid tids value → value ∈ values)
    {task : TaskState} (first : task.sched.nice ∈ values) :
    (granted.foldl (fun now entry => entry.2.applyTo now) task).sched.nice ∈ values := by
  induction granted generalizing task with
  | nil => exact first
  | cons entry rest inductionHypothesis =>
      rw [List.foldl_cons]
      apply inductionHypothesis (fun other member => obey other (List.mem_cons_of_mem _ member))
        fun other member => asked other (List.mem_cons_of_mem _ member)
      have obeys := obey entry List.mem_cons_self
      cases assignment : entry.2 with
      | nice value =>
          rw [assignment] at obeys
          obtain ⟨pid, tids, isRequest⟩ := setPriority_of_obeys obeys
          exact asked entry List.mem_cons_self pid tids value isRequest
      | _ => exact first

/-- What the kernel says about processes while a batch is handled. -/
structure Answers where
  commandName : Int32 → String
  taskNames : Int32 → Except Errno (List String)

structure Answers.Hold (answers : Answers) (calls : Calls τ) : Prop where
  commandName : ∀ pid state, (calls.commandName pid state).1 = answers.commandName pid
  taskNames : ∀ pid state, (calls.taskNames pid state).1 = answers.taskNames pid

/-- A kernel that does nothing but give these answers. -/
def Answers.calls (answers : Answers) : Calls Unit where
  deed _ := pure (.ok ())
  schedGetattr _ := pure (.ok {})
  commandName pid := pure (answers.commandName pid)
  taskNames pid := pure (answers.taskNames pid)
  cpuFiles := pure ⟨fun _ => none, none, none⟩
  pidReads _ := pure ⟨none, none, none⟩
  processCgroup _ := pure none

/-- A platform on which every process is the one the answers describe. -/
def Answers.platform (answers : Answers) (setup : Setup) : Platform Unit where
  isRealtime _ := pure false
  getProcessName := answers.calls.commandName
  getTids := getTids setup.describe answers.calls
  isCgroupV2 := setup.isCgroupV2
  getMaxCores := maxCores setup
  perform _ := pure (.ok ())

section Batches

variable (daemon : Fixed τ ρ κ) (answers : Answers) (inForce : InForce ρ)

def Fixed.partsUnder : Parts Unit ρ κ :=
  ⟨daemon.worker, daemon.crates, answers.platform daemon.setup, pure true, daemon.benchmarkCount⟩

/-- What a message is matched to under these answers. -/
def Fixed.matchUnder (received : Process) : Option Matched :=
  ((daemon.partsUnder answers).matched inForce received ()).1

/-- The requests a message leads to under these answers. -/
def Fixed.plannedUnder (received : Process) : List Setter :=
  Turn.planned ⟨received, daemon.matchUnder answers inForce received⟩

def Fixed.settleMessage (tasks : Int32 → TaskState) (received : Process) : Int32 → TaskState :=
  (daemon.plannedUnder answers inForce received).foldl daemon.settle tasks

/-- Two messages that do not disagree: they lead to the same requests, or to requests for
different tasks. -/
def Fixed.Agree (left right : Process) : Prop :=
  daemon.plannedUnder answers inForce left = daemon.plannedUnder answers inForce right ∨
    ∀ first ∈ daemon.plannedUnder answers inForce left,
      ∀ second ∈ daemon.plannedUnder answers inForce right,
        ∀ task ∈ daemon.kernel.targets first, task ∉ daemon.kernel.targets second

/-- Decided task by task: a search through every `Int32` would not come back. -/
instance (left right : Process) : Decidable (daemon.Agree answers inForce left right) :=
  haveI : ∀ first second : Setter, Decidable
      (∀ task ∈ daemon.kernel.targets first, task ∉ daemon.kernel.targets second) :=
    fun _ second => List.decidableBAll (fun task => task ∉ daemon.kernel.targets second) _
  inferInstanceAs (Decidable (_ ∨ _))

variable {daemon answers inForce}

theorem resolveName_under (hold : answers.Hold daemon.kernel.calls) (received : Process)
    (held : LoggedHost τ) :
    (Worker.resolveName daemon.parts.logged.platform received held).1 =
      (Worker.resolveName (answers.platform daemon.setup) received ()).1 := by
  have asked : (daemon.parts.logged.platform.getProcessName received.pid held).1 =
      answers.commandName received.pid := hold.commandName received.pid held.1.kernel
  have askedToo : (answers.platform daemon.setup).getProcessName received.pid () =
    (answers.commandName received.pid, ()) := rfl
  unfold Worker.resolveName
  by_cases authoritative : received.nameIsAuthoritative = true
  · rw [if_pos authoritative, if_pos authoritative]
    rfl
  · rw [if_neg authoritative, if_neg authoritative]
    simp only [bind, StateT.bind, askedToo]
    cases ran : daemon.parts.logged.platform.getProcessName received.pid held with
    | mk fullName next =>
        rw [ran] at asked
        subst asked
        simp only
        split <;> rfl

theorem getTids_under (hold : answers.Hold daemon.kernel.calls) (pid : Int32)
    (held : LoggedHost τ) :
    (daemon.parts.logged.platform.getTids pid held).1 =
      ((answers.platform daemon.setup).getTids pid ()).1 := by
  have asked := hold.taskNames pid held.1.kernel
  have askedToo : answers.calls.taskNames pid () = (answers.taskNames pid, ()) := rfl
  show (getTids daemon.setup.describe daemon.kernel.calls pid held.1.kernel).1 =
    (getTids daemon.setup.describe answers.calls pid ()).1
  unfold getTids
  simp only [bind, StateT.bind, askedToo]
  cases ran : daemon.kernel.calls.taskNames pid held.1.kernel with
  | mk listed next =>
      rw [ran] at asked
      subst asked
      cases answers.taskNames pid <;> rfl

theorem threadsOf_under (hold : answers.Hold daemon.kernel.calls) (p : Process)
    (held : LoggedHost τ) :
    (Worker.threadsOf daemon.parts.logged.platform p held).1 =
      (Worker.threadsOf (answers.platform daemon.setup) p ()).1 := by
  have asked := getTids_under hold p.pid held
  unfold Worker.threadsOf
  simp only [bind, StateT.bind]
  cases ran : daemon.parts.logged.platform.getTids p.pid held with
  | mk listed next =>
      cases ranToo : (answers.platform daemon.setup).getTids p.pid () with
      | mk listedToo nextToo =>
          rw [ran, ranToo] at asked
          subst asked
          simp only
          split <;> rfl

/-- The match, but for the one answer that the daemon can change itself. -/
theorem matched_under (hold : answers.Hold daemon.kernel.calls) (received : Process)
    (held : LoggedHost τ) :
    ∃ isRealtime, (daemon.parts.logged.matched inForce received held).1 =
      (daemon.matchUnder answers inForce received).map fun found =>
        { found with situation := { found.situation with isRealtime } } := by
  unfold Fixed.matchUnder Parts.matched
  by_cases idle : received.pid = 0
  · rw [if_pos idle, if_pos idle]
    exact ⟨false, rfl⟩
  · rw [if_neg idle, if_neg idle]
    have named := resolveName_under hold received held
    cases resolved : Worker.resolveName daemon.parts.logged.platform received held with
    | mk p afterName =>
        cases resolvedToo : Worker.resolveName (answers.platform daemon.setup) received () with
        | mk q done =>
            rw [resolved, resolvedToo] at named
            subst named
            have platformUnder : (daemon.partsUnder answers).platform =
              answers.platform daemon.setup := rfl
            have cratesUnder : (daemon.partsUnder answers).crates =
              daemon.parts.logged.crates := rfl
            simp only [bind, StateT.bind, resolved, platformUnder, resolvedToo, cratesUnder]
            cases inForce.store.lookup daemon.parts.logged.crates (lookupName p.name) with
            | none => exact ⟨false, rfl⟩
            | some answer =>
                let asked := daemon.parts.logged.platform.isRealtime p.pid afterName
                let found : List Int32 → Option Matched := fun tids =>
                  some ⟨answer.1, daemon.worker, p, tids, answer.2.accessors, inForce.config,
                    asked.1, daemon.setup.isCgroupV2, daemon.setup.isCgroupV2,
                    maxCores daemon.setup⟩
                exact ⟨asked.1, congrArg found (threadsOf_under hold p asked.2)⟩

/-- A request that the tasks can show. -/
def shows (request : Setter) : Bool := decide (request.kind ≠ .cgroup)

theorem settle_hidden {request : Setter} (hidden : shows request = false)
    (tasks : Int32 → TaskState) : daemon.settle tasks request = tasks := by
  have isCgroup : request.kind = .cgroup := by simpa [shows] using hidden
  cases request with
  | addPidToCgroup pid cgroup => rfl
  | _ => exact absurd isCgroup (by simp [Setter.kind])

theorem foldl_settle_shown (requests : List Setter) (tasks : Int32 → TaskState) :
    (requests.filter shows).foldl daemon.settle tasks = requests.foldl daemon.settle tasks := by
  induction requests generalizing tasks with
  | nil => rfl
  | cons request rest inductionHypothesis =>
      cases shown : shows request with
      | true =>
          rw [List.filter_cons_of_pos shown]
          exact inductionHypothesis (daemon.settle tasks request)
      | false =>
          rw [List.filter_cons_of_neg (Bool.eq_false_iff.mp shown), List.foldl_cons,
            settle_hidden shown]
          exact inductionHypothesis tasks

theorem overruns_shown (requests : List Setter) :
    (∃ request ∈ requests.filter shows, Overruns (maxCores daemon.setup) request) ↔
      ∃ request ∈ requests, Overruns (maxCores daemon.setup) request := by
  constructor
  · intro given
    obtain ⟨request, member, overruns⟩ := given
    exact ⟨request, List.mem_of_mem_filter member, overruns⟩
  · intro given
    obtain ⟨request, member, overruns⟩ := given
    refine ⟨request, List.mem_filter.mpr ⟨member, ?_⟩, overruns⟩
    cases request with
    | setAffinity pid tids cpuset => rfl
    | _ => exact overruns.elim

/-- Real-time processes are kept out of cgroups, and that is all. -/
theorem planned_shown (situation : Situation) (isRealtime : Bool) :
    ({ situation with isRealtime }).planned.filter shows = situation.planned.filter shows := by
  unfold Situation.planned
  rw [List.filter_filterMap, List.filter_filterMap]
  apply List.filterMap_congr
  intro kind _
  by_cases isCgroup : kind = .cgroup
  · have hidden : ∀ other : Situation, (other.request kind).filter shows = none := by
      intro other
      cases requested : other.request kind with
      | none => rfl
      | some request =>
          have isHidden : shows request = false := by
            rw [shows, Situation.kind_request requested, isCgroup]
            decide
          exact Option.filter_some_neg isHidden
    rw [hidden, hidden]
  · cases kind <;> first | rfl | exact absurd rfl isCgroup

theorem turn_shown (hold : answers.Hold daemon.kernel.calls) (received : Process)
    (held : LoggedHost τ) :
    (Turn.planned ⟨received, (daemon.parts.logged.matched inForce received held).1⟩).filter shows =
      (daemon.plannedUnder answers inForce received).filter shows := by
  obtain ⟨isRealtime, matched⟩ := @matched_under _ _ _ daemon answers inForce hold received held
  unfold Fixed.plannedUnder Turn.planned
  rw [matched]
  cases daemon.matchUnder answers inForce received with
  | none => rfl
  | some found => exact planned_shown found.situation isRealtime

/-- The requests of a batch are those of its messages. -/
theorem turns_shown (hold : answers.Hold daemon.kernel.calls) (batch : List Process)
    (spec : Spec (LoggedHost τ) ρ) (isInForce : spec.inForce = inForce) :
    ((daemon.parts.logged.turns (batch.map .alone) spec).flatMap Turn.planned).filter shows =
      (batch.flatMap (daemon.plannedUnder answers inForce)).filter shows := by
  induction batch generalizing spec with
  | nil => rfl
  | cons received rest inductionHypothesis =>
      subst isInForce
      have later := inductionHypothesis
        (daemon.parts.logged.specStep (.message received []) spec) rfl
      have undisturbed : spec.inForce.seen daemon.parts.logged.crates [] = spec.inForce := rfl
      rw [List.map_cons, Event.alone, Parts.turns, undisturbed, List.flatMap_cons,
        List.flatMap_cons, List.filter_append, List.filter_append, turn_shown hold, later]

theorem settleMessage_again (received : Process) (tasks : Int32 → TaskState) :
    daemon.settleMessage answers inForce (daemon.settleMessage answers inForce tasks received)
        received = daemon.settleMessage answers inForce tasks received := by
  apply Updates.foldl_again (fun request _ => daemon.kernel.settle_again _ request)
  intro left inLeft right inRight now
  by_cases same : left.kind = right.kind
  · have isSame : left = right := by
      unfold Fixed.plannedUnder Turn.planned at inLeft inRight
      cases matched : daemon.matchUnder answers inForce received with
      | none =>
          rw [matched] at inLeft
          exact (List.not_mem_nil inLeft).elim
      | some found =>
          rw [matched] at inLeft inRight
          exact Situation.eq_of_kind_planned inLeft inRight same
    rw [isSame]
  · exact daemon.kernel.settle_commute _ same now

theorem settleMessage_commute {left right : Process} (agree : daemon.Agree answers inForce left right)
    (tasks : Int32 → TaskState) :
    daemon.settleMessage answers inForce (daemon.settleMessage answers inForce tasks left) right =
      daemon.settleMessage answers inForce (daemon.settleMessage answers inForce tasks right)
        left := by
  cases agree with
  | inl same =>
      unfold Fixed.settleMessage
      rw [same]
  | inr apart =>
      apply Updates.foldl_commute
      intro first inLeft second inRight now
      exact daemon.kernel.settle_commute_apart _ (apart first inLeft second inRight) now

theorem names_messages (batch : List Process) (state : WorkLoop.State (LoggedHost τ) ρ κ) :
    (daemon.parts.logged.run (batch.map .alone) state).running.rules.names =
      state.running.rules.names := by
  induction batch generalizing state with
  | nil => rfl
  | cons received rest inductionHypothesis =>
      exact (inductionHypothesis (daemon.parts.logged.step (.message received []) state)).trans
        (names_handle state.running.config received state.host state.running.rules)

/-- What a batch leaves behind, after any events. -/
theorem settled_batch (accepts : daemon.kernel.AcceptsAll) (hold : answers.Hold daemon.kernel.calls)
    (args : Args) (startup : Moment) (host : Host τ) (before : List WorkLoop.Event)
    (batch : List Process)
    (isInForce : inForceAfter daemon.crates before (.started daemon.crates startup) = inForce)
    (notFull : (daemon.run args startup host before).running.rules.names.NotFull) :
    let earlier := (daemon.run args startup host before).host.1
    let reached := (daemon.run args startup host (before ++ batch.map .alone)).host.1
    (reached.aborted = true ↔ earlier.aborted = true ∨
      ∃ received ∈ batch, ∃ request ∈ daemon.plannedUnder answers inForce received,
        Overruns (maxCores daemon.setup) request) ∧
    (reached.aborted = false → daemon.tasks reached =
      batch.foldl (daemon.settleMessage answers inForce) (daemon.tasks earlier)) := by
  intro earlier reached
  have started := related_started daemon.parts.logged args startup (host, []) notFull
  let spec : Spec (LoggedHost τ) ρ :=
    daemon.parts.logged.specRun before (.started (.started daemon.crates startup) (host, []))
  have related : Related daemon.parts.logged spec (daemon.run args startup host before) :=
    related_run started before notFull
  have runs : daemon.run args startup host (before ++ batch.map .alone) =
      daemon.parts.logged.run (batch.map .alone) (daemon.run args startup host before) :=
    List.foldl_append
  have sameNames := @names_messages _ _ _ daemon batch (daemon.run args startup host before)
  have settled := settled_run accepts related (by rw [sameNames]; exact notFull)
  rw [← runs] at settled
  have shown := @turns_shown _ _ _ daemon answers inForce hold batch spec
    ((inForce_specRun daemon.parts.logged before _).trans isInForce)
  have spared : ∀ task, daemon.Spared (batch.map .alone) task := by
    intro task isProbing
    obtain ⟨received, _, isMessage⟩ := List.mem_map.mp isProbing
    exact nomatch isMessage
  constructor
  · rw [settled.dies]
    apply or_congr Iff.rfl
    rw [← overruns_shown, shown, overruns_shown]
    simp only [List.mem_flatMap]
    constructor
    · intro given
      obtain ⟨request, ⟨received, member, planned⟩, overruns⟩ := given
      exact ⟨received, member, request, planned, overruns⟩
    · intro given
      obtain ⟨received, member, request, planned, overruns⟩ := given
      exact ⟨request, ⟨received, member, planned⟩, overruns⟩
  · intro alive
    funext task
    rw [settled.lives alive task (spared task), ← foldl_settle_shown (List.flatMap _ _), shown,
      foldl_settle_shown, List.foldl_flatMap]
    rfl

end Batches

end AnanicyRs.Daemon.TaskRuns
