import AnanicyRs.Core.PlatformInvariant
import AnanicyRs.Core.RuleApplication
import AnanicyRs.Platform.Affinity.SetAffinity
import AnanicyRs.Platform.Cgroup.Protection
import AnanicyRs.Platform.IoPriority
import AnanicyRs.Platform.LatencyNice

/-!
Contract: the worker's platform on Linux (`impl PlatformActions for LinuxPlatform` of
`crates/ananicy-platform/src/lib.rs`).

Owns the way each setter takes to the kernel, `get_tids` of `procfs.rs`,
`set_oom_score_adjust` of `priority.rs`, and `add_pid_to_cgroup` and
`set_cpu_weight_for_cgroup` of `cgroups.rs` with the manager already built; and beside the
platform the probe of a reload. Calls that change a task are `Deed`s and go through one server;
what is done to the cgroup file system is in the record of the world. `perform_maintains` says
what a setter may touch.

What the kernel answers is an argument, and so are the name heuristics and the cached
resolver. The files a retry of `set_affinity` reads, and the answers about a pid that is
moved, are those at the start of the call. A cpuset that no mask can hold is a panic, which
aborts the daemon: nothing is asked of the kernel after it.
-/

set_option autoImplicit false

namespace AnanicyRs.Platform.Linux

open AnanicyRs.Core
open AnanicyRs.Lib
open AnanicyRs.Lib.ByteMask
open AnanicyRs.Lib.CallLog
open AnanicyRs.Lib.FileSystem (World Effect Host Action Fs KeptByDirs Within)
open AnanicyRs.Lib.StateInvariant
open AnanicyRs.Lib.UnixPath
open AnanicyRs.Platform.Affinity (CpuFiles getMaxNumberOfCpus)
open AnanicyRs.Platform.Cgroup (CgroupManager Machine PidReads resolveTargetDir ownership)
open AnanicyRs.Platform.Priority (Syscall SchedAttr)

variable {τ : Type} {α : Type}

/-! ## The machine -/

/-- What the platform does to a task. -/
inductive Deed where
  | syscall (call : Syscall)
  | schedSetaffinity (tid : Int32) (mask : Mask)
  /-- `fs::write` to `/proc/<pid>/oom_score_adj`. -/
  | writeOomScoreAdj (pid : Int32) (text : String)
deriving DecidableEq

def syscallTask : Syscall → Int32
  | .setpriority tid _ => tid
  | .schedSetattr tid _ => tid
  | .schedSetscheduler tid .. => tid
  | .ioprioSet who _ => who

def Deed.task : Deed → Int32
  | .syscall call => syscallTask call
  | .schedSetaffinity tid _ => tid
  | .writeOomScoreAdj pid _ => pid

/-- What the platform asks of the kernel, beside the cgroup file system. -/
structure Calls (τ : Type) where
  deed : Server τ Deed Errno
  schedGetattr : Int32 → StateM τ (Except Errno SchedAttr)
  /-- `get_command_from_pid`. -/
  commandName : Int32 → StateM τ String
  /-- The entries of `/proc/<pid>/task` that are text. -/
  taskNames : Int32 → StateM τ (Except Errno (List String))
  cpuFiles : StateM τ CpuFiles
  pidReads : Int32 → StateM τ PidReads
  /-- `process_cgroup`, as text. -/
  processCgroup : Int32 → StateM τ (Option String)

/-- What a started platform holds. -/
structure Setup where
  describe : Errno → String
  manager : CgroupManager
  machine : Machine
  sysconf : Int64
  isCgroupV2 : Bool

structure State (τ : Type) where
  kernel : τ
  world : World
  aborted : Bool

def onKernel (program : StateM τ α) : StateM (State τ) α := fun state =>
  let answered := program state.kernel
  (answered.1, { state with kernel := answered.2 })

def onWorld (program : Host α) : StateM (State τ) α := fun state =>
  let answered := program state.world
  (answered.1, { state with world := answered.2 })

/-! ## Calls -/

/-- A failed call on a file of procfs, by the kind of its error. -/
def fileError (describe : Errno → String) (error : Errno) : PlatformError :=
  if error = .noent then .notFound
  else if error = .access ∨ error = .perm then .permissionDenied
  else .io (error.toIoError describe)

def getTids (describe : Errno → String) (calls : Calls τ) (pid : Int32) :
    StateM τ (Except PlatformError (List Int32)) := do
  match ← calls.taskNames pid with
  | .ok names => pure (.ok (names.filterMap Text.parseI32))
  | .error error => pure (.error (fileError describe error))

/-- A task is realtime when it holds a static priority. -/
def isRealtime (calls : Calls τ) (pid : Int32) : StateM τ Bool := do
  match ← calls.schedGetattr pid with
  | .ok attr => pure (decide (0 < attr.schedPriority))
  | .error _ => pure false

def setOomScoreAdjust (describe : Errno → String) (calls : Calls τ) (pid value : Int32) :
    StateM τ (Except PlatformError Unit) := do
  match ← calls.deed (.writeOomScoreAdj pid (toString value)) with
  | .ok () => pure (.ok ())
  | .error error => pure (.error (fileError describe error))

/-- `test_latnice_support` of `priority.rs`. The calls of the source are on 0, the thread they are
made on; here it has its number, since the setters' calls come from another one. -/
def testLatniceSupport (calls : Calls τ) (thread : Int32) : StateM τ Bool := do
  let originalLatnice := (Priority.latencyNiceOf (← calls.schedGetattr thread)).getD 0
  match ← calls.deed (.syscall (.schedSetattr thread (Priority.probeAttr (-20)))) with
  | .ok () => do
      let _ ← calls.deed (.syscall (.schedSetattr thread (Priority.probeAttr originalLatnice)))
      return true
  | .error _ => pure false

def addPidToCgroup (setup : Setup) (reads : PidReads) (pid : Int32) (cgroupName : String) :
    Host (Except PlatformError Unit) :=
  match resolveTargetDir setup.manager cgroupName with
  | none => pure (.error .notFound)
  | some target => do
      if ← FileSystem.pathExists (components target) then
        if ← Cgroup.movePid setup.manager setup.machine reads pid.toInt target then pure (.ok ())
        else pure (.error .unsupported)
      else pure (.error .notFound)

/-- A cgroup that is there is not reported missing. -/
theorem addPidToCgroup_present {setup : Setup} {cgroupName target : String}
    (resolved : resolveTargetDir setup.manager cgroupName = some target) (reads : PidReads)
    (pid : Int32) :
    Ensures (fun world : World => world.fs.pathExists (components target) = true)
      (addPidToCgroup setup reads pid cgroupName) fun answer _ => answer ≠ .error .notFound := by
  unfold addPidToCgroup
  simp only [resolved]
  refine ensures_bind (FileSystem.pathExists_ensures _ _) fun present => ?_
  refine ensures_ite (fun _ => ?_) fun missing => ?_
  · have anything : ∀ before : World → Prop, Ensures before
        (Cgroup.movePid setup.manager setup.machine reads pid.toInt target) fun _ _ => True :=
      fun _ _ _ => trivial
    refine ensures_bind (anything _) fun moved => ?_
    exact ensures_ite (fun _ => ensures_pure fun _ _ => by simp)
      fun _ => ensures_pure fun _ _ => by simp
  · exact ensures_pure fun _ given => absurd (given.2.trans given.1) missing

def setCpuWeightForCgroup (setup : Setup) (cgroupName : String) (weight : UInt32) :
    Host (Except PlatformError Unit) :=
  match resolveTargetDir setup.manager cgroupName with
  | none => pure (.error .notFound)
  | some target => do
      if ← Cgroup.setCpuWeight setup.manager setup.machine target weight.toNat then pure (.ok ())
      else pure (.error .unsupported)

/-! ## The platform -/

section Platform

variable (setup : Setup) (calls : Calls τ)

def maxCores : Nat := (getMaxNumberOfCpus setup.sysconf).toNat

def setAffinity (pid : Int32) (tids : List Int32) (cpuset : CpuSet) :
    StateM (State τ) (Except PlatformError Unit) := do
  let files ← onKernel calls.cpuFiles
  match ← onKernel (Affinity.setAffinity setup.describe
      (fun call => calls.deed (.schedSetaffinity call.1 call.2)) files (maxCores setup) pid tids
      cpuset) with
  | some outcome => pure outcome
  | none => do
      modify fun state => { state with aborted := true }
      pure (.error .unsupported)

def setCpuWeight (pid : Int32) (weight : UInt32) :
    StateM (State τ) (Except PlatformError Unit) := do
  match ← onKernel (calls.processCgroup pid) with
  | none => pure (.error .notFound)
  | some path => onWorld (setCpuWeightForCgroup setup path weight)

/-- The setters of a daemon that is alive. -/
def performLive : Server (State τ) Setter PlatformError
  | .setPriority _ tids nice =>
      onKernel (Priority.setPriority setup.describe (calls.deed ∘ .syscall) tids nice)
  | .setCpuWeight pid weight => setCpuWeight setup calls pid weight
  | .setLatencyNice _ tids latNice =>
      onKernel (Priority.setLatencyNice setup.describe (calls.deed ∘ .syscall) tids latNice)
  | .setSched _ tids sched rtprio =>
      onKernel (Priority.setSched setup.describe (calls.deed ∘ .syscall) tids sched rtprio)
  | .setIoPriority pid ioclass ionice =>
      onKernel (Priority.setIoPriority setup.describe (calls.deed ∘ .syscall) pid ioclass ionice)
  | .setOomScoreAdj pid oomScoreAdj =>
      onKernel (setOomScoreAdjust setup.describe calls pid oomScoreAdj)
  | .addPidToCgroup pid cgroup => do
      let reads ← onKernel (calls.pidReads pid)
      onWorld (addPidToCgroup setup reads pid cgroup)
  | .setAffinity pid tids cpuset => setAffinity setup calls pid tids cpuset

def perform : Server (State τ) Setter PlatformError := fun setter state =>
  if state.aborted then (.error .unsupported, state) else performLive setup calls setter state

/-- `LinuxPlatform`. -/
def platform : Platform (State τ) where
  isRealtime pid := onKernel (isRealtime calls pid)
  getProcessName pid := onKernel (calls.commandName pid)
  getTids pid := onKernel (getTids setup.describe calls pid)
  isCgroupV2 := setup.isCgroupV2
  getMaxCores := maxCores setup
  perform := perform setup calls

end Platform

/-! ## What a setter may do -/

/-- A question beside a log. -/
def besideLog {ι : Type} (program : StateM τ α) : StateM (τ × Log ι Errno) α := fun held =>
  let answered := program held.1
  (answered.1, (answered.2, held.2))

/-- The calls with a log of the deeds. -/
def Calls.logged (calls : Calls τ) : Calls (τ × Log Deed Errno) where
  deed := CallLog.logged calls.deed
  schedGetattr pid := besideLog (calls.schedGetattr pid)
  commandName pid := besideLog (calls.commandName pid)
  taskNames pid := besideLog (calls.taskNames pid)
  cpuFiles := besideLog calls.cpuFiles
  pidReads pid := besideLog (calls.pidReads pid)
  processCgroup pid := besideLog (calls.processCgroup pid)

/-- Threads that were listed are entries of the task directory that are numbers. -/
theorem taskNames_of_getTids {describe : Errno → String} {calls : Calls τ} {pid : Int32}
    {tids : List Int32} {held : τ × Log Deed Errno}
    (listed : (getTids describe calls.logged pid held).1 = .ok tids) :
    ∃ names, (calls.taskNames pid held.1).1 = .ok names ∧ tids = names.filterMap Text.parseI32 := by
  unfold getTids at listed
  simp only [bind, StateT.bind, Calls.logged, besideLog] at listed
  cases answered : (calls.taskNames pid held.1).1 with
  | ok names =>
      rw [answered] at listed
      exact ⟨names, rfl, (Except.ok.inj listed).symm⟩
  | error error =>
      rw [answered] at listed
      have failed : Except.error (fileError describe error) = .ok tids := listed
      exact absurd failed (by simp)

/-- The number `move_pid` writes for a pid. -/
def movedNumber (manager : CgroupManager) (reads : PidReads) (pid : Int) : Option Int :=
  if manager.info.version == .v2 then reads.tgid else some pid

def procsFile (manager : CgroupManager) : String :=
  if manager.info.version == .v2 then "cgroup.procs" else "tasks"

def weightFile (manager : CgroupManager) : String :=
  if manager.info.version = .v2 then "cpu.weight" else "cpu.shares"

/-- What a setter asks of the kernel about tasks: the value it is for, on a task it names. -/
def Serves (setter : Setter) (deed : Deed) : Prop :=
  match setter with
  | .setPriority _ tids nice => ∃ tid ∈ tids, deed = .syscall (.setpriority tid nice)
  | .setLatencyNice _ tids latNice =>
      ∃ tid ∈ tids, deed = .syscall (.schedSetattr tid (Priority.latencyNiceAttr latNice))
  | .setSched _ tids sched rtprio =>
      ∃ tid ∈ tids, ∃ choice, Priority.schedChoice sched rtprio = some choice ∧
        deed = .syscall (.schedSetscheduler tid choice.policy.toInt32 choice.schedPriority)
  | .setIoPriority pid ioclass ionice =>
      ∃ ioClass, Priority.ioClassValue ioclass = some ioClass ∧
        Priority.ioprioValid ioClass = true ∧
        deed = .syscall (.ioprioSet pid (Priority.ioprioPrioValue ioClass ionice))
  | .setOomScoreAdj pid value => deed = .writeOomScoreAdj pid (toString value)
  | .setAffinity _ tids cpuset =>
      ∃ tid ∈ tids, ∃ mask, deed = .schedSetaffinity tid mask ∧
        ∀ cpu, testBit mask cpu = true → cpuset.hasCpu cpu = true
  | .setCpuWeight .. => False
  | .addPidToCgroup .. => False

theorem Serves.task {setter : Setter} {deed : Deed} (serves : Serves setter deed) :
    deed.task ∈ setter.tasks := by
  cases setter with
  | setPriority pid tids nice =>
      obtain ⟨tid, isTid, rfl⟩ := serves
      exact isTid
  | setLatencyNice pid tids latNice =>
      obtain ⟨tid, isTid, rfl⟩ := serves
      exact isTid
  | setSched pid tids sched rtprio =>
      obtain ⟨tid, isTid, choice, _, rfl⟩ := serves
      exact isTid
  | setIoPriority pid ioclass ionice =>
      obtain ⟨ioClass, _, _, rfl⟩ := serves
      exact List.mem_cons_self
  | setOomScoreAdj pid value =>
      obtain rfl := serves
      exact List.mem_cons_self
  | setAffinity pid tids cpuset =>
      obtain ⟨tid, isTid, mask, rfl, _⟩ := serves
      exact isTid
  | setCpuWeight pid weight => exact serves.elim
  | addPidToCgroup pid cgroup => exact serves.elim

/-- What a setter asks of the cgroup file system: a rule's cgroup takes in the process or
its thread group, and the cgroup that the process is in takes a weight. -/
def Asked (setup : Setup) (calls : Calls τ) (setter : Setter) (effect : Effect) : Prop :=
  match setter with
  | .addPidToCgroup pid cgroupName =>
      ∃ target kernel number, resolveTargetDir setup.manager cgroupName = some target ∧
        ownership setup.manager target ≠ .foreign ∧
        movedNumber setup.manager (calls.pidReads pid kernel).1 pid.toInt = some number ∧
        effect.action = .write (join (components target) (procsFile setup.manager))
          (toString number ++ "\n")
  | .setCpuWeight pid _ =>
      ∃ target kernel path text, (calls.processCgroup pid kernel).1 = some path ∧
        resolveTargetDir setup.manager path = some target ∧
        effect.action = .write (join (components target) (weightFile setup.manager)) text ∧
        effect.before.isFile (join (components target) (weightFile setup.manager)) = true
  | _ => False

/-- The kernel has an invariant, and the cgroup file system is within its bounds. -/
structure Done (inv : τ → Prop) (permitted : Effect → Prop) (condition : Fs → Prop)
    (state : State τ) : Prop where
  kernel : inv state.kernel
  world : Within permitted condition state.world

/-- No question takes the invariant away. -/
structure Calls.Asks (calls : Calls τ) (inv : τ → Prop) : Prop where
  schedGetattr : ∀ pid, Maintains inv (calls.schedGetattr pid)
  commandName : ∀ pid, Maintains inv (calls.commandName pid)
  taskNames : ∀ pid, Maintains inv (calls.taskNames pid)
  cpuFiles : Maintains inv calls.cpuFiles
  pidReads : ∀ pid, Maintains inv (calls.pidReads pid)
  processCgroup : ∀ pid, Maintains inv (calls.processCgroup pid)

/-! ## The probe -/

/-- What the probe does to a task: it gives the thread it runs on a latency nice. -/
def IsProbe (thread : Int32) (deed : Deed) : Prop :=
  ∃ value, deed = .syscall (.schedSetattr thread (Priority.probeAttr value))

theorem testLatniceSupport_maintains {calls : Calls τ} {inv : τ → Prop} {thread : Int32}
    (asked : Maintains inv (calls.schedGetattr thread))
    (kept : ∀ deed, IsProbe thread deed → Maintains inv (calls.deed deed)) :
    Maintains inv (testLatniceSupport calls thread) := by
  refine maintains_bind asked fun original => ?_
  refine maintains_bind (kept _ ⟨_, rfl⟩) fun answer => ?_
  cases answer with
  | ok _ => exact maintains_bind (kept _ ⟨_, rfl⟩) fun _ => maintains_pure _
  | error _ => exact maintains_pure _

/-- On the thread itself it is the probe of `Platform.LatencyNice`. -/
theorem testLatniceSupport_eq (kernel : Priority.SchedKernel τ) {calls : Calls τ}
    (deed : ∀ call, calls.deed (.syscall call) = kernel.server call)
    (schedGetattr : calls.schedGetattr = kernel.schedGetattr) :
    testLatniceSupport calls 0 = Priority.testLatniceSupport kernel := by
  unfold testLatniceSupport Priority.testLatniceSupport Priority.getLatencyNice
  simp only [deed, schedGetattr, bind_assoc, pure_bind]
  apply bind_congr
  intro original
  apply bind_congr
  intro probed
  cases probed <;> rfl

section Logs

variable {allowed : Deed → Prop}

/-- Every deed in the log is allowed. -/
def Allowed (allowed : Deed → Prop) (held : τ × Log Deed Errno) : Prop :=
  ∀ entry ∈ held.2, allowed entry.1

theorem asks_logged (calls : Calls τ) : calls.logged.Asks (Allowed allowed) where
  schedGetattr _ _ holds := holds
  commandName _ _ holds := holds
  taskNames _ _ holds := holds
  cpuFiles _ holds := holds
  pidReads _ _ holds := holds
  processCgroup _ _ holds := holds

theorem deed_maintains (calls : Calls τ) {deed : Deed} (isAllowed : allowed deed) :
    Maintains (Allowed allowed) (calls.logged.deed deed) := by
  intro held holds entry member
  rcases List.mem_append.mp member with before | new
  · exact holds entry before
  · rw [List.mem_singleton.mp new]
    exact isAllowed

/-- A log is no answer: what is asked of the file system is the same beside it. -/
theorem Asked.of_logged {setup : Setup} {calls : Calls τ} {setter : Setter} {effect : Effect}
    (asked : Asked setup calls.logged setter effect) : Asked setup calls setter effect := by
  cases setter with
  | addPidToCgroup pid cgroupName =>
      obtain ⟨target, kernel, number, resolved, owned, isNumber, written⟩ := asked
      exact ⟨target, kernel.1, number, resolved, owned, isNumber, written⟩
  | setCpuWeight pid weight =>
      obtain ⟨target, kernel, path, text, isPath, resolved, written, present⟩ := asked
      exact ⟨target, kernel.1, path, text, isPath, resolved, written, present⟩
  | _ => exact asked

end Logs

section Setters

variable {inv : τ → Prop} {permitted : Effect → Prop} {condition : Fs → Prop}

theorem onKernel_maintains {program : StateM τ α} (kept : Maintains inv program) :
    Maintains (Done inv permitted condition) (onKernel program) :=
  fun state holds => ⟨kept state.kernel holds.kernel, holds.world⟩

theorem onWorld_maintains {program : Host α}
    (kept : Maintains (Within permitted condition) program) :
    Maintains (Done inv permitted condition) (onWorld program) :=
  fun state holds => ⟨holds.kernel, kept state.world holds.world⟩

theorem forThreads_maintains (describe : Errno → String) (server : Server τ Syscall Errno)
    {request : Int32 → Syscall} (tids : List Int32)
    (kept : ∀ tid ∈ tids, Maintains inv (server (request tid))) :
    Maintains inv (Priority.forThreads describe server request tids) := by
  refine maintains_bind ?_ fun _ => maintains_pure _
  refine collect_maintains Sweep.record server _ (fun call member => ?_) _
  obtain ⟨tid, isTid, rfl⟩ := List.mem_map.mp member
  exact kept tid isTid

section Passes

variable (describe : Errno → String) (server : Server τ (Int32 × Mask) Errno) (tids : List Int32)

theorem applyToTids_maintains (mask : Mask)
    (kept : ∀ tid ∈ tids, Maintains inv (server (tid, mask))) :
    Maintains inv (Affinity.applyToTids describe server tids mask) := by
  refine maintains_bind ?_ fun _ => maintains_pure _
  refine collect_maintains Sweep.record server _ (fun call member => ?_) _
  obtain ⟨tid, isTid, rfl⟩ := List.mem_map.mp member
  exact kept tid isTid

/-- A retry asks the same threads for no other CPUs than the first pass. -/
theorem afterPass_maintains (files : CpuFiles) (pid : Int32) (mask : Mask) (numBytes : Nat)
    (outcome : Except Affinity.AffinityFailure Unit)
    (kept : ∀ tid ∈ tids, ∀ narrowed, (∀ cpu, testBit narrowed cpu = true → testBit mask cpu = true) →
      Maintains inv (server (tid, narrowed))) :
    Maintains inv (Affinity.afterPass describe server files pid tids mask numBytes outcome) := by
  unfold Affinity.afterPass
  split
  · unfold Affinity.narrowAndRetry
    split
    · exact maintains_pure _
    · unfold Affinity.retryWith
      simp only
      split
      · exact maintains_pure _
      · refine maintains_ite (maintains_pure _) (maintains_ite (maintains_pure _) ?_)
        refine maintains_bind (applyToTids_maintains describe server tids _ fun tid isTid => ?_)
          fun _ => maintains_pure _
        apply kept tid isTid
        intro cpu inBoth
        rw [testBit_and, Bool.and_eq_true] at inBoth
        exact inBoth.1
  · exact maintains_pure _
  · exact maintains_pure _

end Passes

variable (setup : Setup) (calls : Calls τ)

/-- Every deed that serves the setter leaves the invariant as it is. -/
def ServedBy (inv : τ → Prop) (setter : Setter) : Prop :=
  ∀ deed, Serves setter deed → Maintains inv (calls.deed deed)

theorem setSched_maintains (pid : Int32) (tids : List Int32) (sched : String) (rtprio : UInt32)
    (served : ServedBy calls inv (.setSched pid tids sched rtprio)) :
    Maintains inv (Priority.setSched setup.describe (calls.deed ∘ .syscall) tids sched rtprio) := by
  unfold Priority.setSched
  cases chosen : Priority.schedChoice sched rtprio with
  | none => exact maintains_pure _
  | some choice =>
      refine maintains_bind (forThreads_maintains setup.describe _ tids fun tid isTid => ?_)
        fun _ => maintains_pure _
      exact served _ ⟨tid, isTid, choice, chosen, rfl⟩

theorem setIoPriority_maintains (pid : Int32) (ioclass : String) (ionice : Int32)
    (served : ServedBy calls inv (.setIoPriority pid ioclass ionice)) :
    Maintains inv
      (Priority.setIoPriority setup.describe (calls.deed ∘ .syscall) pid ioclass ionice) := by
  unfold Priority.setIoPriority
  cases isClass : Priority.ioClassValue ioclass with
  | none => exact maintains_pure _
  | some ioClassValue =>
      apply ensures_ite fun _ => maintains_pure _
      intro valid
      refine maintains_bind ?_ fun _ => maintains_pure _
      exact served _ ⟨ioClassValue, isClass, by simpa using valid, rfl⟩

theorem setOomScoreAdjust_maintains (pid value : Int32)
    (served : ServedBy calls inv (.setOomScoreAdj pid value)) :
    Maintains inv (setOomScoreAdjust setup.describe calls pid value) := by
  refine maintains_bind (served _ rfl) fun answer => ?_
  cases answer with
  | ok _ => exact maintains_pure _
  | error error => exact maintains_pure _

/-- The first pass and the retry ask the same threads, the retry for fewer CPUs. -/
theorem setAffinity_maintains (files : CpuFiles) (numCpus : Nat) (pid : Int32)
    (tids : List Int32) (cpuset : CpuSet)
    (served : ServedBy calls inv (.setAffinity pid tids cpuset)) :
    Maintains inv
      (Affinity.setAffinity setup.describe
        (fun call => calls.deed (.schedSetaffinity call.1 call.2)) files numCpus pid tids
        cpuset) := by
  unfold Affinity.setAffinity
  apply maintains_ite (maintains_pure _)
  cases built : Affinity.maskFrom cpuset numCpus with
  | none => exact maintains_pure _
  | some mask =>
      have within : ∀ cpu, testBit mask cpu = true → cpuset.hasCpu cpu = true :=
        fun cpu isSet => ((Affinity.testBit_maskFrom built cpu).mp isSet).1
      have asked : ∀ tid ∈ tids, ∀ narrowed,
          (∀ cpu, testBit narrowed cpu = true → testBit mask cpu = true) →
            Maintains inv (calls.deed (.schedSetaffinity tid narrowed)) := by
        intro tid isTid narrowed fewer
        apply served
        exact ⟨tid, isTid, narrowed, rfl, fun cpu isSet => within cpu (fewer cpu isSet)⟩
      refine maintains_bind ?_ fun outcome => maintains_bind ?_ fun _ => maintains_pure _
      · exact applyToTids_maintains setup.describe _ tids mask fun tid isTid =>
          asked tid isTid mask fun _ isSet => isSet
      · exact afterPass_maintains setup.describe _ tids files pid mask _ outcome asked

theorem movePid_permits (kept : KeptByDirs condition) (reads : PidReads) (pid : Int) {target : String}
    (arePermitted : ownership setup.manager target ≠ .foreign → ∀ fs number,
      movedNumber setup.manager reads pid = some number →
        permitted ⟨fs, .write (join (components target) (procsFile setup.manager))
          (toString number ++ "\n")⟩) :
    Maintains (Within permitted condition)
      (Cgroup.movePid setup.manager setup.machine reads pid target) := by
  unfold Cgroup.movePid
  apply ensures_ite (fun _ => maintains_pure _)
  intro owned
  apply maintains_bind (FileSystem.pathExists_maintains _ _)
  intro present
  refine maintains_ite ?_ (maintains_pure _)
  apply maintains_bind (FileSystem.openForWrite_maintains _ _)
  intro opened
  refine maintains_ite ?_ (maintains_pure _)
  cases number : (if setup.manager.info.version == .v2 then reads.tgid else some pid) with
  | none => exact maintains_pure _
  | some pidToWrite =>
      cases reads.startBefore with
      | none => exact maintains_pure _
      | some startTimeBefore =>
          refine maintains_bind ?_ fun written =>
            maintains_ite (maintains_pure _) (maintains_pure _)
          exact FileSystem.writeAll_maintains kept fun fs =>
            arePermitted owned fs pidToWrite number

theorem addPidToCgroup_permits (kept : KeptByDirs condition) (reads : PidReads) (pid : Int32)
    (cgroupName : String)
    (arePermitted : ∀ target, resolveTargetDir setup.manager cgroupName = some target →
      ownership setup.manager target ≠ .foreign → ∀ fs number,
        movedNumber setup.manager reads pid.toInt = some number →
          permitted ⟨fs, .write (join (components target) (procsFile setup.manager))
            (toString number ++ "\n")⟩) :
    Maintains (Within permitted condition)
      (addPidToCgroup setup reads pid cgroupName) := by
  unfold addPidToCgroup
  cases resolved : resolveTargetDir setup.manager cgroupName with
  | none => exact maintains_pure _
  | some target =>
      apply maintains_bind (FileSystem.pathExists_maintains _ _)
      intro present
      refine maintains_ite ?_ (maintains_pure _)
      apply maintains_bind
        (movePid_permits setup kept reads pid.toInt (arePermitted target resolved))
      intro moved
      exact maintains_ite (maintains_pure _) (maintains_pure _)

theorem setCpuWeightForCgroup_permits (kept : KeptByDirs condition) (cgroupName : String)
    (weight : UInt32)
    (arePermitted : ∀ target, resolveTargetDir setup.manager cgroupName = some target →
      ∀ fs text, fs.isFile (join (components target) (weightFile setup.manager)) = true →
        permitted ⟨fs, .write (join (components target) (weightFile setup.manager)) text⟩) :
    Maintains (Within permitted condition)
      (setCpuWeightForCgroup setup cgroupName weight) := by
  unfold setCpuWeightForCgroup
  cases resolved : resolveTargetDir setup.manager cgroupName with
  | none => exact maintains_pure _
  | some target =>
      refine maintains_bind ?_ fun written => maintains_ite (maintains_pure _) (maintains_pure _)
      apply Cgroup.setCpuWeight_maintains kept weight.toNat
      intro fs text file isWeight present
      subst isWeight
      exact arePermitted target resolved fs text present

theorem isRealtime_maintains (asks : calls.Asks inv) (pid : Int32) :
    Maintains inv (isRealtime calls pid) := by
  refine maintains_bind (asks.schedGetattr pid) fun answer => ?_
  cases answer with
  | ok attr => exact maintains_pure _
  | error error => exact maintains_pure _

theorem getTids_maintains (asks : calls.Asks inv) (describe : Errno → String) (pid : Int32) :
    Maintains inv (getTids describe calls pid) := by
  refine maintains_bind (asks.taskNames pid) fun answer => ?_
  cases answer with
  | ok names => exact maintains_pure _
  | error error => exact maintains_pure _

/-- Whatever it is answered, a setter asks the kernel only for its own value on tasks it
names, and asks of the cgroup file system only what `Asked` says. -/
theorem perform_maintains (kept : KeptByDirs condition) (asks : calls.Asks inv) (setter : Setter)
    (served : ServedBy calls inv setter)
    (arePermitted : ∀ effect, Asked setup calls setter effect → permitted effect) :
    Maintains (Done inv permitted condition) (perform setup calls setter) := by
  have live : Maintains (Done inv permitted condition) (performLive setup calls setter) := by
    cases setter with
    | setPriority pid tids nice =>
        refine onKernel_maintains (forThreads_maintains setup.describe _ tids fun tid isTid => ?_)
        exact served _ ⟨tid, isTid, rfl⟩
    | setLatencyNice pid tids latNice =>
        refine onKernel_maintains (forThreads_maintains setup.describe _ tids fun tid isTid => ?_)
        exact served _ ⟨tid, isTid, rfl⟩
    | setSched pid tids sched rtprio =>
        exact onKernel_maintains (setSched_maintains setup calls pid tids sched rtprio served)
    | setIoPriority pid ioclass ionice =>
        exact onKernel_maintains (setIoPriority_maintains setup calls pid ioclass ionice served)
    | setOomScoreAdj pid oomScoreAdj =>
        exact onKernel_maintains (setOomScoreAdjust_maintains setup calls pid oomScoreAdj served)
    | setAffinity pid tids cpuset =>
        refine maintains_bind (onKernel_maintains asks.cpuFiles) fun files => ?_
        refine maintains_bind (onKernel_maintains
          (setAffinity_maintains setup calls files _ pid tids cpuset served)) fun outcome => ?_
        cases outcome with
        | some answer => exact maintains_pure answer
        | none =>
            have aborts : Maintains (Done inv permitted condition)
                (modify fun state => { state with aborted := true }) :=
              fun _ holds => ⟨holds.kernel, holds.world⟩
            exact maintains_bind aborts fun _ => maintains_pure _
    | setCpuWeight pid weight =>
        have resolve : Ensures (Done inv permitted condition)
            (onKernel (calls.processCgroup pid)) fun path state =>
              Done inv permitted condition state ∧ ∃ kernel, (calls.processCgroup pid kernel).1 = path :=
          fun state holds => ⟨onKernel_maintains (asks.processCgroup pid) state holds,
            state.kernel, rfl⟩
        refine ensures_bind resolve fun path => ?_
        cases path with
        | none => exact ensures_pure fun _ given => given.1
        | some path =>
            intro state given
            obtain ⟨kernel, isPath⟩ := given.2
            refine onWorld_maintains ?_ state given.1
            apply setCpuWeightForCgroup_permits setup kept
            intro target resolved fs text present
            exact arePermitted _ ⟨target, kernel, path, text, isPath, resolved, rfl, present⟩
    | addPidToCgroup pid cgroupName =>
        have read : Ensures (Done inv permitted condition)
            (onKernel (calls.pidReads pid)) fun reads state =>
              Done inv permitted condition state ∧ ∃ kernel, (calls.pidReads pid kernel).1 = reads :=
          fun state holds => ⟨onKernel_maintains (asks.pidReads pid) state holds, state.kernel, rfl⟩
        refine ensures_bind read fun reads => ?_
        intro state given
        obtain ⟨kernel, isRead⟩ := given.2
        refine onWorld_maintains ?_ state given.1
        apply addPidToCgroup_permits setup kept
        intro target resolved owned fs number isNumber
        rw [← isRead] at isNumber
        exact arePermitted _ ⟨target, kernel, number, resolved, owned, isNumber, rfl⟩
  intro state holds
  unfold perform
  split
  · exact holds
  · exact live state holds

end Setters

/-! ## The panic -/

/-- A CPU set that `mask_from` cannot build a mask for: one of its CPUs lies beyond the last
full byte. -/
def Overruns (numCpus : Nat) : Setter → Prop
  | .setAffinity _ _ cpuset =>
      ∃ cpu, cpuset.hasCpu cpu = true ∧ cpu < numCpus ∧ 8 * (numCpus / 8) ≤ cpu
  | _ => False

theorem not_overruns_of_dvd {numCpus : Nat} (full : 8 ∣ numCpus) (setter : Setter) :
    ¬ Overruns numCpus setter := by
  cases setter with
  | setAffinity pid tids cpuset =>
      intro overruns
      obtain ⟨cpu, _, below, beyond⟩ := overruns
      rw [Nat.mul_div_cancel' full] at beyond
      omega
  | _ => exact id

theorem maskFrom_eq_none_iff (pid : Int32) (tids : List Int32) (cpuset : CpuSet) (numCpus : Nat) :
    Affinity.maskFrom cpuset numCpus = none ↔ Overruns numCpus (.setAffinity pid tids cpuset) := by
  have isSome := Affinity.maskFrom_isSome_iff cpuset numCpus
  rw [← Option.not_isSome_iff_eq_none, isSome]
  show _ ↔ ∃ cpu, cpuset.hasCpu cpu = true ∧ cpu < numCpus ∧ 8 * (numCpus / 8) ≤ cpu
  push Not
  rfl

/-- `set_affinity` panics exactly on a set that overruns the mask, whatever the kernel says. -/
theorem setAffinity_eq_none_iff (describe : Errno → String) (server : Server τ (Int32 × Mask) Errno)
    (files : CpuFiles) (numCpus : Nat) (pid : Int32) (tids : List Int32) (cpuset : CpuSet)
    (kernel : τ) :
    (Affinity.setAffinity describe server files numCpus pid tids cpuset kernel).1 = none ↔
      Overruns numCpus (.setAffinity pid tids cpuset) := by
  rw [← maskFrom_eq_none_iff]
  unfold Affinity.setAffinity
  cases built : Affinity.maskFrom cpuset numCpus with
  | some mask =>
      split
      · exact iff_of_false (fun answered => Option.some_ne_none _ answered) (by simp)
      · exact iff_of_false (fun answered => Option.some_ne_none _ answered) (by simp)
  | none =>
      split
      next empty =>
        have has : ∃ cpu, cpuset.hasCpu cpu = true := by
          obtain ⟨cpu, has, _⟩ := (maskFrom_eq_none_iff pid tids cpuset numCpus).mp built
          exact ⟨cpu, has⟩
        rw [(CpuSet.isEmpty_eq_false_iff cpuset).mpr has] at empty
        exact Bool.noConfusion empty
      · exact iff_of_true rfl rfl

theorem onKernel_alive (program : StateM τ α) :
    Maintains (fun state : State τ => state.aborted = false) (onKernel program) :=
  fun _ alive => alive

theorem onWorld_alive (program : Host α) :
    Maintains (fun state : State τ => state.aborted = false) (onWorld program) :=
  fun _ alive => alive

/-- A live daemon is aborted by a set that overruns the mask, and by nothing else. -/
theorem performLive_aborted (setup : Setup) (calls : Calls τ) (setter : Setter) :
    Ensures (fun state : State τ => state.aborted = false) (performLive setup calls setter)
      fun _ state => (state.aborted = true ↔ Overruns (maxCores setup) setter) := by
  have survives : ∀ {program : StateM (State τ) (Except PlatformError Unit)},
      Maintains (fun state => state.aborted = false) program →
        ¬ Overruns (maxCores setup) setter →
          Ensures (fun state => state.aborted = false) program fun _ state =>
            (state.aborted = true ↔ Overruns (maxCores setup) setter) :=
    fun alive fits => alive.mono (fun _ given => given) fun _ _ given =>
      iff_of_false (by rw [given]; decide) fits
  cases setter with
  | setPriority pid tids nice => exact survives (onKernel_alive _) id
  | setLatencyNice pid tids latNice => exact survives (onKernel_alive _) id
  | setSched pid tids sched rtprio => exact survives (onKernel_alive _) id
  | setIoPriority pid ioclass ionice => exact survives (onKernel_alive _) id
  | setOomScoreAdj pid value => exact survives (onKernel_alive _) id
  | addPidToCgroup pid cgroup =>
      exact survives (maintains_bind (onKernel_alive _) fun _ => onWorld_alive _) id
  | setCpuWeight pid weight =>
      refine survives (maintains_bind (onKernel_alive _) fun path => ?_) id
      cases path with
      | none => exact maintains_pure _
      | some path => exact onWorld_alive _
  | setAffinity pid tids cpuset =>
      refine ensures_bind (onKernel_alive _) fun files => ?_
      have outcomes : Ensures (fun state : State τ => state.aborted = false)
          (onKernel (Affinity.setAffinity setup.describe
            (fun call => calls.deed (.schedSetaffinity call.1 call.2)) files (maxCores setup) pid
            tids cpuset))
          fun outcome state => state.aborted = false ∧
            (outcome = none ↔ Overruns (maxCores setup) (.setAffinity pid tids cpuset)) :=
        fun state alive => ⟨alive, setAffinity_eq_none_iff setup.describe _ files _ pid tids cpuset
          state.kernel⟩
      refine ensures_bind outcomes fun outcome => ?_
      cases outcome with
      | some answer =>
          refine ensures_pure fun state given => ?_
          exact iff_of_false (by rw [given.1]; decide) fun overruns =>
            Option.some_ne_none answer (given.2.mpr overruns)
      | none => exact fun state given => iff_of_true rfl (given.2.mp rfl)

theorem perform_aborted_iff (setup : Setup) (calls : Calls τ) (setter : Setter)
    (state : State τ) :
    (perform setup calls setter state).2.aborted = true ↔
      state.aborted = true ∨ Overruns (maxCores setup) setter := by
  unfold perform
  split
  next aborted => exact iff_of_true aborted (.inl aborted)
  next alive =>
    have isAlive : state.aborted = false := Bool.not_eq_true _ ▸ alive
    have outcome : (performLive setup calls setter state).2.aborted = true ↔
        Overruns (maxCores setup) setter := performLive_aborted setup calls setter state isAlive
    rw [outcome, isAlive]
    simp

end AnanicyRs.Platform.Linux
