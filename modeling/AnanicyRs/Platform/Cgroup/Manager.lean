import AnanicyRs.Lib.FileSystem

/-!
Contract: the cgroup manager of `crates/ananicy-platform`.

Owns the model of `cgroup/manager.rs` and `cgroup/ownership.rs` (name resolution,
ownership classification and the four controller operations) and of
`cgroups.rs` (`create_cgroup`). Files and directories are read and written
through `Lib.FileSystem`, so every directory made and every write issued by an
operation is in the record of the world it leaves.

The set of cgroups already reported as weightless only suppresses repeated log
lines and is left out. What the kernel answers about a pid while `move_pid`
runs is an argument (`PidReads`), and so are the CPU count and the `f32`
scaling of a v1 weight (`Machine`).
-/

set_option autoImplicit false

namespace AnanicyRs.Platform.Cgroup

open AnanicyRs.Lib
open AnanicyRs.Lib.UnixPath
open AnanicyRs.Lib.FileSystem

/-! ## Data -/

inductive CgroupVersion where
  | none
  | v1
  | v2
deriving DecidableEq, Repr

structure CgroupInfo where
  version : CgroupVersion
  mountPoint : String
deriving DecidableEq, Repr

structure CgroupManager where
  info : CgroupInfo
  delegatedRoot : Option String
deriving DecidableEq, Repr

inductive CgroupOwnership where
  | legacy
  | owned
  | foreign
deriving DecidableEq, Repr

/-- What the process asks the operating system beyond the file system. -/
structure Machine where
  kernel : Kernel
  logicalCores : Nat
  /-- `(weight as f32 / 100.0 * 1024.0) as u32`. -/
  scaledShares : Nat → Nat

/-- The answers of procfs during one `move_pid`: the thread group, and the start
time before and after the write. -/
structure PidReads where
  tgid : Option Int
  startBefore : Option Nat
  startAfter : Option Nat
deriving DecidableEq, Repr

structure CgroupSettings where
  cpuQuota : Option Nat
  cpuWeight : Option Nat
deriving DecidableEq, Repr

/-! ## Names and ownership -/

/-- `joined`: `base` with each non-empty segment pushed. -/
def joined (base : String) (segments : List String) : String :=
  (segments.filter fun segment => !segment.isEmpty).foldl push (push "" base)

def relativeName (name : String) : String :=
  (Text.stripPrefixChar name '/').getD name

def resolveTargetDir (manager : CgroupManager) (name : String) : Option String :=
  if Text.contains name ".." then none
  else match manager.info.version with
    | .none => none
    | .v1 => some (joined manager.info.mountPoint ["cpu", relativeName name])
    | .v2 =>
        let base :=
          if Text.startsWithChar name '/' then manager.info.mountPoint
          else match manager.delegatedRoot with
            | some root => root
            | none => manager.info.mountPoint
        some (joined base [relativeName name])

def classify (targetPath : String) (delegatedRoot : Option String) (isV2 : Bool) :
    CgroupOwnership :=
  if !isV2 then .legacy
  else match delegatedRoot with
    | some root =>
        if components root <+: components targetPath then .owned else .foreign
    | none => .foreign

def ownership (manager : CgroupManager) (target : String) : CgroupOwnership :=
  classify target manager.delegatedRoot (manager.info.version == .v2)

/-! ## Operations -/

/-- Makes `target` unless it is there, and answers with it. -/
def ensureDir (machine : Machine) (target : String) : Host (Option String) := do
  if ← pathExists (components target) then pure (some target)
  else match ← createDirAll machine.kernel (components target) with
    | .ok () => pure (some target)
    | .error _ => pure none

/-- Asks for the cpu controller in the parent of `target`. A refusal is logged
and nothing else. -/
def enableCpu (machine : Machine) (target : String) : Host Unit := do
  match parent (components target) with
  | none => pure ()
  | some up =>
      let subtreeControl := join up "cgroup.subtree_control"
      if ← pathExists subtreeControl then
        if ← openForWrite machine.kernel subtreeControl then
          let _ ← writeAll machine.kernel subtreeControl "+cpu\n"
          pure ()
        else pure ()
      else pure ()

def ensureChild (manager : CgroupManager) (machine : Machine) (name : String) :
    Host (Option String) :=
  match resolveTargetDir manager name with
  | none => pure none
  | some target =>
      match ownership manager target with
      | .legacy => ensureDir machine target
      | .owned => do
          enableCpu machine target
          ensureDir machine target
      | .foreign => pure none

/-- `CgroupManager::move_pid`. The file is opened first; the pid is read last. -/
def movePid (manager : CgroupManager) (machine : Machine) (reads : PidReads) (pid : Int)
    (target : String) : Host Bool := do
  if ownership manager target = .foreign then pure false
  else if ← pathExists (components target) then
    let isV2 := manager.info.version == .v2
    let procsPath := join (components target) (if isV2 then "cgroup.procs" else "tasks")
    if ← openForWrite machine.kernel procsPath then
      match if isV2 then reads.tgid else some pid with
      | none => pure false
      | some pidToWrite =>
          match reads.startBefore with
          | none => pure false
          | some startTimeBefore =>
              if ← writeAll machine.kernel procsPath (toString pidToWrite ++ "\n") then
                pure (reads.startAfter == some startTimeBefore)
              else pure false
    else pure false
  else pure false

def v2PeriodUs : Nat := 100000
def v1PeriodUs : Nat := 1000000

def saturatingMul (a b : Nat) : Nat := min (a * b) (2 ^ 64 - 1)

def bandwidthUs (cores quota period : Nat) : Nat :=
  saturatingMul (saturatingMul period cores) (min quota 100) / 100

/-- Opens an existing control file and writes one value to it. -/
def writeControl (machine : Machine) (path : Path) (text : String) : Host Bool := do
  if ← openForWrite machine.kernel path then writeAll machine.kernel path text
  else pure false

def setCpuMax (manager : CgroupManager) (machine : Machine) (target : String)
    (quota : Nat) : Host Bool := do
  if ownership manager target = .foreign then pure false
  else
    let clampedQuota := min quota 100
    if manager.info.version = .v2 then
      let quotaVal := bandwidthUs machine.logicalCores clampedQuota v2PeriodUs
      writeControl machine (join (components target) "cpu.max")
        (toString quotaVal ++ " " ++ toString v2PeriodUs ++ "\n")
    else
      let quotaVal := bandwidthUs machine.logicalCores clampedQuota v1PeriodUs
      if ← writeControl machine (join (components target) "cpu.cfs_period_us")
          (toString v1PeriodUs ++ "\n") then
        writeControl machine (join (components target) "cpu.cfs_quota_us")
          (toString quotaVal ++ "\n")
      else pure false

/-- `CgroupManager::set_cpu_weight`. The ownership only chooses a log line. -/
def setCpuWeight (manager : CgroupManager) (machine : Machine) (target : String)
    (weight : Nat) : Host Bool :=
  if manager.info.version = .v2 then
    writeControl machine (join (components target) "cpu.weight")
      (toString (max 1 (min weight 10000)) ++ "\n")
  else
    writeControl machine (join (components target) "cpu.shares")
      (toString (max 2 (min (machine.scaledShares weight) 262144)) ++ "\n")

/-- Applies the settings a rule asks for to a cgroup that is there. -/
def applySettings (manager : CgroupManager) (machine : Machine) (target : String)
    (settings : CgroupSettings) : Host Unit := do
  match settings.cpuQuota with
  | some quota => let _ ← setCpuMax manager machine target quota
  | none => pure ()
  match settings.cpuWeight with
  | some weight => let _ ← setCpuWeight manager machine target weight
  | none => pure ()

/-- The target of a name, when it is there already. -/
def existingTarget (manager : CgroupManager) (cgroupName : String) : Host (Option String) :=
  match resolveTargetDir manager cgroupName with
  | some target => do
      if ← pathExists (components target) then pure (some target) else pure none
  | none => pure none

/-- `create_cgroup` with the manager already built: the settings are applied to
a cgroup that was there before too. -/
def createCgroup (manager : CgroupManager) (machine : Machine) (cgroupName : String)
    (settings : CgroupSettings) : Host Bool := do
  match ← existingTarget manager cgroupName with
  | some target =>
      applySettings manager machine target settings
      pure false
  | none =>
      match ← ensureChild manager machine cgroupName with
      | some target =>
          applySettings manager machine target settings
          pure true
      | none => pure false

/-! ## Requests -/

/-- What the daemon asks for one cgroup name. -/
inductive Operation where
  | ensureChild
  | movePid (reads : PidReads) (pid : Int)
  | setCpuMax (quota : Nat)
  | setCpuWeight (weight : Nat)
  | createCgroup (settings : CgroupSettings)
deriving DecidableEq, Repr

structure Request where
  name : String
  operation : Operation
deriving DecidableEq, Repr

/-- An operation on the target of a name; nothing when the name has none. -/
def onTarget (manager : CgroupManager) (name : String) (act : String → Host Bool) : Host Bool :=
  match resolveTargetDir manager name with
  | some target => act target
  | none => pure false

def perform (manager : CgroupManager) (machine : Machine) (request : Request) : Host Bool :=
  match request.operation with
  | .ensureChild => do
      let child ← ensureChild manager machine request.name
      pure child.isSome
  | .movePid reads pid => onTarget manager request.name (movePid manager machine reads pid)
  | .setCpuMax quota => onTarget manager request.name (setCpuMax manager machine · quota)
  | .setCpuWeight weight => onTarget manager request.name (setCpuWeight manager machine · weight)
  | .createCgroup settings => createCgroup manager machine request.name settings

def serve (manager : CgroupManager) (machine : Machine) (request : Request) (world : World) :
    World :=
  (perform manager machine request world).2

end AnanicyRs.Platform.Cgroup
