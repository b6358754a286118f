import AnanicyRs.Platform.Cgroup.Manager

/-!
Contract: what each cgroup operation makes and writes.

Owns one rule per operation, over an arbitrary notion of permitted effect: which
files it can write (`movePid_maintains`, `setCpuMax_maintains`,
`setCpuWeight_maintains`), which directories it can make (`ensureDir_maintains`),
and in which order `create_cgroup` calls the others (`createCgroup_ensures`).

Does not own where a target lies.
-/

set_option autoImplicit false

namespace AnanicyRs.Platform.Cgroup

open AnanicyRs.Lib
open AnanicyRs.Lib.UnixPath
open AnanicyRs.Lib.FileSystem
open AnanicyRs.Lib.StateInvariant

theorem controlFile_clean :
    ∀ file ∈ ["cgroup.subtree_control", "cgroup.procs", "tasks", "cpu.max",
      "cpu.cfs_period_us", "cpu.cfs_quota_us", "cpu.weight", "cpu.shares"],
      Component.parentDir ∉ bodyComponents file.toList := by
  decide

section Frames

variable {manager : CgroupManager} {machine : Machine} {permitted : Effect → Prop}
  {condition : Fs → Prop}

/-- A control file is written only if it was there. -/
theorem writeControl_maintains (kept : KeptByDirs condition) {path : Path} {text : String}
    (allowed : ∀ fs, fs.isFile path = true → permitted ⟨fs, .write path text⟩) :
    Maintains (Within permitted condition) (writeControl machine path text) := by
  refine ensures_bind (openForWrite_ensures _ _) fun opened => ?_
  refine ensures_ite (fun isOpen => ?_) fun _ => ensures_pure fun _ given => given.1
  refine writeAll_ensures kept (fun _ given => given.1) fun world given => allowed world.fs ?_
  exact ((Bool.and_eq_true _ _).mp (given.2.symm.trans isOpen)).1

theorem movePid_maintains (kept : KeptByDirs condition) (reads : PidReads) (pid : Int)
    {target : String}
    (allowed : ownership manager target ≠ .foreign → ∀ fs text file,
      file ∈ ["cgroup.procs", "tasks"] →
        permitted ⟨fs, .write (join (components target) file) text⟩) :
    Maintains (Within permitted condition) (movePid manager machine reads pid target) := by
  unfold movePid
  apply ensures_ite (fun _ => maintains_pure _)
  intro owned
  apply maintains_bind (pathExists_maintains _ _)
  intro present
  refine maintains_ite ?_ (maintains_pure _)
  apply maintains_bind (openForWrite_maintains _ _)
  intro opened
  refine maintains_ite ?_ (maintains_pure _)
  split
  · exact maintains_pure _
  · split
    · exact maintains_pure _
    · refine maintains_bind (writeAll_maintains kept fun fs => allowed owned fs _ _ ?_)
        fun written => maintains_ite (maintains_pure _) (maintains_pure _)
      split <;> simp

theorem setCpuMax_maintains (kept : KeptByDirs condition) {target : String} (quota : Nat)
    (allowed : ownership manager target ≠ .foreign → ∀ fs text file,
      file ∈ ["cpu.max", "cpu.cfs_period_us", "cpu.cfs_quota_us"] →
        permitted ⟨fs, .write (join (components target) file) text⟩) :
    Maintains (Within permitted condition) (setCpuMax manager machine target quota) := by
  unfold setCpuMax
  apply ensures_ite (fun _ => maintains_pure _)
  intro owned
  have writes : ∀ file ∈ ["cpu.max", "cpu.cfs_period_us", "cpu.cfs_quota_us"], ∀ text,
      Maintains (Within permitted condition)
        (writeControl machine (join (components target) file) text) :=
    fun file member text =>
      writeControl_maintains kept fun fs _ => allowed owned fs text file member
  apply maintains_ite (writes _ (by simp) _)
  apply maintains_bind (writes _ (by simp) _)
  intro written
  exact maintains_ite (writes _ (by simp) _) (maintains_pure _)

/-- The weight file of any target may be written, but it has to be there. -/
theorem setCpuWeight_maintains (kept : KeptByDirs condition) {target : String} (weight : Nat)
    (allowed : ∀ fs text file,
      file = (if manager.info.version = .v2 then "cpu.weight" else "cpu.shares") →
        fs.isFile (join (components target) file) = true →
          permitted ⟨fs, .write (join (components target) file) text⟩) :
    Maintains (Within permitted condition) (setCpuWeight manager machine target weight) := by
  unfold setCpuWeight
  refine ensures_ite (fun isV2 => ?_) fun notV2 => ?_
  · exact writeControl_maintains kept fun fs => allowed fs _ _ (by simp [isV2])
  · exact writeControl_maintains kept fun fs => allowed fs _ _ (by simp [notV2])

/-- The `cgroup.subtree_control` above a target is written only if it was there
and could be opened. -/
theorem enableCpu_ensures (kept : KeptByDirs condition) {before : World → Prop}
    {target : String} (within : ∀ world, before world → Within permitted condition world)
    (allowed : ∀ up, parent (components target) = some up → ∀ world, before world →
      (world.fs.isFile (join up "cgroup.subtree_control") &&
        !machine.kernel.refusesOpen world.fs (join up "cgroup.subtree_control")) = true →
      permitted ⟨world.fs, .write (join up "cgroup.subtree_control") "+cpu\n"⟩) :
    Ensures before (enableCpu machine target) fun _ => Within permitted condition := by
  unfold enableCpu
  cases above : parent (components target) with
  | none => exact ensures_pure within
  | some up =>
      refine ensures_bind (pathExists_maintains before _) fun present => ?_
      refine ensures_ite (fun _ => ?_) fun _ => ensures_pure within
      refine ensures_bind (openForWrite_ensures before _) fun opened => ?_
      refine ensures_ite (fun isOpen => ?_) fun _ => ensures_pure fun world given => within world given.1
      refine ensures_bind (writeAll_ensures kept (fun world given => within world given.1) ?_)
        fun _ => ensures_pure fun _ => id
      intro world given
      exact allowed up above world given.1 (given.2.symm.trans isOpen)

theorem ensureDir_maintains {anchor : Path} {below : Path → Prop} {target : String}
    (upward : ∀ made, below made → made ≠ anchor → below made.dropLast)
    (allowed : ∀ fs made, below made → permitted ⟨fs, .createDir made⟩)
    (here : below (components target)) :
    Maintains (Within permitted (Grounded anchor)) (ensureDir machine target) := by
  apply maintains_bind (pathExists_maintains _ _)
  intro present
  apply maintains_ite (maintains_pure _)
  apply maintains_bind (createDirAll_maintains upward allowed here)
  intro made
  cases made <;> exact maintains_pure _

theorem applySettings_maintains {inv : World → Prop} {target : String}
    (settings : CgroupSettings)
    (quotas : ∀ quota, Maintains inv (setCpuMax manager machine target quota))
    (weights : ∀ weight, Maintains inv (setCpuWeight manager machine target weight)) :
    Maintains inv (applySettings manager machine target settings) := by
  have weightStep : ∀ weight, Maintains inv (do
      let _ ← setCpuWeight manager machine target weight) :=
    fun weight => maintains_bind (weights weight) fun _ => maintains_pure _
  unfold applySettings
  cases settings.cpuQuota with
  | none =>
      cases settings.cpuWeight with
      | none => exact maintains_pure _
      | some weight => exact weightStep weight
  | some quota =>
      cases settings.cpuWeight with
      | none => exact maintains_bind (quotas quota) fun _ => maintains_pure _
      | some weight => exact maintains_bind (quotas quota) fun _ => weightStep weight

def TargetMissing (manager : CgroupManager) (name : String) (world : World) : Prop :=
  ∀ target, resolveTargetDir manager name = some target →
    world.fs.pathExists (components target) = false

theorem existingTarget_ensures (before : World → Prop) (name : String) :
    Ensures before (existingTarget manager name) fun found world =>
      before world ∧ match found with
        | some target => resolveTargetDir manager name = some target
        | none => TargetMissing manager name world := by
  unfold existingTarget
  cases resolved : resolveTargetDir manager name with
  | none =>
      refine ensures_pure fun world given => ⟨given, fun target found => ?_⟩
      rw [resolved] at found
      simp at found
  | some target =>
      refine ensures_bind (pathExists_ensures _ _) fun present => ?_
      refine ensures_ite (fun _ => ensures_pure fun _ given => ⟨given.1, rfl⟩) fun missing => ?_
      refine ensures_pure fun world given => ⟨given.1, fun other found => ?_⟩
      rw [resolved, Option.some.injEq] at found
      rw [← found, ← given.2]
      exact Bool.not_eq_true _ ▸ missing

theorem ensureDir_target (target : String) :
    Ensures (fun _ : World => True) (ensureDir machine target)
      fun answer _ => ∀ found, answer = some found → found = target := by
  have anyWorld : ∀ {α : Type} (program : Host α),
      Ensures (fun _ => True) program fun _ _ => True := fun _ _ _ => trivial
  refine ensures_bind (anyWorld _) fun present => ?_
  refine ensures_ite (fun _ => ?_) fun _ => ?_
  · exact ensures_pure fun _ _ found answer => (Option.some.inj answer).symm
  · refine ensures_bind (anyWorld _) fun made => ?_
    cases made with
    | ok made => exact ensures_pure fun _ _ found answer => (Option.some.inj answer).symm
    | error reason => exact ensures_pure fun _ _ found answer => by simp at answer

/-- Every child `ensure_child` answers with is the target of its name. -/
theorem ensureChild_ensures {before after : World → Prop} {name : String}
    (keeps : Ensures before (ensureChild manager machine name) fun _ => after) :
    Ensures before (ensureChild manager machine name) fun child world =>
      after world ∧ ∀ target, child = some target →
        resolveTargetDir manager name = some target := by
  intro world given
  refine ⟨keeps world given, ?_⟩
  intro found answer
  unfold ensureChild at answer
  cases resolved : resolveTargetDir manager name with
  | none =>
      rw [resolved] at answer
      have nothing : (none : Option String) = some found := answer
      exact absurd nothing (by simp)
  | some target =>
      rw [resolved] at answer
      simp only at answer
      cases owner : ownership manager target with
      | legacy =>
          rw [owner] at answer
          rw [ensureDir_target target world trivial found answer]
      | owned =>
          rw [owner] at answer
          rw [ensureDir_target target _ trivial found answer]
      | foreign =>
          rw [owner] at answer
          have nothing : (none : Option String) = some found := answer
          exact absurd nothing (by simp)

/-- What `create_cgroup` keeps, from what its calls keep. `ensure_child` runs only
when the target is missing. -/
theorem createCgroup_ensures {before inv : World → Prop} {name : String}
    (settings : CgroupSettings) (holds : ∀ world, before world → inv world)
    (children : Ensures (fun world => before world ∧ TargetMissing manager name world)
      (ensureChild manager machine name) fun _ => inv)
    (quotas : ∀ target, resolveTargetDir manager name = some target →
      ∀ quota, Maintains inv (setCpuMax manager machine target quota))
    (weights : ∀ target, resolveTargetDir manager name = some target →
      ∀ weight, Maintains inv (setCpuWeight manager machine target weight)) :
    Ensures before (createCgroup manager machine name settings) fun _ => inv := by
  have applied : ∀ target, resolveTargetDir manager name = some target → ∀ created : Bool,
      Maintains inv (do applySettings manager machine target settings; pure created) :=
    fun target resolved created =>
      maintains_bind (applySettings_maintains settings (quotas target resolved)
        (weights target resolved)) fun _ => maintains_pure created
  refine ensures_bind (existingTarget_ensures before name) fun found => ?_
  cases found with
  | some target =>
      intro world given
      exact applied target given.2 false world (holds world given.1)
  | none =>
      refine ensures_bind (ensureChild_ensures children) fun child => ?_
      cases child with
      | none => exact ensures_pure fun _ given => given.1
      | some target =>
          intro world given
          exact applied target (given.2 target rfl) true world given.1

theorem onTarget_maintains {inv : World → Prop} {name : String} {act : String → Host Bool}
    (acts : ∀ target, resolveTargetDir manager name = some target → Maintains inv (act target)) :
    Maintains inv (onTarget manager name act) := by
  unfold onTarget
  cases resolved : resolveTargetDir manager name with
  | none => exact maintains_pure _
  | some target => exact acts target resolved

end Frames

end AnanicyRs.Platform.Cgroup
