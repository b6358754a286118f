import AnanicyRs.Core.Rules
import AnanicyRs.Daemon.CgroupRules
import AnanicyRs.Platform.Cgroup.Frame
import Mathlib.Data.List.TakeWhile

/-!
Contract: the cgroups of the loaded rules (`create_cgroups` of `src/runtime.rs`).

Owns the pass over all `.cgroups` rules, in the order in which an iteration of the map meets
them; what such a pass may do to the cgroup file system (`Creates`), and what it leaves
behind (`createCgroups_made`): every cgroup that the daemon may make is there, or its own
creation failed at its turn.

The manager is built before the pass. The number of cgroups is only logged.
-/

set_option autoImplicit false

namespace AnanicyRs.Daemon

open AnanicyRs.Core
open AnanicyRs.Lib.Json
open AnanicyRs.Lib.UnixPath AnanicyRs.Lib.FileSystem
open AnanicyRs.Lib.StateInvariant
open AnanicyRs.Platform.Cgroup

/-- What one `.cgroups` rule asks for. -/
def cgroupRequest (entry : Sigma fun _ : String => Document) : Request :=
  ⟨entry.1, .createCgroup (settingsFromRule entry.2.value)⟩

def cgroupRequests (order : IterationOrder) (cgroups : AList fun _ : String => Document) :
    List Request :=
  (order.visit cgroups.entries).map cgroupRequest

def createCgroups (manager : CgroupManager) (machine : Machine) (order : IterationOrder)
    (cgroups : AList fun _ : String => Document) (world : World) : World :=
  (cgroupRequests order cgroups).foldl (fun now request => serve manager machine request now) world

/-! ## What a pass may do -/

def settingFiles : List String :=
  ["cpu.max", "cpu.cfs_period_us", "cpu.cfs_quota_us", "cpu.weight", "cpu.shares"]

/-- What `create_cgroup` may do for a name: directories on the way to its target, one word to
the `cgroup.subtree_control` above it, and the settings in it. -/
def Creates (manager : CgroupManager) (name : String) (effect : Effect) : Prop :=
  ∃ target, resolveTargetDir manager name = some target ∧
    ((∃ made, effect.action = .createDir made ∧ made <+: components target ∧
        ownership manager target ≠ .foreign) ∨
      (∃ up, parent (components target) = some up ∧ ownership manager target = .owned ∧
        effect.action = .write (join up "cgroup.subtree_control") "+cpu\n") ∨
      ∃ file ∈ settingFiles, ∃ text,
        effect.action = .write (join (components target) file) text)

section Pass

variable {manager : CgroupManager} {machine : Machine} {permitted : Effect → Prop}
  {condition : Fs → Prop}

theorem ensureDir_within (kept : KeptByDirs condition) {target : String}
    (allowed : ∀ fs made, made <+: components target → permitted ⟨fs, .createDir made⟩) :
    Maintains (Within permitted condition) (ensureDir machine target) := by
  apply maintains_bind (pathExists_maintains _ _)
  intro present
  apply maintains_ite (maintains_pure _)
  -- The first component has its parent, so there is nothing to assume about the tree.
  have grounded : ∀ world, Within permitted condition world → Grounded [] world.fs :=
    fun _ _ => .inr rfl
  have upward : ∀ path, path <+: components target → path ≠ [] →
      path.dropLast <+: components target :=
    fun path toTarget _ => (List.dropLast_prefix path).trans toTarget
  have made : Maintains (Within permitted condition)
      (createDirAll machine.kernel (components target)) :=
    createDirAll_keeps grounded upward
      (fun path toTarget => mkdir_maintains kept fun fs => allowed fs path toTarget)
      List.prefix_rfl
  apply maintains_bind made
  intro answer
  cases answer with
  | ok _ => exact maintains_pure _
  | error _ => exact maintains_pure _

theorem ensureChild_creates (kept : KeptByDirs condition) (name : String)
    (allowed : ∀ effect, Creates manager name effect → permitted effect) :
    Maintains (Within permitted condition) (ensureChild manager machine name) := by
  unfold ensureChild
  cases resolved : resolveTargetDir manager name with
  | none => exact maintains_pure _
  | some target =>
      have made : ownership manager target ≠ .foreign →
          Maintains (Within permitted condition) (ensureDir machine target) := by
        intro notForeign
        apply ensureDir_within kept
        intro fs path toTarget
        exact allowed _ ⟨target, resolved, .inl ⟨path, rfl, toTarget, notForeign⟩⟩
      simp only
      cases owner : ownership manager target with
      | foreign => exact maintains_pure _
      | legacy => exact made (by simp [owner])
      | owned =>
          apply maintains_bind _ fun _ => made (by simp [owner])
          apply enableCpu_ensures kept fun _ within => within
          intro up above world within opened
          exact allowed _ ⟨target, resolved, .inr (.inl ⟨up, above, owner, rfl⟩)⟩

theorem createCgroup_creates (kept : KeptByDirs condition) (name : String)
    (settings : CgroupSettings)
    (allowed : ∀ effect, Creates manager name effect → permitted effect) :
    Maintains (Within permitted condition) (createCgroup manager machine name settings) := by
  have setting : ∀ target, resolveTargetDir manager name = some target → ∀ fs text file,
      file ∈ settingFiles → permitted ⟨fs, .write (join (components target) file) text⟩ :=
    fun target resolved fs text file member =>
      allowed _ ⟨target, resolved, .inr (.inr ⟨file, member, text, rfl⟩)⟩
  apply createCgroup_ensures settings fun _ within => within
  · exact (ensureChild_creates kept name allowed).mono (fun _ given => given.1)
      fun _ _ within => within
  · intro target resolved quota
    apply setCpuMax_maintains kept quota
    intro _ fs text file member
    apply setting target resolved fs text file
    simp only [settingFiles, List.mem_cons, List.not_mem_nil, or_false] at member ⊢
    tauto
  · intro target resolved weight
    apply setCpuWeight_maintains kept weight
    intro fs text file isFile _
    apply setting target resolved fs text file
    rw [isFile]
    split <;> decide

theorem serve_creates (kept : KeptByDirs condition) {entry : Sigma fun _ : String => Document}
    (allowed : ∀ effect, Creates manager entry.1 effect → permitted effect) {world : World}
    (within : Within permitted condition world) :
    Within permitted condition (serve manager machine (cgroupRequest entry) world) :=
  createCgroup_creates kept entry.1 (settingsFromRule entry.2.value) allowed world within

/-- A pass does for each declared name what `create_cgroup` may do, and nothing else. -/
theorem createCgroups_creates (kept : KeptByDirs condition) (order : IterationOrder)
    (cgroups : AList fun _ : String => Document)
    (allowed : ∀ name ∈ cgroups, ∀ effect, Creates manager name effect → permitted effect)
    {world : World} (within : Within permitted condition world) :
    Within permitted condition (createCgroups manager machine order cgroups world) := by
  have declared : ∀ entry ∈ order.visit cgroups.entries, entry.1 ∈ cgroups := by
    intro entry member
    exact AList.mem_keys.mpr (List.mem_map_of_mem ((order.perm cgroups.entries).mem_iff.mp member))
  unfold createCgroups cgroupRequests
  generalize order.visit cgroups.entries = entries at declared ⊢
  induction entries generalizing world with
  | nil => exact within
  | cons entry rest inductionHypothesis =>
      apply inductionHypothesis
      · exact serve_creates kept (allowed entry.1 (declared entry List.mem_cons_self)) within
      · intro other member
        exact declared other (List.mem_cons_of_mem entry member)

/-! ## What a pass leaves behind -/

theorem keptByDirs_isDir (path : Path) : KeptByDirs fun fs => fs.isDir path = true :=
  fun _ _ dirsKept isDir => dirsKept path isDir

/-- `create_dir_all` is asked for the directory and returns an error, or a file is in its place. -/
def MakingFailed (machine : Machine) (target : String) (world : World) : Prop :=
  world.fs.isFile (components target) = true ∨
    (world.fs.pathExists (components target) = false ∧
      ∃ reason, (createDirAll machine.kernel (components target) world).1 = .error reason)

/-- `ensure_dir` leaves a directory, if it does not fail. -/
theorem ensureDir_made {target : String} (nonempty : components target ≠ []) (start : World) :
    Ensures (fun world => world = start) (ensureDir machine target) fun answer world =>
      MakingFailed machine target start ∨
        (answer ≠ none ∧ world.fs.isDir (components target) = true) := by
  refine ensures_bind (pathExists_ensures _ _) fun present => ?_
  refine ensures_ite (fun isPresent => ?_) fun isMissing => ?_
  · refine ensures_pure fun world given => ?_
    obtain ⟨rfl, answered⟩ := given
    cases isDir : world.fs.isDir (components target) with
    | true => exact .inr ⟨Option.some_ne_none _, rfl⟩
    | false => exact .inl (.inl (Fs.isFile_of_pathExists (answered.symm.trans isPresent) isDir))
  · have outcome : Ensures (fun world => world = start ∧
          present = world.fs.pathExists (components target))
        (createDirAll machine.kernel (components target)) fun result world =>
          (result = .ok () → world.fs.isDir (components target) = true) ∧
            ∀ reason, result = .error reason → MakingFailed machine target start := by
      rintro world ⟨rfl, answered⟩
      refine ⟨createDirAll_isDir (fun _ => True) nonempty world trivial, fun reason failed => ?_⟩
      exact .inr ⟨by rw [← answered]; exact Bool.not_eq_true _ ▸ isMissing, reason, failed⟩
    refine ensures_bind outcome fun result => ?_
    cases result with
    | ok _ => exact ensures_pure fun _ given => .inr ⟨Option.some_ne_none _, given.1 rfl⟩
    | error reason => exact ensures_pure fun _ given => .inl (given.2 reason rfl)

/-- What is there when `ensure_child` comes to make the directory of its target. -/
def beforeMaking (manager : CgroupManager) (machine : Machine) (target : String) (world : World) :
    World :=
  match ownership manager target with
  | .owned => (enableCpu machine target world).2
  | _ => world

/-- What `create_cgroup` finds in the place of the target is a file, or the directory is missing
and making it fails. -/
def CreationFailed (manager : CgroupManager) (machine : Machine) (target : String)
    (world : World) : Prop :=
  world.fs.isFile (components target) = true ∨
    (world.fs.pathExists (components target) = false ∧
      MakingFailed machine target (beforeMaking manager machine target world))

theorem ensureChild_made {name target : String}
    (resolved : resolveTargetDir manager name = some target)
    (notForeign : ownership manager target ≠ .foreign) (nonempty : components target ≠ [])
    (start : World) :
    Ensures (fun world => world = start) (ensureChild manager machine name) fun answer world =>
      MakingFailed machine target (beforeMaking manager machine target start) ∨
        (answer ≠ none ∧ world.fs.isDir (components target) = true) := by
  unfold ensureChild beforeMaking
  simp only [resolved]
  cases owner : ownership manager target with
  | foreign => exact absurd owner notForeign
  | legacy => exact ensureDir_made nonempty start
  | owned =>
      have enabled : Ensures (fun world => world = start) (enableCpu machine target)
          fun _ world => world = (enableCpu machine target start).2 :=
        fun world isStart => by rw [isStart]
      exact ensures_bind enabled fun _ => ensureDir_made nonempty (enableCpu machine target start).2

theorem applySettings_isDir (path : Path) (target : String) (settings : CgroupSettings) :
    Maintains (fun world : World => world.fs.isDir path = true)
      (applySettings manager machine target settings) := by
  have kept := keptByDirs_isDir path
  have within : Maintains (Within (fun _ => True) fun fs => fs.isDir path = true)
      (applySettings manager machine target settings) :=
    applySettings_maintains settings
      (fun quota => setCpuMax_maintains kept quota fun _ _ _ _ _ => trivial)
      fun weight => setCpuWeight_maintains kept weight fun _ _ _ _ _ => trivial
  exact within.mono (fun _ isDir => ⟨fun _ _ => trivial, isDir⟩) fun _ _ kept => kept.tree

/-- A cgroup that the daemon may make is there after its request, unless its creation failed. -/
theorem createCgroup_made {name target : String} (settings : CgroupSettings)
    (resolved : resolveTargetDir manager name = some target)
    (notForeign : ownership manager target ≠ .foreign) (nonempty : components target ≠ [])
    (start : World) :
    Ensures (fun world => world = start) (createCgroup manager machine name settings)
      fun _ world => CreationFailed manager machine target start ∨
        world.fs.isDir (components target) = true := by
  have settled : ∀ (applied : String) (created : Bool), Ensures
      (fun world : World => CreationFailed manager machine target start ∨
        world.fs.isDir (components target) = true)
      (do applySettings manager machine applied settings; pure created) fun _ world =>
        CreationFailed manager machine target start ∨
          world.fs.isDir (components target) = true := by
    intro applied created world given
    exact given.imp_right (applySettings_isDir (components target) applied settings world)
  have existing : Ensures (fun world => world = start) (existingTarget manager name)
      fun found world => world = start ∧
        (found ≠ none ↔ start.fs.pathExists (components target) = true) := by
    unfold existingTarget
    simp only [resolved]
    refine ensures_bind (pathExists_ensures _ _) fun present => ?_
    refine ensures_ite (fun isPresent => ?_) fun isMissing => ?_
    · refine ensures_pure fun world given => ⟨given.1, iff_of_true (Option.some_ne_none _) ?_⟩
      rw [← given.1, ← given.2]
      exact isPresent
    · refine ensures_pure fun world given => ⟨given.1, iff_of_false (fun found => found rfl) ?_⟩
      rw [← given.1, ← given.2]
      exact isMissing
  unfold createCgroup
  refine ensures_bind existing fun found => ?_
  cases found with
  | some applied =>
      refine (settled applied false).mono (fun world given => ?_) fun _ _ made => made
      have present := given.2.mp (Option.some_ne_none _)
      rw [given.1]
      cases isDir : start.fs.isDir (components target) with
      | true => exact .inr rfl
      | false => exact .inl (.inl (Fs.isFile_of_pathExists present isDir))
  | none =>
      have child : Ensures (fun world => world = start ∧
            ((none : Option String) ≠ none ↔ start.fs.pathExists (components target) = true))
          (ensureChild manager machine name) fun answer world =>
            CreationFailed manager machine target start ∨
              (answer ≠ none ∧ world.fs.isDir (components target) = true) := by
        intro world given
        have missing : start.fs.pathExists (components target) = false := by
          by_contra present
          exact given.2.mpr (Bool.not_eq_false _ ▸ present) rfl
        exact (ensureChild_made resolved notForeign nonempty start world given.1).imp_left
          fun failed => .inr ⟨missing, failed⟩
      refine ensures_bind child fun answer => ?_
      cases answer with
      | none => exact ensures_pure fun _ made => made.imp_right And.right
      | some applied =>
          exact (settled applied true).mono (fun _ made => made.imp_right And.right)
            fun _ _ made => made

theorem serve_isDir (path : Path) (entry : Sigma fun _ : String => Document) {world : World}
    (isDir : world.fs.isDir path = true) :
    (serve manager machine (cgroupRequest entry) world).fs.isDir path = true := by
  have within : Within (fun _ => True) (fun fs => fs.isDir path = true) world :=
    ⟨fun _ _ => trivial, isDir⟩
  exact (serve_creates (keptByDirs_isDir path) (fun _ _ => trivial) within).tree

theorem requests_isDir (path : Path) (entries : List (Sigma fun _ : String => Document))
    {world : World} (isDir : world.fs.isDir path = true) :
    ((entries.map cgroupRequest).foldl (fun now request => serve manager machine request now)
      world).fs.isDir path = true := by
  induction entries generalizing world with
  | nil => exact isDir
  | cons entry rest inductionHypothesis => exact inductionHypothesis (serve_isDir path entry isDir)

/-- The world in which a pass comes to the request for a name. -/
def atTurn (manager : CgroupManager) (machine : Machine) (requests : List Request) (name : String)
    (world : World) : World :=
  (requests.takeWhile fun request => request.name != name).foldl
    (fun now request => serve manager machine request now) world

/-- After a pass every declared cgroup that the daemon may make is there, unless its creation
failed when its turn came. -/
theorem createCgroups_made (order : IterationOrder) (cgroups : AList fun _ : String => Document)
    {name target : String} (declared : name ∈ cgroups)
    (resolved : resolveTargetDir manager name = some target)
    (notForeign : ownership manager target ≠ .foreign) (nonempty : components target ≠ [])
    (start : World) :
    (createCgroups manager machine order cgroups start).fs.isDir (components target) = true ∨
      CreationFailed manager machine target
        (atTurn manager machine (cgroupRequests order cgroups) name start) := by
  let isOther : (Sigma fun _ : String => Document) → Bool := fun entry => entry.1 != name
  have turn : (cgroupRequests order cgroups).takeWhile (fun request => request.name != name) =
      ((order.visit cgroups.entries).takeWhile isOther).map cgroupRequest := by
    rw [cgroupRequests, List.takeWhile_map]
    rfl
  have split := @List.takeWhile_append_dropWhile _ isOther (order.visit cgroups.entries)
  cases rest : (order.visit cgroups.entries).dropWhile isOther with
  | nil =>
      obtain ⟨entry, member, isName⟩ := List.mem_map.mp (AList.mem_keys.mp declared)
      have others := List.dropWhile_eq_nil_iff.mp rest entry
        ((order.perm cgroups.entries).mem_iff.mpr member)
      simp only [isOther, isName, bne_self_eq_false, Bool.false_eq_true] at others
  | cons entry after =>
      have isName : entry.1 = name := by
        have stops := List.head?_dropWhile_not isOther (order.visit cgroups.entries)
        simpa [rest, isOther] using stops
      subst isName
      have onwards : createCgroups manager machine order cgroups start =
          (after.map cgroupRequest).foldl (fun now request => serve manager machine request now)
            (serve manager machine (cgroupRequest entry)
              (atTurn manager machine (cgroupRequests order cgroups) entry.1 start)) := by
        rw [rest] at split
        rw [atTurn, turn, createCgroups, cgroupRequests]
        nth_rewrite 1 [← split]
        rw [List.map_append, List.foldl_append, List.map_cons, List.foldl_cons]
      rw [onwards]
      rcases @createCgroup_made manager machine entry.1 target (settingsFromRule entry.2.value)
        resolved notForeign nonempty _ _ rfl with failed | isDir
      · exact .inr failed
      · exact .inl (requests_isDir _ after isDir)

end Pass

end AnanicyRs.Daemon
