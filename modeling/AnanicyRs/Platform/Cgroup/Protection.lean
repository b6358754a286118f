import AnanicyRs.Platform.Cgroup.Containment

/-!
Contract: foreign structural protection on cgroup v2.

Owns the statement that the daemon makes directories and writes control files only
at or below its delegated root, over every sequence of requests, with one
exception the code means to make: an existing `cpu.weight` of any cgroup.

`ensure_child` breaks it in two ways, and `ChildSpares` names them: a name that
denotes the delegated root itself makes it write the `cgroup.subtree_control` of the
root's parent, and a root whose own parent is missing makes `create_dir_all` build
the directories above it.
-/

set_option autoImplicit false

namespace AnanicyRs.Platform.Cgroup

open AnanicyRs.Lib
open AnanicyRs.Lib.UnixPath
open AnanicyRs.Lib.FileSystem
open AnanicyRs.Lib.StateInvariant

/-! ## The delegated subtree -/

/-- `path` starts with the delegated root. When the mount point has no `..` of its
own, `path` has none after the root either. -/
def UnderRoot (manager : CgroupManager) (root : String) (path : Path) : Prop :=
  components root <+: path ∧
    (Component.parentDir ∉ components manager.info.mountPoint →
      AtOrBelow (components root) path)

theorem UnderRoot.join {manager : CgroupManager} {root : String} {path : Path}
    (under : UnderRoot manager root path) {file : String}
    (clean : Component.parentDir ∉ bodyComponents file.toList) :
    UnderRoot manager root (UnixPath.join path file) :=
  ⟨under.1.trans (List.prefix_append path _), fun mountClean => (under.2 mountClean).join clean⟩

theorem UnderRoot.dropLast {manager : CgroupManager} {root : String} {path : Path}
    (under : UnderRoot manager root path) (strict : path ≠ components root) :
    UnderRoot manager root path.dropLast :=
  ⟨prefix_dropLast under.1 strict, fun mountClean => (under.2 mountClean).dropLast strict⟩

theorem ownership_owned {manager : CgroupManager} {target : String}
    (owned : ownership manager target = .owned) :
    ∃ root, manager.delegatedRoot = some root ∧ components root <+: components target := by
  unfold ownership classify at owned
  split at owned
  · simp at owned
  · cases delegated : manager.delegatedRoot with
    | none => simp [delegated] at owned
    | some root =>
        refine ⟨root, rfl, ?_⟩
        by_contra outside
        simp [delegated, outside] at owned

theorem ownership_ne_legacy {manager : CgroupManager} (version : manager.info.version = .v2)
    (target : String) : ownership manager target ≠ .legacy := by
  unfold ownership classify
  rw [version]
  cases manager.delegatedRoot with
  | none => simp
  | some root => by_cases inside : components root <+: components target <;> simp [inside]

/-- An owned target lies in the delegated subtree. A relative name starts at the
root; an absolute one starts at the mount point or spells a whole path, and adds
no `..` to it. -/
theorem underRoot_of_owned {manager : CgroupManager} {name target : String}
    (version : manager.info.version = .v2)
    (resolved : resolveTargetDir manager name = some target)
    (owned : ownership manager target = .owned) :
    ∃ root, manager.delegatedRoot = some root ∧ UnderRoot manager root (components target) := by
  obtain ⟨root, delegated, startsWith⟩ := ownership_owned owned
  refine ⟨root, delegated, startsWith, fun mountClean => ?_⟩
  have belowOfClean (clean : Component.parentDir ∉ components target) :
      AtOrBelow (components root) (components target) :=
    (atOrBelow_iff _ _).mpr ⟨startsWith, fun member => clean (List.mem_of_mem_drop member)⟩
  cases double : startsWithDoubleSlash name with
  | true =>
      -- What follows the first slash is absolute and replaces the whole path.
      obtain ⟨rfl, _, noDots⟩ := resolved_of_doubleSlash double resolved
      exact belowOfClean (parentDir_notMem_components (relativeName_noDots noDots))
  | false =>
      have below := resolved_below double resolved
      cases absoluteName : Text.startsWithChar name '/' with
      | false =>
          have baseIsRoot : nameBase manager name = root := by
            simp [nameBase, version, absoluteName, delegated]
          rw [← baseIsRoot]
          exact below
      | true =>
          have baseIsMount : nameBase manager name = manager.info.mountPoint := by
            simp [nameBase, version, absoluteName]
          obtain ⟨rest, isTarget, restClean⟩ := below
          rw [baseIsMount] at isTarget
          apply belowOfClean
          rw [isTarget, List.mem_append]
          exact not_or.mpr ⟨mountClean, restClean⟩

/-! ## Protected effects -/

/-- An effect in the delegated subtree, or a write to a `cpu.weight` that was there. -/
def Protected (manager : CgroupManager) (effect : Effect) : Prop :=
  (∃ root, manager.delegatedRoot = some root ∧ UnderRoot manager root effect.action.path) ∨
    ∃ dir text, effect.action = .write (join dir "cpu.weight") text ∧
      effect.before.isFile (join dir "cpu.weight") = true

/-- `ensure_child` of `name` has no reason to leave the delegated subtree: when the
target is owned, the root or the directory it lies in is there, and when the target
is the root, the `cgroup.subtree_control` above it cannot be opened. -/
def ChildSpares (manager : CgroupManager) (machine : Machine) (name : String) (world : World) :
    Prop :=
  ∀ root target, manager.delegatedRoot = some root →
    resolveTargetDir manager name = some target → components root <+: components target →
      Grounded (components root) world.fs ∧
        (components target = components root → ∀ up, parent (components root) = some up →
          (world.fs.isFile (join up "cgroup.subtree_control") &&
            !machine.kernel.refusesOpen world.fs (join up "cgroup.subtree_control")) = false)

/-- The requests that `ensure_child` is part of, with the condition on it. -/
def Spares (manager : CgroupManager) (machine : Machine) (world : World) (request : Request) :
    Prop :=
  match request.operation with
  | .ensureChild => ChildSpares manager machine request.name world
  | .createCgroup _ =>
      TargetMissing manager request.name world → ChildSpares manager machine request.name world
  | _ => True

section Steps

variable {manager : CgroupManager} {machine : Machine}

def Guarded (manager : CgroupManager) : World → Prop :=
  Within (Protected manager) fun _ => True

theorem protected_file {name target file : String} (version : manager.info.version = .v2)
    (resolved : resolveTargetDir manager name = some target)
    (clean : Component.parentDir ∉ bodyComponents file.toList)
    (owned : ownership manager target ≠ .foreign) (fs : Fs) (text : String) :
    Protected manager ⟨fs, .write (join (components target) file) text⟩ := by
  have isOwned : ownership manager target = .owned := by
    cases owner : ownership manager target with
    | legacy => exact absurd owner (ownership_ne_legacy version target)
    | owned => rfl
    | foreign => exact absurd owner owned
  obtain ⟨root, delegated, under⟩ := underRoot_of_owned version resolved isOwned
  exact .inl ⟨root, delegated, under.join clean⟩

theorem ensureChild_guarded (version : manager.info.version = .v2) (name : String) :
    Ensures (fun world => Guarded manager world ∧ ChildSpares manager machine name world)
      (ensureChild manager machine name) fun _ => Guarded manager := by
  unfold ensureChild
  cases resolved : resolveTargetDir manager name with
  | none => exact ensures_pure fun _ given => given.1
  | some target =>
      simp only
      cases owner : ownership manager target with
      | foreign => exact ensures_pure fun _ given => given.1
      | legacy => exact absurd owner (ownership_ne_legacy version target)
      | owned =>
          obtain ⟨root, delegated, under⟩ := underRoot_of_owned version resolved owner
          have enabled : Ensures
              (fun world => Guarded manager world ∧ ChildSpares manager machine name world)
              (enableCpu machine target)
              fun _ => Within (Protected manager) (Grounded (components root)) := by
            refine enableCpu_ensures (keptByDirs_grounded _) ?_ ?_
            · rintro world ⟨guarded, spares⟩
              exact ⟨guarded.log, (spares root target delegated resolved under.1).1⟩
            · rintro up above world ⟨_, spares⟩ opened
              by_cases isRoot : components target = components root
              · have closed := (spares root target delegated resolved under.1).2 isRoot up
                  (isRoot ▸ above)
                rw [closed] at opened
                exact absurd opened (by decide)
              · obtain ⟨_, rfl⟩ := parent_eq_some above
                exact .inl ⟨root, delegated,
                  (under.dropLast isRoot).join (controlFile_clean _ (by simp))⟩
          have made : Ensures (Within (Protected manager) (Grounded (components root)))
              (ensureDir machine target) fun _ => Guarded manager := by
            refine (ensureDir_maintains (fun _ below strict => UnderRoot.dropLast below strict)
              (fun _ _ below => .inl ⟨root, delegated, below⟩) under).mono (fun _ => id) ?_
            intro _ world within
            exact ⟨within.log, trivial⟩
          exact ensures_bind enabled fun _ => made

/-- One request keeps the record protected when `ensure_child` spares the outside. -/
theorem serve_guarded (version : manager.info.version = .v2) (world : World)
    (request : Request) (guarded : Guarded manager world)
    (spares : Spares manager machine world request) :
    Guarded manager (serve manager machine request world) := by
  have quotas : ∀ target, resolveTargetDir manager request.name = some target → ∀ quota,
      Maintains (Guarded manager) (setCpuMax manager machine target quota) := by
    intro target resolved quota
    apply setCpuMax_maintains keptByDirs_true quota
    intro owned fs text file member
    exact protected_file version resolved
      (controlFile_clean file (by simp at member ⊢; tauto)) owned fs text
  have weights : ∀ target, resolveTargetDir manager request.name = some target → ∀ weight,
      Maintains (Guarded manager) (setCpuWeight manager machine target weight) := by
    intro target _ weight
    apply setCpuWeight_maintains keptByDirs_true weight
    intro fs text file isWeight present
    rw [if_pos version] at isWeight
    subst isWeight
    exact .inr ⟨components target, text, rfl, present⟩
  unfold serve perform
  unfold Spares at spares
  cases chosen : request.operation with
  | ensureChild =>
      rw [chosen] at spares
      exact ensures_bind (ensureChild_guarded version request.name)
        (fun _ => maintains_pure _) world ⟨guarded, spares⟩
  | movePid reads pid =>
      refine onTarget_maintains (fun target resolved => ?_) world guarded
      apply movePid_maintains keptByDirs_true reads pid
      intro owned fs text file member
      exact protected_file version resolved
        (controlFile_clean file (by simp at member ⊢; tauto)) owned fs text
  | setCpuMax quota =>
      exact onTarget_maintains (fun target resolved => quotas target resolved quota) world guarded
  | setCpuWeight weight =>
      exact onTarget_maintains (fun target resolved => weights target resolved weight) world guarded
  | createCgroup settings =>
      rw [chosen] at spares
      -- The condition is needed only on the branch that found the target missing.
      have children : Ensures (fun current => (Guarded manager current ∧
            (TargetMissing manager request.name current →
              ChildSpares manager machine request.name current)) ∧
            TargetMissing manager request.name current)
          (ensureChild manager machine request.name) fun _ => Guarded manager :=
        (ensureChild_guarded version request.name).mono
          (fun _ given => ⟨given.1.1, given.1.2 given.2⟩) fun _ _ => id
      exact createCgroup_ensures settings (fun _ given => given.1) children quotas weights world
        ⟨guarded, spares⟩

end Steps

/-- In every run of requests on cgroup v2 in which `ensure_child` spares the
outside, every directory made and every file written in any state reached is in the
delegated subtree, or is a `cpu.weight` that was there already. -/
theorem serve_protected (manager : CgroupManager) (machine : Machine)
    (version : manager.info.version = .v2) (requests : List Request) (fs : Fs)
    (spares : Admits (serve manager machine) (Spares manager machine) requests ⟨fs, []⟩) :
    ∀ reached ∈ states (serve manager machine) requests ⟨fs, []⟩,
      ∀ effect ∈ reached.log, Protected manager effect := by
  intro reached member
  have start : Guarded manager ⟨fs, []⟩ := ⟨by simp, trivial⟩
  exact (invariant_of_admits (serve_guarded version) requests _ start spares reached member).log

/-! ## A service with a delegated root -/

def serviceManager : CgroupManager :=
  ⟨⟨.v2, "/sys/fs/cgroup"⟩, some "/sys/fs/cgroup/ananicy"⟩

def openMachine : Machine := ⟨Kernel.permissive, 1, id⟩

def serviceTree : Fs :=
  Fs.ofLists ["/sys/fs/cgroup", "/sys/fs/cgroup/ananicy"]
    ["/sys/fs/cgroup/cgroup.subtree_control", "/sys/fs/cgroup/ananicy/cgroup.subtree_control"]

/-- A request for a child of the service is in the delegated subtree. -/
theorem serve_protected_child :
    (serve serviceManager openMachine ⟨"games", .ensureChild⟩ ⟨serviceTree, []⟩).log.map
        Effect.action =
      [.write (components
          "/sys/fs/cgroup/ananicy/cgroup.subtree_control") "+cpu\n",
        .createDir (components "/sys/fs/cgroup/ananicy/games")] ∧
      ∀ effect ∈ (serve serviceManager openMachine ⟨"games", .ensureChild⟩ ⟨serviceTree, []⟩).log,
        Protected serviceManager effect := by
  refine ⟨by decide +kernel, ?_⟩
  refine serve_protected serviceManager openMachine rfl [⟨"games", .ensureChild⟩] serviceTree
    ⟨?_, trivial⟩ _ (by simp [states])
  intro root target delegated resolved _
  obtain rfl := Option.some.inj delegated
  obtain rfl := Option.some.inj ((by decide +kernel : resolveTargetDir serviceManager "games" =
    some "/sys/fs/cgroup/ananicy/games").symm.trans resolved)
  refine ⟨.inl (by decide +kernel), fun isRoot => ?_⟩
  exact absurd isRoot (by decide +kernel)

/-- The empty name denotes the delegated root, and `ensure_child` writes the
`cgroup.subtree_control` of the cgroup above it. -/
theorem ensureChild_writes_above_root :
    ∃ effect ∈ (serve serviceManager openMachine ⟨"", .ensureChild⟩ ⟨serviceTree, []⟩).log,
      effect.action = .write (components "/sys/fs/cgroup/cgroup.subtree_control")
        "+cpu\n" ∧ ¬ Protected serviceManager effect := by
  have writes : (serve serviceManager openMachine ⟨"", .ensureChild⟩ ⟨serviceTree, []⟩).log.map
      Effect.action = [.write (components "/sys/fs/cgroup/cgroup.subtree_control")
        "+cpu\n"] := by decide +kernel
  obtain ⟨effect, member, isWrite⟩ := List.mem_map.mp (writes.symm ▸ List.mem_singleton_self _)
  refine ⟨effect, member, isWrite, ?_⟩
  intro given
  rcases given with ⟨root, delegated, startsWith, _⟩ | ⟨dir, text, isWeight, _⟩
  · obtain rfl := Option.some.inj delegated
    rw [isWrite] at startsWith
    exact absurd startsWith (by decide +kernel)
  · have lastName := congrArg (fun action => (Action.path action).getLast?)
      (isWrite.symm.trans isWeight)
    have weightLast : (join dir "cpu.weight").getLast? = some (.normal "cpu.weight") := by
      rw [join, show bodyComponents "cpu.weight".toList = [.normal "cpu.weight"] by decide +kernel,
        List.getLast?_concat]
    exact absurd (lastName.trans weightLast) (by decide +kernel)

end AnanicyRs.Platform.Cgroup
