import AnanicyRs.Platform.Cgroup.CpuTree
import AnanicyRs.Platform.Cgroup.Protection

/-!
Contract: the cpu controller along the path of a cgroup that `ensure_child` makes.

`CpuUsable` is what a `.cgroups` rule needs of its target, and `CpuPrepared` is the state
before the call that decides whether `ensure_child` gets there: it writes `+cpu` to the
parent of the target only, and before the parent is made.

Does not own the moves of processes.
-/

set_option autoImplicit false

namespace AnanicyRs.Platform.Cgroup

open AnanicyRs.Lib
open AnanicyRs.Lib.UnixPath
open AnanicyRs.Lib.FileSystem
open AnanicyRs.Lib.StateInvariant

/-! ## Targets -/

/-- The cpu controller is enabled from `root` down to the parent of `target`, and the
files of the controller are in `target`. -/
structure CpuUsable (root target : Path) (fs : Fs) : Prop where
  enabled : ∀ dir, root <+: dir → dir <+: target.dropLast → cpuEnabled fs dir = true
  files : ∀ file ∈ cpuFiles, fs.isFile (join target file) = true

/-- The parent of `target` is there and everything above it has the controller; nothing
else has taken the name of the target or those of its cpu files. -/
structure CpuPrepared (root target : Path) (fs : Fs) : Prop where
  parent : fs.isDir target.dropLast = true
  above : ∀ dir, root <+: dir → dir <+: target.dropLast → dir ≠ target.dropLast →
    cpuEnabled fs dir = true
  notFile : fs.isFile target = false
  free : ∀ file ∈ cpuFiles, fs.isDir (join target file) = false

/-- In a cgroup tree the controller above the target decides about the files in it. -/
theorem CgroupTree.cpuUsable_iff {root target : Path} {fs : Fs} (tree : CgroupTree root fs)
    (below : root <+: target) (strict : target ≠ root) :
    CpuUsable root target fs ↔
      (∀ dir, root <+: dir → dir <+: target.dropLast → cpuEnabled fs dir = true) ∧
        fs.isDir target = true ∧ ∀ file ∈ cpuFiles, fs.isDir (join target file) = false := by
  have parentBelow : root <+: target.dropLast := prefix_dropLast below strict
  constructor
  · intro usable
    refine ⟨usable.enabled, ?_, ?_⟩
    · have present := Fs.pathExists_of_isFile (usable.files "cpu.max" (by decide))
      rw [join_cpuFile target "cpu.max" (by decide)] at present
      exact tree.isDir_of_entry below present
    · intro file member
      exact Fs.isDir_eq_false_of_isFile (usable.files file member)
  · rintro ⟨enabled, isDir, free⟩
    refine ⟨enabled, fun file member => ?_⟩
    rw [tree.exposes target below strict isDir file member]
    exact ⟨enabled _ parentBelow List.prefix_rfl, free file member⟩

/-! ## Making the target -/

/-- `after` has grown out of `before` by directories on the way to `target`. -/
structure Grown (root target : Path) (before after : Fs) : Prop where
  tree : CgroupTree root after
  cpu : ∀ dir, cpuEnabled after dir = cpuEnabled before dir
  kept : ∀ path, before.isDir path = true → after.isDir path = true
  fresh : ∀ path, after.isDir path = true → before.isDir path = true ∨ path <+: target

section Made

variable {root target made : Path} {before : Fs} {machine : Machine}

theorem Grown.refl (tree : CgroupTree root before) : Grown root target before before :=
  ⟨tree, fun _ => rfl, fun _ => id, fun _ => .inl⟩

theorem Grown.make {kernel : Kernel} (laws : CgroupKernel root kernel) {fs : Fs}
    (grown : Grown root target before fs) (makeable : Makeable root fs made)
    (toTarget : made <+: target) : Grown root target before (afterMake kernel fs made) where
  tree := laws.makeTree fs made makeable
  cpu := by
    intro dir
    rw [laws.makeCpu fs made makeable dir, ← grown.cpu dir]
    by_cases isMade : dir = made
    · subst isMade
      -- A cgroup that is missing has nothing enabled.
      simp [grown.tree.cpuEnabled_of_missing makeable.below makeable.missing]
    · simp [isMade]
  kept := by
    intro path isDir
    exact kernel.afterMkdir_isDir _ _ _ (Fs.set_isDir (grown.kept path isDir))
  fresh := by
    intro path isDir
    by_cases isMade : path = made
    · exact .inr (isMade ▸ toTarget)
    · rw [laws.makeDirs fs made makeable path isMade] at isDir
      exact grown.fresh path isDir

theorem mkdir_grown {kernel : Kernel} (laws : CgroupKernel root kernel) (below : root <+: made)
    (toTarget : made <+: target) :
    Maintains (fun world => Grown root target before world.fs) (mkdir kernel made) := by
  intro world grown
  unfold mkdir
  split
  · exact grown
  next missing =>
    have strict : made ≠ root := by
      rintro rfl
      exact missing (Fs.pathExists_of_isDir grown.tree.rootDir)
    split
    · exact grown
    · exact grown
    next parentIsDir =>
      split
      · exact grown
      · refine grown.make laws ⟨grown.tree, below, strict, ?_, ?_⟩ toTarget
        · exact Bool.not_eq_true _ ▸ missing
        · have parentBelow := prefix_dropLast below strict
          unfold Fs.parentNode at parentIsDir
          split at parentIsDir
          next top =>
            rw [top] at parentBelow ⊢
            exact List.prefix_nil.mp parentBelow ▸ grown.tree.rootDir
          · rw [Fs.isDir, parentIsDir]
            rfl

theorem ensureDir_grown {target : String} (laws : CgroupKernel root machine.kernel)
    (below : root <+: components target) :
    Maintains (fun world => Grown root (components target) before world.fs)
      (ensureDir machine target) := by
  apply maintains_bind (pathExists_maintains _ _)
  intro present
  apply maintains_ite (maintains_pure _)
  have makes : Maintains (fun world => Grown root (components target) before world.fs)
      (createDirAll machine.kernel (components target)) := by
    have upward : ∀ made, root <+: made ∧ made <+: components target → made ≠ root →
        root <+: made.dropLast ∧ made.dropLast <+: components target := by
      intro made between strict
      exact ⟨prefix_dropLast between.1 strict, (List.dropLast_prefix made).trans between.2⟩
    exact createDirAll_keeps (fun world grown => .inl grown.tree.rootDir) upward
      (fun made between => mkdir_grown laws between.1 between.2) ⟨below, List.prefix_rfl⟩
  apply maintains_bind makes
  intro made
  cases made <;> exact maintains_pure _

theorem ensureDir_present {target : String} {world : World}
    (present : world.fs.pathExists (components target) = true) :
    ensureDir machine target world = (some target, world) := by
  unfold ensureDir
  simp only [bind, StateT.bind, pathExists, present]
  rfl

/-- Where no file is in the way, the target that is answered is a directory. -/
theorem ensureDir_isDir {target : String} {world : World}
    (notFile : world.fs.isFile (components target) = false) (nonempty : components target ≠ [])
    (answered : (ensureDir machine target world).1 ≠ none) :
    (ensureDir machine target world).2.fs.isDir (components target) = true := by
  cases present : world.fs.pathExists (components target) with
  | true =>
      rw [ensureDir_present present]
      by_contra notDir
      rw [Fs.isFile_of_pathExists present (Bool.not_eq_true _ ▸ notDir)] at notFile
      exact Bool.noConfusion notFile
  | false =>
      have made : Ensures (fun world => world.fs.pathExists (components target) = false)
          (ensureDir machine target) fun answer world =>
            answer ≠ none → world.fs.isDir (components target) = true := by
        refine ensures_bind (pathExists_ensures _ _) fun found => ?_
        refine ensures_ite (fun isFound => ?_) fun _ => ?_
        · refine ensures_pure fun world given => ?_
          rw [given.2, given.1] at isFound
          exact Bool.noConfusion isFound
        · refine ensures_bind (createDirAll_isDir _ nonempty) fun made => ?_
          cases made with
          | ok made => exact ensures_pure fun _ isDir _ => isDir rfl
          | error reason => exact ensures_pure fun _ _ isSome => absurd rfl isSome
      exact made world present answered

end Made

/-! ## Enabling the controller -/

section Enabling

variable {root up : Path} {machine : Machine} {target : String} {world : World}

theorem enableCpu_run (isParent : parent (components target) = some up) :
    (enableCpu machine target world).2 =
      if world.fs.pathExists (subtreeControl up) = true ∧
          (world.fs.isFile (subtreeControl up) &&
            !machine.kernel.refusesOpen world.fs (subtreeControl up)) = true then
        (writeAll machine.kernel (subtreeControl up) "+cpu\n" world).2
      else world := by
  have control : join up "cgroup.subtree_control" = subtreeControl up := rfl
  unfold enableCpu
  rw [isParent]
  simp only [control]
  cases present : world.fs.pathExists (subtreeControl up) with
  | false =>
      simp only [bind, StateT.bind, pathExists, present, Bool.false_eq_true, false_and, if_false]
      rfl
  | true =>
      cases opened : world.fs.isFile (subtreeControl up) &&
          !machine.kernel.refusesOpen world.fs (subtreeControl up) with
      | false =>
          simp only [bind, StateT.bind, pathExists, openForWrite, present, opened, if_true,
            Bool.false_eq_true, and_false, if_false]
          rfl
      | true =>
          simp only [bind, StateT.bind, pathExists, openForWrite, present, opened, if_true,
            and_self]
          rfl

theorem enableCpu_fs (isParent : parent (components target) = some up) :
    (enableCpu machine target world).2.fs =
      if world.fs.isFile (subtreeControl up) = true ∧
          machine.kernel.refusesOpen world.fs (subtreeControl up) = false ∧
          machine.kernel.refusesWrite world.fs (subtreeControl up) "+cpu\n" = false then
        afterEnable machine.kernel world.fs up
      else world.fs := by
  rw [enableCpu_run isParent]
  cases isFile : world.fs.isFile (subtreeControl up) with
  | false => simp
  | true =>
      have present := Fs.pathExists_of_isFile isFile
      cases opens : machine.kernel.refusesOpen world.fs (subtreeControl up) with
      | true => simp
      | false =>
          cases writes : machine.kernel.refusesWrite world.fs (subtreeControl up) "+cpu\n" with
          | true => simp [writeAll, present, writes]
          | false => simp [writeAll, present, writes, afterEnable]

/-- After the write the parent has the controller if it was accepted, and nothing else of
the tree has changed. -/
theorem enableCpu_outcome (laws : CgroupKernel root machine.kernel)
    (tree : CgroupTree root world.fs) (below : root <+: up)
    (isParent : parent (components target) = some up) :
    ((enableCpu machine target world).2.fs = afterEnable machine.kernel world.fs up ∧
        Enables root machine.kernel world.fs up) ∨
      ((enableCpu machine target world).2.fs = world.fs ∧
        (world.fs.isDir up = true → up ≠ root ∧ cpuEnabled world.fs up.dropLast = false)) := by
  rw [enableCpu_fs isParent]
  split
  next taken =>
    have isDir : world.fs.isDir up = true := by
      rw [← tree.pathExists_subtreeControl below]
      exact Fs.pathExists_of_isFile taken.1
    exact .inl ⟨rfl, tree, below, isDir, taken.2.2⟩
  next notTaken =>
    refine .inr ⟨rfl, fun isDir => ?_⟩
    have isFile := tree.control up below isDir
    have refused : ¬ (up = root ∨ cpuEnabled world.fs up.dropLast = true) := by
      intro admitted
      exact notTaken ⟨isFile, laws.accepts world.fs up tree below isDir admitted⟩
    rw [not_or, Bool.not_eq_true] at refused
    exact refused

end Enabling

/-! ## Whole calls -/

section Calls

variable {manager : CgroupManager} {machine : Machine} {root name target : String} {world : World}

theorem resolved_parent (version : manager.info.version = .v2)
    (delegated : manager.delegatedRoot = some root)
    (relative : Text.startsWithChar name '/' = false)
    (resolved : resolveTargetDir manager name = some target)
    (strict : components target ≠ components root) :
    parent (components target) = some (components target).dropLast := by
  have single : startsWithDoubleSlash name = false := by
    by_contra double
    rw [Bool.not_eq_false] at double
    rw [startsWithChar_of_doubleSlash double] at relative
    exact Bool.noConfusion relative
  have isRoot : nameBase manager name = root := by
    simp [nameBase, version, relative, delegated]
  rw [resolveTargetDir_eq, isRoot] at resolved
  split at resolved
  · simp at resolved
  · obtain rfl := Option.some.inj resolved
    by_cases empty : relativeName name = ""
    · rw [empty, joined_empty_segment] at strict
      exact absurd rfl strict
    · rw [joined_singleton empty] at strict ⊢
      exact parent_push ((relativeName_absolute_iff name).trans single) strict

/-- A name that is answered with a target: the target lies below the root, and the call is
its two steps. -/
theorem ensureChild_below (version : manager.info.version = .v2)
    (delegated : manager.delegatedRoot = some root)
    (answered : (ensureChild manager machine name world).1 = some target) :
    resolveTargetDir manager name = some target ∧ components root <+: components target ∧
      ensureChild manager machine name world =
        ensureDir machine target (enableCpu machine target world).2 := by
  have anything : Ensures (fun _ => True) (ensureChild manager machine name) fun _ _ => True :=
    fun _ _ => trivial
  have resolved := (ensureChild_ensures anything world trivial).2 target answered
  unfold ensureChild at answered ⊢
  simp only [resolved] at answered ⊢
  cases owner : ownership manager target with
  | legacy => exact absurd owner (ownership_ne_legacy version target)
  | foreign =>
      rw [owner] at answered
      have nothing : (none : Option String) = some target := answered
      simp at nothing
  | owned =>
      obtain ⟨_, isRoot, below⟩ := ownership_owned owner
      rw [delegated, Option.some.injEq] at isRoot
      subst isRoot
      exact ⟨trivial, below, rfl⟩

/-- The write changes nothing about the target itself: it is not in a child of its parent. -/
theorem isFile_afterEnable {root target : Path} {kernel : Kernel} {fs : Fs}
    (laws : CgroupKernel root kernel) (enables : Enables root kernel fs target.dropLast)
    (nonempty : target ≠ []) :
    (afterEnable kernel fs target.dropLast).isFile target = fs.isFile target := by
  apply laws.enableFiles fs _ enables
  intro child entry same
  have lengths := congrArg List.length same
  have positive := List.length_pos_iff.mpr nonempty
  rw [List.length_append, List.length_dropLast] at lengths
  simp only [List.length_cons, List.length_nil] at lengths
  omega

/-- What the two steps do to the way to `target` when the write gets through. -/
structure Reached (target : Path) (before after : Fs) : Prop where
  cpu : ∀ dir, cpuEnabled after dir = true ↔
    dir = target.dropLast ∨ cpuEnabled before dir = true
  isDir : after.isDir target = true ↔ before.isFile target = false
  children : ∀ file ∈ cpuFiles, after.isDir (join target file) = before.isDir (join target file)

theorem reached_of_enables {root : Path} (laws : CgroupKernel root machine.kernel)
    (enables : Enables root machine.kernel world.fs (components target).dropLast)
    (nonempty : components target ≠ []) {enabled : World}
    (isEnabled : enabled.fs = afterEnable machine.kernel world.fs (components target).dropLast)
    (grown : Grown root (components target) enabled.fs (ensureDir machine target enabled).2.fs)
    (answered : (ensureDir machine target enabled).1 ≠ none) :
    Reached (components target) world.fs (ensureDir machine target enabled).2.fs := by
  have sameFile : enabled.fs.isFile (components target) = world.fs.isFile (components target) :=
    isEnabled ▸ isFile_afterEnable laws enables nonempty
  have sameDirs : ∀ path, enabled.fs.isDir path = world.fs.isDir path :=
    fun path => isEnabled ▸ laws.enableDirs _ _ enables path
  refine ⟨?_, ⟨?_, ?_⟩, ?_⟩
  · intro dir
    rw [grown.cpu, isEnabled, laws.enableCpu _ _ enables]
    simp
  · intro isDir
    by_contra isFile
    rw [Bool.not_eq_false, ← sameFile] at isFile
    rw [ensureDir_present (Fs.pathExists_of_isFile isFile),
      Fs.isDir_eq_false_of_isFile isFile] at isDir
    exact Bool.noConfusion isDir
  · intro notFile
    exact ensureDir_isDir (sameFile.trans notFile) nonempty answered
  · intro file member
    rw [← sameDirs, Bool.eq_iff_iff]
    refine ⟨fun isDir => ?_, grown.kept _⟩
    -- The directories that are made lie on the way to the target, not below it.
    refine (grown.fresh _ isDir).resolve_right fun onTheWay => ?_
    have lengths := onTheWay.length_le
    rw [join_cpuFile _ file member, List.length_append, List.length_singleton] at lengths
    omega

/-- Where the write gets through, the target is usable exactly when it was prepared. -/
theorem Reached.cpuUsable_iff {root target : Path} {before after : Fs}
    (reached : Reached target before after) (tree : CgroupTree root after)
    (below : root <+: target) (strict : target ≠ root)
    (parentIsDir : before.isDir target.dropLast = true) :
    CpuUsable root target after ↔ CpuPrepared root target before := by
  rw [tree.cpuUsable_iff below strict]
  constructor
  · rintro ⟨enabled, isDir, free⟩
    refine ⟨parentIsDir, ?_, reached.isDir.mp isDir, ?_⟩
    · intro dir fromRoot toParent notParent
      exact ((reached.cpu dir).mp (enabled dir fromRoot toParent)).resolve_left notParent
    · intro file member
      rw [← reached.children file member]
      exact free file member
  · intro prepared
    refine ⟨?_, reached.isDir.mpr prepared.notFile, ?_⟩
    · intro dir fromRoot toParent
      rw [reached.cpu]
      by_cases isParent : dir = target.dropLast
      · exact .inl isParent
      · exact .inr (prepared.above dir fromRoot toParent isParent)
    · intro file member
      rw [reached.children file member]
      exact prepared.free file member

/-- Where the write does not get through, the controller is missing above the target, before
the call and after it. -/
theorem not_cpuUsable_of_refused {root target : Path} {before after : Fs}
    (below : root <+: target) (strict : target ≠ root) (tree : CgroupTree root before)
    (grown : Grown root target before after)
    (refused : before.isDir target.dropLast = true →
      target.dropLast ≠ root ∧ cpuEnabled before target.dropLast.dropLast = false) :
    ¬ CpuUsable root target after ∧ ¬ CpuPrepared root target before := by
  have upBelow := prefix_dropLast below strict
  have missing : before.isDir target.dropLast = true →
      root <+: target.dropLast.dropLast ∧ target.dropLast.dropLast ≠ target.dropLast ∧
        cpuEnabled before target.dropLast.dropLast = false := by
    intro isDir
    obtain ⟨notRoot, disabled⟩ := refused isDir
    refine ⟨prefix_dropLast upBelow notRoot, ?_, disabled⟩
    intro same
    have lengths := congrArg List.length same
    rw [List.length_dropLast] at lengths
    have empty : target.dropLast = [] := List.length_eq_zero_iff.mp (by omega)
    rw [empty] at upBelow notRoot
    exact notRoot (List.prefix_nil.mp upBelow).symm
  constructor
  · intro usable
    have enabled := usable.enabled _ upBelow List.prefix_rfl
    rw [grown.cpu] at enabled
    obtain ⟨fromRoot, _, disabled⟩ := missing (tree.isDir_of_cpuEnabled upBelow enabled)
    have enabledAbove := usable.enabled _ fromRoot (List.dropLast_prefix _)
    rw [grown.cpu, disabled] at enabledAbove
    exact Bool.noConfusion enabledAbove
  · intro prepared
    obtain ⟨fromRoot, notParent, disabled⟩ := missing prepared.parent
    have enabledAbove := prepared.above _ fromRoot (List.dropLast_prefix _) notParent
    rw [disabled] at enabledAbove
    exact Bool.noConfusion enabledAbove

/-- `ensure_child` leaves a target with a usable cpu controller exactly when the way to it
was prepared: the controller is enabled on the parent of the target only, and only where the
parent is there already. -/
theorem ensureChild_cpuUsable_iff (version : manager.info.version = .v2)
    (delegated : manager.delegatedRoot = some root)
    (relative : Text.startsWithChar name '/' = false)
    (laws : CgroupKernel (components root) machine.kernel)
    (tree : CgroupTree (components root) world.fs)
    (answered : (ensureChild manager machine name world).1 = some target)
    (strict : components target ≠ components root) :
    CpuUsable (components root) (components target)
        (ensureChild manager machine name world).2.fs ↔
      CpuPrepared (components root) (components target) world.fs := by
  obtain ⟨resolved, below, run⟩ := ensureChild_below version delegated answered
  have isParent := resolved_parent version delegated relative resolved strict
  rw [run] at answered ⊢
  rcases enableCpu_outcome laws tree (prefix_dropLast below strict) isParent with
    ⟨isEnabled, enables⟩ | ⟨unchanged, refused⟩
  · have treeEnabled : CgroupTree (components root) (enableCpu machine target world).2.fs :=
      isEnabled ▸ laws.enableTree _ _ enables
    have grown := ensureDir_grown laws below _ (Grown.refl treeEnabled)
    have nonempty : components target ≠ [] := by
      intro empty
      rw [empty, List.prefix_nil] at below
      exact strict (empty.trans below.symm)
    have reached := reached_of_enables laws enables nonempty isEnabled grown (by simp [answered])
    exact reached.cpuUsable_iff grown.tree below strict enables.isDir
  · have start : Grown (components root) (components target) world.fs
        (enableCpu machine target world).2.fs := by
      rw [unchanged]
      exact Grown.refl tree
    have grown := ensureDir_grown laws below _ start
    obtain ⟨notUsable, notPrepared⟩ :=
      not_cpuUsable_of_refused below strict tree grown refused
    exact iff_of_false notUsable notPrepared

end Calls

/-! ## A service -/

def serviceRoot : Path := components "/sys/fs/cgroup/ananicy"

def delegatedMachine : Machine := ⟨delegatedKernel serviceRoot, 1, id⟩

def delegatedWorld : World := ⟨delegatedTree serviceRoot, []⟩

/-- A name of one component has the delegated root for its parent. -/
theorem ensureChild_cpuUsable_games :
    (ensureChild serviceManager delegatedMachine "games" delegatedWorld).1 =
        some "/sys/fs/cgroup/ananicy/games" ∧
      CpuUsable serviceRoot (components "/sys/fs/cgroup/ananicy/games")
        (ensureChild serviceManager delegatedMachine "games" delegatedWorld).2.fs := by
  have answered : (ensureChild serviceManager delegatedMachine "games" delegatedWorld).1 =
      some "/sys/fs/cgroup/ananicy/games" := by decide +kernel
  have parentIsRoot : (components "/sys/fs/cgroup/ananicy/games").dropLast = serviceRoot := by
    decide +kernel
  have delegated : serviceManager.delegatedRoot = some "/sys/fs/cgroup/ananicy" := rfl
  have laws : CgroupKernel (components "/sys/fs/cgroup/ananicy") delegatedMachine.kernel :=
    delegatedKernel_laws serviceRoot
  have tree : CgroupTree (components "/sys/fs/cgroup/ananicy") delegatedWorld.fs :=
    delegatedTree_tree serviceRoot
  refine ⟨answered, ?_⟩
  apply (ensureChild_cpuUsable_iff rfl delegated (by decide) laws tree answered
    (by decide +kernel)).mpr
  exact {
    parent := by
      rw [parentIsRoot]
      exact tree.rootDir
    above := by
      intro dir fromRoot toParent notParent
      rw [parentIsRoot] at toParent notParent
      exact absurd (toParent.eq_of_length_le fromRoot.length_le) notParent
    notFile := by decide +kernel
    free := by decide +kernel }

/-- A name of two components: both cgroups are made, and neither the root nor the upper one
has the controller. -/
theorem ensureChild_nested_not_cpuUsable :
    CgroupKernel serviceRoot delegatedMachine.kernel ∧ CgroupTree serviceRoot delegatedWorld.fs ∧
      (ensureChild serviceManager delegatedMachine "games/steam" delegatedWorld).1 =
        some "/sys/fs/cgroup/ananicy/games/steam" ∧
      ¬ CpuUsable serviceRoot (components "/sys/fs/cgroup/ananicy/games/steam")
        (ensureChild serviceManager delegatedMachine "games/steam" delegatedWorld).2.fs := by
  refine ⟨delegatedKernel_laws serviceRoot, delegatedTree_tree serviceRoot, by decide +kernel, ?_⟩
  intro usable
  have enabled := usable.enabled serviceRoot List.prefix_rfl (by decide +kernel)
  revert enabled
  decide +kernel

end AnanicyRs.Platform.Cgroup
