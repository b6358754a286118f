import AnanicyRs.Lib.FileSystem

/-!
Contract: the cpu controller in a tree of cgroups.

A cgroup has `cpu.max` and `cpu.weight` when `cpu` is in the `cgroup.subtree_control` of
its parent, and there it is enabled from the delegated root downwards. `CgroupTree` says
what such a tree looks like and `CgroupKernel` what the kernel does to it when a cgroup is
made and when `+cpu` is written. Both are assumptions of the results about `ensure_child`;
`delegatedKernel` and `delegatedTree` meet them.

Does not own what the kernel does about a cgroup with processes in it.
-/

set_option autoImplicit false

namespace AnanicyRs.Platform.Cgroup

open AnanicyRs.Lib
open AnanicyRs.Lib.UnixPath
open AnanicyRs.Lib.FileSystem

/-! ## Trees with a cpu controller -/

def subtreeControl (dir : Path) : Path := join dir "cgroup.subtree_control"

def cpuFiles : List String := ["cpu.max", "cpu.weight"]

/-- `cpu` is one of the words in the `cgroup.subtree_control` of `dir`. -/
def cpuEnabled (fs : Fs) (dir : Path) : Bool :=
  match fs.node (subtreeControl dir) with
  | some (.file content) => (Text.splitWhitespace content).contains "cpu"
  | _ => false

/-- The cgroups at and below `root`. A control file is in the way of a child cgroup of its
name and the other way round, so a cpu file is missing where such a child is. -/
structure CgroupTree (root : Path) (fs : Fs) : Prop where
  rootDir : fs.isDir root = true
  parents : ∀ path, root <+: path → path ≠ root → fs.pathExists path = true →
    fs.isDir path.dropLast = true
  control : ∀ dir, root <+: dir → fs.isDir dir = true → fs.isFile (subtreeControl dir) = true
  exposes : ∀ dir, root <+: dir → dir ≠ root → fs.isDir dir = true → ∀ file ∈ cpuFiles,
    (fs.isFile (join dir file) = true ↔
      cpuEnabled fs dir.dropLast = true ∧ fs.isDir (join dir file) = false)

/-- `made` can be made in the tree: it is missing and its parent is there. -/
structure Makeable (root : Path) (fs : Fs) (made : Path) : Prop where
  tree : CgroupTree root fs
  below : root <+: made
  strict : made ≠ root
  missing : fs.pathExists made = false
  parent : fs.isDir made.dropLast = true

/-- `+cpu` is written to the cgroup `dir` of the tree, and the kernel takes it. -/
structure Enables (root : Path) (kernel : Kernel) (fs : Fs) (dir : Path) : Prop where
  tree : CgroupTree root fs
  below : root <+: dir
  isDir : fs.isDir dir = true
  accepted : kernel.refusesWrite fs (subtreeControl dir) "+cpu\n" = false

def afterEnable (kernel : Kernel) (fs : Fs) (dir : Path) : Fs :=
  kernel.afterWrite fs (subtreeControl dir) "+cpu\n"

def afterMake (kernel : Kernel) (fs : Fs) (made : Path) : Fs :=
  kernel.afterMkdir (fs.set made .dir) made

/-- What the kernel does to the cgroups below `root`: a new one has the cpu controller
disabled and changes no other, and `+cpu` is accepted where the parent has it. -/
structure CgroupKernel (root : Path) (kernel : Kernel) : Prop where
  makeTree : ∀ fs made, Makeable root fs made → CgroupTree root (afterMake kernel fs made)
  makeCpu : ∀ fs made, Makeable root fs made → ∀ dir,
    cpuEnabled (afterMake kernel fs made) dir = (decide (dir ≠ made) && cpuEnabled fs dir)
  makeDirs : ∀ fs made, Makeable root fs made → ∀ path, path ≠ made →
    (afterMake kernel fs made).isDir path = fs.isDir path
  accepts : ∀ fs dir, CgroupTree root fs → root <+: dir → fs.isDir dir = true →
    (dir = root ∨ cpuEnabled fs dir.dropLast = true) →
      kernel.refusesOpen fs (subtreeControl dir) = false ∧
        kernel.refusesWrite fs (subtreeControl dir) "+cpu\n" = false
  enableTree : ∀ fs dir, Enables root kernel fs dir → CgroupTree root (afterEnable kernel fs dir)
  enableCpu : ∀ fs dir, Enables root kernel fs dir → ∀ other,
    cpuEnabled (afterEnable kernel fs dir) other = (decide (other = dir) || cpuEnabled fs other)
  enableDirs : ∀ fs dir, Enables root kernel fs dir → ∀ path,
    (afterEnable kernel fs dir).isDir path = fs.isDir path
  /-- Files come and go in the children of the cgroup only. -/
  enableFiles : ∀ fs dir, Enables root kernel fs dir → ∀ path,
    (∀ child entry, path ≠ dir ++ [child, entry]) →
      (afterEnable kernel fs dir).isFile path = fs.isFile path

/-! ## Control files -/

theorem subtreeControl_eq (dir : Path) :
    subtreeControl dir = dir ++ [.normal "cgroup.subtree_control"] :=
  congrArg (dir ++ ·) (by decide)

@[simp]
theorem subtreeControl_dropLast (dir : Path) : (subtreeControl dir).dropLast = dir := by
  rw [subtreeControl_eq, List.dropLast_concat]

theorem join_cpuFile (dir : Path) : ∀ file ∈ cpuFiles, join dir file = dir ++ [.normal file] := by
  have names : ∀ file ∈ cpuFiles, bodyComponents file.toList = [.normal file] := by decide
  intro file member
  rw [join, names file member]

section Tree

variable {root dir target : Path} {fs : Fs}

/-- What lies directly in a path at or below the root lies in a directory. -/
theorem CgroupTree.isDir_of_entry (tree : CgroupTree root fs) (below : root <+: dir)
    {entry : Component} (present : fs.pathExists (dir ++ [entry]) = true) :
    fs.isDir dir = true := by
  have strict : dir ++ [entry] ≠ root := by
    intro same
    have lengths := below.length_le
    rw [← same, List.length_append, List.length_singleton] at lengths
    omega
  have parent := tree.parents _ (below.trans (List.prefix_append dir _)) strict present
  rwa [List.dropLast_concat] at parent

theorem CgroupTree.pathExists_subtreeControl (tree : CgroupTree root fs) (below : root <+: dir) :
    fs.pathExists (subtreeControl dir) = fs.isDir dir := by
  cases isDir : fs.isDir dir with
  | true => exact Fs.pathExists_of_isFile (tree.control dir below isDir)
  | false =>
      rw [Bool.eq_false_iff, subtreeControl_eq]
      intro present
      rw [tree.isDir_of_entry below present] at isDir
      exact Bool.noConfusion isDir

theorem CgroupTree.isDir_of_cpuEnabled (tree : CgroupTree root fs) (below : root <+: dir)
    (enabled : cpuEnabled fs dir = true) : fs.isDir dir = true := by
  rw [← tree.pathExists_subtreeControl below]
  unfold cpuEnabled at enabled
  split at enabled
  next content at_ => simp [Fs.pathExists, at_]
  · simp at enabled

theorem CgroupTree.cpuEnabled_of_missing (tree : CgroupTree root fs) (below : root <+: dir)
    (missing : fs.pathExists dir = false) : cpuEnabled fs dir = false := by
  by_contra enabled
  rw [Bool.not_eq_false] at enabled
  rw [Fs.pathExists_of_isDir (tree.isDir_of_cpuEnabled below enabled)] at missing
  exact Bool.noConfusion missing

end Tree

/-! ## A kernel that keeps the laws -/

/-- The control files of a new cgroup. -/
def newFiles (fs : Fs) (made path : Path) : Option String :=
  if path = subtreeControl made then some ""
  else if (∃ file ∈ cpuFiles, path = join made file) ∧ cpuEnabled fs made.dropLast = true then
    some ""
  else none

/-- What `+cpu` writes: the word, and the cpu files of every child cgroup. -/
def enabledFiles (fs : Fs) (dir path : Path) : Option String :=
  if path = subtreeControl dir then some "cpu\n"
  else if fs.isDir path.dropLast = true ∧ path.dropLast.dropLast = dir ∧ path.dropLast ≠ dir ∧
      ∃ file ∈ cpuFiles, path = join path.dropLast file then some ""
  else none

/-- The kernel of a machine without other controllers, for the cgroups below `root`. -/
def delegatedKernel (root : Path) : Kernel where
  refusesMkdir _ _ := false
  refusesOpen _ _ := false
  refusesWrite fs path text :=
    text == "+cpu\n" && path == subtreeControl path.dropLast && path.dropLast != root &&
      !cpuEnabled fs path.dropLast.dropLast
  afterMkdir fs made := fs.withFiles (newFiles fs made)
  afterWrite fs path text :=
    if text = "+cpu\n" ∧ path = subtreeControl path.dropLast then
      fs.withFiles (enabledFiles fs path.dropLast)
    else fs.withFiles fun other => if other = path then some text else none
  afterMkdir_isDir _ _ _ isDir := by rwa [Fs.withFiles_isDir]
  afterWrite_isDir _ _ _ _ isDir := by split <;> rwa [Fs.withFiles_isDir]

section Laws

variable {root made dir path : Path} {fs : Fs}

theorem subtreeControl_inj {left right : Path} :
    subtreeControl left = subtreeControl right ↔ left = right := by
  rw [subtreeControl_eq, subtreeControl_eq, List.append_left_inj]

theorem join_cpuFile_ne_subtreeControl {file : String} (member : file ∈ cpuFiles)
    (left right : Path) : join left file ≠ subtreeControl right := by
  have different : ∀ file ∈ cpuFiles, file ≠ "cgroup.subtree_control" := by decide
  rw [join_cpuFile left file member, subtreeControl_eq]
  intro same
  have lasts := congrArg List.getLast? same
  rw [List.getLast?_concat, List.getLast?_concat] at lasts
  exact different file member (Component.normal.inj (Option.some.inj lasts))

theorem cpuEnabled_congr {left right : Fs}
    (same : left.node (subtreeControl dir) = right.node (subtreeControl dir)) :
    cpuEnabled left dir = cpuEnabled right dir := by
  rw [cpuEnabled, cpuEnabled, same]

/-! ### A new cgroup -/

theorem Makeable.entry_missing (makeable : Makeable root fs made) (entry : Component) :
    fs.pathExists (made ++ [entry]) = false := by
  by_contra present
  rw [Bool.not_eq_false] at present
  have isDir := makeable.tree.isDir_of_entry makeable.below present
  have missing := makeable.missing
  rw [Fs.pathExists_of_isDir isDir] at missing
  exact Bool.noConfusion missing

/-- The controller of a directory of the tree is not where the new cgroup is made. -/
theorem Makeable.subtreeControl_ne (makeable : Makeable root fs made) (dir : Path) :
    subtreeControl dir ≠ made := by
  intro same
  have isParent : made.dropLast = dir := by rw [← same, subtreeControl_dropLast]
  have present := Fs.pathExists_of_isFile (makeable.tree.control _
    (prefix_dropLast makeable.below makeable.strict) makeable.parent)
  rw [isParent, same, makeable.missing] at present
  exact Bool.noConfusion present

theorem subtreeControl_outside (different : dir ≠ made) (entry : Component) :
    subtreeControl dir ≠ made ++ [entry] := by
  rw [subtreeControl_eq]
  intro same
  exact different (List.append_inj_left' same rfl)

theorem newFiles_none (outside : ∀ entry, path ≠ made ++ [entry]) :
    newFiles fs made path = none := by
  rw [newFiles, if_neg, if_neg]
  · rintro ⟨⟨file, member, rfl⟩, _⟩
    exact outside _ (join_cpuFile made file member)
  · rw [subtreeControl_eq]
    exact outside _

theorem afterMake_node (outside : ∀ entry, path ≠ made ++ [entry]) (notMade : path ≠ made) :
    (afterMake (delegatedKernel root) fs made).node path = fs.node path := by
  have unwritten : newFiles (fs.set made .dir) made path = none := newFiles_none outside
  rw [afterMake, delegatedKernel, Fs.withFiles_node_none unwritten]
  exact if_neg notMade

theorem afterMake_isDir :
    (afterMake (delegatedKernel root) fs made).isDir path =
      (decide (path = made) || fs.isDir path) := by
  rw [afterMake, delegatedKernel, Fs.withFiles_isDir, Fs.set_dir_isDir]

/-- Nothing was where the files of the new cgroup are put. -/
theorem Makeable.entry_isDir (makeable : Makeable root fs made) (entry : Component) :
    (fs.set made .dir).isDir (made ++ [entry]) = false := by
  have notMade : made ++ [entry] ≠ made := by simp
  simp [notMade, Fs.isDir_of_missing (makeable.entry_missing entry)]

theorem Makeable.newControl (makeable : Makeable root fs made) :
    (afterMake (delegatedKernel root) fs made).node (subtreeControl made) = some (.file "") := by
  have notDir : (fs.set made .dir).isDir (subtreeControl made) = false := by
    rw [subtreeControl_eq]
    exact makeable.entry_isDir _
  exact Fs.withFiles_node_some (if_pos rfl) notDir

theorem Makeable.cpu (makeable : Makeable root fs made) (dir : Path) :
    cpuEnabled (afterMake (delegatedKernel root) fs made) dir =
      (decide (dir ≠ made) && cpuEnabled fs dir) := by
  by_cases isMade : dir = made
  · subst isMade
    rw [cpuEnabled, makeable.newControl, decide_eq_false (not_not_intro rfl), Bool.false_and]
    decide
  · rw [cpuEnabled_congr
      (afterMake_node (subtreeControl_outside isMade) (makeable.subtreeControl_ne dir))]
    simp [isMade]

/-- The cgroup that is made was missing, so no controller changes at all. -/
theorem Makeable.cpu_same (makeable : Makeable root fs made) (dir : Path) :
    cpuEnabled (afterMake (delegatedKernel root) fs made) dir = cpuEnabled fs dir := by
  rw [makeable.cpu]
  by_cases isMade : dir = made
  · subst isMade
    simp [makeable.tree.cpuEnabled_of_missing makeable.below makeable.missing]
  · simp [isMade]

theorem Makeable.exposesNew (makeable : Makeable root fs made) {file : String}
    (member : file ∈ cpuFiles) :
    (afterMake (delegatedKernel root) fs made).isFile (join made file) = true ↔
      cpuEnabled fs made.dropLast = true := by
  have sameCpu : cpuEnabled (fs.set made .dir) made.dropLast = cpuEnabled fs made.dropLast :=
    cpuEnabled_congr (if_neg (makeable.subtreeControl_ne _))
  have notFile : (fs.set made .dir).isFile (join made file) = false := by
    have missing := makeable.entry_missing (.normal file)
    rw [← join_cpuFile made file member, Fs.pathExists, Option.isSome_eq_false_iff,
      Option.isNone_iff_eq_none] at missing
    have sameNode : (fs.set made .dir).node (join made file) = fs.node (join made file) :=
      if_neg (by simp [join_cpuFile made file member])
    rw [Fs.isFile, sameNode, missing]
  have files : newFiles (fs.set made .dir) made (join made file) =
      if cpuEnabled fs made.dropLast = true then some "" else none := by
    have isCpuFile : ∃ other ∈ cpuFiles, join made file = join made other := ⟨file, member, rfl⟩
    rw [newFiles, if_neg (join_cpuFile_ne_subtreeControl member made made), sameCpu]
    simp only [isCpuFile, true_and]
  have notDir : (fs.set made .dir).isDir (join made file) = false := by
    rw [join_cpuFile made file member]
    exact makeable.entry_isDir _
  rw [afterMake, delegatedKernel, Fs.withFiles_isFile, notFile, files]
  simp [notDir]

theorem Makeable.makeTree (makeable : Makeable root fs made) :
    CgroupTree root (afterMake (delegatedKernel root) fs made) where
  rootDir := by simp [afterMake_isDir, makeable.tree.rootDir]
  parents := by
    intro path below strict present
    rw [afterMake_isDir]
    by_cases isMade : path = made
    · simp [isMade, makeable.parent]
    · by_cases inside : ∃ entry, path = made ++ [entry]
      · obtain ⟨entry, rfl⟩ := inside
        simp
      · rw [Fs.pathExists, afterMake_node (not_exists.mp inside) isMade, ← Fs.pathExists] at present
        simp [makeable.tree.parents path below strict present]
  control := by
    intro dir below isDir
    by_cases isMade : dir = made
    · rw [isMade, Fs.isFile, makeable.newControl]
    · simp only [afterMake_isDir, isMade, decide_false, Bool.false_or] at isDir
      rw [Fs.isFile, afterMake_node (subtreeControl_outside isMade) (makeable.subtreeControl_ne dir),
        ← Fs.isFile]
      exact makeable.tree.control dir below isDir
  exposes := by
    intro dir below strict isDir file member
    rw [makeable.cpu_same]
    by_cases isMade : dir = made
    · subst isMade
      have notDir : (afterMake (delegatedKernel root) fs dir).isDir (join dir file) = false := by
        rw [afterMake, delegatedKernel, Fs.withFiles_isDir, join_cpuFile dir file member]
        exact makeable.entry_isDir _
      simp [makeable.exposesNew member, notDir]
    · simp only [afterMake_isDir, isMade, decide_false, Bool.false_or] at isDir
      have before := makeable.tree.exposes dir below strict isDir file member
      by_cases taken : join dir file = made
      · -- The new cgroup takes the name of a file that was not exposed.
        have isDirNow : (afterMake (delegatedKernel root) fs made).isDir (join dir file) = true := by
          simp [afterMake_isDir, taken]
        have notFileNow :
            (afterMake (delegatedKernel root) fs made).isFile (join dir file) = false := by
          by_contra isFile
          rw [Fs.isDir_eq_false_of_isFile (Bool.not_eq_false _ ▸ isFile)] at isDirNow
          exact Bool.noConfusion isDirNow
        simp [isDirNow, notFileNow]
      · have outside : ∀ entry, join dir file ≠ made ++ [entry] := by
          intro entry same
          rw [join_cpuFile dir file member] at same
          exact isMade (List.append_inj_left' same rfl)
        rw [Fs.isFile, afterMake_node outside taken, ← Fs.isFile, before, afterMake_isDir]
        simp [taken]

/-! ### A controller that is enabled -/

theorem afterEnable_eq :
    afterEnable (delegatedKernel root) fs dir = fs.withFiles (enabledFiles fs dir) := by
  rw [afterEnable, delegatedKernel]
  simp

theorem enabledFiles_subtreeControl {other : Path} (different : other ≠ dir) :
    enabledFiles fs dir (subtreeControl other) = none := by
  rw [enabledFiles, if_neg (different ∘ subtreeControl_inj.mp), if_neg]
  rintro ⟨_, _, _, file, member, same⟩
  exact join_cpuFile_ne_subtreeControl member _ _ same.symm

theorem enabledFiles_cpuFile {child : Path} {file : String} (member : file ∈ cpuFiles)
    (nonempty : child ≠ []) :
    (enabledFiles fs dir (join child file)).isSome = true ↔
      fs.isDir child = true ∧ child.dropLast = dir := by
  have isParent : (join child file).dropLast = child := by
    rw [join_cpuFile child file member, List.dropLast_concat]
  have notItself : child.dropLast = dir → child ≠ dir := by
    rintro rfl same
    have lengths := congrArg List.length same
    have positive := List.length_pos_iff.mpr nonempty
    rw [List.length_dropLast] at lengths
    omega
  rw [enabledFiles, if_neg (join_cpuFile_ne_subtreeControl member _ _), isParent]
  split
  next present => exact ⟨fun _ => ⟨present.1, present.2.1⟩, fun _ => rfl⟩
  next absent =>
    refine ⟨fun isSome => by simp at isSome, fun present => absurd ?_ absent⟩
    exact ⟨present.1, present.2, notItself present.2, file, member, rfl⟩

/-- Everything that is written lies in the cgroup itself or in one of its children. -/
theorem enabledFiles_isSome (written : (enabledFiles fs dir path).isSome = true) :
    path = subtreeControl dir ∨
      (fs.isDir path.dropLast = true ∧ ∃ child entry, path = dir ++ [child, entry]) := by
  unfold enabledFiles at written
  split at written
  next isControl => exact .inl isControl
  · split at written
    next inChild =>
      obtain ⟨isDir, grandparent, notItself, file, isFile, isPath⟩ := inChild
      have nonempty : path.dropLast ≠ [] := by
        intro empty
        rw [empty] at grandparent notItself
        exact notItself grandparent
      obtain ⟨child, isChild⟩ : ∃ child, path.dropLast = dir ++ [child] :=
        ⟨_, grandparent ▸ (List.dropLast_append_getLast nonempty).symm⟩
      refine .inr ⟨isDir, child, .normal file, ?_⟩
      calc path = path.dropLast ++ [.normal file] := by
            rw [← join_cpuFile path.dropLast file isFile]
            exact isPath
        _ = dir ++ [child, .normal file] := by
            rw [isChild, List.append_assoc, List.singleton_append]
    · simp at written

theorem Enables.cpu {kernel : Kernel} (enables : Enables root kernel fs dir) (other : Path) :
    cpuEnabled (afterEnable (delegatedKernel root) fs dir) other =
      (decide (other = dir) || cpuEnabled fs other) := by
  rw [afterEnable_eq]
  by_cases isDir : other = dir
  · subst isDir
    have notDir : fs.isDir (subtreeControl other) = false :=
      Fs.isDir_eq_false_of_isFile (enables.tree.control other enables.below enables.isDir)
    rw [cpuEnabled, Fs.withFiles_node_some (if_pos rfl) notDir, decide_eq_true rfl, Bool.true_or]
    decide
  · rw [cpuEnabled_congr (Fs.withFiles_node_none (enabledFiles_subtreeControl isDir))]
    simp [isDir]

theorem Enables.files {kernel : Kernel} (enables : Enables root kernel fs dir)
    (outside : ∀ child entry, path ≠ dir ++ [child, entry]) :
    (afterEnable (delegatedKernel root) fs dir).isFile path = fs.isFile path := by
  rw [afterEnable_eq, Bool.eq_iff_iff, Fs.withFiles_isFile]
  refine ⟨fun given => given.elim id fun written => ?_, .inl⟩
  rcases enabledFiles_isSome written.1 with rfl | ⟨_, child, entry, inChild⟩
  · exact enables.tree.control dir enables.below enables.isDir
  · exact absurd inChild (outside child entry)

theorem Enables.enableTree {kernel : Kernel} (enables : Enables root kernel fs dir) :
    CgroupTree root (afterEnable (delegatedKernel root) fs dir) where
  rootDir := by simp [afterEnable_eq, enables.tree.rootDir]
  parents := by
    intro path below strict present
    rw [afterEnable_eq] at present ⊢
    rw [Fs.withFiles_isDir]
    cases isDir : fs.isDir path with
    | true => exact enables.tree.parents path below strict (Fs.pathExists_of_isDir isDir)
    | false =>
        have isFile := Fs.isFile_of_pathExists present (by rw [Fs.withFiles_isDir, isDir])
        rcases (Fs.withFiles_isFile _ _ _).mp isFile with before | written
        · exact enables.tree.parents path below strict (Fs.pathExists_of_isFile before)
        · rcases enabledFiles_isSome written.1 with rfl | ⟨parentIsDir, _⟩
          · rw [subtreeControl_dropLast]
            exact enables.isDir
          · exact parentIsDir
  control := by
    intro other below isDir
    rw [afterEnable_eq] at isDir ⊢
    rw [Fs.withFiles_isDir] at isDir
    rw [Fs.withFiles_isFile]
    exact .inl (enables.tree.control other below isDir)
  exposes := by
    intro child below strict isDir file member
    have nonempty : child ≠ [] := by
      rintro rfl
      exact strict (List.prefix_nil.mp below).symm
    rw [enables.cpu, afterEnable_eq, Fs.withFiles_isFile, Fs.withFiles_isDir,
      enabledFiles_cpuFile member nonempty]
    rw [afterEnable_eq, Fs.withFiles_isDir] at isDir
    rw [enables.tree.exposes child below strict isDir file member]
    simp only [isDir, true_and, Bool.or_eq_true, decide_eq_true_eq]
    tauto

theorem delegatedKernel_laws (root : Path) : CgroupKernel root (delegatedKernel root) where
  makeTree fs made makeable := makeable.makeTree
  makeCpu fs made makeable := makeable.cpu
  makeDirs := by
    intro fs made makeable path notMade
    simp [afterMake_isDir, notMade]
  accepts := by
    intro fs dir tree below isDir admitted
    refine ⟨rfl, ?_⟩
    rcases admitted with atRoot | enabledAbove
    · simp [delegatedKernel, atRoot]
    · simp [delegatedKernel, enabledAbove]
  enableTree fs dir enables := enables.enableTree
  enableCpu fs dir enables := enables.cpu
  enableDirs := by
    intro fs dir enables path
    rw [afterEnable_eq, Fs.withFiles_isDir]
  enableFiles fs dir enables path := enables.files

end Laws

/-! ## A delegated root without cgroups below it -/

def delegatedTree (root : Path) : Fs where
  node path :=
    if path = root then some .dir
    else if path = subtreeControl root then some (.file "")
    else none

theorem delegatedTree_isDir {root path : Path} :
    (delegatedTree root).isDir path = decide (path = root) := by
  by_cases isRoot : path = root
  · simp [Fs.isDir, delegatedTree, isRoot]
  · rw [Fs.isDir, delegatedTree, decide_eq_false isRoot]
    simp only [if_neg isRoot]
    split <;> rfl

theorem delegatedTree_tree (root : Path) : CgroupTree root (delegatedTree root) where
  rootDir := by simp [delegatedTree_isDir]
  parents := by
    intro path _ strict present
    rw [delegatedTree_isDir]
    by_cases isControl : path = subtreeControl root
    · simp [isControl]
    · simp [Fs.pathExists, delegatedTree, strict, isControl] at present
  control := by
    intro dir _ isDir
    rw [delegatedTree_isDir, decide_eq_true_eq] at isDir
    have notRoot : subtreeControl root ≠ root := by simp [subtreeControl_eq]
    simp [isDir, Fs.isFile, delegatedTree, notRoot]
  exposes := by
    intro dir _ strict isDir
    rw [delegatedTree_isDir, decide_eq_true_eq] at isDir
    exact absurd isDir strict

end AnanicyRs.Platform.Cgroup
