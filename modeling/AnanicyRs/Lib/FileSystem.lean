import AnanicyRs.Lib.UnixPath
import AnanicyRs.Lib.StateInvariant
import Mathlib.Data.List.Infix

/-!
Contract: the file-system calls of `std::fs` that create directories and write
existing files, over an explicit file-system state.

A `Kernel` decides what the program cannot: which calls are refused, which
files appear in a new directory and how a write changes the tree. Its laws say
that directories do not disappear as a side effect. A `World` is the tree
together with the record of every directory made and every write issued, each
with the tree it was made in.

Does not own reading file contents, removal, or path resolution through links.
-/

set_option autoImplicit false

namespace AnanicyRs.Lib.FileSystem

open AnanicyRs.Lib.UnixPath
open AnanicyRs.Lib.StateInvariant

/-! ## State -/

inductive Node where
  | dir
  | file (content : String)
deriving DecidableEq, Repr

structure Fs where
  node : Path → Option Node

def Fs.ofLists (dirs files : List String) : Fs where
  node path :=
    if path ∈ dirs.map components then some .dir
    else if path ∈ files.map components then some (.file "")
    else none

def Fs.pathExists (fs : Fs) (path : Path) : Bool := (fs.node path).isSome

def Fs.isDir (fs : Fs) (path : Path) : Bool := fs.node path == some .dir

def Fs.isFile (fs : Fs) (path : Path) : Bool :=
  match fs.node path with
  | some (.file _) => true
  | _ => false

/-- The node a new entry at `path` would be made in. A single component lies in
the working directory, which exists. -/
def Fs.parentNode (fs : Fs) (path : Path) : Option Node :=
  if path.dropLast = [] then some .dir else fs.node path.dropLast

def Fs.set (fs : Fs) (path : Path) (node : Node) : Fs :=
  ⟨fun other => if other = path then some node else fs.node other⟩

theorem Fs.set_isDir {fs : Fs} {path other : Path} (isDir : fs.isDir other = true) :
    (fs.set path .dir).isDir other = true := by
  simp only [Fs.isDir, Fs.set] at isDir ⊢
  split
  · rfl
  · exact isDir

theorem Fs.isFile_of_pathExists {fs : Fs} {path : Path} (present : fs.pathExists path = true)
    (notDir : fs.isDir path = false) : fs.isFile path = true := by
  unfold Fs.pathExists Fs.isDir at *
  unfold Fs.isFile
  cases at_ : fs.node path with
  | none => simp [at_] at present
  | some node =>
      cases node with
      | dir => simp [at_] at notDir
      | file content => rfl

theorem Fs.pathExists_of_isDir {fs : Fs} {path : Path} (isDir : fs.isDir path = true) :
    fs.pathExists path = true := by
  rw [Fs.isDir, beq_iff_eq] at isDir
  rw [Fs.pathExists, isDir]
  rfl

theorem Fs.isDir_of_missing {fs : Fs} {path : Path} (missing : fs.pathExists path = false) :
    fs.isDir path = false := by
  by_contra isDir
  rw [Fs.pathExists_of_isDir (Bool.not_eq_false _ ▸ isDir)] at missing
  exact Bool.noConfusion missing

theorem Fs.pathExists_of_isFile {fs : Fs} {path : Path} (isFile : fs.isFile path = true) :
    fs.pathExists path = true := by
  unfold Fs.isFile at isFile
  unfold Fs.pathExists
  split at isFile
  next content at_ => simp [at_]
  · simp at isFile

theorem Fs.isDir_eq_false_of_isFile {fs : Fs} {path : Path} (isFile : fs.isFile path = true) :
    fs.isDir path = false := by
  unfold Fs.isFile at isFile
  unfold Fs.isDir
  split at isFile
  next content at_ => simp [at_]
  · simp at isFile

@[simp]
theorem Fs.set_dir_isDir (fs : Fs) (path other : Path) :
    (fs.set path .dir).isDir other = (decide (other = path) || fs.isDir other) := by
  by_cases same : other = path <;> simp [Fs.isDir, Fs.set, same]

/-- The tree with some files written, where no directory is in the way. -/
def Fs.withFiles (fs : Fs) (files : Path → Option String) : Fs where
  node path :=
    if fs.isDir path then some .dir
    else match files path with
      | some content => some (.file content)
      | none => fs.node path

theorem Fs.withFiles_node_dir {fs : Fs} {path : Path} (files : Path → Option String)
    (isDir : fs.isDir path = true) : (fs.withFiles files).node path = some .dir :=
  if_pos isDir

theorem Fs.withFiles_node_some {fs : Fs} {files : Path → Option String} {path : Path}
    {content : String} (written : files path = some content) (notDir : fs.isDir path = false) :
    (fs.withFiles files).node path = some (.file content) := by
  simp [Fs.withFiles, notDir, written]

theorem Fs.withFiles_node_none {fs : Fs} {files : Path → Option String} {path : Path}
    (unwritten : files path = none) : (fs.withFiles files).node path = fs.node path := by
  cases isDir : fs.isDir path with
  | true => rw [Fs.withFiles_node_dir files isDir, beq_iff_eq.mp isDir]
  | false => simp [Fs.withFiles, isDir, unwritten]

@[simp]
theorem Fs.withFiles_isDir (fs : Fs) (files : Path → Option String) (path : Path) :
    (fs.withFiles files).isDir path = fs.isDir path := by
  cases isDir : fs.isDir path with
  | true => rw [Fs.isDir, Fs.withFiles_node_dir files isDir, beq_self_eq_true]
  | false =>
      cases written : files path with
      | some content =>
          rw [Fs.isDir, Fs.withFiles_node_some written isDir]
          rfl
      | none => rw [Fs.isDir, Fs.withFiles_node_none written, ← Fs.isDir, isDir]

theorem Fs.withFiles_isFile (fs : Fs) (files : Path → Option String) (path : Path) :
    (fs.withFiles files).isFile path = true ↔
      fs.isFile path = true ∨ ((files path).isSome = true ∧ fs.isDir path = false) := by
  cases written : files path with
  | none => simp [Fs.isFile, Fs.withFiles_node_none written]
  | some content =>
      cases isDir : fs.isDir path with
      | true =>
          simp [Fs.isFile, Fs.withFiles_node_dir files isDir, beq_iff_eq.mp isDir]
      | false => simp [Fs.isFile, Fs.withFiles_node_some written isDir]

/-- A tree in which everything lies in a directory. -/
structure Tree extends Fs where
  parents : ∀ path, toFs.pathExists path = true → toFs.parentNode path = some .dir

def Tree.ofLists (dirs files : List String)
    (closed : ∀ path ∈ (dirs ++ files).map components,
      (Fs.ofLists dirs files).parentNode path = some .dir) : Tree where
  toFs := Fs.ofLists dirs files
  parents := by
    intro path present
    apply closed
    rw [List.map_append, List.mem_append]
    by_contra unlisted
    rw [not_or] at unlisted
    unfold Fs.pathExists Fs.ofLists at present
    dsimp only at present
    rw [if_neg unlisted.1, if_neg unlisted.2] at present
    exact absurd present (by decide)

theorem Tree.isDir_of_prefix (tree : Tree) {above path : Path} (onTheWay : above <+: path)
    (strict : above ≠ path) (nonempty : above ≠ []) (present : tree.pathExists path = true) :
    tree.isDir above = true := by
  induction path using List.reverseRecOn with
  | nil => exact absurd (List.prefix_nil.mp onTheWay) strict
  | append_singleton up last inductionHypothesis =>
      have below : above <+: up := (List.prefix_concat_iff.mp onTheWay).resolve_left strict
      have parentIs := tree.parents _ present
      rw [Fs.parentNode, List.dropLast_concat] at parentIs
      have upNonempty : up ≠ [] := by
        rintro rfl
        exact nonempty (List.prefix_nil.mp below)
      rw [if_neg upNonempty] at parentIs
      have isDir : tree.isDir up = true := by
        rw [Fs.isDir, parentIs]
        rfl
      by_cases same : above = up
      · rw [same]
        exact isDir
      · exact inductionHypothesis below same (Fs.pathExists_of_isDir isDir)

theorem Tree.missing_below (tree : Tree) {above path : Path} (onTheWay : above <+: path)
    (nonempty : above ≠ []) (missing : tree.pathExists above = false) :
    tree.pathExists path = false := by
  by_contra present
  have isPresent : tree.pathExists path = true := Bool.not_eq_false _ ▸ present
  by_cases same : above = path
  · rw [← same, missing] at isPresent
    exact Bool.noConfusion isPresent
  · have isDir := tree.isDir_of_prefix onTheWay same nonempty isPresent
    rw [Fs.pathExists_of_isDir isDir] at missing
    exact Bool.noConfusion missing

/-- Nothing lies below a file. -/
theorem Tree.missing_belowFile (tree : Tree) {above path : Path} (onTheWay : above <+: path)
    (strict : above ≠ path) (nonempty : above ≠ []) (isFile : tree.isFile above = true) :
    tree.pathExists path = false := by
  by_contra present
  have isDir := tree.isDir_of_prefix onTheWay strict nonempty (Bool.not_eq_false _ ▸ present)
  rw [Fs.isDir_eq_false_of_isFile isFile] at isDir
  exact Bool.noConfusion isDir

inductive Action where
  | createDir (path : Path)
  | write (path : Path) (text : String)
deriving DecidableEq, Repr

def Action.path : Action → Path
  | .createDir path => path
  | .write path _ => path

/-- One thing done to the tree, with the tree it was done to. -/
structure Effect where
  before : Fs
  action : Action

structure World where
  fs : Fs
  log : List Effect

structure Kernel where
  refusesMkdir : Fs → Path → Bool
  refusesOpen : Fs → Path → Bool
  refusesWrite : Fs → Path → String → Bool
  /-- The tree after a directory was made: a cgroup gets its control files. -/
  afterMkdir : Fs → Path → Fs
  afterWrite : Fs → Path → String → Fs
  afterMkdir_isDir : ∀ fs made path, fs.isDir path = true →
    (afterMkdir fs made).isDir path = true
  afterWrite_isDir : ∀ fs written text path, fs.isDir path = true →
    (afterWrite fs written text).isDir path = true

/-- A kernel that takes every call: a new directory is empty and a write
replaces the content. -/
def Kernel.permissive : Kernel where
  refusesMkdir _ _ := false
  refusesOpen _ _ := false
  refusesWrite _ _ _ := false
  afterMkdir fs _ := fs
  afterWrite fs path text := if fs.isDir path then fs else fs.set path (.file text)
  afterMkdir_isDir _ _ _ isDir := isDir
  afterWrite_isDir := by
    intro fs written text path isDir
    split
    · exact isDir
    next notDir =>
      have different : path ≠ written := by
        rintro rfl
        exact notDir isDir
      simpa [Fs.isDir, Fs.set, different] using isDir

/-! ## Calls -/

abbrev Host := StateM World

inductive IoError where
  | notFound
  | alreadyExists
  | other
deriving DecidableEq, Repr

def pathExists (path : Path) : Host Bool := fun world => (world.fs.pathExists path, world)

def isDir (path : Path) : Host Bool := fun world => (world.fs.isDir path, world)

def mkdir (kernel : Kernel) (path : Path) : Host (Except IoError Unit) := fun world =>
  if world.fs.pathExists path then (.error .alreadyExists, world)
  else match world.fs.parentNode path with
    | none => (.error .notFound, world)
    | some (.file _) => (.error .other, world)
    | some .dir =>
        if kernel.refusesMkdir world.fs path then (.error .other, world)
        else (.ok (), {
          fs := kernel.afterMkdir (world.fs.set path .dir) path
          log := world.log ++ [⟨world.fs, .createDir path⟩] })

theorem mkdir_refused {kernel : Kernel} (path : Path) (world : World)
    (refuses : kernel.refusesMkdir world.fs path = true) :
    ∃ reason, mkdir kernel path world = (.error reason, world) := by
  rw [mkdir, refuses]
  split
  · exact ⟨.alreadyExists, rfl⟩
  · split
    · exact ⟨.notFound, rfl⟩
    · exact ⟨.other, rfl⟩
    · exact ⟨.other, rfl⟩

/-- The answer for a failed `mkdir`: no error if the directory is there. -/
def okIfDir (path : Path) (reason : IoError) : Host (Except IoError Unit) := do
  if ← isDir path then pure (.ok ()) else pure (.error reason)

/-- `std::fs::create_dir_all`, on the reversed components: make the directory,
and when its parent is missing make that first. -/
def createDirAllRev (kernel : Kernel) : List Component → Host (Except IoError Unit)
  | [] => pure (.ok ())
  | last :: up => do
      let path := (last :: up).reverse
      match ← mkdir kernel path with
      | .ok () => pure (.ok ())
      | .error .notFound =>
          match ← createDirAllRev kernel up with
          | .error reason => pure (.error reason)
          | .ok () =>
              match ← mkdir kernel path with
              | .ok () => pure (.ok ())
              | .error reason => okIfDir path reason
      | .error reason => okIfDir path reason

def createDirAll (kernel : Kernel) (path : Path) : Host (Except IoError Unit) :=
  createDirAllRev kernel path.reverse

/-- `OpenOptions::new().write(true).open(path)`: it never creates the file. -/
def openForWrite (kernel : Kernel) (path : Path) : Host Bool := fun world =>
  (world.fs.isFile path && !kernel.refusesOpen world.fs path, world)

/-- `write_all` on an open file. The write is recorded when it is issued. -/
def writeAll (kernel : Kernel) (path : Path) (text : String) : Host Bool := fun world =>
  let log := world.log ++ [⟨world.fs, .write path text⟩]
  if kernel.refusesWrite world.fs path text then (false, { world with log })
  else (true, { fs := kernel.afterWrite world.fs path text, log })

/-! ## Records of a run -/

/-- A condition on trees that more directories cannot break. -/
def KeptByDirs (condition : Fs → Prop) : Prop :=
  ∀ fs fs' : Fs, (∀ path, fs.isDir path = true → fs'.isDir path = true) →
    condition fs → condition fs'

/-- Every recorded effect is permitted, and the tree satisfies `condition`. -/
structure Within (permitted : Effect → Prop) (condition : Fs → Prop) (world : World) :
    Prop where
  log : ∀ effect ∈ world.log, permitted effect
  tree : condition world.fs

def Grounded (anchor : Path) (fs : Fs) : Prop :=
  fs.isDir anchor = true ∨ fs.parentNode anchor = some .dir

theorem keptByDirs_true : KeptByDirs fun _ => True := fun _ _ _ holds => holds

theorem keptByDirs_grounded (anchor : Path) : KeptByDirs (Grounded anchor) := by
  intro fs fs' dirsKept grounded
  rcases grounded with present | parentPresent
  · exact .inl (dirsKept anchor present)
  · apply Or.inr
    unfold Fs.parentNode at parentPresent ⊢
    split at parentPresent
    next top => rw [if_pos top]
    next below =>
      rw [if_neg below]
      have isDir : fs.isDir anchor.dropLast = true := by
        rw [Fs.isDir, parentPresent]
        rfl
      exact beq_iff_eq.mp (dirsKept anchor.dropLast isDir)

theorem within_append {permitted : Effect → Prop} {condition : Fs → Prop} {world : World}
    {effect : Effect} {fs : Fs} (within : Within permitted condition world)
    (allowed : permitted effect) (tree : condition fs) :
    Within permitted condition { fs, log := world.log ++ [effect] } where
  log := by
    intro recorded member
    rcases List.mem_append.mp member with old | new
    · exact within.log recorded old
    · rw [List.mem_singleton.mp new]
      exact allowed
  tree := tree

section Frames

variable {permitted : Effect → Prop} {condition : Fs → Prop} {kernel : Kernel}
  {path anchor : Path}

theorem pathExists_ensures (inv : World → Prop) (query : Path) :
    Ensures inv (pathExists query) fun answer world =>
      inv world ∧ answer = world.fs.pathExists query :=
  fun _ given => ⟨given, rfl⟩

theorem pathExists_maintains (inv : World → Prop) (query : Path) :
    Maintains inv (pathExists query) :=
  fun _ given => given

theorem isDir_maintains (inv : World → Prop) (query : Path) : Maintains inv (isDir query) :=
  fun _ given => given

theorem okIfDir_maintains (inv : World → Prop) (query : Path) (reason : IoError) :
    Maintains inv (okIfDir query reason) :=
  maintains_bind (isDir_maintains inv query) fun _ =>
    maintains_ite (maintains_pure _) (maintains_pure _)

theorem openForWrite_maintains (inv : World → Prop) (query : Path) :
    Maintains inv (openForWrite kernel query) :=
  fun _ given => given

theorem openForWrite_ensures (inv : World → Prop) (query : Path) :
    Ensures inv (openForWrite kernel query) fun opened world =>
      inv world ∧ opened = (world.fs.isFile query && !kernel.refusesOpen world.fs query) :=
  fun _ given => ⟨given, rfl⟩

theorem mkdir_maintains (kept : KeptByDirs condition)
    (allowed : ∀ fs, permitted ⟨fs, .createDir path⟩) :
    Maintains (Within permitted condition) (mkdir kernel path) := by
  intro world within
  unfold mkdir
  split
  · exact within
  · split
    · exact within
    · exact within
    · split
      · exact within
      · refine within_append within (allowed _) (kept world.fs _ ?_ within.tree)
        intro other isDir
        exact kernel.afterMkdir_isDir _ _ _ (Fs.set_isDir isDir)

theorem mkdir_grounded {world : World} (grounded : Grounded path world.fs) :
    (mkdir kernel path world).1 ≠ .error .notFound := by
  unfold mkdir
  split
  · simp
  next missing =>
    rcases grounded with present | parentPresent
    · exact absurd (Fs.pathExists_of_isDir present) missing
    · simp only [parentPresent]
      split <;> simp

/-- A permitted write keeps the record clean. The record says what the tree was
like, so the permission may depend on it. -/
theorem writeAll_ensures {text : String} (kept : KeptByDirs condition)
    {before : World → Prop} (within : ∀ world, before world → Within permitted condition world)
    (allowed : ∀ world, before world → permitted ⟨world.fs, .write path text⟩) :
    Ensures before (writeAll kernel path text) fun _ => Within permitted condition := by
  intro world given
  simp only [writeAll]
  split
  · exact within_append (within world given) (allowed world given) (within world given).tree
  · refine within_append (within world given) (allowed world given)
      (kept world.fs _ ?_ (within world given).tree)
    exact kernel.afterWrite_isDir world.fs path text

theorem writeAll_maintains {text : String} (kept : KeptByDirs condition)
    (allowed : ∀ fs, permitted ⟨fs, .write path text⟩) :
    Maintains (Within permitted condition) (writeAll kernel path text) :=
  writeAll_ensures kept (fun _ within => within) fun world _ => allowed world.fs

/-- `create_dir_all` of a path below a grounded anchor keeps every invariant that making one
directory below the anchor keeps, for every notion of below that the parent of a path other
than the anchor keeps. The induction walks up the path; it cannot pass the anchor, because
`mkdir` there does not report a missing parent. -/
theorem createDirAllRev_keeps {inv : World → Prop} {below : Path → Prop}
    (grounded : ∀ world, inv world → Grounded anchor world.fs)
    (upward : ∀ made, below made → made ≠ anchor → below made.dropLast)
    (mkdirKeeps : ∀ made, below made → Maintains inv (mkdir kernel made)) :
    ∀ reversed : List Component, below reversed.reverse →
      Maintains inv (createDirAllRev kernel reversed)
  | [], _ => maintains_pure _
  | last :: up, here => by
      have keepsHere : Maintains inv (mkdir kernel (last :: up).reverse) := mkdirKeeps _ here
      have outcome : Ensures inv (mkdir kernel (last :: up).reverse) fun result world =>
          inv world ∧ (result = .error .notFound → (last :: up).reverse ≠ anchor) := by
        intro world given
        refine ⟨keepsHere world given, ?_⟩
        rintro missing rfl
        exact mkdir_grounded (grounded world given) missing
      have dirAnswers : ∀ reason, Ensures
          (fun world => inv world ∧
            (Except.error reason = Except.error (ε := IoError) (α := Unit) .notFound →
              (last :: up).reverse ≠ anchor))
          (okIfDir (last :: up).reverse reason) fun _ => inv :=
        fun reason => (okIfDir_maintains _ _ reason).mono (fun _ given => given.1) fun _ _ => id
      unfold createDirAllRev
      refine ensures_bind outcome fun result => ?_
      match result with
      | .ok () => exact ensures_pure fun _ given => given.1
      | .error .alreadyExists => exact dirAnswers .alreadyExists
      | .error .other => exact dirAnswers .other
      | .error .notFound =>
          -- Only a missing parent takes the recursion up, and the anchor has its own.
          intro world given
          have belowUp : below up.reverse := by
            have dropped := upward _ here (given.2 rfl)
            rwa [List.reverse_cons, List.dropLast_concat] at dropped
          refine maintains_bind (createDirAllRev_keeps grounded upward mkdirKeeps up belowUp)
            (fun made => ?_) world given.1
          match made with
          | .error reason => exact maintains_pure _
          | .ok () =>
              apply maintains_bind keepsHere
              intro again
              match again with
              | .ok () => exact maintains_pure _
              | .error reason => exact okIfDir_maintains _ _ reason

theorem createDirAll_keeps {inv : World → Prop} {below : Path → Prop}
    (grounded : ∀ world, inv world → Grounded anchor world.fs)
    (upward : ∀ made, below made → made ≠ anchor → below made.dropLast)
    (mkdirKeeps : ∀ made, below made → Maintains inv (mkdir kernel made)) (here : below path) :
    Maintains inv (createDirAll kernel path) :=
  createDirAllRev_keeps grounded upward mkdirKeeps path.reverse (by rwa [List.reverse_reverse])

theorem createDirAll_maintains {below : Path → Prop}
    (upward : ∀ made, below made → made ≠ anchor → below made.dropLast)
    (allowed : ∀ fs made, below made → permitted ⟨fs, .createDir made⟩) (here : below path) :
    Maintains (Within permitted (Grounded anchor)) (createDirAll kernel path) :=
  createDirAll_keeps (fun _ within => within.tree) upward
    (fun made madeBelow => mkdir_maintains (keptByDirs_grounded anchor) fun fs =>
      allowed fs made madeBelow) here

/-! ### Above the anchor -/

theorem mkdir_misses {fs : Fs} (missing : fs.pathExists path = false)
    (noParent : fs.parentNode path = none) :
    Ensures (fun world => world.fs = fs) (mkdir kernel path) fun result world =>
      result = .error .notFound ∧ world.fs = fs := by
  rintro world rfl
  rw [mkdir, if_neg (by rw [missing]; decide), noParent]
  exact ⟨rfl, rfl⟩

theorem mkdir_makes {fs : Fs} (missing : fs.pathExists path = false)
    (inDir : fs.parentNode path = some .dir) :
    Ensures (fun world => world.fs = fs) (mkdir .permissive path) fun result world =>
      result = .ok () ∧ ⟨fs, .createDir path⟩ ∈ world.log := by
  rintro world rfl
  rw [mkdir, if_neg (by rw [missing]; decide), inDir]
  exact ⟨rfl, List.mem_append_right _ List.mem_cons_self⟩

theorem mkdir_remembers (known : List Effect → Prop)
    (grows : ∀ log more, known log → known (log ++ more)) :
    Maintains (fun world => known world.log) (mkdir kernel path) := by
  intro world given
  unfold mkdir
  split
  · exact given
  · split
    · exact given
    · exact given
    · split
      · exact given
      · exact grows _ _ given

/-- Some directory at or above the anchor was made. -/
def MadeAbove (anchor : Path) (log : List Effect) : Prop :=
  ∃ effect ∈ log, ∃ made, effect.action = .createDir made ∧ made <+: anchor

theorem MadeAbove.append {log : List Effect} (above : MadeAbove anchor log)
    (more : List Effect) : MadeAbove anchor (log ++ more) := by
  obtain ⟨effect, member, isMade⟩ := above
  exact ⟨effect, List.mem_append_left more member, isMade⟩

theorem MadeAbove.mono {longer : Path} {log : List Effect} (above : MadeAbove anchor log)
    (toLonger : anchor <+: longer) : MadeAbove longer log := by
  obtain ⟨effect, member, made, isMade, onTheWay⟩ := above
  exact ⟨effect, member, made, isMade, onTheWay.trans toLonger⟩

/-- Where the parent is missing too, `create_dir_all` begins with what it makes of the parent. -/
theorem createDirAllRev_makesAbove {tree : Tree} {last : Component} {up : List Component}
    {anchor : Path} (missing : tree.pathExists (last :: up).reverse = false)
    (noParent : tree.parentNode (last :: up).reverse = none)
    (made : Ensures (fun world => world.fs = tree.toFs) (createDirAllRev .permissive up)
      fun _ world => MadeAbove anchor world.log) :
    Ensures (fun world => world.fs = tree.toFs) (createDirAllRev .permissive (last :: up))
      fun _ world => MadeAbove anchor world.log := by
  have kept : Maintains (fun now => MadeAbove anchor now.log)
      (mkdir .permissive (last :: up).reverse) :=
    mkdir_remembers (MadeAbove anchor) fun _ more above => above.append more
  unfold createDirAllRev
  refine ensures_bind (mkdir_misses missing noParent) fun result => ?_
  match result with
  | .ok () => exact ensures_pure fun _ given => absurd given.1 (by simp)
  | .error .alreadyExists => exact fun _ given => absurd given.1 (by simp)
  | .error .other => exact fun _ given => absurd given.1 (by simp)
  | .error .notFound =>
      refine ensures_bind (made.mono (fun _ given => given.2) fun _ _ => id) fun result => ?_
      match result with
      | .error reason => exact ensures_pure fun _ => id
      | .ok () =>
          refine ensures_bind kept fun again => ?_
          match again with
          | .ok () => exact ensures_pure fun _ => id
          | .error reason => exact okIfDir_maintains _ _ reason

/-- Below a missing path `create_dir_all` starts at or above that path, unless a file is in
the way. The induction walks up; where the anchor itself is missing its parent, the parent
takes its place. -/
theorem createDirAllRev_makes {tree : Tree} (reversed : List Component) {anchor : Path}
    (onTheWay : anchor <+: reversed.reverse) (nonempty : anchor ≠ [])
    (missing : tree.pathExists anchor = false)
    (noFile : ∀ above, above <+: anchor → above ≠ [] → tree.isFile above = false) :
    Ensures (fun world => world.fs = tree.toFs) (createDirAllRev .permissive reversed)
      fun _ world => MadeAbove anchor world.log := by
  induction reversed generalizing anchor with
  | nil => exact absurd (List.prefix_nil.mp onTheWay) nonempty
  | cons last up inductionHypothesis =>
      have isPath : (last :: up).reverse = up.reverse ++ [last] := List.reverse_cons
      have missingPath : tree.pathExists (last :: up).reverse = false :=
        tree.missing_below onTheWay nonempty missing
      by_cases below : anchor <+: up.reverse
      · have upNonempty : up.reverse ≠ [] := by
          intro empty
          rw [empty] at below
          exact nonempty (List.prefix_nil.mp below)
        have upMissing := tree.missing_below below nonempty missing
        refine createDirAllRev_makesAbove missingPath ?_
          (inductionHypothesis below nonempty missing noFile)
        rw [isPath, Fs.parentNode, List.dropLast_concat, if_neg upNonempty]
        exact Option.isNone_iff_eq_none.mp (by simpa [Fs.pathExists] using upMissing)
      · rw [isPath] at onTheWay
        have isAnchor : anchor = (last :: up).reverse := by
          rw [isPath]
          exact (List.prefix_concat_iff.mp onTheWay).resolve_right below
        cases parentIs : tree.parentNode (last :: up).reverse with
        | none =>
            have upNonempty : up.reverse ≠ [] := by
              intro empty
              rw [isPath, Fs.parentNode, List.dropLast_concat, if_pos empty] at parentIs
              exact absurd parentIs (by simp)
            have upMissing : tree.pathExists up.reverse = false := by
              rw [isPath, Fs.parentNode, List.dropLast_concat, if_neg upNonempty] at parentIs
              rw [Fs.pathExists, parentIs]
              rfl
            have toAnchor : up.reverse <+: anchor := by
              rw [isAnchor, isPath]
              exact List.prefix_append _ _
            have made := inductionHypothesis List.prefix_rfl upNonempty upMissing
              fun above onTheWay => noFile above (onTheWay.trans toAnchor)
            exact createDirAllRev_makesAbove missingPath parentIs
              (made.mono (fun _ => id) fun _ _ above => above.mono toAnchor)
        | some node =>
            cases node with
            | dir =>
                unfold createDirAllRev
                refine ensures_bind (mkdir_makes missingPath parentIs) fun result => ?_
                rintro world ⟨rfl, made⟩
                exact ⟨_, made, (last :: up).reverse, rfl, by rw [isAnchor]⟩
            | file content =>
                unfold Fs.parentNode at parentIs
                split at parentIs
                · exact absurd parentIs (by simp)
                next parentNonempty =>
                  have isFile : tree.isFile (last :: up).reverse.dropLast = true := by
                    rw [Fs.isFile, parentIs]
                  have noneThere := noFile (last :: up).reverse.dropLast
                    (by rw [isAnchor]; exact List.dropLast_prefix _) parentNonempty
                  rw [isFile] at noneThere
                  exact Bool.noConfusion noneThere

theorem createDirAll_makes {tree : Tree} (onTheWay : anchor <+: path) (nonempty : anchor ≠ [])
    (missing : tree.pathExists anchor = false)
    (noFile : ∀ above, above <+: anchor → above ≠ [] → tree.isFile above = false) :
    Ensures (fun world => world.fs = tree.toFs) (createDirAll .permissive path)
      fun _ world => MadeAbove anchor world.log :=
  createDirAllRev_makes path.reverse (by rwa [List.reverse_reverse]) nonempty missing noFile

/-- Nothing can be made below a file. -/
theorem createDirAll_still {tree : Tree} (onTheWay : anchor <+: path) (nonempty : anchor ≠ [])
    (isFile : tree.isFile anchor = true) (log : List Effect) :
    Maintains (fun world => world = ⟨tree.toFs, log⟩) (createDirAll kernel path) := by
  have there := Fs.pathExists_of_isFile isFile
  have upward : ∀ made, anchor <+: made → made ≠ anchor → anchor <+: made.dropLast := by
    intro made below strict
    have madeNonempty : made ≠ [] := by
      rintro rfl
      exact nonempty (List.prefix_nil.mp below)
    rw [← List.dropLast_append_getLast madeNonempty, List.prefix_concat_iff] at below
    apply below.resolve_left
    rw [List.dropLast_append_getLast madeNonempty]
    exact Ne.symm strict
  apply @createDirAll_keeps kernel path anchor _ (fun made => anchor <+: made) _ upward _ onTheWay
  · rintro _ rfl
    exact .inr (tree.parents anchor there)
  · rintro made below _ rfl
    by_cases same : anchor = made
    · rw [mkdir, if_pos (by rw [← same]; exact there)]
    · have missing := tree.missing_belowFile below same nonempty isFile
      have above := upward made below (Ne.symm same)
      rw [mkdir, if_neg (by rw [missing]; decide)]
      cases parentIs : tree.parentNode made with
      | none => rfl
      | some node =>
          cases node with
          | file content => rfl
          | dir =>
              have isDir : tree.isDir made.dropLast = true := by
                unfold Fs.parentNode at parentIs
                split at parentIs
                next empty =>
                  rw [empty] at above
                  exact absurd (List.prefix_nil.mp above) nonempty
                next => rw [Fs.isDir, parentIs]; rfl
              by_cases isAnchor : anchor = made.dropLast
              · rw [← isAnchor, Fs.isDir_eq_false_of_isFile isFile] at isDir
                exact Bool.noConfusion isDir
              · have noDir := tree.missing_belowFile above isAnchor nonempty isFile
                rw [Fs.pathExists_of_isDir isDir] at noDir
                exact Bool.noConfusion noDir

/-! ### Success -/

theorem mkdir_isDir (given : World → Prop) :
    Ensures given (mkdir kernel path) fun result world =>
      result = .ok () → world.fs.isDir path = true := by
  intro world _
  unfold mkdir
  split
  · simp
  · split
    · simp
    · simp
    · split
      · simp
      · intro _
        refine kernel.afterMkdir_isDir _ _ _ ?_
        simp [Fs.isDir, Fs.set]

theorem okIfDir_isDir (given : World → Prop) (reason : IoError) :
    Ensures given (okIfDir path reason) fun result world =>
      result = .ok () → world.fs.isDir path = true := by
  have answers : Ensures given (isDir path) fun answer world => answer = world.fs.isDir path :=
    fun _ _ => rfl
  refine ensures_bind answers fun present => ?_
  refine ensures_ite (fun isPresent => ?_) fun _ => ?_
  · exact ensures_pure fun world same _ => same.symm.trans isPresent
  · exact ensures_pure fun _ _ failed => by simp at failed

/-- A successful `create_dir_all` leaves a directory at the path. -/
theorem createDirAll_isDir (given : World → Prop) (nonempty : path ≠ []) :
    Ensures given (createDirAll kernel path) fun result world =>
      result = .ok () → world.fs.isDir path = true := by
  obtain ⟨last, up, isReverse⟩ : ∃ last up, path.reverse = last :: up :=
    List.exists_cons_of_ne_nil (by simpa using nonempty)
  have isPath : path = (last :: up).reverse := by rw [← isReverse, List.reverse_reverse]
  rw [createDirAll, isReverse, isPath]
  unfold createDirAllRev
  refine ensures_bind (mkdir_isDir given) fun result => ?_
  match result with
  | .ok () => exact ensures_pure fun _ isDir => isDir
  | .error .alreadyExists => exact okIfDir_isDir _ _
  | .error .other => exact okIfDir_isDir _ _
  | .error .notFound =>
      have anyMade : ∀ before : World → Prop,
          Ensures before (createDirAllRev kernel up) fun _ _ => True := fun _ _ _ => trivial
      refine ensures_bind (anyMade _) fun made => ?_
      match made with
      | .error reason => exact ensures_pure fun _ _ failed => by simp at failed
      | .ok () =>
          refine ensures_bind (mkdir_isDir _) fun again => ?_
          match again with
          | .ok () => exact ensures_pure fun _ isDir => isDir
          | .error reason => exact okIfDir_isDir _ _

end Frames

end AnanicyRs.Lib.FileSystem
