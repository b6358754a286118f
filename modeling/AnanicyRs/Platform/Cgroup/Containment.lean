import AnanicyRs.Platform.Cgroup.Frame

/-!
Contract: where a cgroup name can lead.

Owns the exact set of names that `resolve_target_dir` keeps inside the
hierarchy, and what follows for the files and directories the v1 operations
touch. A name escapes through one door only: it starts with `//`, so that the
text left after removing one `/` is absolute and `PathBuf::push` replaces the
base by it.

Does not own the ownership check of cgroup v2.
-/

set_option autoImplicit false

namespace AnanicyRs.Platform.Cgroup

open AnanicyRs.Lib
open AnanicyRs.Lib.UnixPath
open AnanicyRs.Lib.FileSystem
open AnanicyRs.Lib.StateInvariant

/-! ## Resolution as one push -/

def nameBase (manager : CgroupManager) (name : String) : String :=
  match manager.info.version with
  | .v2 =>
      if Text.startsWithChar name '/' then manager.info.mountPoint
      else match manager.delegatedRoot with
        | some root => root
        | none => manager.info.mountPoint
  | _ => push manager.info.mountPoint "cpu"

/-- The part of the hierarchy every name belongs to: `<mount>/cpu` on v1 and the
mount point on v2. -/
def hierarchyBase (manager : CgroupManager) : String :=
  match manager.info.version with
  | .v2 => manager.info.mountPoint
  | _ => push manager.info.mountPoint "cpu"

theorem joined_singleton {base segment : String} (nonempty : segment ≠ "") :
    joined base [segment] = push base segment := by
  simp [joined, push_empty, nonempty]

theorem joined_empty_segment (base : String) : joined base [""] = base := by
  simp [joined, push_empty]

theorem joined_cpu (mountPoint rel : String) :
    joined mountPoint ["cpu", rel] = joined (push mountPoint "cpu") [rel] := by
  by_cases empty : rel = ""
  · simp [joined, push_empty, empty]
  · simp [joined, push_empty, empty]

/-- `resolve_target_dir` as one `push` on the base of the name. -/
theorem resolveTargetDir_eq (manager : CgroupManager) (name : String) :
    resolveTargetDir manager name =
      if Text.contains name ".." = true ∨ manager.info.version = .none then none
      else some (joined (nameBase manager name) [relativeName name]) := by
  unfold resolveTargetDir nameBase
  by_cases dots : Text.contains name ".." = true
  · rw [if_pos dots, if_pos (.inl dots)]
  · rw [if_neg dots]
    cases version : manager.info.version with
    | none => simp
    | v1 => simp [dots, joined_cpu]
    | v2 =>
        have inside : ¬ (Text.contains name ".." = true ∨ CgroupVersion.v2 = .none) := by
          simp [dots]
        cases manager.delegatedRoot <;> exact (if_neg inside).symm

/-! ## Names that start with two slashes -/

def startsWithDoubleSlash (name : String) : Bool := ['/', '/'].isPrefixOf name.toList

theorem relativeName_absolute_iff (name : String) :
    isAbsolute (relativeName name) = startsWithDoubleSlash name := by
  unfold relativeName Text.stripPrefixChar startsWithDoubleSlash isAbsolute
  cases chars : name.toList with
  | nil => simp [chars]
  | cons first rest =>
      by_cases slash : first = '/'
      · subst slash
        cases rest with
        | nil => simp
        | cons second tail =>
            rw [Bool.eq_iff_iff, List.isPrefixOf_iff_prefix]
            simpa using eq_comm
      · rw [Bool.eq_iff_iff, List.isPrefixOf_iff_prefix]
        simp [chars, slash, Ne.symm slash]

theorem relativeName_noDots {name : String} (clean : Text.contains name ".." = false) :
    ¬ ['.', '.'] <:+: (relativeName name).toList := by
  intro dots
  have infixName : ['.', '.'] <:+: name.toList := by
    unfold relativeName Text.stripPrefixChar at dots
    cases chars : name.toList with
    | nil => simp [chars] at dots
    | cons first rest =>
        simp only [chars] at dots
        split at dots
        · exact List.infix_cons (by simpa using dots)
        · simpa [chars] using dots
  have found : Text.contains name ".." = true :=
    (Text.containsChars_iff_infix _ _).mpr infixName
  rw [clean] at found
  exact Bool.false_ne_true found

theorem joined_below {base rel : String} (relative : isAbsolute rel = false)
    (noDots : ¬ ['.', '.'] <:+: rel.toList) :
    AtOrBelow (components base) (components (joined base [rel])) := by
  by_cases empty : rel = ""
  · rw [empty, joined_empty_segment]
    exact AtOrBelow.refl _
  · rw [joined_singleton empty]
    exact atOrBelow_push relative noDots

theorem joined_absolute {base rel : String} (absolute : isAbsolute rel = true) :
    joined base [rel] = rel := by
  have nonempty : rel ≠ "" := by
    rintro rfl
    exact absurd absolute (by decide)
  rw [joined_singleton nonempty, push_absolute absolute]

theorem resolved_below {manager : CgroupManager} {name target : String}
    (single : startsWithDoubleSlash name = false)
    (resolved : resolveTargetDir manager name = some target) :
    AtOrBelow (components (nameBase manager name)) (components target) := by
  rw [resolveTargetDir_eq] at resolved
  split at resolved
  · simp at resolved
  next accepted =>
    rw [not_or, Bool.not_eq_true] at accepted
    obtain rfl := Option.some.inj resolved
    exact joined_below ((relativeName_absolute_iff name).trans single)
      (relativeName_noDots accepted.1)

theorem resolved_of_doubleSlash {manager : CgroupManager} {name target : String}
    (double : startsWithDoubleSlash name = true)
    (resolved : resolveTargetDir manager name = some target) :
    target = relativeName name ∧ manager.info.version ≠ .none ∧
      Text.contains name ".." = false := by
  rw [resolveTargetDir_eq] at resolved
  split at resolved
  · simp at resolved
  next accepted =>
    rw [not_or, Bool.not_eq_true] at accepted
    rw [joined_absolute ((relativeName_absolute_iff name).trans double)] at resolved
    exact ⟨(Option.some.inj resolved).symm, accepted.2, accepted.1⟩

/-! ## Containment -/

/-- Where the target of a name has to be: below `<mount>/cpu` on v1, below the
mount point on v2, and there below the delegated root for a relative name. -/
def Contained (manager : CgroupManager) (name target : String) : Prop :=
  AtOrBelow (components (hierarchyBase manager)) (components target) ∧
    (manager.info.version = .v2 → Text.startsWithChar name '/' = false →
      ∀ root, manager.delegatedRoot = some root →
        AtOrBelow (components root) (components target))

/-- The names that stay inside: no hierarchy, a refused name, a name that does
not start with `//`, or one that spells a path already inside. -/
def NameStaysInside (manager : CgroupManager) (name : String) : Prop :=
  manager.info.version = .none ∨ Text.contains name ".." = true ∨
    startsWithDoubleSlash name = false ∨
    AtOrBelow (components (hierarchyBase manager)) (components (relativeName name))

instance (manager : CgroupManager) (name : String) :
    Decidable (NameStaysInside manager name) :=
  inferInstanceAs (Decidable (_ ∨ _ ∨ _ ∨ _))

theorem nameBase_below {manager : CgroupManager} (name : String)
    (rootBelow : ∀ root, manager.delegatedRoot = some root →
      AtOrBelow (components manager.info.mountPoint) (components root)) :
    AtOrBelow (components (hierarchyBase manager)) (components (nameBase manager name)) := by
  unfold hierarchyBase nameBase
  cases manager.info.version with
  | none => exact AtOrBelow.refl _
  | v1 => exact AtOrBelow.refl _
  | v2 =>
      simp only
      split
      · exact AtOrBelow.refl _
      · cases delegated : manager.delegatedRoot with
        | none => exact AtOrBelow.refl _
        | some root => exact rootBelow root delegated

theorem startsWithChar_of_doubleSlash {name : String}
    (double : startsWithDoubleSlash name = true) : Text.startsWithChar name '/' = true := by
  rw [startsWithDoubleSlash, List.isPrefixOf_iff_prefix] at double
  obtain ⟨rest, split⟩ := double
  simp [Text.startsWithChar, ← split]

theorem contained_of_staysInside {manager : CgroupManager} {name target : String}
    (rootBelow : ∀ root, manager.delegatedRoot = some root →
      AtOrBelow (components manager.info.mountPoint) (components root))
    (inside : NameStaysInside manager name)
    (resolved : resolveTargetDir manager name = some target) :
    Contained manager name target := by
  cases double : startsWithDoubleSlash name with
  | true =>
      obtain ⟨rfl, version, noDots⟩ := resolved_of_doubleSlash double resolved
      refine ⟨?_, fun _ relative => ?_⟩
      · rcases inside with isNone | dots | single | below
        · exact absurd isNone version
        · exact absurd dots (by simp [noDots])
        · exact absurd single (by simp [double])
        · exact below
      · rw [startsWithChar_of_doubleSlash double] at relative
        exact absurd relative (by decide)
  | false =>
      have below := resolved_below double resolved
      refine ⟨(nameBase_below name rootBelow).trans below, ?_⟩
      intro isV2 relative root delegated
      have baseIsRoot : nameBase manager name = root := by
        simp [nameBase, isV2, relative, delegated]
      rw [← baseIsRoot]
      exact below

theorem staysInside_of_contained {manager : CgroupManager} {name : String}
    (contained : ∀ target, resolveTargetDir manager name = some target →
      Contained manager name target) : NameStaysInside manager name := by
  by_cases version : manager.info.version = .none
  · exact .inl version
  by_cases dots : Text.contains name ".." = true
  · exact .inr (.inl dots)
  by_cases double : startsWithDoubleSlash name = true
  · refine .inr (.inr (.inr ?_))
    have absolute : isAbsolute (relativeName name) = true :=
      (relativeName_absolute_iff name).trans double
    have resolved : resolveTargetDir manager name = some (relativeName name) := by
      rw [resolveTargetDir_eq, if_neg (by simp [dots, version]), joined_absolute absolute]
    exact (contained _ resolved).1
  · exact .inr (.inr (.inl (by simpa using double)))

/-! ## The v1 hierarchy -/

/-- The record holds only paths at or below `base`. -/
def EffectBelow (base : Path) (effect : Effect) : Prop :=
  AtOrBelow base effect.action.path

/-- On v1 a request for a name inside touches nothing outside. -/
theorem perform_v1_maintains {manager : CgroupManager} {machine : Machine}
    (version : manager.info.version = .v1) (request : Request)
    (inside : ∀ target, resolveTargetDir manager request.name = some target →
      Contained manager request.name target) :
    Maintains (Within (EffectBelow (components (hierarchyBase manager)))
      (Grounded (components (hierarchyBase manager)))) (perform manager machine request) := by
  have kept := keptByDirs_grounded (components (hierarchyBase manager))
  have fileBelow : ∀ target, resolveTargetDir manager request.name = some target → ∀ file,
      Component.parentDir ∉ bodyComponents file.toList → ∀ fs text,
        EffectBelow (components (hierarchyBase manager))
          ⟨fs, .write (join (components target) file) text⟩ :=
    fun target resolved file clean _ _ => (inside target resolved).1.join clean
  have children : Maintains (Within (EffectBelow (components (hierarchyBase manager)))
      (Grounded (components (hierarchyBase manager)))) (ensureChild manager machine request.name) := by
    unfold ensureChild
    cases resolved : resolveTargetDir manager request.name with
    | none => exact maintains_pure _
    | some target =>
        have legacy : ownership manager target = .legacy := by
          simp [ownership, classify, version]
        simp only [legacy]
        exact ensureDir_maintains (fun _ below strict => below.dropLast strict)
          (fun _ _ below => below) (inside target resolved).1
  have quotas : ∀ target, resolveTargetDir manager request.name = some target → ∀ quota,
      Maintains (Within (EffectBelow (components (hierarchyBase manager)))
        (Grounded (components (hierarchyBase manager))))
          (setCpuMax manager machine target quota) := by
    intro target resolved quota
    apply setCpuMax_maintains kept quota
    intro _ fs text file member
    exact fileBelow target resolved file
      (controlFile_clean file (by simp at member ⊢; tauto)) fs text
  have weights : ∀ target, resolveTargetDir manager request.name = some target → ∀ weight,
      Maintains (Within (EffectBelow (components (hierarchyBase manager)))
        (Grounded (components (hierarchyBase manager))))
          (setCpuWeight manager machine target weight) := by
    intro target resolved weight
    apply setCpuWeight_maintains kept weight
    intro fs text file isFile _
    exact fileBelow target resolved file
      (controlFile_clean file (by simp [isFile, version])) fs text
  unfold perform
  cases request.operation with
  | ensureChild => exact maintains_bind children fun _ => maintains_pure _
  | movePid reads pid =>
      apply onTarget_maintains
      intro target resolved
      apply movePid_maintains kept reads pid
      intro _ fs text file member
      exact fileBelow target resolved file
        (controlFile_clean file (by simp at member ⊢; tauto)) fs text
  | setCpuMax quota => exact onTarget_maintains fun target resolved => quotas target resolved quota
  | setCpuWeight weight =>
      exact onTarget_maintains fun target resolved => weights target resolved weight
  | createCgroup settings =>
      exact createCgroup_ensures settings (fun _ given => given)
        (children.mono (fun _ given => given.1) fun _ _ => id) quotas weights

/-! ### A hierarchy that is not there -/

/-- What a v1 target is made in is there: the `cpu` directory or the mount point. A file that
stands on the way to it does as well, for nothing can be made below one. -/
def HierarchyThere (manager : CgroupManager) (name : String) (fs : Fs) : Prop :=
  manager.info.version = .v1 → resolveTargetDir manager name ≠ none →
    Grounded (components (push manager.info.mountPoint "cpu")) fs ∨
      ∃ above, above <+: components (push manager.info.mountPoint "cpu") ∧ above ≠ [] ∧
        fs.isFile above = true

section Missing

variable {manager : CgroupManager} {machine : Machine} {tree : Tree} {target : String}
  {above : Path} {log : List Effect}

theorem not_opened (onTheWay : above <+: components target) (nonempty : above ≠ [])
    (isFile : tree.isFile above = true) {file : String}
    (named : bodyComponents file.toList ≠ []) :
    openForWrite machine.kernel (join (components target) file) ⟨tree.toFs, log⟩ =
      (false, ⟨tree.toFs, log⟩) := by
  have toFile : above <+: join (components target) file :=
    onTheWay.trans (List.prefix_append _ _)
  have strict : above ≠ join (components target) file := by
    intro same
    obtain ⟨rest, split⟩ := onTheWay
    rw [join, ← split, List.append_assoc] at same
    have empty := List.self_eq_append_right.mp same
    exact named (List.append_eq_nil_iff.mp empty).2
  have missing := tree.missing_belowFile toFile strict nonempty isFile
  have noFile : tree.isFile (join (components target) file) = false := by
    by_contra present
    rw [Fs.pathExists_of_isFile (Bool.not_eq_false _ ▸ present)] at missing
    exact Bool.noConfusion missing
  rw [openForWrite, noFile]
  rfl

theorem writeControl_still (onTheWay : above <+: components target) (nonempty : above ≠ [])
    (isFile : tree.isFile above = true) {file : String}
    (named : bodyComponents file.toList ≠ []) (text : String) :
    Maintains (fun world => world = ⟨tree.toFs, log⟩)
      (writeControl machine (join (components target) file) text) := by
  have closed : Ensures (fun world => world = ⟨tree.toFs, log⟩)
      (openForWrite machine.kernel (join (components target) file))
      fun opened world => opened = false ∧ world = ⟨tree.toFs, log⟩ := by
    rintro _ rfl
    rw [not_opened onTheWay nonempty isFile named]
    exact ⟨rfl, rfl⟩
  refine ensures_bind closed fun opened => ?_
  refine ensures_ite (fun isOpen => ?_) fun _ => ensures_pure fun _ given => given.2
  rintro world ⟨isClosed, -⟩
  exact absurd (isOpen.symm.trans isClosed) (by decide)

theorem movePid_still (onTheWay : above <+: components target) (nonempty : above ≠ [])
    (isFile : tree.isFile above = true) (reads : PidReads) (pid : Int) :
    Maintains (fun world => world = ⟨tree.toFs, log⟩)
      (movePid manager machine reads pid target) := by
  have closed : ∀ file ∈ ["cgroup.procs", "tasks"],
      Ensures (fun world => world = ⟨tree.toFs, log⟩)
        (openForWrite machine.kernel (join (components target) file))
        fun opened world => opened = false ∧ world = ⟨tree.toFs, log⟩ := by
    intro file member
    have named : bodyComponents file.toList ≠ [] := by
      simp only [List.mem_cons, List.not_mem_nil, or_false] at member
      rcases member with rfl | rfl <;> decide
    rintro _ rfl
    rw [not_opened onTheWay nonempty isFile named]
    exact ⟨rfl, rfl⟩
  unfold movePid
  refine maintains_ite (maintains_pure _) ?_
  apply maintains_bind (pathExists_maintains _ _)
  intro present
  refine maintains_ite ?_ (maintains_pure _)
  refine ensures_bind (closed _ (by split <;> simp)) fun opened => ?_
  refine ensures_ite (fun isOpen => ?_) fun _ => ensures_pure fun _ given => given.2
  rintro world ⟨isClosed, -⟩
  exact absurd (isOpen.symm.trans isClosed) (by decide)

theorem ensureDir_still (onTheWay : above <+: components target) (nonempty : above ≠ [])
    (isFile : tree.isFile above = true) :
    Maintains (fun world => world = ⟨tree.toFs, log⟩) (ensureDir machine target) := by
  apply maintains_bind (pathExists_maintains _ _)
  intro present
  apply maintains_ite (maintains_pure _)
  apply maintains_bind (createDirAll_still onTheWay nonempty isFile log)
  intro made
  cases made <;> exact maintains_pure _

/-- Below a file no request of the v1 hierarchy does anything. -/
theorem perform_still (version : manager.info.version = .v1) (request : Request)
    (below : ∀ target, resolveTargetDir manager request.name = some target →
      ∃ above, above <+: components target ∧ above ≠ [] ∧ tree.isFile above = true) :
    Maintains (fun world => world = ⟨tree.toFs, log⟩) (perform manager machine request) := by
  have named : ∀ file ∈ ["cpu.max", "cpu.cfs_period_us", "cpu.cfs_quota_us", "cpu.weight",
      "cpu.shares"], bodyComponents file.toList ≠ [] := by
    decide
  have children : Maintains (fun world => world = ⟨tree.toFs, log⟩)
      (ensureChild manager machine request.name) := by
    unfold ensureChild
    cases resolved : resolveTargetDir manager request.name with
    | none => exact maintains_pure _
    | some target =>
        have legacy : ownership manager target = .legacy := by
          simp [ownership, classify, version]
        obtain ⟨above, onTheWay, nonempty, isFile⟩ := below target resolved
        simp only [legacy]
        exact ensureDir_still onTheWay nonempty isFile
  have quotas : ∀ target, resolveTargetDir manager request.name = some target → ∀ quota,
      Maintains (fun world => world = ⟨tree.toFs, log⟩)
        (setCpuMax manager machine target quota) := by
    intro target resolved quota
    obtain ⟨above, onTheWay, nonempty, isFile⟩ := below target resolved
    have writes := fun file member =>
      @writeControl_still machine tree target above log onTheWay nonempty isFile file
        (named file member)
    unfold setCpuMax
    refine maintains_ite (maintains_pure _) (maintains_ite (writes _ (by simp) _) ?_)
    apply maintains_bind (writes _ (by simp) _)
    intro written
    exact maintains_ite (writes _ (by simp) _) (maintains_pure _)
  have weights : ∀ target, resolveTargetDir manager request.name = some target → ∀ weight,
      Maintains (fun world => world = ⟨tree.toFs, log⟩)
        (setCpuWeight manager machine target weight) := by
    intro target resolved weight
    obtain ⟨above, onTheWay, nonempty, isFile⟩ := below target resolved
    have writes := fun file member =>
      @writeControl_still machine tree target above log onTheWay nonempty isFile file
        (named file member)
    unfold setCpuWeight
    exact maintains_ite (writes _ (by simp) _) (writes _ (by simp) _)
  unfold perform
  cases request.operation with
  | ensureChild => exact maintains_bind children fun _ => maintains_pure _
  | movePid reads pid =>
      apply onTarget_maintains
      intro target resolved
      obtain ⟨above, onTheWay, nonempty, isFile⟩ := below target resolved
      exact movePid_still onTheWay nonempty isFile reads pid
  | setCpuMax quota => exact onTarget_maintains fun target resolved => quotas target resolved quota
  | setCpuWeight weight =>
      exact onTarget_maintains fun target resolved => weights target resolved weight
  | createCgroup settings =>
      exact createCgroup_ensures settings (fun _ given => given)
        (children.mono (fun _ given => given.1) fun _ _ => id) quotas weights

end Missing

/-- On v1 a cgroup below a missing directory is made from there, or from above. -/
theorem ensureChild_makes {manager : CgroupManager} {name target : String} {tree : Tree}
    {anchor : Path} (version : manager.info.version = .v1)
    (resolved : resolveTargetDir manager name = some target)
    (onTheWay : anchor <+: components target) (nonempty : anchor ≠ [])
    (missing : tree.pathExists anchor = false)
    (noFile : ∀ above, above <+: anchor → above ≠ [] → tree.isFile above = false) :
    Ensures (fun world => world = ⟨tree.toFs, []⟩) (ensureChild manager ⟨.permissive, 1, id⟩ name)
      fun _ world => MadeAbove anchor world.log := by
  have legacy : ownership manager target = .legacy := by
    simp [ownership, classify, version]
  have missingTarget : tree.pathExists (components target) = false :=
    tree.missing_below onTheWay nonempty missing
  unfold ensureChild ensureDir
  simp only [resolved, legacy]
  refine ensures_bind (pathExists_ensures _ _) fun present => ?_
  refine ensures_ite (fun isPresent => ?_) fun _ => ?_
  · rintro world ⟨rfl, isAnswer⟩
    rw [isAnswer, missingTarget] at isPresent
    exact Bool.noConfusion isPresent
  · have makes := createDirAll_makes onTheWay nonempty missing noFile
    refine ensures_bind (makes.mono (fun world given => by rw [given.1]) fun _ _ => id)
      fun made => ?_
    cases made <;> exact ensures_pure fun _ => id

/-- Without the hierarchy `create_dir_all` starts above it. -/
theorem hierarchyThere_of_below {manager : CgroupManager} {name target : String} {tree : Tree}
    (version : manager.info.version = .v1)
    (resolved : resolveTargetDir manager name = some target)
    (inside : Contained manager name target)
    (below : ∀ effect ∈ (serve manager ⟨.permissive, 1, id⟩ ⟨name, .ensureChild⟩
        ⟨tree.toFs, []⟩).log,
      AtOrBelow (components (push manager.info.mountPoint "cpu")) effect.action.path) :
    HierarchyThere manager name tree.toFs := by
  intro _ _
  by_contra gone
  rw [not_or] at gone
  obtain ⟨notGrounded, noFile⟩ := gone
  have isBase : hierarchyBase manager = push manager.info.mountPoint "cpu" := by
    simp [hierarchyBase, version]
  have toTarget := inside.1
  rw [isBase] at toTarget
  generalize components (push manager.info.mountPoint "cpu") = base at below notGrounded noFile toTarget
  simp only [Grounded, not_or, Bool.not_eq_true] at notGrounded
  obtain ⟨notDir, noParent⟩ := notGrounded
  have noFileThere : ∀ above, above <+: base → above ≠ [] → tree.isFile above = false := by
    intro above onTheWay nonempty
    by_contra isFile
    exact noFile ⟨above, onTheWay, nonempty, Bool.not_eq_false _ ▸ isFile⟩
  -- The mount point is missing, so the first directory to make is there or above.
  have mountNonempty : base.dropLast ≠ [] := by
    intro empty
    exact noParent (if_pos empty)
  have baseNonempty : base ≠ [] := by
    rintro rfl
    exact mountNonempty rfl
  have mountMissing : tree.pathExists base.dropLast = false := by
    by_contra present
    rw [Fs.parentNode, if_neg mountNonempty] at noParent
    have isFile := noFileThere base.dropLast (List.dropLast_prefix base) mountNonempty
    have notDirMount : tree.isDir base.dropLast = false := by
      rw [Fs.isDir, beq_eq_false_iff_ne]
      exact noParent
    rw [Fs.isFile_of_pathExists (Bool.not_eq_false _ ▸ present) notDirMount] at isFile
    exact Bool.noConfusion isFile
  obtain ⟨rest, isTarget, -⟩ := toTarget
  have mountAbove : base.dropLast <+: components target := by
    rw [isTarget]
    exact (List.dropLast_prefix base).trans (List.prefix_append base rest)
  have child := ensureChild_makes version resolved mountAbove mountNonempty mountMissing
    fun above onTheWay => noFileThere above (onTheWay.trans (List.dropLast_prefix base))
  obtain ⟨effect, member, made, isMade, toMount⟩ := child ⟨tree.toFs, []⟩ rfl
  obtain ⟨rest, isPath, -⟩ := below effect member
  rw [isMade] at isPath
  have longer : base.length ≤ base.dropLast.length := by
    have toBase : base <+: made := ⟨rest, isPath.symm⟩
    exact (toBase.trans toMount).length_le
  have positive := List.length_pos_iff.mpr baseNonempty
  rw [List.length_dropLast] at longer
  omega

/-- A name keeps its target, and on v1 everything that is made or written for it, inside the
hierarchy exactly when it does not start with `//`, is refused for a `..`, or spells out a
path that is inside already, and what the hierarchy lies in is there. -/
theorem resolveTargetDir_contained_iff (manager : CgroupManager) (name : String)
    (rootBelow : ∀ root, manager.delegatedRoot = some root →
      AtOrBelow (components manager.info.mountPoint) (components root)) (tree : Tree) :
    ((∀ target, resolveTargetDir manager name = some target →
        Contained manager name target) ∧
      (manager.info.version = .v1 → ∀ machine (operations : List Operation),
        ∀ reached ∈ states (serve manager machine) (operations.map (Request.mk name))
            ⟨tree.toFs, []⟩,
          ∀ effect ∈ reached.log,
            AtOrBelow (components (push manager.info.mountPoint "cpu")) effect.action.path)) ↔
      NameStaysInside manager name ∧ HierarchyThere manager name tree.toFs := by
  constructor
  · intro given
    obtain ⟨contained, below⟩ := given
    refine ⟨staysInside_of_contained contained, ?_⟩
    intro version found
    obtain ⟨target, resolved⟩ := Option.ne_none_iff_exists'.mp found
    refine hierarchyThere_of_below version resolved (contained target resolved) ?_ version found
    exact below version ⟨.permissive, 1, id⟩ [.ensureChild] _
      (foldl_mem_states (serve manager _) [⟨name, .ensureChild⟩] _)
  · intro given
    obtain ⟨inside, there⟩ := given
    have contained : ∀ target, resolveTargetDir manager name = some target →
        Contained manager name target :=
      fun target resolved => contained_of_staysInside rootBelow inside resolved
    refine ⟨contained, ?_⟩
    intro version machine operations reached member
    have sameName : Admits (serve manager machine) (fun _ request => request.name = name)
        (operations.map (Request.mk name)) ⟨tree.toFs, []⟩ :=
      admits_of_forall (by simp) _
    have base : hierarchyBase manager = push manager.info.mountPoint "cpu" := by
      simp [hierarchyBase, version]
    by_cases grounded : Grounded (components (push manager.info.mountPoint "cpu")) tree.toFs
    · have start : Within (EffectBelow (components (hierarchyBase manager)))
          (Grounded (components (hierarchyBase manager))) ⟨tree.toFs, []⟩ :=
        ⟨by simp, by rw [base]; exact grounded⟩
      have stepKeeps : ∀ world (request : Request),
          Within (EffectBelow (components (hierarchyBase manager)))
            (Grounded (components (hierarchyBase manager))) world → request.name = name →
          Within (EffectBelow (components (hierarchyBase manager)))
            (Grounded (components (hierarchyBase manager)))
            (serve manager machine request world) := by
        intro world request holds isName
        subst isName
        exact perform_v1_maintains version request contained world holds
      have within := invariant_of_admits stepKeeps _ _ start sameName reached member
      rw [← base]
      exact within.log
    · -- A file is in the way, or the name has no target: nothing happens at all.
      have stepKeeps : ∀ world (request : Request), world = ⟨tree.toFs, []⟩ →
          request.name = name → serve manager machine request world = ⟨tree.toFs, []⟩ := by
        intro world request start isName
        subst isName
        refine perform_still version request (fun target resolved => ?_) world start
        have found : resolveTargetDir manager request.name ≠ none := by
          simp [resolved]
        obtain ⟨above, toBase, nonempty, isFile⟩ := (there version found).resolve_left grounded
        obtain ⟨rest, isTarget, -⟩ := (contained target resolved).1
        refine ⟨above, toBase.trans ?_, nonempty, isFile⟩
        rw [← base]
        exact ⟨rest, isTarget.symm⟩
      rw [invariant_of_admits stepKeeps _ _ rfl sameName reached member]
      simp

/-- The mount point of a v1 hierarchy, before anything is made in it. -/
def mountedTree : Tree :=
  .ofLists ["/", "/sys", "/sys/fs", "/sys/fs/cgroup"] [] (by decide)

theorem resolveTargetDir_contained_games :
    NameStaysInside ⟨⟨.v1, "/sys/fs/cgroup"⟩, none⟩ "/games" ∧
      (∀ target, resolveTargetDir ⟨⟨.v1, "/sys/fs/cgroup"⟩, none⟩ "/games" = some target →
        Contained ⟨⟨.v1, "/sys/fs/cgroup"⟩, none⟩ "/games" target) := by
  have inside : NameStaysInside ⟨⟨.v1, "/sys/fs/cgroup"⟩, none⟩ "/games" := by decide
  have there : HierarchyThere ⟨⟨.v1, "/sys/fs/cgroup"⟩, none⟩ "/games" mountedTree.toFs :=
    fun _ _ => .inl (.inr (by decide))
  refine ⟨inside, ?_⟩
  exact ((resolveTargetDir_contained_iff ⟨⟨.v1, "/sys/fs/cgroup"⟩, none⟩ "/games"
    (by simp) mountedTree).mpr ⟨inside, there⟩).1

/-- The tree of the escape: `/etc` and the v1 hierarchy are there. -/
def escapeTree : Fs := Fs.ofLists ["/", "/etc", "/sys/fs/cgroup", "/sys/fs/cgroup/cpu"] []

/-- `//etc/cron.d` on v1: the target is `/etc/cron.d`, and `ensure_child` makes
that directory. -/
theorem resolveTargetDir_escapes :
    resolveTargetDir ⟨⟨.v1, "/sys/fs/cgroup"⟩, none⟩ "//etc/cron.d" = some "/etc/cron.d" ∧
      ¬ Contained ⟨⟨.v1, "/sys/fs/cgroup"⟩, none⟩ "//etc/cron.d" "/etc/cron.d" ∧
      (serve ⟨⟨.v1, "/sys/fs/cgroup"⟩, none⟩ ⟨Kernel.permissive, 1, id⟩
        ⟨"//etc/cron.d", .ensureChild⟩ ⟨escapeTree, []⟩).log.map Effect.action =
          [.createDir (components "/etc/cron.d")] := by
  refine ⟨by decide, ?_, by decide⟩
  intro contained
  exact absurd contained.1 (by decide)

end AnanicyRs.Platform.Cgroup
