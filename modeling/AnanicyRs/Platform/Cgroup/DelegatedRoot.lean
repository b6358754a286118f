import AnanicyRs.Platform.Cgroup.Manager

/-!
Contract: the discovery of the delegated root in
`crates/ananicy-platform/src/cgroup/ownership.rs`.

Owns `discover_delegated_root`, `usable_root`, `has_tasks` and `is_writable` over the
text of `/proc/self/cgroup` and a state of the hierarchy. `CgroupManager::new` is here
too, because it is where the root is discovered.

The step up that `usable_root` takes is decided by two `cgroup.procs` files and not by
the unit: `discoverDelegatedRoot_bounded_iff` says for which own cgroups it stays in the
daemon's service and at or below the mount point.
-/

set_option autoImplicit false

namespace AnanicyRs.Platform.Cgroup

open AnanicyRs.Lib
open AnanicyRs.Lib.UnixPath
open AnanicyRs.Lib.FileSystem

/-! ## Discovery -/

/-- The files of a hierarchy, and which of them cannot be opened. -/
structure Hierarchy where
  fs : Fs
  refusesAppend : Path → Bool
  refusesRead : Path → Bool

def Hierarchy.readToString (tree : Hierarchy) (path : Path) : Option String :=
  match tree.fs.node path with
  | some (.file content) => if tree.refusesRead path then none else some content
  | _ => none

/-- A file that cannot be read counts as holding tasks. -/
def hasTasks (tree : Hierarchy) (cgroup : Path) : Bool :=
  match tree.readToString (join cgroup "cgroup.procs") with
  | some list => !(Text.trim list).isEmpty
  | none => true

def isWritable (tree : Hierarchy) (path : Path) : Bool :=
  tree.fs.isFile path && !tree.refusesAppend path

def usableRoot (tree : Hierarchy) (root : Path) : Path :=
  match parent root with
  | none => root
  | some up =>
      if !hasTasks tree root then root
      else if tree.fs.pathExists (join up "cgroup.procs") && !hasTasks tree up then up
      else root

/-- The path of a unified line of `/proc/self/cgroup`, made relative. -/
def unifiedLine (line : String) : Option String :=
  if Text.startsWith line "0::" then
    some (String.ofList ((Text.trimStartMatches line "0::").toList.dropWhile (· == '/')))
  else none

def ownDirectory (mountPoint path : String) : Path := components (push mountPoint path)

def discoverIn (tree : Hierarchy) (mountPoint : String) : List String → Option Path
  | [] => none
  | line :: rest =>
      match unifiedLine line with
      | none => discoverIn tree mountPoint rest
      | some path =>
          -- A transient scope belongs to the session the daemon was started from.
          if Text.endsWith path ".scope" then none
          else
            let fullPath := ownDirectory mountPoint path
            if isWritable tree (join fullPath "cgroup.procs") then
              some (usableRoot tree fullPath)
            else discoverIn tree mountPoint rest

def discoverDelegatedRoot (tree : Hierarchy) (mountPoint : String) (selfCgroup : Option String) :
    Option Path := do
  let content ← selfCgroup
  discoverIn tree mountPoint (Text.lines content)

/-! ## The daemon's own cgroup -/

/-- The unified path under which the daemon adopts a cgroup: the first one that is a
scope, which it refuses, or that it may write. -/
def ownCgroup (tree : Hierarchy) (mountPoint : String) (selfCgroup : Option String) :
    Option String := do
  let content ← selfCgroup
  let path ← ((Text.lines content).filterMap unifiedLine).find? fun path =>
    Text.endsWith path ".scope" ||
      isWritable tree (join (ownDirectory mountPoint path) "cgroup.procs")
  if Text.endsWith path ".scope" then none else some path

theorem discoverIn_eq (tree : Hierarchy) (mountPoint : String) (lines : List String) :
    discoverIn tree mountPoint lines =
      ((lines.filterMap unifiedLine).find? fun path => Text.endsWith path ".scope" ||
        isWritable tree (join (ownDirectory mountPoint path) "cgroup.procs")).bind fun path =>
          if Text.endsWith path ".scope" then none
          else some (usableRoot tree (ownDirectory mountPoint path)) := by
  induction lines with
  | nil => rfl
  | cons line rest inductionHypothesis =>
      rw [discoverIn]
      cases unified : unifiedLine line with
      | none =>
          rw [List.filterMap_cons_none unified]
          exact inductionHypothesis
      | some path =>
          rw [List.filterMap_cons_some unified, List.find?_cons]
          cases scope : Text.endsWith path ".scope" with
          | true => simp [scope]
          | false =>
              cases writable : isWritable tree (join (ownDirectory mountPoint path) "cgroup.procs") with
              | true => simp [scope, writable]
              | false => simpa [scope, writable] using inductionHypothesis

theorem discoverDelegatedRoot_eq (tree : Hierarchy) (mountPoint : String)
    (selfCgroup : Option String) :
    discoverDelegatedRoot tree mountPoint selfCgroup =
      (ownCgroup tree mountPoint selfCgroup).map fun path =>
        usableRoot tree (ownDirectory mountPoint path) := by
  cases selfCgroup with
  | none => rfl
  | some content =>
      simp only [discoverDelegatedRoot, ownCgroup, Option.bind_eq_bind, Option.bind_some,
        discoverIn_eq]
      cases ((Text.lines content).filterMap unifiedLine).find? _ with
      | none => rfl
      | some path =>
          simp only [Option.bind_some]
          split <;> rfl

theorem unifiedLine_relative {line path : String} (unified : unifiedLine line = some path) :
    isAbsolute path = false := by
  unfold unifiedLine at unified
  split at unified
  · obtain rfl := Option.some.inj unified
    rw [isAbsolute, String.toList_ofList]
    generalize (Text.trimStartMatches line "0::").toList = chars
    cases dropped : chars.dropWhile (· == '/') with
    | nil => rfl
    | cons first rest =>
        have notSlash := List.head?_dropWhile_not (· == '/') chars
        rw [dropped] at notSlash
        simpa using notSlash
  · simp at unified

theorem ownCgroup_relative {tree : Hierarchy} {mountPoint path : String}
    {selfCgroup : Option String} (own : ownCgroup tree mountPoint selfCgroup = some path) :
    isAbsolute path = false := by
  cases selfCgroup with
  | none => simp [ownCgroup] at own
  | some content =>
      simp only [ownCgroup, Option.bind_eq_bind, Option.bind_some, Option.bind_eq_some_iff] at own
      obtain ⟨other, found, notScope⟩ := own
      have same : other = path := by
        split at notScope
        · simp at notScope
        · exact Option.some.inj notScope
      subst same
      obtain ⟨line, _, unified⟩ := List.mem_filterMap.mp (List.mem_of_find?_eq_some found)
      exact unifiedLine_relative unified

/-- The own directory continues the mount point. -/
theorem ownDirectory_split (mountPoint : String) {path : String}
    (relative : isAbsolute path = false) :
    ∃ rest, ownDirectory mountPoint path = components mountPoint ++ rest := by
  by_cases empty : mountPoint = ""
  · subst empty
    refine ⟨components path, ?_⟩
    rw [ownDirectory, push_empty]
    rfl
  · exact ⟨bodyComponents path.toList, components_push empty relative⟩

/-! ## The boundary -/

/-- `root` is at or below the mount point, is the daemon's own cgroup or its parent, and
lies in every service that the own cgroup lies in. -/
structure Bounded (mountPoint path : String) (root : Path) : Prop where
  belowMount : AtOrBelow (components mountPoint) root
  ownOrParent : root = ownDirectory mountPoint path ∨
    parent (ownDirectory mountPoint path) = some root
  inService : ∀ above name below,
    ownDirectory mountPoint path = above ++ .normal name :: below →
      components mountPoint <+: above → Text.endsWith name ".service" = true →
        above ++ [.normal name] <+: root

/-- The own cgroup holds processes and the cgroup above it holds none. -/
def stepsUp (tree : Hierarchy) (own : Path) : Bool :=
  match parent own with
  | none => false
  | some up =>
      hasTasks tree own && tree.fs.pathExists (join up "cgroup.procs") && !hasTasks tree up

/-- The components of the own cgroup after the mount point. -/
def underMount (mountPoint path : String) : Path :=
  (ownDirectory mountPoint path).drop (components mountPoint).length

/-- A root that is not stepped up from has no `..`; one that is stepped up from is not
the mount point, is not itself a service, and has no `..` above its last component. -/
def Inside (tree : Hierarchy) (mountPoint path : String) : Prop :=
  if stepsUp tree (ownDirectory mountPoint path) = true then
    underMount mountPoint path ≠ [] ∧
      Component.parentDir ∉ (underMount mountPoint path).dropLast ∧
      ∀ name, (underMount mountPoint path).getLast? = some (.normal name) →
        Text.endsWith name ".service" = false
  else Component.parentDir ∉ underMount mountPoint path

theorem usableRoot_eq (tree : Hierarchy) (own : Path) :
    usableRoot tree own = if stepsUp tree own = true then own.dropLast else own := by
  unfold usableRoot stepsUp
  cases isParent : parent own with
  | none => simp
  | some up =>
      rw [(parent_eq_some isParent).2]
      cases hasTasks tree own <;> simp

theorem parent_of_stepsUp {tree : Hierarchy} {own : Path} (steps : stepsUp tree own = true) :
    parent own = some own.dropLast ∧ own ≠ [] := by
  unfold stepsUp at steps
  cases isParent : parent own with
  | none => simp [isParent] at steps
  | some up =>
      obtain ⟨nonempty, isDropLast⟩ := parent_eq_some isParent
      exact ⟨by rw [isDropLast], nonempty⟩

theorem atOrBelow_append (base rest : Path) :
    AtOrBelow base (base ++ rest) ↔ Component.parentDir ∉ rest := by
  rw [atOrBelow_iff]
  simp

section Boundary

variable {tree : Hierarchy} {mountPoint path : String}

/-- Without a step up, only a `..` can leave the mount point. -/
theorem bounded_own {rest : Path}
    (split : ownDirectory mountPoint path = components mountPoint ++ rest) :
    Bounded mountPoint path (ownDirectory mountPoint path) ↔ Component.parentDir ∉ rest := by
  rw [← atOrBelow_append (components mountPoint) rest, ← split]
  constructor
  · exact Bounded.belowMount
  · intro below
    refine ⟨below, .inl rfl, ?_⟩
    intro above name after isOwn _ _
    rw [isOwn]
    exact ⟨after, by simp⟩

/-- With a step up, the last component of the own cgroup is lost. -/
theorem bounded_parent {rest : Path} (steps : stepsUp tree (ownDirectory mountPoint path) = true)
    (split : ownDirectory mountPoint path = components mountPoint ++ rest) :
    Bounded mountPoint path (ownDirectory mountPoint path).dropLast ↔
      rest ≠ [] ∧ Component.parentDir ∉ rest.dropLast ∧
        ∀ name, rest.getLast? = some (.normal name) → Text.endsWith name ".service" = false := by
  obtain ⟨isParent, nonempty⟩ := parent_of_stepsUp steps
  by_cases atMount : rest = []
  · subst atMount
    rw [List.append_nil] at split
    constructor
    · intro bounded
      -- The parent of the mount point is shorter than the mount point.
      have longer := ((atOrBelow_iff _ _).mp bounded.belowMount).1.length_le
      rw [← split, List.length_dropLast] at longer
      have positive := List.length_pos_of_ne_nil nonempty
      omega
    · intro given
      exact absurd rfl given.1
  · have dropped : (ownDirectory mountPoint path).dropLast =
        components mountPoint ++ rest.dropLast := by
      rw [split, List.dropLast_append_of_ne_nil atMount]
    constructor
    · intro bounded
      have below := bounded.belowMount
      rw [dropped, atOrBelow_append] at below
      refine ⟨atMount, below, fun name isLast => ?_⟩
      rw [Bool.eq_false_iff]
      intro isService
      have lastOwn : ownDirectory mountPoint path =
          (ownDirectory mountPoint path).dropLast ++ [.normal name] := by
        rw [dropped, split, List.append_assoc, List.dropLast_append_getLast? _ isLast]
      have kept := (bounded.inService _ name [] lastOwn
        (by rw [dropped]; exact List.prefix_append _ _) isService).length_le
      rw [List.length_append] at kept
      simp at kept
    · rintro ⟨_, noDots, notService⟩
      refine ⟨?_, .inr isParent, ?_⟩
      · rw [dropped, atOrBelow_append]
        exact noDots
      · intro above name below isOwn startsWithMount isService
        have strict : below ≠ [] := by
          rintro rfl
          have isLast : rest.getLast? = some (.normal name) := by
            have ownLast : (ownDirectory mountPoint path).getLast? = some (.normal name) := by
              rw [isOwn]
              simp
            rwa [split, List.getLast?_append_of_ne_nil _ atMount] at ownLast
          rw [notService name isLast] at isService
          exact absurd isService (by decide)
        rw [isOwn, List.dropLast_append_of_ne_nil (by simp), List.dropLast_cons_of_ne_nil strict]
        exact ⟨below.dropLast, by simp⟩

end Boundary

/-- For every `/proc/self/cgroup`, mount point and state of the hierarchy, the root that
is discovered stays at or below the mount point, at the own cgroup or its parent, and in
the daemon's service, exactly when the own cgroup is `Inside`. -/
theorem discoverDelegatedRoot_bounded_iff (tree : Hierarchy) (mountPoint : String)
    (selfCgroup : Option String) :
    (∀ root, discoverDelegatedRoot tree mountPoint selfCgroup = some root →
      ∃ path, ownCgroup tree mountPoint selfCgroup = some path ∧
        Bounded mountPoint path root) ↔
      ∀ path, ownCgroup tree mountPoint selfCgroup = some path →
        Inside tree mountPoint path := by
  have pointwise : ∀ path, ownCgroup tree mountPoint selfCgroup = some path →
      (Bounded mountPoint path (usableRoot tree (ownDirectory mountPoint path)) ↔
        Inside tree mountPoint path) := by
    intro path own
    obtain ⟨rest, split⟩ := ownDirectory_split mountPoint (ownCgroup_relative own)
    have isRest : underMount mountPoint path = rest := by
      rw [underMount, split, List.drop_left]
    rw [usableRoot_eq, Inside, isRest]
    by_cases steps : stepsUp tree (ownDirectory mountPoint path) = true
    · rw [if_pos steps, if_pos steps]
      exact bounded_parent steps split
    · rw [if_neg steps, if_neg steps]
      exact bounded_own split
  rw [discoverDelegatedRoot_eq]
  constructor
  · intro property path own
    obtain ⟨other, isOther, bounded⟩ := property _ (by rw [own]; rfl)
    rw [own, Option.some.injEq] at isOther
    subst isOther
    exact (pointwise path own).mp bounded
  · intro inside root isRoot
    obtain ⟨path, own, rfl⟩ := Option.map_eq_some_iff.mp isRoot
    exact ⟨path, own, (pointwise path own).mpr (inside path own)⟩

/-- A host on which the daemon is the only process of its service and no process is
directly in the slice. -/
def serviceInSlice : Hierarchy where
  fs := ⟨fun path =>
    if path = components "/sys/fs/cgroup/system.slice/ananicy-rs.service/cgroup.procs" then
      some (.file "4242\n")
    else if path = components "/sys/fs/cgroup/system.slice/cgroup.procs" then some (.file "")
    else none⟩
  refusesAppend _ := false
  refusesRead _ := false

/-- The root is the slice: it has lost the daemon's service. -/
theorem slice_adopted :
    discoverDelegatedRoot serviceInSlice "/sys/fs/cgroup"
        (some "0::/system.slice/ananicy-rs.service\n") =
      some (components "/sys/fs/cgroup/system.slice") ∧
    ¬ ∀ root, discoverDelegatedRoot serviceInSlice "/sys/fs/cgroup"
        (some "0::/system.slice/ananicy-rs.service\n") = some root →
      ∃ path, ownCgroup serviceInSlice "/sys/fs/cgroup"
          (some "0::/system.slice/ananicy-rs.service\n") = some path ∧
        Bounded "/sys/fs/cgroup" path root := by
  have adopted : discoverDelegatedRoot serviceInSlice "/sys/fs/cgroup"
      (some "0::/system.slice/ananicy-rs.service\n") =
        some (components "/sys/fs/cgroup/system.slice") := by
    decide +kernel
  have isOwn : ownCgroup serviceInSlice "/sys/fs/cgroup"
      (some "0::/system.slice/ananicy-rs.service\n") =
        some "system.slice/ananicy-rs.service" := by
    decide +kernel
  rw [adopted, isOwn]
  constructor
  · rfl
  · intro property
    obtain ⟨path, own, bounded⟩ := property _ rfl
    obtain rfl := Option.some.inj own
    have kept := bounded.inService (components "/sys/fs/cgroup/system.slice")
      "ananicy-rs.service" [] (by decide +kernel) (by decide +kernel) (by decide +kernel)
    exact absurd kept (by decide +kernel)

/-! ## The manager -/

/-- `CgroupManager::new`: only the unified hierarchy has a delegated root. -/
def CgroupManager.new (tree : Hierarchy) (selfCgroup : Option String) (info : CgroupInfo) :
    CgroupManager where
  info := info
  delegatedRoot :=
    if info.version = .v2 then
      (discoverDelegatedRoot tree info.mountPoint selfCgroup).map collect
    else none

theorem discoverDelegatedRoot_wellFormed {tree : Hierarchy} {mountPoint : String}
    {selfCgroup : Option String} {root : Path}
    (found : discoverDelegatedRoot tree mountPoint selfCgroup = some root) : WellFormed root := by
  rw [discoverDelegatedRoot_eq] at found
  obtain ⟨path, _, rfl⟩ := Option.map_eq_some_iff.mp found
  rw [usableRoot_eq]
  split
  · exact (components_wellFormed _).dropLast
  · exact components_wellFormed _

/-- The text the manager keeps names the directory that was discovered. -/
theorem new_delegatedRoot {tree : Hierarchy} {selfCgroup : Option String} {info : CgroupInfo}
    {root : String} (kept : (CgroupManager.new tree selfCgroup info).delegatedRoot = some root) :
    discoverDelegatedRoot tree info.mountPoint selfCgroup = some (components root) := by
  unfold CgroupManager.new at kept
  simp only at kept
  split at kept
  · obtain ⟨path, found, rfl⟩ := Option.map_eq_some_iff.mp kept
    rw [components_collect (discoverDelegatedRoot_wellFormed found)]
    exact found
  · simp at kept

end AnanicyRs.Platform.Cgroup
