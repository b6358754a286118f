import AnanicyRs.Platform.Cgroup.DelegatedRoot

/-!
Contract: the detection of the cgroup hierarchy in `crates/ananicy-platform/src/mounts.rs`
and the start-up wait of `src/runtime.rs`.

Owns `parse_cgroups_from_str` with both probes of a unified mount, the process-wide
cache `CGROUP_INFO` with the functions that read, fill and drop it, and
`wait_for_cgroup_hierarchy` over a timeline of moments. What the mount table and the file
system are like at one moment is an argument (`Moment`), so a timeline is any sequence of
them; the waiting itself takes no other effect.

The probes may change the host, so detection is also written over any probes
(`parseCgroupsWith`); `parseCgroups_prefers_unified` says which line of a mount table it
settles for when two predicates describe what the probes answer.

The cache keeps the answer "none" too, and nothing in the wait drops it before the last
attempt: `waitForCgroupHierarchy_redetects_iff` says for which caches and timelines the
wait keeps what it promises.
-/

set_option autoImplicit false

namespace AnanicyRs.Platform.Mounts

open AnanicyRs.Lib
open AnanicyRs.Lib.UnixPath
open AnanicyRs.Lib.FileSystem
open AnanicyRs.Platform.Cgroup

/-! ## Detection -/

/-- What the daemon would read and be allowed at one moment. -/
structure Moment where
  /-- `/proc/self/mounts`. -/
  mounts : Option String
  /-- `/proc/self/cgroup`. -/
  selfCgroup : Option String
  tree : Hierarchy
  machine : Machine
  /-- The tree after `remove_dir`, whether it was taken or refused. -/
  afterRemoveDir : Fs → Path → Fs

def listsCpu (controllers : String) : Bool :=
  (Text.splitWhitespace controllers).any (· == "cpu")

def v2HasCpuController (tree : Hierarchy) (mountPoint : Path) : Bool :=
  match tree.readToString (join mountPoint "cgroup.controllers") with
  | none => false
  | some controllers =>
      listsCpu controllers && tree.fs.pathExists (join mountPoint "cgroup.procs")

/-- The probe of last resort. It answers, and leaves the tree that its two removals and
its creation leave. -/
def v2ProbeByCreatingACgroup (moment : Moment) (tree : Hierarchy) (mountPoint : Path) :
    Bool × Hierarchy :=
  let testCgroup := join mountPoint "ananicy_test_cgroup2"
  let cleaned :=
    if tree.fs.pathExists testCgroup then moment.afterRemoveDir tree.fs testCgroup else tree.fs
  match mkdir moment.machine.kernel testCgroup ⟨cleaned, []⟩ with
  | (.error _, world) => (false, { tree with fs := world.fs })
  | (.ok (), world) =>
      let probed := { tree with fs := world.fs }
      let hasCpuController :=
        match probed.readToString (join testCgroup "cgroup.controllers") with
        | some controllers => listsCpu controllers
        | none => false
      let hasCpuMax := world.fs.pathExists (join testCgroup "cpu.max")
      (hasCpuController && hasCpuMax,
        { tree with fs := moment.afterRemoveDir world.fs testCgroup })

/-- The lines of the mount table. A usable unified mount ends the search; the first
usable legacy one is kept while the search goes on. -/
def parseLines (moment : Moment) : List String → Hierarchy → CgroupInfo → CgroupInfo
  | [], _, info => info
  | line :: rest, tree, info =>
      match Text.splitWhitespace line with
      | _ :: mountPoint :: fsType :: _ =>
          if fsType = "cgroup2" then
            if v2HasCpuController tree (components mountPoint) then ⟨.v2, mountPoint⟩
            else
              match v2ProbeByCreatingACgroup moment tree (components mountPoint) with
              | (true, _) => ⟨.v2, mountPoint⟩
              | (false, left) => parseLines moment rest left info
          else if fsType = "cgroup" ∧ info.version = .none then
            match parent (components mountPoint) with
            | some up =>
                if tree.fs.pathExists (join up "cpu") then
                  parseLines moment rest tree ⟨.v1, collect up⟩
                else parseLines moment rest tree info
            | none => parseLines moment rest tree info
          else parseLines moment rest tree info
      | _ => parseLines moment rest tree info

def parseCgroupsFromStr (moment : Moment) (content : String) (info : CgroupInfo) : CgroupInfo :=
  parseLines moment (Text.lines content) moment.tree info

/-- What a detection at this moment finds. -/
def detect (moment : Moment) : CgroupInfo :=
  match moment.mounts with
  | some content => parseCgroupsFromStr moment content ⟨.none, ""⟩
  | none => ⟨.none, ""⟩

/-- A usable hierarchy is there to be detected. -/
def visible (moment : Moment) : Bool := (detect moment).version != .none

/-! ## Detection with any probes -/

/-- What detection asks about a mount point: whether it is a usable unified hierarchy, which
may change the host, and whether a directory has a `cpu` child. -/
structure Probes (σ : Type) where
  usable : Path → σ → Bool × σ
  hasCpuChild : Path → σ → Bool

def hostProbes (moment : Moment) : Probes Hierarchy where
  usable mountPoint tree :=
    if v2HasCpuController tree mountPoint then (true, tree)
    else v2ProbeByCreatingACgroup moment tree mountPoint
  hasCpuChild up tree := tree.fs.pathExists (join up "cpu")

/-- The probes of a host that two predicates describe. -/
def Probes.fixed (usable hasCpuChild : Path → Bool) : Probes Unit where
  usable mountPoint _ := (usable mountPoint, ())
  hasCpuChild up _ := hasCpuChild up

@[simp]
theorem Probes.fixed_usable (usable hasCpuChild : Path → Bool) (mountPoint : Path) (host : Unit) :
    (Probes.fixed usable hasCpuChild).usable mountPoint host = (usable mountPoint, ()) := rfl

@[simp]
theorem Probes.fixed_hasCpuChild (usable hasCpuChild : Path → Bool) (up : Path) (host : Unit) :
    (Probes.fixed usable hasCpuChild).hasCpuChild up host = hasCpuChild up := rfl

section Probed

variable {σ : Type}

def parseLinesWith (probes : Probes σ) : List String → σ → CgroupInfo → CgroupInfo
  | [], _, info => info
  | line :: rest, host, info =>
      match Text.splitWhitespace line with
      | _ :: mountPoint :: fsType :: _ =>
          if fsType = "cgroup2" then
            match probes.usable (components mountPoint) host with
            | (true, _) => ⟨.v2, mountPoint⟩
            | (false, left) => parseLinesWith probes rest left info
          else if fsType = "cgroup" ∧ info.version = .none then
            match parent (components mountPoint) with
            | some up =>
                if probes.hasCpuChild up host then
                  parseLinesWith probes rest host ⟨.v1, collect up⟩
                else parseLinesWith probes rest host info
            | none => parseLinesWith probes rest host info
          else parseLinesWith probes rest host info
      | _ => parseLinesWith probes rest host info

/-- `parse_cgroups_from_str`, its two probes left open. -/
def parseCgroupsWith (probes : Probes σ) (host : σ) (content : String) (info : CgroupInfo) :
    CgroupInfo :=
  parseLinesWith probes (Text.lines content) host info

theorem parseLines_eq (moment : Moment) (lines : List String) (tree : Hierarchy)
    (info : CgroupInfo) :
    parseLines moment lines tree info = parseLinesWith (hostProbes moment) lines tree info := by
  induction lines generalizing tree info with
  | nil => rfl
  | cons line rest inductionHypothesis =>
      rw [parseLines.eq_def, parseLinesWith.eq_def]
      simp only [inductionHypothesis]
      split
      next device mountPoint fsType others fields =>
        have asked : (hostProbes moment).usable (components mountPoint) tree =
            if v2HasCpuController tree (components mountPoint) then (true, tree)
            else v2ProbeByCreatingACgroup moment tree (components mountPoint) := rfl
        rw [asked]
        cases v2HasCpuController tree (components mountPoint) with
        | true => rfl
        | false =>
            cases v2ProbeByCreatingACgroup moment tree (components mountPoint) with
            | mk found left => cases found <;> rfl
      next => rfl

/-- The hosts that probing may leave. -/
inductive Probes.Reached (probes : Probes σ) (start : σ) : σ → Prop
  | start : Reached probes start start
  | asked {host : σ} (mountPoint : Path) (reached : Reached probes start host) :
      Reached probes start (probes.usable mountPoint host).2

/-- Whatever was probed before, the probes answer as the predicates say. -/
def Probes.Answers (probes : Probes σ) (start : σ) (usable hasCpuChild : Path → Bool) : Prop :=
  ∀ host, probes.Reached start host →
    (∀ mountPoint, (probes.usable mountPoint host).1 = usable mountPoint) ∧
      ∀ up, probes.hasCpuChild up host = hasCpuChild up

theorem parseLinesWith_of_answers {probes : Probes σ} {start : σ} {usable hasCpuChild : Path → Bool}
    (answers : probes.Answers start usable hasCpuChild) (lines : List String) {host : σ}
    (reached : probes.Reached start host) (info : CgroupInfo) :
    parseLinesWith probes lines host info =
      parseLinesWith (.fixed usable hasCpuChild) lines () info := by
  induction lines generalizing host info with
  | nil => rfl
  | cons line rest inductionHypothesis =>
      obtain ⟨isUsable, isCpuChild⟩ := answers host reached
      rw [parseLinesWith.eq_def, parseLinesWith.eq_def]
      simp only [inductionHypothesis reached, isCpuChild]
      split
      next device mountPoint fsType others fields =>
        have answer : (probes.usable (components mountPoint) host).1 =
            usable (components mountPoint) :=
          isUsable (components mountPoint)
        have later := inductionHypothesis (.asked (components mountPoint) reached)
        cases probed : probes.usable (components mountPoint) host with
        | mk found left =>
            rw [probed] at answer later
            rw [Probes.fixed_usable, ← answer]
            cases found with
            | true => rfl
            | false =>
                simp only [later]
                rfl
      next => rfl

/-- Probes that leave the host as it was answer the same all through a detection. -/
theorem Probes.answers_of_unchanged {probes : Probes σ} {start : σ}
    (unchanged : ∀ mountPoint, (probes.usable mountPoint start).2 = start) :
    probes.Answers start (fun mountPoint => (probes.usable mountPoint start).1)
      (fun up => probes.hasCpuChild up start) := by
  intro host reached
  have same : host = start := by
    induction reached with
    | start => rfl
    | asked mountPoint _ inductionHypothesis => rw [inductionHypothesis, unchanged mountPoint]
  rw [same]
  exact ⟨fun _ => rfl, fun _ => rfl⟩

end Probed

/-- A host that lets nobody create or remove a directory is left as it was, and its unified
mounts are usable for what their `cgroup.controllers` says alone. -/
theorem answers_of_readOnly {moment : Moment}
    (refuses : ∀ fs path, moment.machine.kernel.refusesMkdir fs path = true)
    (keeps : ∀ fs path, moment.afterRemoveDir fs path = fs) :
    (hostProbes moment).Answers moment.tree (v2HasCpuController moment.tree)
      (fun up => moment.tree.fs.pathExists (join up "cpu")) := by
  have refused : ∀ mountPoint,
      v2ProbeByCreatingACgroup moment moment.tree mountPoint = (false, moment.tree) := by
    intro mountPoint
    obtain ⟨reason, error⟩ := mkdir_refused (join mountPoint "ananicy_test_cgroup2")
      ⟨moment.tree.fs, []⟩ (refuses _ _)
    rw [v2ProbeByCreatingACgroup, keeps, ite_self, error]
  have asked : ∀ mountPoint, (hostProbes moment).usable mountPoint moment.tree =
      (v2HasCpuController moment.tree mountPoint, moment.tree) := by
    intro mountPoint
    show (if v2HasCpuController moment.tree mountPoint then (true, moment.tree)
      else v2ProbeByCreatingACgroup moment moment.tree mountPoint) = _
    rw [refused mountPoint]
    cases v2HasCpuController moment.tree mountPoint <;> rfl
  have unchanged : ∀ mountPoint,
      ((hostProbes moment).usable mountPoint moment.tree).2 = moment.tree := by
    intro mountPoint
    rw [asked mountPoint]
  have answers := Probes.answers_of_unchanged unchanged
  simp only [asked] at answers
  exact answers

/-! ## The hierarchy that is preferred -/

/-- A line of at least three fields that mounts a usable unified hierarchy. -/
def IsUnified (usable : Path → Bool) (line mountPoint : String) : Prop :=
  ∃ device rest, Text.splitWhitespace line = device :: mountPoint :: "cgroup2" :: rest ∧
    usable (components mountPoint) = true

/-- A line of at least three fields that mounts a legacy controller below a directory with
a `cpu` child. -/
def IsLegacy (hasCpuChild : Path → Bool) (line : String) (up : Path) : Prop :=
  ∃ device mountPoint rest, Text.splitWhitespace line = device :: mountPoint :: "cgroup" :: rest ∧
    parent (components mountPoint) = some up ∧ hasCpuChild up = true

/-- The line has three fields, the third of which is a cgroup file system. -/
def isCgroupLine (line : String) : Bool :=
  match Text.splitWhitespace line with
  | _ :: _ :: fsType :: _ => fsType == "cgroup2" || fsType == "cgroup"
  | _ => false

def unifiedOf (usable : Path → Bool) (line : String) : Option String :=
  match Text.splitWhitespace line with
  | _ :: mountPoint :: fsType :: _ =>
      if fsType = "cgroup2" ∧ usable (components mountPoint) = true then some mountPoint else none
  | _ => none

def legacyOf (hasCpuChild : Path → Bool) (line : String) : Option Path :=
  match Text.splitWhitespace line with
  | _ :: mountPoint :: fsType :: _ =>
      if fsType = "cgroup" then (parent (components mountPoint)).filter hasCpuChild else none
  | _ => none

section FirstMatch

variable {α β : Type} {search : α → Option β} {spec : α → β → Prop} {l : List α}

theorem findSome?_eq_none_iff_spec (meets : ∀ a b, search a = some b ↔ spec a b) :
    l.findSome? search = none ↔ ∀ a ∈ l, ∀ b, ¬ spec a b := by
  rw [List.findSome?_eq_none_iff]
  simp only [Option.eq_none_iff_forall_ne_some, ne_eq, meets]

theorem findSome?_eq_some_iff_spec (meets : ∀ a b, search a = some b ↔ spec a b) {b : β} :
    l.findSome? search = some b ↔
      ∃ before a after, l = before ++ a :: after ∧ spec a b ∧
        ∀ earlier ∈ before, ∀ other, ¬ spec earlier other := by
  simp only [List.findSome?_eq_some_iff, Option.eq_none_iff_forall_ne_some, ne_eq, meets]

/-- A line that a search answers `none` for may be left out of the list searched. -/
theorem findSome?_filter_eq {kept : α → Bool} (dropped : ∀ a, kept a = false → search a = none)
    (l : List α) : (l.filter kept).findSome? search = l.findSome? search := by
  induction l with
  | nil => rfl
  | cons a rest inductionHypothesis =>
      rw [List.filter_cons]
      cases keep : kept a with
      | true => simp only [if_true, List.findSome?_cons, inductionHypothesis]
      | false =>
          simp only [Bool.false_eq_true, if_false, List.findSome?_cons, dropped a keep,
            inductionHypothesis]

end FirstMatch

section Preferred

variable {usable hasCpuChild : Path → Bool}

theorem unifiedOf_eq_some_iff (line mountPoint : String) :
    unifiedOf usable line = some mountPoint ↔ IsUnified usable line mountPoint := by
  unfold unifiedOf IsUnified
  split
  next device named fsType rest fields =>
    rw [fields, Option.ite_none_right_eq_some, Option.some.injEq]
    constructor
    · rintro ⟨⟨rfl, isUsable⟩, rfl⟩
      exact ⟨device, rest, rfl, isUsable⟩
    · rintro ⟨_, _, same, isUsable⟩
      simp only [List.cons.injEq] at same
      obtain ⟨_, rfl, rfl, _⟩ := same
      exact ⟨⟨rfl, isUsable⟩, rfl⟩
  next short =>
    constructor
    · intro impossible
      exact absurd impossible (by simp)
    · rintro ⟨_, _, fields, _⟩
      exact absurd fields (short _ _ _ _)

theorem legacyOf_eq_some_iff (line : String) (up : Path) :
    legacyOf hasCpuChild line = some up ↔ IsLegacy hasCpuChild line up := by
  unfold legacyOf IsLegacy
  split
  next device named fsType rest fields =>
    rw [fields, Option.ite_none_right_eq_some, Option.filter_eq_some_iff]
    constructor
    · rintro ⟨rfl, isParent, isCpuChild⟩
      exact ⟨device, named, rest, rfl, isParent, isCpuChild⟩
    · rintro ⟨_, _, _, same, isParent, isCpuChild⟩
      simp only [List.cons.injEq] at same
      obtain ⟨_, rfl, rfl, _⟩ := same
      exact ⟨rfl, isParent, isCpuChild⟩
  next short =>
    constructor
    · intro impossible
      exact absurd impossible (by simp)
    · rintro ⟨_, _, _, fields, _⟩
      exact absurd fields (short _ _ _ _)

/-- The loop from any candidate: the first usable unified line wins; without one, the first
legacy line fills an empty candidate. -/
theorem parseLinesWith_fixed (lines : List String) (info : CgroupInfo) :
    parseLinesWith (.fixed usable hasCpuChild) lines () info =
      match lines.findSome? (unifiedOf usable) with
      | some mountPoint => ⟨.v2, mountPoint⟩
      | none =>
          if info.version = .none then
            match lines.findSome? (legacyOf hasCpuChild) with
            | some up => ⟨.v1, collect up⟩
            | none => info
          else info := by
  induction lines generalizing info with
  | nil => simp [parseLinesWith]
  | cons line rest inductionHypothesis =>
      rw [parseLinesWith.eq_def, List.findSome?_cons, List.findSome?_cons]
      simp only [unifiedOf, legacyOf, Probes.fixed_usable, Probes.fixed_hasCpuChild]
      split
      next device mountPoint fsType others fields =>
        by_cases isUnified : fsType = "cgroup2"
        · subst isUnified
          have notLegacy : ("cgroup2" : String) ≠ "cgroup" := by
            decide
          cases usable (components mountPoint) with
          | true => simp
          | false => simp [notLegacy, inductionHypothesis]
        · by_cases isLegacy : fsType = "cgroup"
          · by_cases noCandidate : info.version = .none
            · cases parent (components mountPoint) with
              | none => simp [isLegacy, noCandidate, inductionHypothesis]
              | some up =>
                  cases cpu : hasCpuChild up with
                  | true =>
                      simp [isLegacy, noCandidate, Option.filter_some, cpu, inductionHypothesis]
                  | false =>
                      simp [isLegacy, noCandidate, Option.filter_some, cpu, inductionHypothesis]
            · simp [isUnified, noCandidate, inductionHypothesis]
          · simp [isUnified, isLegacy, inductionHypothesis]
      next => exact inductionHypothesis info

/-- What a host that the two predicates describe should answer for a mount table. -/
inductive Preferred (usable hasCpuChild : Path → Bool) (lines : List String) : CgroupInfo → Prop
  | unified {before after : List String} {line mountPoint : String}
      (split : lines = before ++ line :: after) (isUnified : IsUnified usable line mountPoint)
      (first : ∀ earlier ∈ before, ∀ other, ¬ IsUnified usable earlier other) :
      Preferred usable hasCpuChild lines ⟨.v2, mountPoint⟩
  | legacy {before after : List String} {line : String} {up : Path}
      (noUnified : ∀ line ∈ lines, ∀ other, ¬ IsUnified usable line other)
      (split : lines = before ++ line :: after) (isLegacy : IsLegacy hasCpuChild line up)
      (first : ∀ earlier ∈ before, ∀ other, ¬ IsLegacy hasCpuChild earlier other) :
      Preferred usable hasCpuChild lines ⟨.v1, collect up⟩
  | nothing
      (noUnified : ∀ line ∈ lines, ∀ other, ¬ IsUnified usable line other)
      (noLegacy : ∀ line ∈ lines, ∀ other, ¬ IsLegacy hasCpuChild line other) :
      Preferred usable hasCpuChild lines ⟨.none, ""⟩

theorem parseLinesWith_preferred (lines : List String) :
    Preferred usable hasCpuChild lines
      (parseLinesWith (.fixed usable hasCpuChild) lines () ⟨.none, ""⟩) := by
  rw [parseLinesWith_fixed, if_pos rfl]
  cases unified : lines.findSome? (unifiedOf usable) with
  | some mountPoint =>
      obtain ⟨before, line, after, split, isUnified, first⟩ :=
        (findSome?_eq_some_iff_spec unifiedOf_eq_some_iff).mp unified
      exact .unified split isUnified first
  | none =>
      have noUnified := (findSome?_eq_none_iff_spec unifiedOf_eq_some_iff).mp unified
      cases legacy : lines.findSome? (legacyOf hasCpuChild) with
      | some up =>
          obtain ⟨before, line, after, split, isLegacy, first⟩ :=
            (findSome?_eq_some_iff_spec legacyOf_eq_some_iff).mp legacy
          exact .legacy noUnified split isLegacy first
      | none =>
          have noLegacy := (findSome?_eq_none_iff_spec legacyOf_eq_some_iff).mp legacy
          exact .nothing noUnified noLegacy

/-- There is one such answer. -/
theorem eq_of_preferred {lines : List String} {info : CgroupInfo}
    (preferred : Preferred usable hasCpuChild lines info) :
    parseLinesWith (.fixed usable hasCpuChild) lines () ⟨.none, ""⟩ = info := by
  rw [parseLinesWith_fixed, if_pos rfl]
  cases preferred with
  | unified split isUnified first =>
      have unified := (findSome?_eq_some_iff_spec unifiedOf_eq_some_iff).mpr
        ⟨_, _, _, split, isUnified, first⟩
      rw [unified]
  | legacy noUnified split isLegacy first =>
      have unified := (findSome?_eq_none_iff_spec unifiedOf_eq_some_iff).mpr noUnified
      have legacy := (findSome?_eq_some_iff_spec legacyOf_eq_some_iff).mpr
        ⟨_, _, _, split, isLegacy, first⟩
      rw [unified, legacy]
  | nothing noUnified noLegacy =>
      have unified := (findSome?_eq_none_iff_spec unifiedOf_eq_some_iff).mpr noUnified
      have legacy := (findSome?_eq_none_iff_spec legacyOf_eq_some_iff).mpr noLegacy
      rw [unified, legacy]

theorem unifiedOf_other {line : String} (other : isCgroupLine line = false) :
    unifiedOf usable line = none := by
  unfold isCgroupLine at other
  unfold unifiedOf
  split at other
  · rw [Bool.or_eq_false_iff, beq_eq_false_iff_ne, beq_eq_false_iff_ne] at other
    apply if_neg
    intro unified
    exact other.1 unified.1
  · rfl

theorem legacyOf_other {line : String} (other : isCgroupLine line = false) :
    legacyOf hasCpuChild line = none := by
  unfold isCgroupLine at other
  unfold legacyOf
  split at other
  · rw [Bool.or_eq_false_iff, beq_eq_false_iff_ne, beq_eq_false_iff_ne] at other
    apply if_neg
    exact other.2
  · rfl

/-- Detection sees the cgroup lines of a mount table only. -/
theorem parseLinesWith_cgroupLines (lines : List String) (info : CgroupInfo) :
    parseLinesWith (.fixed usable hasCpuChild) (lines.filter isCgroupLine) () info =
      parseLinesWith (.fixed usable hasCpuChild) lines () info := by
  rw [parseLinesWith_fixed, parseLinesWith_fixed,
    findSome?_filter_eq (fun _ other => unifiedOf_other other),
    findSome?_filter_eq (fun _ other => legacyOf_other other)]

end Preferred

/-- Detection prefers the unified hierarchy, for any two predicates that say which unified
mount points are usable and which directories have a `cpu` child. Lines of fewer than three
fields and other file systems have no influence; and on a host whose probes answer as the
predicates say, this is what `parse_cgroups_from_str` detects. -/
theorem parseCgroups_prefers_unified (usable hasCpuChild : Path → Bool) (content : String) :
    (∀ info, parseCgroupsWith (.fixed usable hasCpuChild) () content ⟨.none, ""⟩ = info ↔
        Preferred usable hasCpuChild (Text.lines content) info) ∧
      (∀ other, (Text.lines other).filter isCgroupLine = (Text.lines content).filter isCgroupLine →
        parseCgroupsWith (.fixed usable hasCpuChild) () other ⟨.none, ""⟩ =
          parseCgroupsWith (.fixed usable hasCpuChild) () content ⟨.none, ""⟩) ∧
      (∀ moment, (hostProbes moment).Answers moment.tree usable hasCpuChild →
        parseCgroupsFromStr moment content ⟨.none, ""⟩ =
          parseCgroupsWith (.fixed usable hasCpuChild) () content ⟨.none, ""⟩) := by
  refine ⟨fun info => ⟨?_, ?_⟩, fun other sameLines => ?_, fun moment answers => ?_⟩
  · intro result
    rw [← result]
    exact parseLinesWith_preferred (Text.lines content)
  · exact eq_of_preferred
  · show parseLinesWith _ (Text.lines other) () _ = parseLinesWith _ (Text.lines content) () _
    rw [← parseLinesWith_cgroupLines (Text.lines other), sameLines, parseLinesWith_cgroupLines]
  · show parseLines moment (Text.lines content) moment.tree _ = _
    rw [parseLines_eq]
    exact parseLinesWith_of_answers answers (Text.lines content) .start ⟨.none, ""⟩

/-! ## The cache -/

/-- `CGROUP_INFO`. -/
abbrev InfoCache := Option CgroupInfo

def getCgroupInfo (moment : Moment) (cache : InfoCache) : CgroupInfo × InfoCache :=
  match cache with
  | some info => (info, cache)
  | none => (detect moment, some (detect moment))

def cgroupVersion (moment : Moment) (cache : InfoCache) : CgroupVersion × InfoCache :=
  match cache with
  | some info => (info.version, cache)
  | none =>
      let (info, filled) := getCgroupInfo moment cache
      (info.version, filled)

def resetCgroupInfo : InfoCache := none

def hasCgroupHierarchy (moment : Moment) (cache : InfoCache) : Bool × InfoCache :=
  let (info, filled) := getCgroupInfo moment cache
  (info.version != .none, filled)

def cgroupInitAttempts : Nat := 20

/-- The attempts of `init_cgroups` that are left, the next of them at moment `attempt`. -/
def initAttempts (timeline : Nat → Moment) : Nat → Nat → InfoCache → Bool × InfoCache
  | 0, _, _ => (false, resetCgroupInfo)
  | left + 1, attempt, cache =>
      let (info, filled) := getCgroupInfo (timeline attempt) cache
      if info.version ≠ .none then (true, filled)
      else initAttempts timeline left (attempt + 1) filled

def initCgroups (timeline : Nat → Moment) (cache : InfoCache) : Bool × InfoCache :=
  initAttempts timeline cgroupInitAttempts 1 cache

/-- `wait_for_cgroup_hierarchy`, entered at moment 0. The attempts are at the moments from
1 on. -/
def waitForCgroupHierarchy (timeline : Nat → Moment) (cache : InfoCache) : Bool × InfoCache :=
  match hasCgroupHierarchy (timeline 0) cache with
  | (true, filled) => (true, filled)
  | (false, filled) => initCgroups timeline filled

/-! ## A filled cache decides -/

@[simp] theorem getCgroupInfo_some (moment : Moment) (info : CgroupInfo) :
    getCgroupInfo moment (some info) = (info, some info) := rfl

@[simp] theorem getCgroupInfo_none (moment : Moment) :
    getCgroupInfo moment none = (detect moment, some (detect moment)) := rfl

@[simp] theorem cgroupVersion_some (moment : Moment) (info : CgroupInfo) :
    cgroupVersion moment (some info) = (info.version, some info) := rfl

theorem cgroupVersion_eq (moment : Moment) (cache : InfoCache) :
    cgroupVersion moment cache =
      ((getCgroupInfo moment cache).1.version, (getCgroupInfo moment cache).2) := by
  cases cache <;> rfl

theorem getCgroupInfo_filled (moment : Moment) (cache : InfoCache) :
    (getCgroupInfo moment cache).2 = some (getCgroupInfo moment cache).1 := by
  cases cache <;> rfl

/-- No attempt asks the mount table while the cache says that there is nothing. -/
theorem initAttempts_none (timeline : Nat → Moment) {info : CgroupInfo}
    (nothing : info.version = .none) :
    ∀ left attempt, initAttempts timeline left attempt (some info) = (false, none)
  | 0, _ => rfl
  | left + 1, attempt => by
      rw [initAttempts, getCgroupInfo_some]
      simp only [nothing, ne_eq, not_true_eq_false, ↓reduceIte]
      exact initAttempts_none timeline nothing left (attempt + 1)

/-- The wait only ever looks at the entry moment. -/
theorem waitForCgroupHierarchy_eq (timeline : Nat → Moment) (cache : InfoCache) :
    waitForCgroupHierarchy timeline cache =
      if (getCgroupInfo (timeline 0) cache).1.version = .none then (false, none)
      else (true, some (getCgroupInfo (timeline 0) cache).1) := by
  rw [waitForCgroupHierarchy, hasCgroupHierarchy]
  simp only [getCgroupInfo_filled]
  by_cases nothing : (getCgroupInfo (timeline 0) cache).1.version = .none
  · have hidden : ((getCgroupInfo (timeline 0) cache).1.version != .none) = false := by
      simp [nothing]
    rw [if_pos nothing, hidden]
    exact initAttempts_none timeline nothing _ _
  · rw [if_neg nothing]
    have found : ((getCgroupInfo (timeline 0) cache).1.version != .none) = true := by
      simpa using nothing
    rw [found]

/-! ## The promise of the wait -/

/-- The attempts of the wait. -/
def IsAttempt (attempt : Nat) : Prop := 1 ≤ attempt ∧ attempt ≤ cgroupInitAttempts

instance (attempt : Nat) : Decidable (IsAttempt attempt) :=
  inferInstanceAs (Decidable (_ ∧ _))

/-- The first attempt at whose moment a usable hierarchy is visible. -/
structure FirstShown (timeline : Nat → Moment) (attempt : Nat) : Prop where
  isAttempt : IsAttempt attempt
  shown : visible (timeline attempt) = true
  first : ∀ earlier, IsAttempt earlier → earlier < attempt → visible (timeline earlier) = false

/-- Entered while nothing is visible, the wait finds the hierarchy that appears; and it
gives up only when none appeared. -/
structure Redetects (timeline : Nat → Moment) (cache : InfoCache) : Prop where
  finds : visible (timeline 0) = false → ∀ attempt, FirstShown timeline attempt →
    (waitForCgroupHierarchy timeline cache).1 = true ∧
      ∀ later, (cgroupVersion later (waitForCgroupHierarchy timeline cache).2).1 =
        (detect (timeline attempt)).version
  givesUp : (waitForCgroupHierarchy timeline cache).1 = false →
    ∀ attempt, IsAttempt attempt → visible (timeline attempt) = false

/-- Nothing appears in time; or the entry itself finds what is visible; or the cache has
a hierarchy, which is the one that appears. -/
def EntryDecides (timeline : Nat → Moment) (cache : InfoCache) : Prop :=
  (∀ attempt, IsAttempt attempt → visible (timeline attempt) = false) ∨
    match cache with
    | none => visible (timeline 0) = true
    | some info => info.version ≠ .none ∧
        (visible (timeline 0) = true ∨
          ∀ attempt, FirstShown timeline attempt →
            (detect (timeline attempt)).version = info.version)

/-- A hierarchy shown at some attempt has a first attempt that shows it, so `Redetects`
promises to find it. -/
theorem exists_firstShown {timeline : Nat → Moment} {attempt : Nat} (isAttempt : IsAttempt attempt)
    (shown : visible (timeline attempt) = true) : ∃ first, FirstShown timeline first := by
  induction attempt using Nat.strong_induction_on with
  | _ attempt inductionHypothesis =>
      by_cases earlierShown : ∃ earlier, IsAttempt earlier ∧ earlier < attempt ∧
          visible (timeline earlier) = true
      · obtain ⟨earlier, isEarlier, before, shownEarlier⟩ := earlierShown
        exact inductionHypothesis earlier before isEarlier shownEarlier
      · refine ⟨attempt, isAttempt, shown, fun earlier isEarlier before => ?_⟩
        rw [Bool.eq_false_iff]
        intro shownEarlier
        exact earlierShown ⟨earlier, isEarlier, before, shownEarlier⟩

section Wait

variable {timeline : Nat → Moment} {cache : InfoCache}

theorem redetects_of_nothing
    (nothing : ∀ attempt, IsAttempt attempt → visible (timeline attempt) = false) :
    Redetects timeline cache where
  finds _ attempt first := by
    have shown := first.shown
    rw [nothing attempt first.isAttempt] at shown
    exact absurd shown (by decide)
  givesUp _ := nothing

theorem redetects_of_found {info : CgroupInfo}
    (found : waitForCgroupHierarchy timeline cache = (true, some info))
    (same : visible (timeline 0) = true ∨ ∀ attempt, FirstShown timeline attempt →
      (detect (timeline attempt)).version = info.version) :
    Redetects timeline cache where
  finds hidden attempt first := by
    rw [found]
    refine ⟨rfl, fun later => ?_⟩
    rcases same with visibleAtEntry | sameVersion
    · rw [hidden] at visibleAtEntry
      exact absurd visibleAtEntry (by decide)
    · rw [cgroupVersion_some, sameVersion attempt first]
  givesUp gaveUp := by
    rw [found] at gaveUp
    simp at gaveUp

theorem nothing_of_redetects {info : CgroupInfo} (redetects : Redetects timeline cache)
    (atEntry : (getCgroupInfo (timeline 0) cache).1 = info) (nothing : info.version = .none) :
    ∀ attempt, IsAttempt attempt → visible (timeline attempt) = false := by
  apply redetects.givesUp
  rw [waitForCgroupHierarchy_eq, atEntry, if_pos nothing]

end Wait

/-- For every timeline and every cache the earlier callers left, the wait re-detects as
it promises exactly when the entry decides the answer. -/
theorem waitForCgroupHierarchy_redetects_iff (timeline : Nat → Moment) (cache : InfoCache) :
    Redetects timeline cache ↔ EntryDecides timeline cache := by
  constructor
  · intro redetects
    by_cases nothing : ∀ attempt, IsAttempt attempt → visible (timeline attempt) = false
    · exact .inl nothing
    · apply Or.inr
      cases cache with
      | none =>
          by_contra hidden
          have noVersion : (detect (timeline 0)).version = .none := by
            simpa [visible] using hidden
          exact nothing (nothing_of_redetects redetects rfl noVersion)
      | some info =>
          have usable : info.version ≠ .none := fun noVersion =>
            nothing (nothing_of_redetects redetects rfl noVersion)
          refine ⟨usable, ?_⟩
          by_cases atEntry : visible (timeline 0) = true
          · exact .inl atEntry
          · apply Or.inr
            intro attempt first
            have reported := (redetects.finds (by simpa using atEntry) attempt first).2 (timeline 0)
            rw [waitForCgroupHierarchy_eq, getCgroupInfo_some, if_neg usable] at reported
            exact reported.symm
  · rintro (nothing | decided)
    · exact redetects_of_nothing nothing
    · cases cache with
      | none =>
          have usable : (detect (timeline 0)).version ≠ .none := by
            simpa [visible] using decided
          have found : waitForCgroupHierarchy timeline none =
              (true, some (detect (timeline 0))) := by
            rw [waitForCgroupHierarchy_eq, getCgroupInfo_none, if_neg usable]
          exact redetects_of_found found (.inl decided)
      | some info =>
          apply redetects_of_found _ decided.2
          rw [waitForCgroupHierarchy_eq, getCgroupInfo_some, if_neg decided.1]

/-- A host with a unified hierarchy that has the cpu controller, under a given mount
table. -/
def unifiedHost (mounts : String) : Moment where
  mounts := some mounts
  selfCgroup := none
  tree :=
    { fs := ⟨fun path =>
        if path = components "/sys/fs/cgroup/cgroup.controllers" then
          some (.file "cpuset cpu io memory\n")
        else if path = components "/sys/fs/cgroup/cgroup.procs" then some (.file "1\n")
        else none⟩
      refusesAppend := fun _ => false
      refusesRead := fun _ => false }
  machine := ⟨Kernel.permissive, 8, id⟩
  afterRemoveDir fs _ := fs

def mountedAfterEntry (moment : Nat) : Moment :=
  if moment = 0 then unifiedHost "" else unifiedHost "cgroup2 /sys/fs/cgroup cgroup2 rw 0 0\n"

/-- The hierarchy is there from the first attempt on, the cache was empty, and the wait
gives up. -/
theorem appeared_hierarchy_missed :
    visible (mountedAfterEntry 0) = false ∧
      (∀ attempt, IsAttempt attempt → detect (mountedAfterEntry attempt) = ⟨.v2, "/sys/fs/cgroup"⟩) ∧
      (waitForCgroupHierarchy mountedAfterEntry none).1 = false ∧
      ¬ Redetects mountedAfterEntry none := by
  have hidden : visible (mountedAfterEntry 0) = false := by
    decide +kernel
  have table : detect (unifiedHost "cgroup2 /sys/fs/cgroup cgroup2 rw 0 0\n") =
      ⟨.v2, "/sys/fs/cgroup"⟩ := by
    decide +kernel
  have appears : ∀ attempt, IsAttempt attempt →
      detect (mountedAfterEntry attempt) = ⟨.v2, "/sys/fs/cgroup"⟩ := by
    intro attempt isAttempt
    have later : attempt ≠ 0 := by
      have atLeast := isAttempt.1
      omega
    rw [mountedAfterEntry, if_neg later, table]
  have gaveUp : (waitForCgroupHierarchy mountedAfterEntry none).1 = false := by
    have nothing : (detect (mountedAfterEntry 0)).version = .none := by
      simpa [visible] using hidden
    rw [waitForCgroupHierarchy_eq, getCgroupInfo_none, if_pos nothing]
  refine ⟨hidden, appears, gaveUp, fun redetects => ?_⟩
  have first : IsAttempt 1 := by
    decide
  have missed := redetects.givesUp gaveUp 1 first
  rw [visible, appears 1 first] at missed
  exact absurd missed (by decide)

end AnanicyRs.Platform.Mounts
