import AnanicyRs.Platform.Cgroup.Process
import AnanicyRs.Platform.Mounts

/-!
Contract: the three places that keep the detected hierarchy.

Owns `MANAGER` with the functions of `crates/ananicy-platform/src/cgroups.rs` that build,
use and drop it, and `LinuxPlatform::new`, whose resolver keeps the version it was
constructed with. A call is made at one `Moment`; its effects on the file system show in
the moments of later calls, which are arbitrary.

`hierarchyInForce` reads the hierarchy in force off the calls alone. The mount cache and
the manager always follow it (`tracks_after`); a resolver that is already there does not,
and `coherent_iff` says when it agrees all the same.
-/

set_option autoImplicit false

namespace AnanicyRs.Platform.Cgroups

open AnanicyRs.Lib
open AnanicyRs.Lib.UnixPath
open AnanicyRs.Lib.FileSystem
open AnanicyRs.Platform.Cgroup
open AnanicyRs.Platform.Mounts

/-! ## Calls -/

/-- `LinuxPlatform`, without the cache in front of its resolver. -/
structure LinuxPlatform where
  cgroupResolver : LinuxCgroupResolver
deriving DecidableEq, Repr

inductive PlatformError where
  | notFound
  | unsupported
deriving DecidableEq, Repr

structure Detected where
  /-- `CGROUP_INFO`. -/
  info : InfoCache
  /-- `MANAGER`. -/
  manager : Option CgroupManager
  /-- The platforms constructed so far. -/
  platforms : List LinuxPlatform
deriving DecidableEq, Repr

def Detected.initial : Detected := ⟨none, none, []⟩

def newPlatform (moment : Moment) (state : Detected) : LinuxPlatform × Detected :=
  let (info, filled) := getCgroupInfo moment state.info
  let platform := LinuxPlatform.mk ⟨info.version⟩
  (platform, { state with info := filled, platforms := state.platforms ++ [platform] })

def getManager (moment : Moment) (state : Detected) : CgroupManager × Detected :=
  match state.manager with
  | some cached => (cached, state)
  | none =>
      let (info, filled) := getCgroupInfo moment state.info
      let built := CgroupManager.new moment.tree moment.selfCgroup info
      (built, { state with info := filled, manager := some built })

def createCgroup (moment : Moment) (cgroupName : String) (settings : CgroupSettings)
    (state : Detected) : Bool × Detected :=
  let (manager, next) := getManager moment state
  ((Cgroup.createCgroup manager moment.machine cgroupName settings ⟨moment.tree.fs, []⟩).1, next)

def addPidToCgroup (moment : Moment) (reads : PidReads) (pid : Int) (cgroupName : String)
    (state : Detected) : Except PlatformError Unit × Detected :=
  let (manager, next) := getManager moment state
  match resolveTargetDir manager cgroupName with
  | none => (.error .notFound, next)
  | some target =>
      if !moment.tree.fs.pathExists (components target) then (.error .notFound, next)
      else if (movePid manager moment.machine reads pid target ⟨moment.tree.fs, []⟩).1 then
        (.ok (), next)
      else (.error .unsupported, next)

def resetCgroupDetection (state : Detected) : Detected :=
  { state with info := resetCgroupInfo, manager := none }

inductive Operation where
  | newPlatform
  | getCgroupInfo
  | cgroupVersion
  | createCgroup (cgroupName : String) (settings : CgroupSettings)
  | addPidToCgroup (reads : PidReads) (pid : Int) (cgroupName : String)
  | resetCgroupDetection
deriving DecidableEq, Repr

structure Call where
  operation : Operation
  moment : Moment

def perform (call : Call) (state : Detected) : Detected :=
  match call.operation with
  | .newPlatform => (newPlatform call.moment state).2
  | .getCgroupInfo => { state with info := (getCgroupInfo call.moment state.info).2 }
  | .cgroupVersion => { state with info := (cgroupVersion call.moment state.info).2 }
  | .createCgroup name settings => (createCgroup call.moment name settings state).2
  | .addPidToCgroup reads pid name => (addPidToCgroup call.moment reads pid name state).2
  | .resetCgroupDetection => resetCgroupDetection state

/-- The state after a sequence of calls. -/
def after (calls : List Call) : Detected :=
  calls.foldl (fun state call => perform call state) .initial

theorem after_snoc (calls : List Call) (call : Call) :
    after (calls ++ [call]) = perform call (after calls) := by
  rw [after, List.foldl_append]
  rfl

/-! ## What one call does -/

def Call.isReset (call : Call) : Bool := call.operation == .resetCgroupDetection

def Call.usesManager (call : Call) : Bool :=
  match call.operation with
  | .createCgroup _ _ => true
  | .addPidToCgroup _ _ _ => true
  | _ => false

theorem createCgroup_state (moment : Moment) (name : String) (settings : CgroupSettings)
    (state : Detected) :
    (createCgroup moment name settings state).2 = (getManager moment state).2 := rfl

theorem addPidToCgroup_state (moment : Moment) (reads : PidReads) (pid : Int) (name : String)
    (state : Detected) :
    (addPidToCgroup moment reads pid name state).2 = (getManager moment state).2 := by
  unfold addPidToCgroup
  cases getManager moment state with
  | mk manager next =>
      simp only
      split
      · rfl
      · split
        · rfl
        · split <;> rfl

theorem perform_usesManager {call : Call} (uses : call.usesManager = true) (state : Detected) :
    perform call state = (getManager call.moment state).2 := by
  unfold Call.usesManager at uses
  unfold perform
  split at uses
  next isCreate =>
    rw [isCreate]
    exact createCgroup_state _ _ _ _
  next isAdd =>
    rw [isAdd]
    exact addPidToCgroup_state _ _ _ _ _
  next => exact absurd uses (by decide)

/-- A call does one of four things to the three caches. -/
theorem perform_cases (call : Call) (state : Detected) :
    (call.operation = .resetCgroupDetection ∧ perform call state = resetCgroupDetection state) ∨
    (call.operation = .newPlatform ∧
      perform call state = (newPlatform call.moment state).2) ∨
    (call.usesManager = true ∧ perform call state = (getManager call.moment state).2) ∨
    (call.isReset = false ∧ call.usesManager = false ∧ call.operation ≠ .newPlatform ∧
      perform call state = { state with info := (getCgroupInfo call.moment state.info).2 }) := by
  by_cases uses : call.usesManager = true
  · exact .inr (.inr (.inl ⟨uses, perform_usesManager uses state⟩))
  · rw [Bool.not_eq_true] at uses
    cases operation : call.operation with
    | resetCgroupDetection => exact .inl ⟨rfl, by rw [perform, operation]⟩
    | newPlatform => exact .inr (.inl ⟨rfl, by rw [perform, operation]⟩)
    | createCgroup name settings => simp [Call.usesManager, operation] at uses
    | addPidToCgroup reads pid name => simp [Call.usesManager, operation] at uses
    | getCgroupInfo =>
        refine .inr (.inr (.inr ⟨by simp [Call.isReset, operation], uses, by simp, ?_⟩))
        rw [perform, operation]
    | cgroupVersion =>
        refine .inr (.inr (.inr ⟨by simp [Call.isReset, operation], uses, by simp, ?_⟩))
        rw [perform, operation]
        simp only [cgroupVersion_eq]

/-! ## The hierarchy in force -/

/-- The calls since the last `reset_cgroup_detection`. -/
def sinceReset (calls : List Call) : List Call :=
  (calls.reverse.takeWhile fun call => !call.isReset).reverse

/-- What the first call since the last reset detects. -/
def hierarchyInForce (calls : List Call) : Option CgroupInfo :=
  (sinceReset calls).head?.map fun call => detect call.moment

theorem sinceReset_snoc_reset (calls : List Call) {call : Call} (isReset : call.isReset = true) :
    sinceReset (calls ++ [call]) = [] := by
  rw [sinceReset, List.reverse_concat, List.takeWhile_cons_of_neg (by simp [isReset])]
  rfl

theorem sinceReset_snoc (calls : List Call) {call : Call} (noReset : call.isReset = false) :
    sinceReset (calls ++ [call]) = sinceReset calls ++ [call] := by
  rw [sinceReset, List.reverse_concat, List.takeWhile_cons_of_pos (by simp [noReset]),
    List.reverse_cons]
  rfl

theorem hierarchyInForce_reset (calls : List Call) {call : Call} (isReset : call.isReset = true) :
    hierarchyInForce (calls ++ [call]) = none := by
  rw [hierarchyInForce, sinceReset_snoc_reset calls isReset]
  rfl

/-- Any other call keeps the hierarchy in force, or detects it. -/
theorem hierarchyInForce_snoc (calls : List Call) {call : Call} (noReset : call.isReset = false) :
    hierarchyInForce (calls ++ [call]) =
      some (getCgroupInfo call.moment (hierarchyInForce calls)).1 := by
  rw [hierarchyInForce, hierarchyInForce, sinceReset_snoc calls noReset]
  cases sinceReset calls <;> rfl

/-- The versions that the platforms constructed so far found in force. -/
def Constructed (calls : List Call) (version : CgroupVersion) : Prop :=
  ∃ before call, before ++ [call] <+: calls ∧ call.operation = .newPlatform ∧
    (hierarchyInForce (before ++ [call])).map CgroupInfo.version = some version

theorem constructed_snoc (calls : List Call) (call : Call) (version : CgroupVersion) :
    Constructed (calls ++ [call]) version ↔
      Constructed calls version ∨ (call.operation = .newPlatform ∧
        (hierarchyInForce (calls ++ [call])).map CgroupInfo.version = some version) := by
  constructor
  · rintro ⟨before, other, isPrefix, isNew, found⟩
    rcases List.prefix_concat_iff.mp isPrefix with same | earlier
    · obtain ⟨rfl, rfl⟩ := List.append_inj' same rfl |>.imp id fun single => by
        simpa using single
      exact .inr ⟨isNew, found⟩
    · exact .inl ⟨before, other, earlier, isNew, found⟩
  · rintro (⟨before, other, isPrefix, isNew, found⟩ | ⟨isNew, found⟩)
    · exact ⟨before, other, isPrefix.trans (List.prefix_append _ _), isNew, found⟩
    · exact ⟨calls, call, List.prefix_refl _, isNew, found⟩

/-- How the three caches follow the calls. -/
structure Tracks (calls : List Call) (state : Detected) : Prop where
  info : state.info = hierarchyInForce calls
  manager : ∀ manager, state.manager = some manager → state.info = some manager.info
  platforms : ∀ version, Constructed calls version ↔
    ∃ platform ∈ state.platforms, platform.cgroupResolver.version = version

theorem getManager_info (moment : Moment) {state : Detected}
    (follows : ∀ manager, state.manager = some manager → state.info = some manager.info) :
    (getManager moment state).2.info = (getCgroupInfo moment state.info).2 ∧
      (getManager moment state).2.info = some (getManager moment state).1.info ∧
      (getManager moment state).2.manager = some (getManager moment state).1 ∧
      (getManager moment state).2.platforms = state.platforms := by
  unfold getManager
  cases cached : state.manager with
  | some manager =>
      rw [follows manager cached]
      simp [cached]
  | none => simp [getCgroupInfo_filled, CgroupManager.new]

theorem tracks_perform {calls : List Call} {state : Detected} (tracks : Tracks calls state)
    (call : Call) : Tracks (calls ++ [call]) (perform call state) := by
  rcases perform_cases call state with
    ⟨isReset, effect⟩ | ⟨isNew, effect⟩ | ⟨uses, effect⟩ | ⟨noReset, _, notNew, effect⟩
  · have dropped : call.isReset = true := by
      simp [Call.isReset, isReset]
    rw [effect]
    refine ⟨?_, ?_, fun version => ?_⟩
    · rw [hierarchyInForce_reset calls dropped]
      rfl
    · intro manager cached
      simp [resetCgroupDetection] at cached
    · rw [constructed_snoc, tracks.platforms, isReset]
      simp [resetCgroupDetection]
  · have noReset : call.isReset = false := by
      simp [Call.isReset, isNew]
    have inForce := hierarchyInForce_snoc calls noReset
    rw [← tracks.info] at inForce
    rw [effect]
    refine ⟨?_, ?_, fun version => ?_⟩
    · rw [inForce]
      exact getCgroupInfo_filled call.moment state.info
    · intro manager cached
      have kept := tracks.manager manager cached
      simp only [newPlatform, kept, getCgroupInfo_some]
    · rw [constructed_snoc, tracks.platforms, inForce]
      simp [newPlatform, isNew, or_and_right, exists_or]
  · have noReset : call.isReset = false := by
      unfold Call.usesManager at uses
      split at uses
      next isCreate => simp [Call.isReset, isCreate]
      next isAdd => simp [Call.isReset, isAdd]
      next => exact absurd uses (by decide)
    have notNew : call.operation ≠ .newPlatform := by
      intro isNew
      simp [Call.usesManager, isNew] at uses
    obtain ⟨filled, sameInfo, isManager, samePlatforms⟩ :=
      getManager_info call.moment tracks.manager
    rw [effect]
    refine ⟨?_, ?_, fun version => ?_⟩
    · rw [hierarchyInForce_snoc calls noReset, ← tracks.info, filled, getCgroupInfo_filled]
    · intro manager cached
      rw [isManager] at cached
      rw [← Option.some.inj cached, sameInfo]
    · rw [constructed_snoc, tracks.platforms, samePlatforms]
      simp [notNew]
  · rw [effect]
    refine ⟨?_, ?_, fun version => ?_⟩
    · rw [hierarchyInForce_snoc calls noReset, ← tracks.info, getCgroupInfo_filled]
    · intro manager cached
      have kept := tracks.manager manager cached
      simp only [kept, getCgroupInfo_some]
    · rw [constructed_snoc, tracks.platforms]
      simp [notNew]

theorem tracks_after (calls : List Call) : Tracks calls (after calls) := by
  induction calls using List.reverseRecOn with
  | nil =>
      refine ⟨rfl, fun manager cached => by simp [after, Detected.initial] at cached, ?_⟩
      intro version
      simp [Constructed, after, Detected.initial]
  | append_singleton calls call inductionHypothesis =>
      rw [after_snoc]
      exact tracks_perform inductionHypothesis call

/-! ## Coherence -/

/-- The mount cache, the manager and every resolver agree. -/
def Coherent (state : Detected) : Prop :=
  ∃ manager, state.manager = some manager ∧ state.info = some manager.info ∧
    ∀ platform ∈ state.platforms, platform.cgroupResolver.version = manager.info.version

/-- This call builds the manager. -/
def Rebuilds (before : List Call) (call : Call) : Prop :=
  call.usesManager = true ∧ (after before).manager = none

/-- Every platform was constructed while a hierarchy of this version was in force. -/
def SameVersions (calls : List Call) : Prop :=
  ∀ version, Constructed calls version →
    (hierarchyInForce calls).map CgroupInfo.version = some version

/-- After a call that builds the manager, the mount cache and the manager agree, and the
resolvers with them exactly when the calls saw no other version in force before. -/
theorem coherent_of_rebuild {before : List Call} {call : Call} (rebuilds : Rebuilds before call) :
    Coherent (after (before ++ [call])) ↔ SameVersions (before ++ [call]) := by
  have tracks := tracks_after (before ++ [call])
  obtain ⟨_, sameInfo, isManager, _⟩ :=
    getManager_info call.moment (tracks_after before).manager
  rw [← perform_usesManager rebuilds.1, ← after_snoc] at sameInfo isManager
  have inForce := tracks.info
  rw [sameInfo] at inForce
  constructor
  · rintro ⟨manager, cached, _, agree⟩ version constructed
    obtain ⟨platform, member, rfl⟩ := (tracks.platforms version).mp constructed
    obtain rfl := Option.some.inj (isManager.symm.trans cached)
    rw [← inForce, agree platform member]
    rfl
  · intro same
    refine ⟨_, isManager, sameInfo, fun platform member => ?_⟩
    have agree := same _ ((tracks.platforms _).mpr ⟨platform, member, rfl⟩)
    rw [← inForce] at agree
    exact (Option.some.inj agree).symm

/-- Over every sequence of calls and every timeline: after each call that builds the
manager the three caches agree, exactly when each such call finds in force the version
that was in force at the construction of every platform. -/
theorem coherent_iff (calls : List Call) :
    (∀ before call, before ++ [call] <+: calls → Rebuilds before call →
      Coherent (after (before ++ [call]))) ↔
    ∀ before call, before ++ [call] <+: calls → Rebuilds before call →
      SameVersions (before ++ [call]) := by
  constructor
  · intro coherent before call isPrefix rebuilds
    exact (coherent_of_rebuild rebuilds).mp (coherent before call isPrefix rebuilds)
  · intro same before call isPrefix rebuilds
    exact (coherent_of_rebuild rebuilds).mpr (same before call isPrefix rebuilds)

/-- A daemon that was started before the hierarchy was mounted, and re-detects it. -/
def redetectedAfterStart : List Call :=
  [⟨.newPlatform, unifiedHost ""⟩,
   ⟨.resetCgroupDetection, unifiedHost ""⟩,
   ⟨.createCgroup "cpu80" ⟨none, none⟩, unifiedHost "cgroup2 /sys/fs/cgroup cgroup2 rw 0 0\n"⟩]

/-- The manager and the mount cache are on the unified hierarchy, and the resolver still
answers that there is none. -/
theorem resolver_left_behind :
    (after redetectedAfterStart).info = some ⟨.v2, "/sys/fs/cgroup"⟩ ∧
      (after redetectedAfterStart).platforms = [⟨⟨.none⟩⟩] ∧
      ¬ ∀ before call, before ++ [call] <+: redetectedAfterStart → Rebuilds before call →
        Coherent (after (before ++ [call])) := by
  have info : (after redetectedAfterStart).info = some ⟨.v2, "/sys/fs/cgroup"⟩ := by
    decide +kernel
  have platforms : (after redetectedAfterStart).platforms = [⟨⟨.none⟩⟩] := by
    decide +kernel
  refine ⟨info, platforms, fun property => ?_⟩
  obtain ⟨manager, _, sameInfo, agree⟩ :=
    property (redetectedAfterStart.take 2) _ (List.prefix_refl _) ⟨rfl, by decide +kernel⟩
  have version := agree ⟨⟨.none⟩⟩ (by
    change _ ∈ (after redetectedAfterStart).platforms
    rw [platforms]
    exact List.mem_singleton_self _)
  have isUnified := info.symm.trans sameInfo
  rw [← Option.some.inj isUnified] at version
  exact absurd version (by decide)

end AnanicyRs.Platform.Cgroups
