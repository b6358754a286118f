import AnanicyRs.Lib.StateInvariant
import AnanicyRs.Lib.UnixPath

/-!
Contract: the singleton object of `src/ipc.rs` under any number of processes.

Owns `check_singleton`, the drop of its guard and `remove_stale_singleton` as machines:
each call on the shared-memory name and each look at `/proc` is a step of its own, and the
steps of all processes, new processes and crashes interleave freely. A pid is given again
once it is free; an incarnation is not, and it also names the object its process creates.

Creating the object and writing the pid into it are two steps, and a removal decides on
what it read some steps before it unlinks by name. `single_instance` gives the runs in
which that does no harm.

Does not own `--reload` or what the daemon does between start and exit.
-/

set_option autoImplicit false

namespace AnanicyRs.Daemon.Singleton

open AnanicyRs.Lib
open AnanicyRs.Lib.StateInvariant
open AnanicyRs.Lib.UnixPath

/-! ## Recognising a daemon -/

def fileName (text : String) : Option String :=
  match (components text).getLast? with
  | some (.normal name) => some name
  | _ => none

/-- The first element of a NUL-separated command line that is not empty. -/
def firstArgument (cmdline : String) : String :=
  String.ofList (((cmdline.toList.splitOn '\x00').find? (· ≠ [])).getD [])

def isDaemonCmdline (cmdline : String) : Bool :=
  fileName (firstArgument cmdline) == some "ananicy-rs"

example : isDaemonCmdline "/usr/bin/ananicy-rs\x00start\x00" = true := by decide

example : isDaemonCmdline "/bin/sh\x00-c\x00ananicy-rs --reload\x00" = false := by decide

def parseHolder (content : String) : Option Int :=
  (Text.parseI32 (Text.trim content)).map Int32.toInt

/-! ## State -/

inductive Removed where
  | liveDaemon (pid : Int)
  | gone
  | failed (errno : String)
deriving DecidableEq, Repr

/-- Where a process is: in `check_singleton`, with or without its guard; in
`remove_stale_singleton`; or in neither. -/
inductive Phase where
  | opening
  | reading (object : Nat)
  | identifying (pid : Int)
  | creating
  | writing
  | holding
  | refused (message : String)
  | removeOpening
  | removeReading (object : Nat)
  | removeChecking (pid : Int)
  | removeUnlinking
  | removed (outcome : Removed)
  | unrelated
deriving DecidableEq, Repr

structure Proc where
  pid : Nat
  incarnation : Nat
  cmdline : String
  phase : Phase
deriving DecidableEq, Repr

/-- An object that lost its name, the process that unlinked it, and whether the process
that had created it was alive. -/
structure Unlink where
  actor : Nat
  object : Nat
  creatorLives : Bool
deriving DecidableEq, Repr

structure State where
  procs : List Proc
  nextIncarnation : Nat
  /-- The content of the object that each process created. -/
  contents : Nat → String
  /-- The object that has the name. -/
  named : Option Nat
  unlinks : List Unlink

def State.initial : State := ⟨[], 0, fun _ => "", none, []⟩

def State.lives (state : State) (incarnation : Nat) : Bool :=
  state.procs.any (·.incarnation == incarnation)

def State.find (state : State) (pid : Nat) : Option Proc := state.procs.find? (·.pid == pid)

/-- `proc_entry_looks_like_daemon`. -/
def looksLikeDaemon (state : State) (pid : Int) : Bool :=
  if pid ≤ 0 then false
  else match state.find pid.toNat with
    | some proc => isDaemonCmdline proc.cmdline
    | none => false

/-! ## Steps -/

def State.unlink (actor : Nat) (state : State) : State :=
  match state.named with
  | none => state
  | some object =>
      { state with
        named := none
        unlinks := state.unlinks ++ [⟨actor, object, state.lives object⟩] }

def State.write (incarnation : Nat) (text : String) (state : State) : State :=
  { state with contents := fun object => if object = incarnation then text else state.contents object }

def staleMessage (pid : Int) : String :=
  "A stale singleton object left behind by a dead instance (PID: " ++ toString pid ++
    ") is in the way. Remove it with: ananicy-rs --force-remove-semaphore"

def runningMessage (holder : String) : String :=
  "Another instance is running (PID: " ++ holder ++ ")"

/-- The next step of a process: its next phase, or none when it exits, and what becomes of
the object. A call that fails does so with `failure`. -/
def advance (proc : Proc) (failure : Option String) (state : State) : Option Phase × State :=
  match proc.phase, failure with
  | .opening, some errno => (some (.refused ("Failed to open shm: " ++ errno)), state)
  | .opening, none =>
      match state.named with
      | some object => (some (.reading object), state)
      | none => (some .creating, state)
  | .reading object, none =>
      match parseHolder (state.contents object) with
      | some pid => (some (.identifying pid), state)
      | none => (some (.refused (runningMessage "unknown")), state)
  | .reading _, some _ => (some (.refused (runningMessage "unknown")), state)
  | .identifying pid, none =>
      if looksLikeDaemon state pid then (some (.refused (runningMessage (toString pid))), state)
      else (some (.refused (staleMessage pid)), state)
  | .identifying pid, some _ => (some (.refused (staleMessage pid)), state)
  | .creating, some errno => (some (.refused errno), state)
  | .creating, none =>
      match state.named with
      | some _ => (some (.refused "File exists (os error 17)"), state)
      | none => (some .writing, { state with named := some proc.incarnation }.write proc.incarnation "")
  -- A failed write is ignored.
  | .writing, none => (some .holding, state.write proc.incarnation (toString proc.pid))
  | .writing, some _ => (some .holding, state)
  -- An orderly exit drops the guard, which unlinks whatever has the name.
  | .holding, none => (none, state.unlink proc.incarnation)
  | .holding, some _ => (none, state)
  | .refused _, _ => (none, state)
  | .removeOpening, none =>
      match state.named with
      | some object => (some (.removeReading object), state)
      | none => (some .removeUnlinking, state)
  | .removeOpening, some _ => (some .removeUnlinking, state)
  | .removeReading object, none =>
      match parseHolder (state.contents object) with
      | some pid => (some (.removeChecking pid), state)
      | none => (some .removeUnlinking, state)
  | .removeReading _, some _ => (some .removeUnlinking, state)
  | .removeChecking pid, none =>
      if looksLikeDaemon state pid then (some (.removed (.liveDaemon pid)), state)
      else (some .removeUnlinking, state)
  | .removeChecking _, some _ => (some .removeUnlinking, state)
  | .removeUnlinking, none => (some (.removed .gone), state.unlink proc.incarnation)
  | .removeUnlinking, some errno => (some (.removed (.failed errno)), state)
  | .removed _, _ => (none, state)
  | .unrelated, _ => (none, state)

def State.setPhase (pid : Nat) (phase : Phase) (state : State) : State :=
  { state with procs := state.procs.map fun proc => if proc.pid = pid then { proc with phase } else proc }

def State.remove (pid : Nat) (state : State) : State :=
  { state with procs := state.procs.filter fun proc => proc.pid != pid }

inductive Kind where
  | daemon
  | remover
  | unrelated
deriving DecidableEq, Repr

def Kind.phase : Kind → Phase
  | .daemon => .opening
  | .remover => .removeOpening
  | .unrelated => .unrelated

/-- A pid that is free, and for a daemon a command line that identifies it. -/
def State.maySpawn (state : State) (pid : Nat) (cmdline : String) (kind : Kind) : Bool :=
  0 < pid && pid < 2 ^ 22 && (state.find pid).isNone && (kind != .daemon || isDaemonCmdline cmdline)

inductive Event where
  | spawn (pid : Nat) (cmdline : String) (kind : Kind)
  | act (pid : Nat) (failure : Option String)
  | crash (pid : Nat)
deriving DecidableEq, Repr

def step (event : Event) (state : State) : State :=
  match event with
  | .spawn pid cmdline kind =>
      if state.maySpawn pid cmdline kind then
        { state with
          procs := ⟨pid, state.nextIncarnation, cmdline, kind.phase⟩ :: state.procs
          nextIncarnation := state.nextIncarnation + 1 }
      else state
  | .act pid failure =>
      match state.find pid with
      | none => state
      | some proc =>
          match advance proc failure state with
          | (some phase, left) => left.setPhase pid phase
          | (none, left) => left.remove pid
  | .crash pid => state.remove pid

/-! ## The invariant -/

/-- The process has created the object and not given it up. -/
def Phase.owns : Phase → Bool
  | .writing => true
  | .holding => true
  | _ => false

def Phase.ofDaemon : Phase → Bool
  | .opening => true
  | .reading _ => true
  | .identifying _ => true
  | .creating => true
  | .writing => true
  | .holding => true
  | .refused _ => true
  | _ => false

/-- A removal that has opened the object, or found none, and not finished. -/
def Phase.pastOpen : Phase → Bool
  | .removeReading _ => true
  | .removeChecking _ => true
  | .removeUnlinking => true
  | _ => false

/-- What a removal under way knows of a live creator of the named object. -/
def Phase.Informed (creator : Proc) : Phase → Prop
  | .removeReading object => object = creator.incarnation
  | .removeChecking pid => pid = creator.pid
  | .removeUnlinking => False
  | _ => True

structure Safe (state : State) : Prop where
  pids : ∀ first ∈ state.procs, ∀ second ∈ state.procs, first.pid = second.pid → first = second
  incarnations : ∀ first ∈ state.procs, ∀ second ∈ state.procs,
    first.incarnation = second.incarnation → first = second
  fresh : ∀ proc ∈ state.procs, proc.incarnation < state.nextIncarnation
  freshName : ∀ object, state.named = some object → object < state.nextIncarnation
  inRange : ∀ proc ∈ state.procs, 0 < proc.pid ∧ proc.pid < 2 ^ 22
  recognised : ∀ proc ∈ state.procs, proc.phase.ofDaemon = true → isDaemonCmdline proc.cmdline = true
  owner : ∀ proc ∈ state.procs, proc.phase.owns = true → state.named = some proc.incarnation
  creator : ∀ proc ∈ state.procs, state.named = some proc.incarnation → proc.phase.owns = true
  informed : ∀ remover ∈ state.procs, ∀ proc ∈ state.procs,
    state.named = some proc.incarnation → remover.phase.Informed proc
  unlinks : ∀ unlink ∈ state.unlinks, unlink.creatorLives = true → unlink.actor = unlink.object

theorem parseHolder_pid {pid : Nat} (bound : pid < 2 ^ 22) :
    parseHolder (toString pid) = some (pid : Int) := by
  have small : pid < 2 ^ 31 := by
    omega
  have chars : (toString pid).toList = Nat.toDigits 10 pid := String.toList_ofList
  have solid : ∀ c ∈ Nat.toDigits 10 pid, Text.isWhitespace c = false :=
    fun c member => Text.isWhitespace_of_digit (Text.digit_of_mem_toDigits member)
  rw [parseHolder, Text.trim, chars, Text.trimChars_solid solid, Text.parseI32, String.toList_ofList,
    Text.parseI32Chars_toDigits small, Option.map_some, Int32.toInt_ofNat_of_lt small]

theorem ofDaemon_of_owns {phase : Phase} (owns : phase.owns = true) : phase.ofDaemon = true := by
  cases phase <;> first | rfl | exact absurd owns (by simp [Phase.owns])

theorem informed_of_not_pastOpen {phase : Phase} (notPast : phase.pastOpen = false)
    (creator : Proc) : phase.Informed creator := by
  cases phase <;> trivial

theorem safe_initial : Safe .initial where
  pids := by simp [State.initial]
  incarnations := by simp [State.initial]
  fresh := by simp [State.initial]
  freshName := by simp [State.initial]
  inRange := by simp [State.initial]
  recognised := by simp [State.initial]
  owner := by simp [State.initial]
  creator := by simp [State.initial]
  informed := by simp [State.initial]
  unlinks := by simp [State.initial]

section Steps

variable {state : State}

theorem mem_setPhase {pid : Nat} {phase : Phase} {proc : Proc}
    (member : proc ∈ (state.setPhase pid phase).procs) :
    ∃ old ∈ state.procs, proc.pid = old.pid ∧ proc.incarnation = old.incarnation := by
  obtain ⟨old, inProcs, rfl⟩ := List.mem_map.mp member
  refine ⟨old, inProcs, ?_, ?_⟩ <;> split <;> rfl

theorem find_eq_some {pid : Nat} {proc : Proc} (found : state.find pid = some proc) :
    proc ∈ state.procs ∧ proc.pid = pid :=
  ⟨List.mem_of_find?_eq_some found, by simpa using List.find?_some found⟩

theorem safe_write (safe : Safe state) (incarnation : Nat) (text : String) :
    Safe (state.write incarnation text) :=
  ⟨safe.pids, safe.incarnations, safe.fresh, safe.freshName, safe.inRange, safe.recognised,
    safe.owner, safe.creator, safe.informed, safe.unlinks⟩

theorem safe_remove (safe : Safe state) (pid : Nat) : Safe (state.remove pid) := by
  have stays : ∀ proc ∈ (state.remove pid).procs, proc ∈ state.procs :=
    fun proc member => (List.mem_filter.mp member).1
  exact {
    pids := fun first inFirst second inSecond =>
      safe.pids first (stays first inFirst) second (stays second inSecond)
    incarnations := fun first inFirst second inSecond =>
      safe.incarnations first (stays first inFirst) second (stays second inSecond)
    fresh := fun proc member => safe.fresh proc (stays proc member)
    freshName := safe.freshName
    inRange := fun proc member => safe.inRange proc (stays proc member)
    recognised := fun proc member => safe.recognised proc (stays proc member)
    owner := fun proc member => safe.owner proc (stays proc member)
    creator := fun proc member => safe.creator proc (stays proc member)
    informed := fun remover inRemovers proc member =>
      safe.informed remover (stays remover inRemovers) proc (stays proc member)
    unlinks := safe.unlinks }

/-- After a change of phase, a process is the one that changed or was there as it is. -/
theorem setPhase_cases (safe : Safe state) {proc : Proc} (inProcs : proc ∈ state.procs)
    {phase : Phase} {other : Proc} (member : other ∈ (state.setPhase proc.pid phase).procs) :
    other = { proc with phase } ∨ (other ∈ state.procs ∧ other ≠ proc) := by
  obtain ⟨old, inOld, isOther⟩ := List.mem_map.mp member
  by_cases same : old.pid = proc.pid
  · rw [if_pos same, safe.pids old inOld proc inProcs same] at isOther
    exact .inl isOther.symm
  · rw [if_neg same] at isOther
    subst isOther
    refine .inr ⟨inOld, ?_⟩
    rintro rfl
    exact same rfl

/-- What tells processes apart still does when one of them changes its phase. -/
theorem distinct_setPhase (safe : Safe state) {key : Proc → Nat}
    (distinct : ∀ first ∈ state.procs, ∀ second ∈ state.procs, key first = key second → first = second)
    {proc : Proc} (inProcs : proc ∈ state.procs) {phase : Phase}
    (phaseless : key { proc with phase } = key proc) :
    ∀ first ∈ (state.setPhase proc.pid phase).procs,
      ∀ second ∈ (state.setPhase proc.pid phase).procs, key first = key second → first = second := by
  intro first inFirst second inSecond same
  rcases setPhase_cases safe inProcs inFirst with rfl | ⟨oldFirst, notFirst⟩
  · rcases setPhase_cases safe inProcs inSecond with rfl | ⟨oldSecond, notSecond⟩
    · rfl
    · rw [phaseless] at same
      exact absurd (distinct second oldSecond proc inProcs same.symm) notSecond
  · rcases setPhase_cases safe inProcs inSecond with rfl | ⟨oldSecond, _⟩
    · rw [phaseless] at same
      exact absurd (distinct first oldFirst proc inProcs same) notFirst
    · exact distinct first oldFirst second oldSecond same

/-- And when a process comes that none of them is mistaken for. -/
theorem distinct_cons {key : Proc → Nat} {procs : List Proc}
    (distinct : ∀ first ∈ procs, ∀ second ∈ procs, key first = key second → first = second)
    {new : Proc} (other : ∀ old ∈ procs, key old ≠ key new) :
    ∀ first ∈ new :: procs, ∀ second ∈ new :: procs, key first = key second → first = second := by
  intro first inFirst second inSecond same
  rcases List.mem_cons.mp inFirst with rfl | oldFirst
  · rcases List.mem_cons.mp inSecond with rfl | oldSecond
    · rfl
    · exact absurd same.symm (other second oldSecond)
  · rcases List.mem_cons.mp inSecond with rfl | oldSecond
    · exact absurd same (other first oldFirst)
    · exact distinct first oldFirst second oldSecond same

theorem Phase.Informed.congr {phase : Phase} {creator other : Proc}
    (informed : phase.Informed creator) (pid : other.pid = creator.pid)
    (incarnation : other.incarnation = creator.incarnation) : phase.Informed other := by
  cases phase with
  | removeReading object => exact informed.trans incarnation.symm
  | removeChecking checked =>
      have same : checked = (creator.pid : Int) := informed
      change checked = (other.pid : Int)
      omega
  | removeUnlinking => exact informed
  | _ => trivial

/-- A change of phase in a state whose name may have just been given to the process. -/
theorem safe_rephase {named : Option Nat} (safe : Safe state) {proc : Proc}
    (inProcs : proc ∈ state.procs) {phase : Phase}
    (freshName : ∀ object, named = some object → object < state.nextIncarnation)
    (daemon : phase.ofDaemon = true → proc.phase.ofDaemon = true)
    (own : phase.owns = true ↔ named = some proc.incarnation)
    (others : ∀ other ∈ state.procs, other ≠ proc →
      (other.phase.owns = true ↔ named = some other.incarnation))
    (informed : ∀ creator ∈ state.procs, named = some creator.incarnation →
      phase.Informed creator ∧ ∀ other ∈ state.procs, other.phase.Informed creator) :
    Safe ({ state with named }.setPhase proc.pid phase) where
  pids := distinct_setPhase safe safe.pids inProcs rfl
  incarnations := distinct_setPhase safe safe.incarnations inProcs rfl
  fresh other member := by
    obtain ⟨old, inOld, _, sameIncarnation⟩ := mem_setPhase member
    rw [sameIncarnation]
    exact safe.fresh old inOld
  freshName := freshName
  inRange other member := by
    obtain ⟨old, inOld, samePid, _⟩ := mem_setPhase member
    rw [samePid]
    exact safe.inRange old inOld
  recognised other member isDaemon := by
    rcases setPhase_cases safe inProcs member with rfl | ⟨old, _⟩
    · exact safe.recognised proc inProcs (daemon isDaemon)
    · exact safe.recognised other old isDaemon
  owner other member owns := by
    rcases setPhase_cases safe inProcs member with rfl | ⟨old, different⟩
    · exact own.mp owns
    · exact (others other old different).mp owns
  creator other member isNamed := by
    rcases setPhase_cases safe inProcs member with rfl | ⟨old, different⟩
    · exact own.mpr isNamed
    · exact (others other old different).mpr isNamed
  informed remover inRemovers other member isNamed := by
    obtain ⟨old, inOld, samePid, sameIncarnation⟩ := mem_setPhase member
    have knows := informed old inOld (by rw [← sameIncarnation]; exact isNamed)
    rcases setPhase_cases safe inProcs inRemovers with rfl | ⟨oldRemover, _⟩
    · exact knows.1.congr samePid sameIncarnation
    · exact (knows.2 remover oldRemover).congr samePid sameIncarnation
  unlinks := safe.unlinks

/-- A step that leaves the name alone only has to keep what its own phase stands for. -/
theorem safe_setPhase (safe : Safe state) {proc : Proc} (inProcs : proc ∈ state.procs)
    {phase : Phase} (owns : phase.owns = proc.phase.owns)
    (daemon : phase.ofDaemon = true → proc.phase.ofDaemon = true)
    (informed : ∀ creator ∈ state.procs, state.named = some creator.incarnation →
      phase.Informed creator) : Safe (state.setPhase proc.pid phase) := by
  apply safe_rephase safe inProcs safe.freshName daemon
  · rw [owns]
    exact ⟨safe.owner proc inProcs, safe.creator proc inProcs⟩
  · intro other member _
    exact ⟨safe.owner other member, safe.creator other member⟩
  · intro creator member isNamed
    exact ⟨informed creator member isNamed, fun other inOthers =>
      safe.informed other inOthers creator member isNamed⟩

/-- The object is created while no removal is past its open. -/
theorem safe_create (safe : Safe state) {proc : Proc} (inProcs : proc ∈ state.procs)
    (creating : proc.phase = .creating) (unnamed : state.named = none)
    (noRemoval : ∀ other ∈ state.procs, other.phase.pastOpen = false) :
    Safe ({ state with named := some proc.incarnation }.setPhase proc.pid .writing) := by
  apply safe_rephase safe inProcs
  · intro object isNamed
    obtain rfl := Option.some.inj isNamed
    exact safe.fresh proc inProcs
  · intro _
    rw [creating]
    rfl
  · simp [Phase.owns]
  · intro other member different
    constructor
    · intro owns
      have isNamed := safe.owner other member owns
      rw [unnamed] at isNamed
      exact absurd isNamed (by simp)
    · intro isNamed
      have same := safe.incarnations other member proc inProcs (Option.some.inj isNamed).symm
      exact absurd same different
  · intro creator _ _
    exact ⟨trivial, fun other member => informed_of_not_pastOpen (noRemoval other member) creator⟩

/-- The name is given up while no live process owns the object. -/
theorem safe_unnamed (safe : Safe state) {unlinks : List Unlink}
    (noOwner : ∀ proc ∈ state.procs, proc.phase.owns = false)
    (recorded : ∀ unlink ∈ unlinks, unlink.creatorLives = true → unlink.actor = unlink.object) :
    Safe { state with named := none, unlinks } where
  pids := safe.pids
  incarnations := safe.incarnations
  fresh := safe.fresh
  freshName object isNamed := absurd isNamed (by simp)
  inRange := safe.inRange
  recognised := safe.recognised
  owner proc member owns := by
    rw [noOwner proc member] at owns
    exact absurd owns (by decide)
  creator proc member isNamed := absurd isNamed (by simp)
  informed remover inRemovers proc member isNamed := absurd isNamed (by simp)
  unlinks := recorded

theorem safe_quietPhase (safe : Safe state) {proc : Proc} (inProcs : proc ∈ state.procs)
    {phase : Phase} (owns : phase.owns = proc.phase.owns)
    (daemon : phase.ofDaemon = true → proc.phase.ofDaemon = true)
    (notPast : phase.pastOpen = false) : Safe (state.setPhase proc.pid phase) :=
  safe_setPhase safe inProcs owns daemon fun creator _ _ => informed_of_not_pastOpen notPast creator

/-- The drop of a guard unlinks the object of its own process. -/
theorem safe_drop (safe : Safe state) {proc : Proc} (inProcs : proc ∈ state.procs)
    (holding : proc.phase = .holding) :
    Safe ((state.unlink proc.incarnation).remove proc.pid) := by
  have isNamed : state.named = some proc.incarnation :=
    safe.owner proc inProcs (by rw [holding]; rfl)
  rw [State.unlink, isNamed]
  apply safe_unnamed (safe_remove safe proc.pid)
  · intro other member
    obtain ⟨inOthers, different⟩ := List.mem_filter.mp member
    rw [Bool.eq_false_iff]
    intro owns
    have otherNamed := safe.owner other inOthers owns
    rw [isNamed, Option.some.injEq] at otherNamed
    rw [safe.incarnations other inOthers proc inProcs otherNamed.symm] at different
    simp at different
  · intro unlink member lives
    rcases List.mem_append.mp member with old | new
    · exact safe.unlinks unlink old lives
    · rw [List.mem_singleton.mp new]

/-- A removal that reaches its unlink finds no object of a live process. -/
theorem safe_forceRemove (safe : Safe state) {proc : Proc} (inProcs : proc ∈ state.procs)
    (unlinking : proc.phase = .removeUnlinking) :
    Safe ((state.unlink proc.incarnation).setPhase proc.pid (.removed .gone)) := by
  have noCreator : ∀ other ∈ state.procs, state.named ≠ some other.incarnation := by
    intro other member isNamed
    have informed := safe.informed proc inProcs other member isNamed
    rw [unlinking] at informed
    exact informed
  have rephased : Safe (state.setPhase proc.pid (.removed .gone)) :=
    safe_quietPhase safe inProcs (by rw [unlinking]; rfl) (by simp [Phase.ofDaemon]) rfl
  rw [State.unlink]
  cases isNamed : state.named with
  | none => exact rephased
  | some object =>
      apply safe_unnamed rephased
      · intro other member
        rw [Bool.eq_false_iff]
        intro owns
        have otherNamed := rephased.owner other member owns
        obtain ⟨old, inOld, _, sameIncarnation⟩ := mem_setPhase member
        rw [sameIncarnation] at otherNamed
        exact noCreator old inOld otherNamed
      · intro unlink member lives
        rcases List.mem_append.mp member with old | new
        · exact safe.unlinks unlink old lives
        · rw [List.mem_singleton.mp new] at lives
          obtain ⟨creator, inCreators, isCreator⟩ := List.any_eq_true.mp lives
          rw [beq_iff_eq] at isCreator
          rw [← isCreator] at isNamed
          exact absurd isNamed (noCreator creator inCreators)

theorem looksLikeDaemon_creator (safe : Safe state) {creator : Proc}
    (inProcs : creator ∈ state.procs) (isNamed : state.named = some creator.incarnation) :
    looksLikeDaemon state creator.pid = true := by
  have positive := (safe.inRange creator inProcs).1
  have owns := safe.creator creator inProcs isNamed
  have found : state.find creator.pid = some creator := by
    cases isFound : state.find creator.pid with
    | none =>
        have missing := List.find?_eq_none.mp isFound creator inProcs
        simp at missing
    | some other =>
        obtain ⟨inOthers, samePid⟩ := find_eq_some isFound
        rw [safe.pids other inOthers creator inProcs samePid]
  rw [looksLikeDaemon, if_neg (by omega), Int.toNat_natCast, found]
  exact safe.recognised creator inProcs (ofDaemon_of_owns owns)

end Steps

/-! ## Runs -/

/-- The steps of a removal that look at a live creator's object see the creator: the
calls succeed and the pid is written. And the object is not created while a removal is past
its open. -/
def orderlyStep (proc : Proc) (failure : Option String) (state : State) : Bool :=
  match proc.phase with
  | .creating => failure.isSome || state.named.isSome ||
      state.procs.all fun other => !other.phase.pastOpen
  | .removeOpening => failure.isNone || !state.named.any state.lives
  | .removeReading object => state.procs.all fun creator =>
      creator.incarnation != object ||
        (failure.isNone && state.contents object == toString creator.pid)
  | .removeChecking _ => failure.isNone || !state.named.any state.lives
  | _ => true

def orderly (state : State) (event : Event) : Bool :=
  match event with
  | .act pid failure => (state.find pid).all fun proc => orderlyStep proc failure state
  | _ => true

section Runs

variable {state : State} {proc : Proc} {failure : Option String}

/-- What becomes of the state when the process has taken its step. -/
def settle (pid : Nat) (outcome : Option Phase × State) : State :=
  match outcome with
  | (some phase, left) => left.setPhase pid phase
  | (none, left) => left.remove pid

/-- A step of a removal to a phase in which it knows every live creator. -/
theorem safe_removal (safe : Safe state) (inProcs : proc ∈ state.procs)
    (notOwner : proc.phase.owns = false) {phase : Phase} (stillNot : phase.owns = false)
    (notDaemon : phase.ofDaemon = false)
    (informed : ∀ creator ∈ state.procs, state.named = some creator.incarnation →
      phase.Informed creator) : Safe (state.setPhase proc.pid phase) := by
  apply safe_setPhase safe inProcs (stillNot.trans notOwner.symm) _ informed
  intro daemon
  rw [notDaemon] at daemon
  exact absurd daemon (by decide)

theorem not_lives_of_failure (inProcs : proc ∈ state.procs) {errno : String}
    (allowed : ((some errno).isNone || !state.named.any state.lives) = true) :
    state.named ≠ some proc.incarnation := by
  intro isNamed
  rw [isNamed] at allowed
  have lives : state.lives proc.incarnation = true :=
    List.any_eq_true.mpr ⟨proc, inProcs, by simp⟩
  simp [lives] at allowed

/-- The steps of `check_singleton` up to the creation. -/
theorem safe_checkStep (safe : Safe state) (inProcs : proc ∈ state.procs)
    (daemon : proc.phase.ofDaemon = true) (notOwner : proc.phase.owns = false)
    (noRemoval : proc.phase = .creating → failure = none → state.named = none →
      ∀ other ∈ state.procs, other.phase.pastOpen = false) :
    Safe (settle proc.pid (advance proc failure state)) := by
  have refused : ∀ message, Safe (state.setPhase proc.pid (.refused message)) :=
    fun _ => safe_quietPhase safe inProcs notOwner.symm (fun _ => daemon) rfl
  unfold advance
  cases phase : proc.phase with
  | opening =>
      cases failure with
      | some errno => exact refused _
      | none =>
          simp only
          split <;> exact safe_quietPhase safe inProcs notOwner.symm (fun _ => daemon) rfl
  | reading object =>
      cases failure with
      | some errno => exact refused _
      | none =>
          simp only
          split
          · exact safe_quietPhase safe inProcs notOwner.symm (fun _ => daemon) rfl
          · exact refused _
  | identifying pid =>
      cases failure with
      | some errno => exact refused _
      | none =>
          simp only
          split <;> exact refused _
  | creating =>
      cases failure with
      | some errno => exact refused _
      | none =>
          simp only
          split
          · exact refused _
          next unnamed =>
            have created := safe_create safe inProcs phase unnamed (noRemoval phase rfl unnamed)
            exact safe_write created _ _
  | refused message => exact safe_remove safe proc.pid
  | writing => exact absurd notOwner (by simp [phase, Phase.owns])
  | holding => exact absurd notOwner (by simp [phase, Phase.owns])
  | _ => exact absurd daemon (by simp [phase, Phase.ofDaemon])

/-- The steps of the process that created the object. -/
theorem safe_ownerStep (safe : Safe state) (inProcs : proc ∈ state.procs)
    (owns : proc.phase.owns = true) : Safe (settle proc.pid (advance proc failure state)) := by
  have daemon := ofDaemon_of_owns owns
  unfold advance
  cases phase : proc.phase with
  | writing =>
      cases failure with
      | some errno => exact safe_quietPhase safe inProcs owns.symm (fun _ => daemon) rfl
      | none => exact safe_quietPhase (safe_write safe _ _) inProcs owns.symm (fun _ => daemon) rfl
  | holding =>
      cases failure with
      | some errno => exact safe_remove safe proc.pid
      | none => exact safe_drop safe inProcs phase
  | _ => exact absurd owns (by simp [phase, Phase.owns])

/-- A removal that opens the object holds the one that has the name. -/
theorem safe_removeOpening (safe : Safe state) (inProcs : proc ∈ state.procs)
    (phase : proc.phase = .removeOpening)
    (allowed : (failure.isNone || !state.named.any state.lives) = true) :
    Safe (settle proc.pid (advance proc failure state)) := by
  have notOwner : proc.phase.owns = false := by
    rw [phase]
    rfl
  unfold advance
  rw [phase]
  cases failure with
  | some errno =>
      apply safe_removal safe inProcs notOwner rfl rfl
      intro creator member isNamed
      exact not_lives_of_failure member allowed isNamed
  | none =>
      simp only
      split
      next object isObject =>
        apply safe_removal safe inProcs notOwner rfl rfl
        intro creator _ isNamed
        exact Option.some.inj (isObject.symm.trans isNamed)
      next unnamed =>
        apply safe_removal safe inProcs notOwner rfl rfl
        intro creator _ isNamed
        rw [unnamed] at isNamed
        exact absurd isNamed (by simp)

/-- A removal that reads a live creator's object reads the creator's pid. -/
theorem safe_removeReading (safe : Safe state) (inProcs : proc ∈ state.procs) {object : Nat}
    (phase : proc.phase = .removeReading object)
    (allowed : (state.procs.all fun creator => creator.incarnation != object ||
      (failure.isNone && state.contents object == toString creator.pid)) = true) :
    Safe (settle proc.pid (advance proc failure state)) := by
  have notOwner : proc.phase.owns = false := by
    rw [phase]
    rfl
  have reads : ∀ creator ∈ state.procs, state.named = some creator.incarnation →
      failure = none ∧ state.contents object = toString creator.pid := by
    intro creator member isNamed
    have informed := safe.informed proc inProcs creator member isNamed
    rw [phase] at informed
    have isObject : object = creator.incarnation := informed
    have visible := List.all_eq_true.mp allowed creator member
    simpa [isObject] using visible
  unfold advance
  rw [phase]
  cases failure with
  | some errno =>
      apply safe_removal safe inProcs notOwner rfl rfl
      intro creator member isNamed
      exact absurd (reads creator member isNamed).1 (by simp)
  | none =>
      simp only
      split
      next checked isChecked =>
        apply safe_removal safe inProcs notOwner rfl rfl
        intro creator member isNamed
        rw [(reads creator member isNamed).2, parseHolder_pid (safe.inRange creator member).2]
          at isChecked
        exact (Option.some.inj isChecked).symm
      next noPid =>
        apply safe_removal safe inProcs notOwner rfl rfl
        intro creator member isNamed
        rw [(reads creator member isNamed).2, parseHolder_pid (safe.inRange creator member).2] at noPid
        exact absurd noPid (by simp)

/-- A removal that checks a live creator's pid refuses. -/
theorem safe_removeChecking (safe : Safe state) (inProcs : proc ∈ state.procs) {checked : Int}
    (phase : proc.phase = .removeChecking checked)
    (allowed : (failure.isNone || !state.named.any state.lives) = true) :
    Safe (settle proc.pid (advance proc failure state)) := by
  have notOwner : proc.phase.owns = false := by
    rw [phase]
    rfl
  unfold advance
  rw [phase]
  cases failure with
  | some errno =>
      apply safe_removal safe inProcs notOwner rfl rfl
      intro creator member isNamed
      exact not_lives_of_failure member allowed isNamed
  | none =>
      simp only
      split
      · exact safe_removal safe inProcs notOwner rfl rfl fun _ _ _ => trivial
      next unrecognised =>
        apply safe_removal safe inProcs notOwner rfl rfl
        intro creator member isNamed
        have informed := safe.informed proc inProcs creator member isNamed
        rw [phase] at informed
        have isPid : checked = (creator.pid : Int) := informed
        rw [isPid] at unrecognised
        exact unrecognised (looksLikeDaemon_creator safe member isNamed)

/-- The steps of `remove_stale_singleton`, and the exit of a process that is in neither. -/
theorem safe_removalStep (safe : Safe state) (inProcs : proc ∈ state.procs)
    (notDaemon : proc.phase.ofDaemon = false)
    (allowed : orderlyStep proc failure state = true) :
    Safe (settle proc.pid (advance proc failure state)) := by
  unfold orderlyStep at allowed
  cases phase : proc.phase with
  | removeOpening =>
      rw [phase] at allowed
      exact safe_removeOpening safe inProcs phase allowed
  | removeReading object =>
      rw [phase] at allowed
      exact safe_removeReading safe inProcs phase allowed
  | removeChecking checked =>
      rw [phase] at allowed
      exact safe_removeChecking safe inProcs phase allowed
  | removeUnlinking =>
      unfold advance
      rw [phase]
      cases failure with
      | none => exact safe_forceRemove safe inProcs phase
      | some errno =>
          exact safe_removal safe inProcs (by rw [phase]; rfl) rfl rfl fun _ _ _ => trivial
  | removed outcome =>
      unfold advance
      rw [phase]
      exact safe_remove safe proc.pid
  | unrelated =>
      unfold advance
      rw [phase]
      exact safe_remove safe proc.pid
  | _ => exact absurd notDaemon (by simp [phase, Phase.ofDaemon])

theorem safe_act {pid : Nat} (safe : Safe state)
    (allowed : orderly state (.act pid failure) = true) :
    Safe (step (.act pid failure) state) := by
  change Safe (match state.find pid with
    | none => state
    | some proc => settle pid (advance proc failure state))
  cases found : state.find pid with
  | none => exact safe
  | some proc =>
      obtain ⟨inProcs, rfl⟩ := find_eq_some found
      have ordered : orderlyStep proc failure state = true := by
        simpa [orderly, found] using allowed
      change Safe (settle proc.pid (advance proc failure state))
      cases owns : proc.phase.owns with
      | true => exact safe_ownerStep safe inProcs owns
      | false =>
          cases daemon : proc.phase.ofDaemon with
          | true =>
              apply safe_checkStep safe inProcs daemon owns
              intro creating taken unnamed other member
              simp only [orderlyStep, creating, taken, unnamed, Option.isSome_none,
                Bool.false_or] at ordered
              simpa using List.all_eq_true.mp ordered other member
          | false => exact safe_removalStep safe inProcs daemon ordered

/-- A new process owns nothing and is nobody's creator. -/
theorem safe_spawn (safe : Safe state) (pid : Nat) (cmdline : String) (kind : Kind) :
    Safe (step (.spawn pid cmdline kind) state) := by
  unfold step
  dsimp only
  split
  next may =>
    simp only [State.maySpawn, Bool.and_eq_true, decide_eq_true_eq] at may
    obtain ⟨⟨⟨positive, bounded⟩, isFree⟩, identified⟩ := may
    have free : ∀ other ∈ state.procs, other.pid ≠ pid := by
      intro other member same
      have missing := List.find?_eq_none.mp (Option.isNone_iff_eq_none.mp isFree) other member
      simp [same] at missing
    have notOwner : kind.phase.owns = false := by
      cases kind <;> rfl
    have notPast : kind.phase.pastOpen = false := by
      cases kind <;> rfl
    have notNamed : state.named ≠ some state.nextIncarnation := by
      intro isNamed
      have small := safe.freshName _ isNamed
      omega
    constructor
    · exact distinct_cons safe.pids free
    · apply distinct_cons safe.incarnations
      intro old member
      exact Nat.ne_of_lt (safe.fresh old member)
    · intro proc member
      rcases List.mem_cons.mp member with rfl | old
      · exact Nat.lt_succ_self _
      · exact Nat.lt_succ_of_lt (safe.fresh proc old)
    · intro object isNamed
      exact Nat.lt_succ_of_lt (safe.freshName object isNamed)
    · intro proc member
      rcases List.mem_cons.mp member with rfl | old
      · exact ⟨positive, bounded⟩
      · exact safe.inRange proc old
    · intro proc member isDaemon
      rcases List.mem_cons.mp member with rfl | old
      · cases kind with
        | daemon => simpa using identified
        | remover => exact absurd isDaemon (by simp [Kind.phase, Phase.ofDaemon])
        | unrelated => exact absurd isDaemon (by simp [Kind.phase, Phase.ofDaemon])
      · exact safe.recognised proc old isDaemon
    · intro proc member owns
      rcases List.mem_cons.mp member with rfl | old
      · exact absurd owns (by simp [notOwner])
      · exact safe.owner proc old owns
    · intro proc member isNamed
      rcases List.mem_cons.mp member with rfl | old
      · exact absurd isNamed notNamed
      · exact safe.creator proc old isNamed
    · intro remover inRemovers proc member isNamed
      rcases List.mem_cons.mp member with rfl | old
      · exact absurd isNamed notNamed
      · rcases List.mem_cons.mp inRemovers with rfl | oldRemover
        · exact informed_of_not_pastOpen notPast proc
        · exact safe.informed remover oldRemover proc old isNamed
    · exact safe.unlinks
  next => exact safe

theorem safe_step (event : Event) (safe : Safe state) (allowed : orderly state event = true) :
    Safe (step event state) := by
  cases event with
  | spawn pid cmdline kind => exact safe_spawn safe pid cmdline kind
  | act pid failure => exact safe_act safe allowed
  | crash pid => exact safe_remove safe pid

end Runs

/-- At most one live process has its guard, and no process has unlinked the object of
another live one. -/
structure SingleInstance (state : State) : Prop where
  atMostOne : ∀ first ∈ state.procs, ∀ second ∈ state.procs,
    first.phase = .holding → second.phase = .holding → first = second
  ownObject : ∀ unlink ∈ state.unlinks, unlink.creatorLives = true → unlink.actor = unlink.object

theorem singleInstance_of_safe {state : State} (safe : Safe state) : SingleInstance state where
  atMostOne first inFirst second inSecond firstHolds secondHolds := by
    have firstNamed := safe.owner first inFirst (by rw [firstHolds]; rfl)
    have secondNamed := safe.owner second inSecond (by rw [secondHolds]; rfl)
    apply safe.incarnations first inFirst second inSecond
    exact Option.some.inj (firstNamed.symm.trans secondNamed)
  ownObject := safe.unlinks

/-- In every run whose removals are orderly, for any number of processes and any order of
their steps, every state has a single instance. -/
theorem single_instance (events : List Event)
    (admitted : Admits step (fun state event => orderly state event = true) events .initial) :
    ∀ reached ∈ states step events .initial, SingleInstance reached := by
  intro reached member
  apply singleInstance_of_safe
  exact invariant_of_admits (fun _ event safe allowed => safe_step event safe allowed) events
    .initial safe_initial admitted reached member

/-- A start, a removal that refuses, a crash, a removal of what the crash left, and a
second start. -/
def orderlyRemovals : List Event :=
  [.spawn 10 "ananicy-rs\x00start\x00" .daemon, .act 10 none, .act 10 none, .act 10 none,
   .spawn 11 "ananicy-rs\x00" .remover, .act 11 none, .act 11 none, .act 11 none, .crash 10,
   .spawn 12 "ananicy-rs\x00" .remover, .act 12 none, .act 12 none, .act 12 none, .act 12 none,
   .spawn 13 "ananicy-rs\x00start\x00" .daemon, .act 13 none, .act 13 none, .act 13 none]

theorem orderlyRemovals_single :
    (orderlyRemovals.foldl (fun state event => step event state) .initial).procs.map Proc.phase =
        [.holding, .removed .gone, .removed (.liveDaemon 10)] ∧
      ∀ reached ∈ states step orderlyRemovals .initial, SingleInstance reached :=
  ⟨by decide +kernel, single_instance orderlyRemovals
    ⟨by decide, by decide, by decide, by decide, by decide, by decide, by decide +kernel, by decide,
      by decide, by decide, by decide, by decide +kernel, by decide, by decide, by decide, by decide,
      by decide, by decide, trivial⟩⟩

/-- A removal looks at the object after it was created and before the pid is in it. -/
def removedBeforeWrite : List Event :=
  [.spawn 10 "ananicy-rs\x00start\x00" .daemon, .act 10 none, .act 10 none,
   .spawn 11 "ananicy-rs\x00" .remover, .act 11 none, .act 11 none, .act 11 none, .act 10 none,
   .spawn 12 "ananicy-rs\x00start\x00" .daemon, .act 12 none, .act 12 none, .act 12 none]

/-- The object of the live daemon 10 is unlinked by 11, and 12 starts beside it. -/
theorem second_instance_starts :
    ∃ reached ∈ states step removedBeforeWrite .initial,
      (reached.procs.filter fun proc => proc.phase == .holding).map Proc.pid = [12, 10] ∧
        reached.unlinks = [⟨1, 0, true⟩] ∧ ¬ SingleInstance reached := by
  let reached := removedBeforeWrite.foldl (fun state event => step event state) .initial
  have unlinked : reached.unlinks = [⟨1, 0, true⟩] := by
    decide +kernel
  refine ⟨reached, foldl_mem_states step _ _, by decide +kernel, unlinked, fun single => ?_⟩
  have own := single.ownObject ⟨1, 0, true⟩ (by rw [unlinked]; exact List.mem_singleton_self _) rfl
  exact absurd own (by decide)

end AnanicyRs.Daemon.Singleton
