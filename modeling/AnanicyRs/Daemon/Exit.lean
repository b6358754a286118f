import AnanicyRs.Lib.Text

/-!
Contract: what the daemon takes from the machine at start-up and gives back on its way
out.

Owns the X3D driver mode (`crates/ananicy-platform/src/x3d.rs`, `apply_x3d_mode`), the
spawns of `runtime::run` and the two retry loops of `monitor::run`, as far as they decide
how the process ends. The outcome of every spawn, construction and listen call is an
argument; the lists of outcomes are of any length, and a run whose outcomes are used up
has not ended.

Returning from `main` drops the singleton guard, and `exit` does not. `start_givesBack_iff`
says which outcomes end in a return.
-/

set_option autoImplicit false

namespace AnanicyRs.Daemon.Exit

open AnanicyRs.Lib

/-! ## The X3D driver -/

inductive X3DMode where
  | cache
  | frequency
deriving DecidableEq, Repr

def X3DMode.asStr : X3DMode → String
  | .cache => "cache"
  | .frequency => "frequency"

/-- The entries of the driver's directory in `/sys`, each with its `amd_x3d_mode` file if
it has one. -/
structure Driver where
  entries : Option (List (Option String))
deriving DecidableEq, Repr

/-- The content of the mode file, which is that of the first entry that has one. -/
def Driver.modeFile (driver : Driver) : Option String := do
  let entries ← driver.entries
  let found ← entries.find? Option.isSome
  found

def writeFirst (text : String) : List (Option String) → List (Option String)
  | [] => []
  | some _ :: rest => some text :: rest
  | none :: rest => none :: writeFirst text rest

def getDriverMode (driver : Driver) : Option X3DMode := do
  let content ← driver.modeFile
  if Text.trim content = "cache" then some .cache
  else if Text.trim content = "frequency" then some .frequency
  else none

/-- `set_driver_mode`; `accepted` is the kernel's answer to the write. -/
def setDriverMode (accepted : Bool) (mode : X3DMode) (driver : Driver) : Bool × Driver :=
  match driver.modeFile with
  | none => (false, driver)
  | some _ =>
      if accepted then (true, ⟨driver.entries.map (writeFirst mode.asStr)⟩) else (false, driver)

def applyX3dMode (x3dMode : String) (accepted : Bool) (driver : Driver) :
    Option X3DMode × Driver :=
  if x3dMode = "auto" then (none, driver)
  else match getDriverMode driver with
    | none => (none, driver)
    | some savedMode =>
        let target := if x3dMode = "cache" then X3DMode.cache else X3DMode.frequency
        match setDriverMode accepted target driver with
        | (true, changed) => (some savedMode, changed)
        | (false, unchanged) => (none, unchanged)

theorem find_writeFirst (text : String) (entries : List (Option String)) :
    (writeFirst text entries).find? Option.isSome =
      (entries.find? Option.isSome).map fun _ => some text := by
  induction entries with
  | nil => rfl
  | cons entry rest inductionHypothesis =>
      cases entry with
      | none => simpa [writeFirst] using inductionHypothesis
      | some content => rfl

theorem modeFile_set {driver : Driver} {content : String}
    (present : driver.modeFile = some content) (mode : X3DMode) :
    (setDriverMode true mode driver).2.modeFile = some mode.asStr := by
  rw [setDriverMode, present]
  cases isEntries : driver.entries with
  | none => simp [Driver.modeFile, isEntries] at present
  | some entries =>
      cases found : entries.find? Option.isSome with
      | none => simp [Driver.modeFile, isEntries, found] at present
      | some entry => simp [Driver.modeFile, find_writeFirst, found]

/-- An accepted write is what the driver then answers. -/
theorem getDriverMode_set {driver : Driver} {content : String}
    (present : driver.modeFile = some content) (mode : X3DMode) :
    getDriverMode (setDriverMode true mode driver).2 = some mode := by
  rw [getDriverMode, modeFile_set present]
  cases mode <;> decide

theorem modeFile_of_saved {x3dMode : String} {accepted : Bool} {driver : Driver} {mode : X3DMode}
    (saved : (applyX3dMode x3dMode accepted driver).1 = some mode) :
    ∃ content, (applyX3dMode x3dMode accepted driver).2.modeFile = some content := by
  by_cases auto : x3dMode = "auto"
  · simp [applyX3dMode, auto] at saved
  · cases current : getDriverMode driver with
    | none => simp [applyX3dMode, auto, current] at saved
    | some savedMode =>
        cases present : driver.modeFile with
        | none => simp [applyX3dMode, auto, current, setDriverMode, present] at saved
        | some content =>
            cases accepted with
            | false => simp [applyX3dMode, auto, current, setDriverMode, present] at saved
            | true =>
                have written := modeFile_set present
                  (if x3dMode = "cache" then X3DMode.cache else X3DMode.frequency)
                simp only [setDriverMode, present, ↓reduceIte] at written
                have changed : (applyX3dMode x3dMode true driver).2 =
                    ⟨driver.entries.map (writeFirst
                      (if x3dMode = "cache" then X3DMode.cache else X3DMode.frequency).asStr)⟩ := by
                  simp [applyX3dMode, auto, current, setDriverMode, present]
                rw [changed]
                exact ⟨_, written⟩

/-! ## The way out -/

/-- The event sources of a build; one without any does not compile. -/
structure Features where
  bpf : Bool
  netlink : Bool
  oneSource : bpf = true ∨ netlink = true

/-- One round of the BPF loop. -/
inductive BpfAttempt where
  | newFailed
  /-- `listen` returned, with the shutdown flag read after it. -/
  | listened (shutdown : Bool)
deriving DecidableEq, Repr

/-- One round of the netlink loop. -/
inductive NetlinkAttempt where
  | newFailed
  | listenFailed
  | listenEnded
deriving DecidableEq, Repr

structure Outcomes where
  workerSpawned : Bool
  scannerSpawned : Bool
  bpf : List BpfAttempt
  netlink : List NetlinkAttempt
  /-- What joining the worker gave, if it has returned: `false` for a panic. -/
  workerJoined : Option Bool
  restoreAccepted : Bool
deriving DecidableEq, Repr

/-- The machine-wide state that a run holds. -/
structure Held where
  driver : Driver
  /-- The singleton object this run created still has its name. -/
  singletonLinked : Bool
deriving DecidableEq, Repr

inductive Termination where
  | returned
  | exited (code : Nat)
deriving DecidableEq, Repr

/-- How a monitor loop was left. -/
inductive LoopEnd where
  | running
  | finished
  | failed
deriving DecidableEq, Repr

def bpfLoop : List BpfAttempt → LoopEnd
  | [] => .running
  | .newFailed :: _ => .failed
  | .listened true :: _ => .finished
  | .listened false :: rest => bpfLoop rest

def netlinkLoop : List NetlinkAttempt → LoopEnd
  | [] => .running
  | .newFailed :: _ => .failed
  | .listenEnded :: _ => .finished
  | .listenFailed :: rest => netlinkLoop rest

section Run

variable (features : Features) (manualScanning : Bool) (savedX3dMode : Option X3DMode)
  (outcomes : Outcomes)

def restoreX3d (held : Held) : Held :=
  match savedX3dMode with
  | some mode => { held with driver := (setDriverMode outcomes.restoreAccepted mode held.driver).2 }
  | none => held

/-- `finish_join`: a panic of the worker is logged, and the mode is restored either way. -/
def finishJoin (held : Held) : Option (Termination × Held) :=
  outcomes.workerJoined.map fun _ => (.returned, restoreX3d savedX3dMode outcomes held)

/-- `monitor::run`. -/
def monitorRun (held : Held) : Option (Termination × Held) :=
  -- A build without a monitor goes on as if it had failed to start.
  match if features.bpf then bpfLoop outcomes.bpf else .failed with
  | .running => none
  | .finished => finishJoin savedX3dMode outcomes held
  | .failed =>
      match if features.netlink then netlinkLoop outcomes.netlink else .failed with
      | .running => none
      | .finished => finishJoin savedX3dMode outcomes held
      | .failed => some (.exited 1, restoreX3d savedX3dMode outcomes held)

/-- `runtime::run` from the worker on. -/
def run (held : Held) : Option (Termination × Held) :=
  if !outcomes.workerSpawned then some (.exited 1, held)
  else if manualScanning && !outcomes.scannerSpawned then some (.exited 1, held)
  else monitorRun features savedX3dMode outcomes held

/-- `main` after `check_singleton`. Only returning from it drops the guard. -/
def start (x3dMode : String) (applyAccepted : Bool) (driver : Driver) :
    Option (Termination × Held) :=
  let (saved, changed) := applyX3dMode x3dMode applyAccepted driver
  match run features manualScanning saved outcomes ⟨changed, true⟩ with
  | some (.returned, held) => some (.returned, { held with singletonLinked := false })
  | some (.exited code, held) => some (.exited code, held)
  | none => none

/-- If the process has ended, the driver is back in the saved mode, unless the write was
refused, and the singleton object is gone. -/
def GivesBack (x3dMode : String) (applyAccepted : Bool) (driver : Driver) : Prop :=
  ∀ termination held,
    start features manualScanning outcomes x3dMode applyAccepted driver =
      some (termination, held) →
    (∀ mode, (applyX3dMode x3dMode applyAccepted driver).1 = some mode →
      outcomes.restoreAccepted = true → getDriverMode held.driver = some mode) ∧
    held.singletonLinked = false

/-- Every event source of the build failed to start, after any number of reconnects. -/
def NoMonitor : Prop :=
  (features.bpf = true →
    outcomes.bpf.find? (· ≠ .listened false) = some .newFailed) ∧
  (features.netlink = true →
    outcomes.netlink.find? (· ≠ .listenFailed) = some .newFailed)

def NothingFails : Prop :=
  outcomes.workerSpawned = true ∧ (manualScanning = true → outcomes.scannerSpawned = true) ∧
    ¬ NoMonitor features outcomes

theorem bpfLoop_failed_iff (attempts : List BpfAttempt) :
    bpfLoop attempts = .failed ↔ attempts.find? (· ≠ .listened false) = some .newFailed := by
  induction attempts with
  | nil => simp [bpfLoop]
  | cons attempt rest inductionHypothesis =>
      cases attempt with
      | newFailed => simp [bpfLoop]
      | listened shutdown =>
          cases shutdown with
          | true => simp [bpfLoop]
          | false => simpa [bpfLoop] using inductionHypothesis

theorem netlinkLoop_failed_iff (attempts : List NetlinkAttempt) :
    netlinkLoop attempts = .failed ↔ attempts.find? (· ≠ .listenFailed) = some .newFailed := by
  induction attempts with
  | nil => simp [netlinkLoop]
  | cons attempt rest inductionHypothesis =>
      cases attempt with
      | newFailed => simp [netlinkLoop]
      | listenEnded => simp [netlinkLoop]
      | listenFailed => simpa [netlinkLoop] using inductionHypothesis

variable {features manualScanning savedX3dMode outcomes} {held : Held}

theorem monitorRun_failed (noMonitor : NoMonitor features outcomes) :
    monitorRun features savedX3dMode outcomes held =
      some (.exited 1, restoreX3d savedX3dMode outcomes held) := by
  have bpfFails : (if features.bpf then bpfLoop outcomes.bpf else .failed) = .failed := by
    split
    next on => exact (bpfLoop_failed_iff _).mpr (noMonitor.1 on)
    next => rfl
  have netlinkFails :
      (if features.netlink then netlinkLoop outcomes.netlink else .failed) = .failed := by
    split
    next on => exact (netlinkLoop_failed_iff _).mpr (noMonitor.2 on)
    next => rfl
  rw [monitorRun, bpfFails]
  simp only [netlinkFails]

/-- Otherwise the monitors end in a join, if they end at all. -/
theorem monitorRun_joins (monitored : ¬ NoMonitor features outcomes) :
    monitorRun features savedX3dMode outcomes held = none ∨
      monitorRun features savedX3dMode outcomes held =
        finishJoin savedX3dMode outcomes held := by
  unfold monitorRun
  cases bpfEnd : (if features.bpf then bpfLoop outcomes.bpf else LoopEnd.failed) with
  | running => exact .inl rfl
  | finished => exact .inr rfl
  | failed =>
      cases netlinkEnd :
          (if features.netlink then netlinkLoop outcomes.netlink else LoopEnd.failed) with
      | running => exact .inl rfl
      | finished => exact .inr rfl
      | failed =>
          exfalso
          apply monitored
          constructor
          · intro on
            rw [if_pos on] at bpfEnd
            exact (bpfLoop_failed_iff _).mp bpfEnd
          · intro on
            rw [if_pos on] at netlinkEnd
            exact (netlinkLoop_failed_iff _).mp netlinkEnd

theorem restoreX3d_linked : (restoreX3d savedX3dMode outcomes held).singletonLinked =
    held.singletonLinked := by
  unfold restoreX3d
  cases savedX3dMode <;> rfl

theorem getDriverMode_restored {mode : X3DMode} {content : String}
    (present : held.driver.modeFile = some content) (saved : savedX3dMode = some mode)
    (accepted : outcomes.restoreAccepted = true) :
    getDriverMode (restoreX3d savedX3dMode outcomes held).driver = some mode := by
  rw [saved, restoreX3d, accepted]
  exact getDriverMode_set present mode

/-- A failed spawn or monitor ends the process by `exit`, with the object still named. -/
theorem run_exits (savedX3dMode : Option X3DMode) (held : Held)
    (fails : ¬ NothingFails features manualScanning outcomes) :
    ∃ left, run features manualScanning savedX3dMode outcomes held = some (.exited 1, left) ∧
      left.singletonLinked = held.singletonLinked := by
  unfold run
  cases spawned : outcomes.workerSpawned with
  | false => exact ⟨held, rfl, rfl⟩
  | true =>
      cases noScanner : manualScanning && !outcomes.scannerSpawned with
      | true => exact ⟨held, rfl, rfl⟩
      | false =>
          have noMonitor : NoMonitor features outcomes := by
            by_contra monitored
            refine fails ⟨spawned, fun manual => ?_, monitored⟩
            simpa [manual] using noScanner
          exact ⟨_, monitorRun_failed noMonitor, restoreX3d_linked⟩

theorem run_joins (savedX3dMode : Option X3DMode) (held : Held)
    (nothingFails : NothingFails features manualScanning outcomes) :
    run features manualScanning savedX3dMode outcomes held = none ∨
      run features manualScanning savedX3dMode outcomes held =
        some (.returned, restoreX3d savedX3dMode outcomes held) := by
  obtain ⟨spawned, scanner, monitored⟩ := nothingFails
  have hasScanner : (manualScanning && !outcomes.scannerSpawned) = false := by
    cases isManual : manualScanning with
    | false => rfl
    | true => simp [scanner isManual]
  unfold run
  simp only [spawned, hasScanner, Bool.not_true, Bool.false_eq_true, ↓reduceIte]
  rcases monitorRun_joins monitored with notEnded | joined
  · exact .inl notEnded
  · rw [joined, finishJoin]
    cases outcomes.workerJoined with
    | none => exact .inl rfl
    | some _ => exact .inr rfl

end Run

/-- For every build, command line, configured mode and sequence of outcomes: what was
taken is given back on every exit exactly when no spawn fails and the monitors do not all
fail to start. -/
theorem start_givesBack_iff (features : Features) (manualScanning : Bool) (outcomes : Outcomes)
    (x3dMode : String) (applyAccepted : Bool) (driver : Driver) :
    GivesBack features manualScanning outcomes x3dMode applyAccepted driver ↔
      NothingFails features manualScanning outcomes := by
  constructor
  · intro givesBack
    by_contra fails
    obtain ⟨left, exits, linked⟩ := run_exits (applyX3dMode x3dMode applyAccepted driver).1
      ⟨(applyX3dMode x3dMode applyAccepted driver).2, true⟩ fails
    have ended : start features manualScanning outcomes x3dMode applyAccepted driver =
        some (.exited 1, left) := by
      rw [start]
      simp only [exits]
    have gone := (givesBack (.exited 1) left ended).2
    rw [linked] at gone
    simp at gone
  · intro nothingFails termination held ended
    rw [start] at ended
    rcases run_joins (applyX3dMode x3dMode applyAccepted driver).1
      ⟨(applyX3dMode x3dMode applyAccepted driver).2, true⟩ nothingFails with notEnded | joined
    · simp [notEnded] at ended
    · simp only [joined, Option.some.injEq, Prod.mk.injEq] at ended
      obtain ⟨_, rfl⟩ := ended
      refine ⟨fun mode saved accepted => ?_, rfl⟩
      obtain ⟨content, present⟩ := modeFile_of_saved saved
      exact getDriverMode_restored present saved accepted

/-- A default build whose worker thread cannot be spawned, with `x3d_mode = cache`. -/
def spawnRefused : Outcomes where
  workerSpawned := false
  scannerSpawned := true
  bpf := []
  netlink := [.listenEnded]
  workerJoined := some true
  restoreAccepted := true

/-- The process exits with the driver in the configured mode and the object still there. -/
theorem spawn_failure_keeps_both :
    start ⟨false, true, .inr rfl⟩ false spawnRefused "cache" true ⟨some [some "frequency\n"]⟩ =
        some (.exited 1, ⟨⟨some [some "cache"]⟩, true⟩) ∧
      ¬ GivesBack ⟨false, true, .inr rfl⟩ false spawnRefused "cache" true
        ⟨some [some "frequency\n"]⟩ := by
  have ends : start ⟨false, true, .inr rfl⟩ false spawnRefused "cache" true
      ⟨some [some "frequency\n"]⟩ = some (.exited 1, ⟨⟨some [some "cache"]⟩, true⟩) := by
    decide
  refine ⟨ends, fun givesBack => ?_⟩
  exact absurd (givesBack _ _ ends).2 (by decide)

end AnanicyRs.Daemon.Exit
