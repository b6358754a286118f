import AnanicyRs.Lib.StateInvariant

/-!
Contract: the daemon's threads around the event channel, from start-up to the join of
the worker.

Owns the parts of `src/signals.rs`, `src/runtime.rs`, `src/monitor.rs`, `Worker::work_loop`
and the two monitors that send, receive, hold or drop a `Sender`, or that read or write the
shutdown flag. Every thread has its own step function; an event is one step of one thread,
or a signal from outside, and events come in any order. A step that its thread cannot take
leaves the state as it is.

The worker ends only when every `Sender` is gone, and the signal thread gives its own up
only for SIGINT or SIGTERM. `join_needs_no_signal` says that the shutdown never waits for
such a signal in a run whose flag is only ever set after one was sent.

What a message holds is left out, and so is a failed spawn of the worker, the scanner or
a build without a monitor: those end the process. A panic aborts it.
-/

set_option autoImplicit false

namespace AnanicyRs.Daemon.Threads

open AnanicyRs.Lib.StateInvariant

/-! ## State -/

inductive Sig where
  | usr1
  | int
  | term
deriving DecidableEq, Repr

def Sig.stops : Sig → Bool
  | .usr1 => false
  | .int => true
  | .term => true

/-- The signal thread: in `forever()`, in a reload, or in the branch of a termination
signal before and after it stored the flag. -/
inductive SignalPhase where
  | waiting
  | reloading
  | stopping
  | dropping
  | ended
deriving DecidableEq, Repr

inductive WorkerPhase where
  | unstarted
  | receiving
  | handling
  | ended
deriving DecidableEq, Repr

/-- The main thread in `runtime::run` and `monitor::run`. The starting phases know whether
the initial scan is still to be made. -/
inductive MainPhase where
  | preparing
  | bpfStarting (first : Bool)
  | bpfBuilding
  | bpfPolling
  | bpfReturned
  | netlinkStarting (first : Bool)
  | netlinkListening
  | netlinkRecovering
  | joining
  | finished
  | exited
deriving DecidableEq, Repr

/-- How the daemon was built and asked to run. -/
structure Settings where
  bpf : Bool
  netlink : Bool
  manualScanning : Bool
  benchmark : Bool
  benchmarkCount : Option Nat
deriving DecidableEq, Repr

structure State where
  shutdownFlag : Bool
  /-- Messages sent and not yet received. -/
  queued : Nat
  /-- Signals delivered and not yet taken. -/
  pending : List Sig
  signal : SignalPhase
  worker : WorkerPhase
  processedCount : Nat
  /-- The benchmark timer is still asleep. -/
  timerArmed : Bool
  /-- Initial scans that are still running. -/
  scans : Nat
  scannerRuns : Bool
  main : MainPhase
deriving DecidableEq, Repr

def State.initial (settings : Settings) : State where
  shutdownFlag := false
  queued := 0
  pending := []
  signal := .waiting
  worker := .unstarted
  processedCount := 0
  timerArmed := settings.benchmark
  scans := 0
  scannerRuns := false
  main := .preparing

def SignalPhase.holdsSender : SignalPhase → Bool
  | .ended => false
  | _ => true

def MainPhase.holdsSender : MainPhase → Bool
  | .joining => false
  | .finished => false
  | .exited => false
  | _ => true

/-- Some thread holds a `Sender`, so `recv` waits on an empty channel. -/
def State.hasSender (state : State) : Bool :=
  state.signal.holdsSender || state.main.holdsSender || state.scannerRuns || (0 < state.scans)

/-! ## Steps -/

inductive SignalStep where
  | take (sig : Sig)
  | reloaded
  | store
  | drop
deriving DecidableEq, Repr

def signalStep (step : SignalStep) (state : State) : State :=
  match step, state.signal with
  | .take sig, .waiting =>
      if sig ∈ state.pending then
        { state with
          pending := state.pending.erase sig
          signal := if sig.stops then .stopping else .reloading }
      else state
  | .reloaded, .reloading => { state with signal := .waiting }
  | .store, .stopping => { state with shutdownFlag := true, signal := .dropping }
  | .drop, .dropping => { state with signal := .ended }
  | _, _ => state

inductive WorkerStep where
  | recv
  | handle
deriving DecidableEq, Repr

def limitReached (settings : Settings) (processedCount : Nat) : Bool :=
  settings.benchmarkCount.any fun limit => limit ≤ processedCount

def workerStep (settings : Settings) (step : WorkerStep) (state : State) : State :=
  match step, state.worker with
  | .recv, .receiving =>
      if 0 < state.queued then
        { state with
          queued := state.queued - 1
          worker := .handling
          processedCount := state.processedCount + 1 }
      else if state.hasSender then state
      else { state with worker := .ended }
  | .handle, .handling =>
      { state with
        worker := .receiving
        shutdownFlag := state.shutdownFlag || limitReached settings state.processedCount }
  | _, _ => state

/-- A send by a thread that holds a `Sender`; `lost` is what it does when the receiver is
gone. -/
def send (lost : State → State) (state : State) : State :=
  if state.worker = .ended then lost state else { state with queued := state.queued + 1 }

inductive ScanStep where
  | send
  | finish
deriving DecidableEq, Repr

def dropScan (state : State) : State := { state with scans := state.scans - 1 }

/-- One of the initial scans. -/
def scanStep (step : ScanStep) (state : State) : State :=
  if state.scans = 0 then state
  else match step with
    | .send => send dropScan state
    | .finish => dropScan state

inductive ScannerStep where
  | send
  | check
deriving DecidableEq, Repr

/-- The manual scanner looks at the flag between its scans. -/
def scannerStep (step : ScannerStep) (state : State) : State :=
  if state.scannerRuns then
    match step with
    | .send => send id state
    | .check => if state.shutdownFlag then { state with scannerRuns := false } else state
  else state

inductive MainStep where
  | spawn
  /-- A monitor is constructed, or not; the initial scan is spawned, or not. -/
  | new (started scanSpawned : Bool)
  /-- The BPF perf buffer is built, or not. -/
  | build (built : Bool)
  | send
  /-- A monitor looks at the flag. -/
  | poll
  | recvError
  | next
  | join
deriving DecidableEq, Repr

def netlinkOrExit (settings : Settings) : MainPhase :=
  if settings.netlink then .netlinkStarting true else .exited

def firstScan (first scanSpawned : Bool) (state : State) : Nat :=
  if first && scanSpawned then state.scans + 1 else state.scans

def mainStep (settings : Settings) (step : MainStep) (state : State) : State :=
  match state.main, step with
  | .preparing, .spawn =>
      { state with
        worker := .receiving
        scannerRuns := settings.manualScanning
        main := if settings.bpf then .bpfStarting true else netlinkOrExit settings }
  | .bpfStarting first, .new started scanSpawned =>
      if started then
        { state with main := .bpfBuilding, scans := firstScan first scanSpawned state }
      else { state with main := netlinkOrExit settings }
  | .bpfBuilding, .build built =>
      { state with main := if built then .bpfPolling else .bpfReturned }
  | .bpfPolling, .send => send (fun lost => { lost with shutdownFlag := true }) state
  | .bpfPolling, .poll => if state.shutdownFlag then { state with main := .bpfReturned } else state
  -- `listen` has returned: with the flag set this is the way out, else the restart.
  | .bpfReturned, .next =>
      { state with main := if state.shutdownFlag then .joining else .bpfStarting false }
  | .netlinkStarting first, .new started scanSpawned =>
      if started then
        { state with main := .netlinkListening, scans := firstScan first scanSpawned state }
      else { state with main := .exited }
  | .netlinkListening, .send =>
      send (fun lost => { lost with shutdownFlag := true, main := .joining }) state
  | .netlinkListening, .poll => if state.shutdownFlag then { state with main := .joining } else state
  | .netlinkListening, .recvError => { state with main := .netlinkRecovering }
  | .netlinkRecovering, .send => send id state
  | .netlinkRecovering, .next => { state with main := .netlinkStarting false }
  | .joining, .join => if state.worker = .ended then { state with main := .finished } else state
  | _, _ => state

inductive Event where
  | deliver (sig : Sig)
  | signal (step : SignalStep)
  | timer
  | worker (step : WorkerStep)
  | scan (step : ScanStep)
  | scanner (step : ScannerStep)
  | main (step : MainStep)
deriving DecidableEq, Repr

def step (settings : Settings) (event : Event) (state : State) : State :=
  match event with
  | .deliver sig => { state with pending := state.pending.insert sig }
  | .signal own => signalStep own state
  | .timer =>
      if state.timerArmed then { state with shutdownFlag := true, timerArmed := false } else state
  | .worker own => workerStep settings own state
  | .scan own => scanStep own state
  | .scanner own => scannerStep own state
  | .main own => mainStep settings own state

/-! ## Who waits for whom -/

/-- The signal thread has a termination signal to take or has taken one. -/
def State.stopRequested (state : State) : Bool :=
  state.pending.any Sig.stops ||
    match state.signal with
    | .waiting => false
    | .reloading => false
    | _ => true

/-- The shutdown is under way, the main thread joins the worker, nothing is queued, and
the signal thread keeps its `Sender` until one more signal is sent. -/
def State.stuck (state : State) : Bool :=
  state.shutdownFlag && state.main == .joining && state.queued == 0 &&
    state.signal.holdsSender && !state.stopRequested

/-- The steps by which the benchmark sets the flag come after a termination signal. -/
def afterSignal (settings : Settings) (state : State) (event : Event) : Bool :=
  match event with
  | .timer => !state.timerArmed || state.stopRequested
  | .worker .handle =>
      !(state.worker == .handling && limitReached settings state.processedCount) ||
        state.stopRequested
  | _ => true

/-- A step that neither takes a signal nor writes the flag, makes no `Sender` out of
nothing, and ends the worker only when there is none. -/
structure Quiet (before after : State) : Prop where
  flag : after.shutdownFlag = before.shutdownFlag
  signal : after.signal = before.signal
  pending : after.pending = before.pending
  sender : after.hasSender = true → before.hasSender = true
  worker : after.worker = .ended → before.worker = .ended ∨ before.hasSender = false

section Steps

variable {settings : Settings} {state : State}

theorem hasSender_of_main (holds : state.main.holdsSender = true) : state.hasSender = true := by
  simp [State.hasSender, holds]

theorem Quiet.refl (state : State) : Quiet state state := ⟨rfl, rfl, rfl, id, .inl⟩

/-- A thread that holds a `Sender` may pass it on. -/
theorem Quiet.of_holder {after : State} (holds : state.hasSender = true)
    (flag : after.shutdownFlag = state.shutdownFlag) (signal : after.signal = state.signal)
    (pending : after.pending = state.pending)
    (worker : after.worker = .ended → state.worker = .ended) : Quiet state after where
  flag := flag
  signal := signal
  pending := pending
  sender _ := holds
  worker ended := .inl (worker ended)

/-- While the worker is there, a send only queues a message. -/
theorem send_of_receiver {lost : State → State} (alive : state.worker ≠ .ended) :
    send lost state = { state with queued := state.queued + 1 } := by
  rw [send, if_neg alive]

theorem quiet_send {lost : State → State} (alive : state.worker ≠ .ended) :
    Quiet state (send lost state) := by
  rw [send_of_receiver alive]
  exact ⟨rfl, rfl, rfl, id, .inl⟩

theorem quiet_main (own : MainStep) (alive : state.hasSender = true → state.worker ≠ .ended) :
    Quiet state (mainStep settings own state) := by
  have holder : ∀ {after : State}, state.main.holdsSender = true →
      after.shutdownFlag = state.shutdownFlag → after.signal = state.signal →
        after.pending = state.pending → (after.worker = .ended → state.worker = .ended) →
          Quiet state after :=
    fun holds => Quiet.of_holder (hasSender_of_main holds)
  have sends : ∀ {lost : State → State}, state.main.holdsSender = true →
      Quiet state (send lost state) :=
    fun holds => quiet_send (alive (hasSender_of_main holds))
  unfold mainStep
  split
  next phase => exact holder (by rw [phase]; rfl) rfl rfl rfl (by simp)
  next phase => split <;> exact holder (by rw [phase]; rfl) rfl rfl rfl id
  next phase => exact holder (by rw [phase]; rfl) rfl rfl rfl id
  next phase => exact sends (by rw [phase]; rfl)
  next phase => split <;> exact holder (by rw [phase]; rfl) rfl rfl rfl id
  next phase => exact holder (by rw [phase]; rfl) rfl rfl rfl id
  next phase => split <;> exact holder (by rw [phase]; rfl) rfl rfl rfl id
  next phase => exact sends (by rw [phase]; rfl)
  next phase => split <;> exact holder (by rw [phase]; rfl) rfl rfl rfl id
  next phase => exact holder (by rw [phase]; rfl) rfl rfl rfl id
  next phase => exact sends (by rw [phase]; rfl)
  next phase => exact holder (by rw [phase]; rfl) rfl rfl rfl id
  next phase =>
    split
    · refine ⟨rfl, rfl, rfl, ?_, .inl⟩
      simp [State.hasSender, phase, MainPhase.holdsSender]
    · exact .refl state
  next => exact .refl state

theorem quiet_recv : Quiet state (workerStep settings .recv state) := by
  unfold workerStep
  split
  · split
    · exact ⟨rfl, rfl, rfl, id, by simp⟩
    · split
      · exact .refl state
      next noSender => exact ⟨rfl, rfl, rfl, id, fun _ => .inr (by simpa using noSender)⟩
  next impossible _ => exact absurd impossible (by decide)
  · exact .refl state

theorem quiet_scan (own : ScanStep) (alive : state.hasSender = true → state.worker ≠ .ended) :
    Quiet state (scanStep own state) := by
  unfold scanStep
  split
  · exact .refl state
  next running =>
    have holds : state.hasSender = true := by
      simp [State.hasSender, Nat.pos_of_ne_zero running]
    cases own with
    | send => exact quiet_send (alive holds)
    | finish => exact .of_holder holds rfl rfl rfl id

theorem quiet_scanner (own : ScannerStep) (alive : state.hasSender = true → state.worker ≠ .ended) :
    Quiet state (scannerStep own state) := by
  unfold scannerStep
  split
  next running =>
    have holds : state.hasSender = true := by
      simp [State.hasSender, running]
    cases own with
    | send => exact quiet_send (alive holds)
    | check =>
        dsimp only
        split
        · exact .of_holder holds rfl rfl rfl id
        · exact .refl state
  next => exact .refl state

/-! ## Runs -/

/-- The flag is up only after a termination signal was sent, and the worker ends only
when no `Sender` is left. -/
structure Sound (state : State) : Prop where
  requested : state.shutdownFlag = true → state.stopRequested = true
  drained : state.worker = .ended → state.hasSender = false

theorem Sound.alive (sound : Sound state) (holds : state.hasSender = true) :
    state.worker ≠ .ended := by
  intro ended
  rw [sound.drained ended] at holds
  exact absurd holds (by decide)

theorem Sound.quiet (sound : Sound state) {after : State} (quiet : Quiet state after) :
    Sound after where
  requested up := by
    rw [quiet.flag] at up
    rw [State.stopRequested, quiet.signal, quiet.pending]
    exact sound.requested up
  drained ended := by
    rw [Bool.eq_false_iff]
    intro holds
    have held := quiet.sender holds
    rcases quiet.worker ended with before | noSender
    · rw [sound.drained before] at held
      exact absurd held (by decide)
    · rw [noSender] at held
      exact absurd held (by decide)

/-- Taking a signal does not lose a request to stop: it is pending, or it is taken. -/
theorem sound_signal (own : SignalStep) (sound : Sound state) : Sound (signalStep own state) := by
  unfold signalStep
  split
  next sig waiting =>
    split
    next isPending =>
      have holds : state.hasSender = true := by
        simp [State.hasSender, waiting, SignalPhase.holdsSender]
      refine ⟨fun up => ?_, fun ended => absurd ended (sound.alive holds)⟩
      have requested := sound.requested up
      cases stops : sig.stops with
      | true => simp [State.stopRequested]
      | false =>
          simp only [State.stopRequested, waiting, Bool.or_false, List.any_eq_true] at requested
          obtain ⟨other, inPending, otherStops⟩ := requested
          have different : other ≠ sig := by
            rintro rfl
            rw [stops] at otherStops
            exact absurd otherStops (by decide)
          have stillPending := (List.mem_erase_of_ne different).mpr inPending
          simp only [State.stopRequested, Bool.or_eq_true, List.any_eq_true]
          exact .inl ⟨other, stillPending, otherStops⟩
    next => exact sound
  next reloading =>
    have holds : state.hasSender = true := by
      simp [State.hasSender, reloading, SignalPhase.holdsSender]
    refine ⟨fun up => ?_, fun ended => absurd ended (sound.alive holds)⟩
    simpa [State.stopRequested, reloading] using sound.requested up
  next stopping =>
    have holds : state.hasSender = true := by
      simp [State.hasSender, stopping, SignalPhase.holdsSender]
    exact ⟨fun _ => by simp [State.stopRequested], fun ended => absurd ended (sound.alive holds)⟩
  next dropping =>
    have holds : state.hasSender = true := by
      simp [State.hasSender, dropping, SignalPhase.holdsSender]
    exact ⟨fun _ => by simp [State.stopRequested], fun ended => absurd ended (sound.alive holds)⟩
  next => exact sound

theorem sound_handle (sound : Sound state)
    (allowed : afterSignal settings state (.worker .handle) = true) :
    Sound (workerStep settings .handle state) := by
  unfold workerStep
  split
  next impossible _ => exact absurd impossible (by decide)
  next handling =>
    refine ⟨fun up => ?_, by simp⟩
    rcases Bool.or_eq_true_iff.mp up with before | reached
    · exact sound.requested before
    · have requested : state.stopRequested = true := by
        simpa [afterSignal, handling, reached] using allowed
      exact requested
  next => exact sound

theorem sound_timer (sound : Sound state) (allowed : afterSignal settings state .timer = true) :
    Sound (step settings .timer state) := by
  unfold step
  dsimp only
  split
  next armed =>
    have requested : state.stopRequested = true := by
      simpa [afterSignal, armed] using allowed
    exact ⟨fun _ => requested, sound.drained⟩
  next => exact sound

theorem sound_step (event : Event) (sound : Sound state)
    (allowed : afterSignal settings state event = true) : Sound (step settings event state) := by
  cases event with
  | deliver sig =>
      refine ⟨fun up => ?_, sound.drained⟩
      have requested := sound.requested up
      simp only [State.stopRequested, Bool.or_eq_true, List.any_eq_true] at requested ⊢
      rcases requested with ⟨other, inPending, stops⟩ | taken
      · exact .inl ⟨other, List.mem_insert_of_mem inPending, stops⟩
      · exact .inr taken
  | signal own => exact sound_signal own sound
  | timer => exact sound_timer sound allowed
  | worker own =>
      cases own with
      | recv => exact sound.quiet quiet_recv
      | handle => exact sound_handle sound allowed
  | scan own => exact sound.quiet (quiet_scan own sound.alive)
  | scanner own => exact sound.quiet (quiet_scanner own sound.alive)
  | main own => exact sound.quiet (quiet_main own sound.alive)

end Steps

theorem sound_initial (settings : Settings) : Sound (.initial settings) :=
  ⟨fun up => absurd up (by simp [State.initial]), fun ended => absurd ended (by simp [State.initial])⟩

/-- In every run whose benchmark steps come after a termination signal, the shutdown
never waits for another one. -/
theorem join_needs_no_signal (settings : Settings) (events : List Event)
    (admitted : Admits (step settings)
      (fun state event => afterSignal settings state event = true) events (.initial settings)) :
    ∀ reached ∈ states (step settings) events (.initial settings), reached.stuck = false := by
  have sound := invariant_of_admits (fun _ event holds allowed => sound_step event holds allowed)
    events _ (sound_initial settings) admitted
  intro reached member
  rw [Bool.eq_false_iff]
  intro stuck
  simp only [State.stuck, Bool.and_eq_true, Bool.not_eq_true'] at stuck
  rw [(sound reached member).requested stuck.1.1.1.1] at stuck
  exact absurd stuck.2 (by decide)

def defaultBuild : Settings := ⟨false, true, false, false, none⟩

/-- A SIGTERM while the netlink monitor listens. -/
def terminated : List Event :=
  [.main .spawn, .main (.new true true), .scan .send, .scan .finish, .deliver .term,
   .signal (.take .term), .signal .store, .main .poll, .signal .drop, .worker .recv,
   .worker .handle, .worker .recv, .main .join]

theorem terminated_joins :
    (terminated.foldl (fun state event => step defaultBuild event state)
        (.initial defaultBuild)).main = .finished ∧
      ∀ reached ∈ states (step defaultBuild) terminated (.initial defaultBuild),
        reached.stuck = false :=
  ⟨by decide, join_needs_no_signal defaultBuild terminated
    ⟨rfl, rfl, rfl, rfl, rfl, rfl, rfl, rfl, rfl, rfl, rfl, rfl, rfl, trivial⟩⟩

/-- The same build with `--benchmark`: the timer goes off and no signal is sent. -/
def timedOut : List Event :=
  [.main .spawn, .main (.new true true), .scan .finish, .timer, .main .poll]

theorem benchmark_join_waits_for_signal :
    ∃ reached ∈ states (step { defaultBuild with benchmark := true }) timedOut
        (.initial { defaultBuild with benchmark := true }),
      reached.shutdownFlag = true ∧ reached.main = .joining ∧ reached.queued = 0 ∧
        reached.signal = .waiting ∧ reached.pending = [] ∧ reached.stuck = true :=
  ⟨_, foldl_mem_states _ _ _, by decide, by decide, by decide, by decide, by decide, by decide⟩

end AnanicyRs.Daemon.Threads
