import AnanicyRs.Daemon.Singleton

/-!
Contract: a reload request beside the processes of the singleton (`request_reload` of
`src/ipc.rs`).

Owns the four calls of a request: it opens the object, reads the pid, looks at `/proc` and
sends `SIGUSR1`. Each call sees the machine as it is by then, and between two of them every
other process may take any number of steps, exit, crash or start. A request changes nothing
that another process looks at, so any number of them may run beside each other.

`requestReload_reaches` says when the daemon gets its signal, and `requestReload_hits` whom a
signal can get to at all. The messages and exit codes are left out, and so is what a process
does with the signal.
-/

set_option autoImplicit false

namespace AnanicyRs.Daemon.Singleton

open AnanicyRs.Lib.StateInvariant

/-! ## The request -/

inductive Call where
  | openObject
  | read
  | look
  | signal
deriving DecidableEq, Repr

/-- What the others do before each call, and the calls that fail. -/
structure Request where
  beforeOpen : List Event
  beforeRead : List Event
  beforeLook : List Event
  beforeSignal : List Event
  failure : Call → Option String

def after (events : List Event) (state : State) : State :=
  events.foldl (fun now event => step event now) state

def Request.atOpen (request : Request) : State := after request.beforeOpen .initial

def Request.atRead (request : Request) : State := after request.beforeRead request.atOpen

def Request.atLook (request : Request) : State := after request.beforeLook request.atRead

def Request.atSignal (request : Request) : State := after request.beforeSignal request.atLook

inductive Requested where
  | notRunning
  | unreadable
  | leftover (pid : Int)
  | failed (errno : String)
  /-- The signal went to this process, which had this incarnation. -/
  | sent (pid : Int) (incarnation : Nat)
deriving DecidableEq, Repr

def requestReload (request : Request) : Requested :=
  match request.failure .openObject, request.atOpen.named with
  | some _, _ => .notRunning
  | none, none => .notRunning
  | none, some object =>
      match request.failure .read, parseHolder (request.atRead.contents object) with
      | some _, _ => .unreadable
      | none, none => .unreadable
      | none, some pid =>
          -- `Pid::from_raw` has no pid 0.
          if pid = 0 then .unreadable
          else if (request.failure .look).isSome || !looksLikeDaemon request.atLook pid then
            .leftover pid
          else
            match request.failure .signal, request.atSignal.find pid.toNat with
            | some errno, _ => .failed errno
            | none, none => .failed "No such process (os error 3)"
            | none, some proc => .sent pid proc.incarnation

/-! ## Steps of the others -/

/-- What any order of steps leaves apart, whether removals are orderly or not. -/
structure Apart (state : State) : Prop where
  pids : ∀ first ∈ state.procs, ∀ second ∈ state.procs, first.pid = second.pid → first = second
  incarnations : ∀ first ∈ state.procs, ∀ second ∈ state.procs,
    first.incarnation = second.incarnation → first = second
  fresh : ∀ proc ∈ state.procs, proc.incarnation < state.nextIncarnation
  inRange : ∀ proc ∈ state.procs, 0 < proc.pid ∧ proc.pid < 2 ^ 22

theorem apart_initial : Apart .initial where
  pids := by simp [State.initial]
  incarnations := by simp [State.initial]
  fresh := by simp [State.initial]
  inRange := by simp [State.initial]

section Steps

variable {state : State}

/-- All that a step can be. -/
theorem step_cases (event : Event) (state : State) :
    step event state = state ∨
    (∃ pid cmdline kind, state.maySpawn pid cmdline kind = true ∧
      step event state = { state with
        procs := ⟨pid, state.nextIncarnation, cmdline, kind.phase⟩ :: state.procs
        nextIncarnation := state.nextIncarnation + 1 }) ∨
    (∃ proc ∈ state.procs, ∃ failure,
      step event state = settle proc.pid (advance proc failure state)) ∨
    ∃ pid, step event state = state.remove pid := by
  cases event with
  | spawn pid cmdline kind =>
      cases may : state.maySpawn pid cmdline kind with
      | false => exact .inl (by simp [step, may])
      | true => exact .inr (.inl ⟨pid, cmdline, kind, may, by simp [step, may]⟩)
  | act pid failure =>
      cases found : state.find pid with
      | none => exact .inl (by simp [step, found])
      | some proc =>
          have isProc := find_eq_some found
          apply Or.inr
          apply Or.inr
          apply Or.inl
          refine ⟨proc, isProc.1, failure, ?_⟩
          rw [isProc.2]
          simp only [step, found, settle]
  | crash pid => exact .inr (.inr (.inr ⟨pid, rfl⟩))

@[simp] theorem unlink_procs (actor : Nat) : (state.unlink actor).procs = state.procs := by
  unfold State.unlink
  split <;> rfl

@[simp] theorem unlink_nextIncarnation (actor : Nat) :
    (state.unlink actor).nextIncarnation = state.nextIncarnation := by
  unfold State.unlink
  split <;> rfl

@[simp] theorem unlink_contents (actor : Nat) :
    (state.unlink actor).contents = state.contents := by
  unfold State.unlink
  split <;> rfl

/-- A call of a process starts and ends none, and writes to no object but its own. -/
theorem advance_frame (proc : Proc) (failure : Option String) (state : State) :
    (advance proc failure state).2.procs = state.procs ∧
    (advance proc failure state).2.nextIncarnation = state.nextIncarnation ∧
    ((advance proc failure state).2.contents = state.contents ∨
      proc.phase ≠ .holding ∧ ∃ text, (text = "" ∨ text = toString proc.pid) ∧
        (advance proc failure state).2.contents =
          (state.write proc.incarnation text).contents) := by
  cases phase : proc.phase with
  | creating =>
      cases failure with
      | some errno => simp [advance, phase]
      | none =>
          cases named : state.named with
          | some object => simp [advance, phase, named]
          | none =>
              have emptied : (advance proc none state).2 =
                  { state with named := some proc.incarnation }.write proc.incarnation "" := by
                simp [advance, phase, named]
              rw [emptied]
              exact ⟨rfl, rfl, .inr ⟨by simp, "", .inl rfl, rfl⟩⟩
  | writing =>
      cases failure with
      | some errno => simp [advance, phase]
      | none =>
          have written : (advance proc none state).2 =
              state.write proc.incarnation (toString proc.pid) := by
            simp [advance, phase]
          rw [written]
          exact ⟨rfl, rfl, .inr ⟨by simp, toString proc.pid, .inr rfl, rfl⟩⟩
  | _ => cases failure <;> simp only [advance, phase] <;> (try split) <;> simp

/-- A process that has its guard gives it up by ending. -/
theorem advance_holding {proc : Proc} (holds : proc.phase = .holding) (failure : Option String)
    (state : State) : (advance proc failure state).1 = none := by
  unfold advance
  rw [holds]
  cases failure <;> rfl

/-- What tells processes apart still does when each of them keeps it. -/
theorem distinct_map {key : Proc → Nat} {procs : List Proc}
    (distinct : ∀ first ∈ procs, ∀ second ∈ procs, key first = key second → first = second)
    {change : Proc → Proc} (keeps : ∀ proc, key (change proc) = key proc) :
    ∀ first ∈ procs.map change, ∀ second ∈ procs.map change,
      key first = key second → first = second := by
  intro first inFirst second inSecond same
  obtain ⟨oldFirst, wasFirst, rfl⟩ := List.mem_map.mp inFirst
  obtain ⟨oldSecond, wasSecond, rfl⟩ := List.mem_map.mp inSecond
  rw [keeps, keeps] at same
  rw [distinct oldFirst wasFirst oldSecond wasSecond same]

theorem apart_setPhase (apart : Apart state) (pid : Nat) (phase : Phase) :
    Apart (state.setPhase pid phase) where
  pids := by
    apply distinct_map apart.pids
    intro proc
    split <;> rfl
  incarnations := by
    apply distinct_map apart.incarnations
    intro proc
    split <;> rfl
  fresh := by
    intro proc member
    obtain ⟨old, inProcs, -, same⟩ := mem_setPhase member
    rw [same]
    exact apart.fresh old inProcs
  inRange := by
    intro proc member
    obtain ⟨old, inProcs, same, -⟩ := mem_setPhase member
    rw [same]
    exact apart.inRange old inProcs

theorem apart_remove (apart : Apart state) (pid : Nat) : Apart (state.remove pid) := by
  have stays : ∀ proc ∈ (state.remove pid).procs, proc ∈ state.procs :=
    fun proc member => (List.mem_filter.mp member).1
  exact {
    pids := fun first inFirst second inSecond =>
      apart.pids first (stays first inFirst) second (stays second inSecond)
    incarnations := fun first inFirst second inSecond =>
      apart.incarnations first (stays first inFirst) second (stays second inSecond)
    fresh := fun proc member => apart.fresh proc (stays proc member)
    inRange := fun proc member => apart.inRange proc (stays proc member) }

theorem apart_spawn (apart : Apart state) {pid : Nat} {cmdline : String} {kind : Kind}
    (may : state.maySpawn pid cmdline kind = true) :
    Apart { state with
      procs := ⟨pid, state.nextIncarnation, cmdline, kind.phase⟩ :: state.procs
      nextIncarnation := state.nextIncarnation + 1 } := by
  simp only [State.maySpawn, Bool.and_eq_true, decide_eq_true_eq] at may
  obtain ⟨⟨⟨positive, bounded⟩, isFree⟩, -⟩ := may
  have free : ∀ other ∈ state.procs, other.pid ≠ pid := by
    intro other member same
    have missing := List.find?_eq_none.mp (Option.isNone_iff_eq_none.mp isFree) other member
    simp [same] at missing
  constructor
  · exact distinct_cons apart.pids free
  · apply distinct_cons apart.incarnations
    intro old member
    exact Nat.ne_of_lt (apart.fresh old member)
  · intro proc member
    rcases List.mem_cons.mp member with rfl | old
    · exact Nat.lt_succ_self _
    · exact Nat.lt_succ_of_lt (apart.fresh proc old)
  · intro proc member
    rcases List.mem_cons.mp member with rfl | old
    · exact ⟨positive, bounded⟩
    · exact apart.inRange proc old

theorem apart_advance (apart : Apart state) (proc : Proc) (failure : Option String) :
    Apart (advance proc failure state).2 := by
  obtain ⟨sameProcs, sameNext, -⟩ := advance_frame proc failure state
  constructor
  · rw [sameProcs]
    exact apart.pids
  · rw [sameProcs]
    exact apart.incarnations
  · rw [sameProcs, sameNext]
    exact apart.fresh
  · rw [sameProcs]
    exact apart.inRange

theorem apart_step (apart : Apart state) (event : Event) : Apart (step event state) := by
  rcases step_cases event state with same | ⟨pid, cmdline, kind, may, spawned⟩ |
    ⟨proc, -, failure, acted⟩ | ⟨pid, removed⟩
  · rw [same]
    exact apart
  · rw [spawned]
    exact apart_spawn apart may
  · have left := apart_advance apart proc failure
    rw [acted]
    cases outcome : advance proc failure state with
    | mk phase now =>
        rw [outcome] at left
        cases phase with
        | none => exact apart_remove left _
        | some phase => exact apart_setPhase left _ phase
  · rw [removed]
    exact apart_remove apart pid

theorem apart_after (events : List Event) (apart : Apart state) : Apart (after events state) :=
  @invariant_of_step _ _ step Apart (fun _ event kept => apart_step kept event) events state apart _
    (foldl_mem_states step events state)

/-! ## What lasts -/

/-- What the steps from one state to a later one leave as it is. An object is let alone as
long as the only process that could write to it has written. -/
structure Continues (before later : State) : Prop where
  incarnations : before.nextIncarnation ≤ later.nextIncarnation
  processes : ∀ proc ∈ later.procs, proc.incarnation < before.nextIncarnation →
    ∃ old ∈ before.procs, old.incarnation = proc.incarnation ∧ old.pid = proc.pid ∧
      old.cmdline = proc.cmdline ∧ (old.phase = .holding → proc.phase = .holding)
  contents : ∀ object, object < before.nextIncarnation →
    (∀ proc ∈ before.procs, proc.incarnation = object → proc.phase = .holding) →
      later.contents object = before.contents object

theorem Continues.refl (state : State) : Continues state state where
  incarnations := Nat.le_refl _
  processes proc member _ := ⟨proc, member, rfl, rfl, rfl, id⟩
  contents _ _ _ := rfl

theorem Continues.trans {before middle later : State} (first : Continues before middle)
    (second : Continues middle later) : Continues before later where
  incarnations := Nat.le_trans first.incarnations second.incarnations
  processes := by
    intro proc member early
    obtain ⟨between, inMiddle, sameIncarnation, samePid, sameCmdline, holding⟩ :=
      second.processes proc member (Nat.lt_of_lt_of_le early first.incarnations)
    rw [← sameIncarnation] at early
    obtain ⟨old, inBefore, wasIncarnation, wasPid, wasCmdline, wasHolding⟩ :=
      first.processes between inMiddle early
    exact ⟨old, inBefore, wasIncarnation.trans sameIncarnation, wasPid.trans samePid,
      wasCmdline.trans sameCmdline, fun held => holding (wasHolding held)⟩
  contents := by
    intro object early held
    have heldOn : ∀ proc ∈ middle.procs, proc.incarnation = object → proc.phase = .holding := by
      intro proc member isObject
      rw [← isObject] at early
      obtain ⟨old, inBefore, sameIncarnation, -, -, holding⟩ := first.processes proc member early
      exact holding (held old inBefore (sameIncarnation.trans isObject))
    rw [second.contents object (Nat.lt_of_lt_of_le early first.incarnations) heldOn]
    exact first.contents object early held

theorem continues_remove (state : State) (pid : Nat) : Continues state (state.remove pid) where
  incarnations := Nat.le_refl _
  processes proc member _ := ⟨proc, (List.mem_filter.mp member).1, rfl, rfl, rfl, id⟩
  contents _ _ _ := rfl

theorem continues_setPhase (apart : Apart state) {proc : Proc} (inProcs : proc ∈ state.procs)
    (notHolding : proc.phase ≠ .holding) (phase : Phase) :
    Continues state (state.setPhase proc.pid phase) where
  incarnations := Nat.le_refl _
  processes := by
    intro other member _
    obtain ⟨old, wasProc, rfl⟩ := List.mem_map.mp member
    by_cases acts : old.pid = proc.pid
    · rw [if_pos acts]
      refine ⟨old, wasProc, rfl, rfl, rfl, ?_⟩
      intro held
      rw [apart.pids old wasProc proc inProcs acts] at held
      exact absurd held notHolding
    · rw [if_neg acts]
      exact ⟨old, wasProc, rfl, rfl, rfl, id⟩
  contents _ _ _ := rfl

/-- A call of a process leaves the objects of all others alone. -/
theorem continues_advance {proc : Proc} (inProcs : proc ∈ state.procs)
    (failure : Option String) : Continues state (advance proc failure state).2 := by
  obtain ⟨sameProcs, sameNext, contents⟩ := advance_frame proc failure state
  constructor
  · omega
  · intro other member _
    rw [sameProcs] at member
    exact ⟨other, member, rfl, rfl, rfl, id⟩
  · intro object _ held
    rcases contents with same | ⟨notHolding, text, -, written⟩
    · rw [same]
    · rw [written]
      apply if_neg
      intro own
      exact notHolding (held proc inProcs own.symm)

theorem continues_step (apart : Apart state) (event : Event) :
    Continues state (step event state) := by
  rcases step_cases event state with same | ⟨pid, cmdline, kind, may, spawned⟩ |
    ⟨proc, inProcs, failure, acted⟩ | ⟨pid, removed⟩
  · rw [same]
    exact .refl state
  · rw [spawned]
    constructor
    · exact Nat.le_succ _
    · intro proc member early
      rcases List.mem_cons.mp member with rfl | old
      · exact absurd early (Nat.lt_irrefl _)
      · exact ⟨proc, old, rfl, rfl, rfl, id⟩
    · intro object _ _
      rfl
  · have called := continues_advance inProcs failure
    have left := apart_advance apart proc failure
    have stillThere : proc ∈ (advance proc failure state).2.procs := by
      rw [(advance_frame proc failure state).1]
      exact inProcs
    rw [acted]
    cases outcome : advance proc failure state with
    | mk phase now =>
        rw [outcome] at called left stillThere
        cases phase with
        | none => exact called.trans (continues_remove now proc.pid)
        | some phase =>
            apply called.trans
            apply continues_setPhase left stillThere
            intro holds
            have ends := advance_holding holds failure state
            rw [outcome] at ends
            exact absurd ends (by simp)
  · rw [removed]
    exact continues_remove state pid

theorem continues_after (events : List Event) (apart : Apart state) :
    Continues state (after events state) := by
  induction events generalizing state with
  | nil => exact .refl state
  | cons event rest inductionHypothesis =>
      exact (continues_step apart event).trans (inductionHypothesis (apart_step apart event))

end Steps

theorem after_append (first second : List Event) (state : State) :
    after (first ++ second) state = after second (after first state) :=
  List.foldl_append

/-! ## Who made an object -/

theorem settle_contents (pid : Nat) (outcome : Option Phase × State) :
    (settle pid outcome).contents = outcome.2.contents := by
  obtain ⟨phase, left⟩ := outcome
  cases phase <;> rfl

/-- What an object holds is the pid of the process that created it. -/
theorem contents_signed (events : List Event) (object : Nat) :
    (after events .initial).contents object = "" ∨
      ∃ before, before <+: events ∧ ∃ creator ∈ (after before .initial).procs,
        creator.incarnation = object ∧
          (after events .initial).contents object = toString creator.pid := by
  induction events using List.reverseRecOn with
  | nil => exact .inl rfl
  | append_singleton events event inductionHypothesis =>
      have kept : ∀ {now : State},
          now.contents object = (after events .initial).contents object →
          now.contents object = "" ∨ ∃ before, before <+: events ++ [event] ∧
            ∃ creator ∈ (after before .initial).procs,
              creator.incarnation = object ∧ now.contents object = toString creator.pid := by
        intro now same
        rw [same]
        apply inductionHypothesis.imp_right
        rintro ⟨before, isPrefix, creator, signs⟩
        exact ⟨before, isPrefix.trans (List.prefix_append _ _), creator, signs⟩
      rw [after_append]
      show (step event (after events .initial)).contents object = "" ∨ _
      rcases step_cases event (after events .initial) with same | ⟨pid, cmdline, kind, -, spawned⟩ |
        ⟨proc, inProcs, failure, acted⟩ | ⟨pid, removed⟩
      · exact kept (by rw [same])
      · exact kept (by rw [spawned])
      · rcases (advance_frame proc failure (after events .initial)).2.2 with same |
          ⟨-, text, isText, written⟩
        · exact kept (by rw [acted, settle_contents, same])
        · by_cases own : object = proc.incarnation
          · have holds : (step event (after events .initial)).contents object = text := by
              rw [acted, settle_contents, written]
              exact if_pos own
            refine isText.imp holds.trans ?_
            intro isPid
            exact ⟨events, List.prefix_append _ _, proc, inProcs, own.symm, holds.trans isPid⟩
          · apply kept
            rw [acted, settle_contents, written]
            exact if_neg own
      · exact kept (by rw [removed]; rfl)

/-! ## Whom the signal gets to -/

theorem parseHolder_empty : parseHolder "" = none := by
  decide

/-- All that a request has seen when it has sent its signal. -/
theorem requestReload_sent {request : Request} {pid : Int} {incarnation : Nat}
    (sent : requestReload request = .sent pid incarnation) :
    ∃ object, request.atOpen.named = some object ∧
      parseHolder (request.atRead.contents object) = some pid ∧
      looksLikeDaemon request.atLook pid = true ∧
      ∃ target, request.atSignal.find pid.toNat = some target ∧
        target.incarnation = incarnation := by
  unfold requestReload at sent
  split at sent
  · simp at sent
  · simp at sent
  next object opened named =>
    split at sent
    · simp at sent
    · simp at sent
    next parsed read holder =>
      split at sent
      · simp at sent
      next notZero =>
        split at sent
        · simp at sent
        next looked =>
          split at sent
          · simp at sent
          · simp at sent
          next target signalled found =>
            simp only [Requested.sent.injEq] at sent
            obtain ⟨rfl, rfl⟩ := sent
            simp only [Bool.or_eq_true, not_or, Bool.not_eq_true, Bool.not_eq_false'] at looked
            exact ⟨object, named, holder, looked.2, target, found, rfl⟩

theorem find_of_mem {state : State} (apart : Apart state) {proc : Proc}
    (inProcs : proc ∈ state.procs) : state.find proc.pid = some proc := by
  cases found : state.find proc.pid with
  | none =>
      have missing := List.find?_eq_none.mp found proc inProcs
      simp at missing
  | some other =>
      obtain ⟨inOthers, samePid⟩ := find_eq_some found
      rw [apart.pids other inOthers proc inProcs samePid]

section Requests

variable (request : Request)

theorem apart_atOpen : Apart request.atOpen := apart_after _ apart_initial

theorem apart_atLook : Apart request.atLook := apart_after _ (apart_after _ (apart_atOpen request))

theorem apart_atSignal : Apart request.atSignal := apart_after _ (apart_atLook request)

theorem continues_atRead : Continues request.atOpen request.atRead :=
  continues_after _ (apart_atOpen request)

theorem continues_atLook : Continues request.atOpen request.atLook :=
  (continues_atRead request).trans (continues_after _ (apart_after _ (apart_atOpen request)))

theorem continues_atSignal : Continues request.atLook request.atSignal :=
  continues_after _ (apart_atLook request)

/-- The state at the read, as that of a run of its own. -/
theorem atRead_eq : request.atRead = after (request.beforeOpen ++ request.beforeRead) .initial :=
  (after_append request.beforeOpen request.beforeRead .initial).symm

/-- What was there at any time before the read lasts until the signal. -/
theorem continues_ofPrefix {before : List Event}
    (isPrefix : before <+: request.beforeOpen ++ request.beforeRead) :
    Continues (after before .initial) request.atSignal := by
  obtain ⟨rest, isWhole⟩ := isPrefix
  have toRead : Continues (after before .initial) request.atRead := by
    rw [atRead_eq, ← isWhole, after_append]
    exact continues_after rest (apart_after _ apart_initial)
  have toLook : Continues request.atRead request.atLook :=
    continues_after _ (apart_after _ (apart_atOpen request))
  exact (toRead.trans toLook).trans (continues_atSignal request)

/-- A daemon that has its guard and its pid in the object, and is there until the signal is
sent, gets it: no matter what the others do in between, as long as none of the calls fails. -/
theorem requestReload_reaches (succeeds : ∀ call, request.failure call = none)
    (admitted : Admits step (fun state event => orderly state event = true) request.beforeOpen
      .initial)
    {daemon : Proc} (running : daemon ∈ request.atOpen.procs) (holds : daemon.phase = .holding)
    (written : request.atOpen.contents daemon.incarnation = toString daemon.pid)
    (lives : request.atSignal.lives daemon.incarnation = true) :
    requestReload request = .sent daemon.pid daemon.incarnation := by
  have safe : Safe request.atOpen := invariant_of_admits
    (fun _ event safe allowed => safe_step event safe allowed) request.beforeOpen .initial
    safe_initial admitted _ (foldl_mem_states step _ _)
  have early : daemon.incarnation < request.atOpen.nextIncarnation := safe.fresh daemon running
  have named : request.atOpen.named = some daemon.incarnation :=
    safe.owner daemon running (by rw [holds]; rfl)
  have inRange := safe.inRange daemon running
  have identified : isDaemonCmdline daemon.cmdline = true :=
    safe.recognised daemon running (by rw [holds]; rfl)
  have holder : parseHolder (request.atRead.contents daemon.incarnation) =
      some (daemon.pid : Int) := by
    rw [(continues_atRead request).contents daemon.incarnation early, written]
    · exact parseHolder_pid inRange.2
    · intro proc inProcs same
      rw [safe.incarnations proc inProcs daemon running same]
      exact holds
  -- The process that is there at the signal was there at the look, and at the open.
  obtain ⟨target, inTargets, isTarget⟩ := List.any_eq_true.mp lives
  rw [beq_iff_eq] at isTarget
  have earlyLook : target.incarnation < request.atLook.nextIncarnation := by
    have grows := (continues_atLook request).incarnations
    omega
  obtain ⟨looked, inLooked, lookedIncarnation, lookedPid, -, -⟩ :=
    (continues_atSignal request).processes target inTargets earlyLook
  obtain ⟨opened, inOpened, openedIncarnation, openedPid, openedCmdline, -⟩ :=
    (continues_atLook request).processes looked inLooked (by omega)
  have isDaemon : opened = daemon :=
    safe.incarnations opened inOpened daemon running (by omega)
  subst isDaemon
  have looks : looksLikeDaemon request.atLook (opened.pid : Int) = true := by
    rw [looksLikeDaemon, if_neg (by omega), Int.toNat_natCast, openedPid,
      find_of_mem (apart_atLook request) inLooked]
    show isDaemonCmdline looked.cmdline = true
    rw [← openedCmdline]
    exact identified
  have found : request.atSignal.find opened.pid = some target := by
    rw [openedPid, lookedPid]
    exact find_of_mem (apart_atSignal request) inTargets
  have notZero : opened.pid ≠ 0 := by
    omega
  simp [requestReload, succeeds, named, holder, notZero, looks, found, isTarget]

/-- A start, a second start that is refused, and a removal, beside a request. -/
def besideOthers : Request where
  beforeOpen := [.spawn 10 "ananicy-rs\x00start\x00" .daemon, .act 10 none, .act 10 none,
    .act 10 none]
  beforeRead := [.spawn 11 "ananicy-rs\x00start\x00" .daemon, .act 11 none]
  beforeLook := [.act 11 none, .spawn 12 "ananicy-rs\x00" .remover, .act 11 none, .act 12 none]
  beforeSignal := [.act 12 none, .act 11 none, .act 12 none, .crash 12]
  failure _ := none

theorem requestReload_reaches_besideOthers : requestReload besideOthers = .sent 10 0 :=
  @requestReload_reaches besideOthers (fun _ => rfl)
    ⟨by decide, by decide, by decide, by decide, trivial⟩
    ⟨10, 0, "ananicy-rs\x00start\x00", .holding⟩ (by decide +kernel) rfl (by decide +kernel)
    (by decide +kernel)

/-- Whoever gets the signal has the pid of the process that made the object, and either was
taken for a daemon at the look or started after it. As long as that process lives, it is the
one. -/
theorem requestReload_hits {pid : Int} {incarnation : Nat}
    (sent : requestReload request = .sent pid incarnation) :
    ∃ object, request.atOpen.named = some object ∧
    ∃ target ∈ request.atSignal.procs, target.incarnation = incarnation ∧ target.pid = pid ∧
      (isDaemonCmdline target.cmdline = true ∨ request.atLook.nextIncarnation ≤ incarnation) ∧
      (∃ before, before <+: request.beforeOpen ++ request.beforeRead ∧
        ∃ creator ∈ (after before .initial).procs,
          creator.incarnation = object ∧ creator.pid = pid) ∧
      ∀ creator ∈ request.atSignal.procs, creator.incarnation = object → creator = target := by
  obtain ⟨object, named, holder, looks, target, found, isTarget⟩ := requestReload_sent sent
  obtain ⟨inTargets, targetPid⟩ := find_eq_some found
  have positive : 0 < pid := by
    by_contra notPositive
    simp [looksLikeDaemon, Int.not_lt.mp notPositive] at looks
  have isPid : (target.pid : Int) = pid := by
    omega
  rw [atRead_eq] at holder
  rcases contents_signed (request.beforeOpen ++ request.beforeRead) object with empty |
    ⟨before, isPrefix, creator, inCreators, isCreator, signs⟩
  · rw [empty, parseHolder_empty] at holder
    exact absurd holder (by simp)
  have apartBefore : Apart (after before .initial) := apart_after _ apart_initial
  have creatorPid : (creator.pid : Int) = pid := by
    rw [signs, parseHolder_pid (apartBefore.inRange creator inCreators).2] at holder
    exact Option.some.inj holder
  refine ⟨object, named, target, inTargets, isTarget, isPid, ?_,
    ⟨before, isPrefix, creator, inCreators, isCreator, creatorPid⟩, ?_⟩
  · by_cases early : target.incarnation < request.atLook.nextIncarnation
    · obtain ⟨looked, inLooked, -, lookedPid, lookedCmdline, -⟩ :=
        (continues_atSignal request).processes target inTargets early
      have isLooked : request.atLook.find pid.toNat = some looked := by
        rw [← targetPid, ← lookedPid]
        exact find_of_mem (apart_atLook request) inLooked
      rw [looksLikeDaemon, if_neg (by omega), isLooked] at looks
      apply Or.inl
      rw [← lookedCmdline]
      exact looks
    · apply Or.inr
      omega
  · intro alive inAlive isAlive
    have onward := continues_ofPrefix request isPrefix
    have earlier : alive.incarnation < (after before .initial).nextIncarnation := by
      have fresh := apartBefore.fresh creator inCreators
      omega
    obtain ⟨old, inOld, oldIncarnation, oldPid, -, -⟩ := onward.processes alive inAlive earlier
    have isOld : old = creator :=
      apartBefore.incarnations old inOld creator inCreators (by omega)
    subst isOld
    apply (apart_atSignal request).pids alive inAlive target inTargets
    omega

/-- The daemon is killed, and its pid goes to a process that lists the rules. -/
def ofLeftover : Request where
  beforeOpen := besideOthers.beforeOpen ++
    [.crash 10, .spawn 10 "ananicy-rs\x00dump\x00rules\x00" .unrelated]
  beforeRead := []
  beforeLook := []
  beforeSignal := []
  failure _ := none

theorem requestReload_hits_ofLeftover :
    requestReload ofLeftover = .sent 10 1 ∧
      ∃ object, ofLeftover.atOpen.named = some object ∧
        ∃ target ∈ ofLeftover.atSignal.procs, target.incarnation = 1 ∧
          ∀ creator ∈ ofLeftover.atSignal.procs, creator.incarnation = object →
            creator = target := by
  have sent : requestReload ofLeftover = .sent 10 1 := by
    decide +kernel
  obtain ⟨object, named, target, inTargets, isTarget, -, -, -, onlyCreator⟩ :=
    requestReload_hits ofLeftover sent
  exact ⟨sent, object, named, target, inTargets, isTarget, onlyCreator⟩

end Requests

end AnanicyRs.Daemon.Singleton
