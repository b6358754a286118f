import AnanicyRs.Lib.LastWins
import AnanicyRs.Lib.Text
import AnanicyRs.Platform.Netlink
import AnanicyRs.Platform.ThreadSweep

/-!
Contract: a session of the netlink listener, from the socket to the channel.

Owns what `Platform.Netlink` leaves out of `NetlinkMonitor::listen`: the waits, the drains of
the socket and their errors (`classify_recv_error`, `to_io_error`), events that cannot be
decoded, the shutdown flag and a worker that is gone. `listen_refines` says that none of these
shows in what the filter is asked and what the worker is sent.

A wakeup is taken with its whole drain. What the kernel answers, and whether the worker is
still there when a process is sent, are part of the input. That the loop cannot be set up at
all is left out.
-/

set_option autoImplicit false

namespace AnanicyRs.Platform.Netlink

open AnanicyRs.Core
open AnanicyRs.Lib.Cache
open AnanicyRs.Lib.LastWins

/-! ## Errors of the socket -/

def nobufs : Errno := ⟨105, by decide⟩

/-- `EWOULDBLOCK` is the same number. -/
def again : Errno := ⟨11, by decide⟩

/-- `neli::err::SocketError`, with the text it is printed as. -/
inductive SocketError where
  | io (errno : Option Errno) (text : String)
  | other (text : String)
deriving DecidableEq, Repr

inductive RecvFailure where
  | bufferOverrun
  | drained
  | fatal
deriving DecidableEq, Repr

def errnoOf : SocketError → Option Errno
  | .io errno _ => errno
  | .other _ => none

def classifyRecvError (e : SocketError) : RecvFailure :=
  if errnoOf e = some nobufs then .bufferOverrun
  else if errnoOf e = some again then .drained
  else .fatal

/-- An `io::Error`: a number of the system, or a text. -/
inductive ListenError where
  | os (errno : Errno)
  | other (text : String)
deriving DecidableEq, Repr

def SocketError.toString : SocketError → String
  | .io _ text => text
  | .other text => text

def toIoError (e : SocketError) : ListenError :=
  match errnoOf e with
  | some errno => .os errno
  | none => .other e.toString

/-! ## A session -/

/-- An element of what one `recv` gives. -/
inductive Arrival where
  | undecodable
  | noPayload
  /-- `workerGone`: the channel has no receiver any more when this event is sent on. -/
  | event (event : ProcEvent) (workerGone : Bool)

inductive Wait where
  | timeout
  | interrupted
  | failed
  /-- The socket is readable: what the drain receives, and the error it ends with. -/
  | ready (received : List (List Arrival)) (ending : SocketError)

/-- One pass of the loop of `listen`. -/
structure Wakeup where
  /-- Another thread has set the shutdown flag before the pass. -/
  shutdown : Bool
  wait : Wait

structure Session where
  listener : Listener
  /-- What went into the channel, the first one first. -/
  sent : List Process
  /-- The process a send was refused for. -/
  unsent : Option Process
  shutdownFlag : Bool
  /-- What `listen` returned, if it has. -/
  result : Option (Except ListenError Unit)

def Session.begin (shutdownFlag : Bool) : Session := ⟨.new, [], none, shutdownFlag, none⟩

/-- A step that is taken only if `listen` has not returned. -/
def unlessEnded (step : Session → Session) (session : Session) : Session :=
  if session.result.isSome then session else step session

def handleEvent (event : ProcEvent) (workerGone : Bool) (session : Session) : Session :=
  match event.dispatched with
  | none => session
  | some pid =>
      let (report, reported) := session.listener.reported.shouldReport pid event.name
      if !report then
        { session with listener := ⟨reported, ⟨event, none⟩ :: session.listener.past⟩ }
      else
        let process : Process := ⟨pid, event.name, true⟩
        let listener := ⟨reported, ⟨event, some process⟩ :: session.listener.past⟩
        if workerGone then
          { session with
            listener
            unsent := some process
            shutdownFlag := true
            result := some (.ok ()) }
        else { session with listener, sent := session.sent ++ [process] }

def handleArrival (arrival : Arrival) (session : Session) : Session :=
  match arrival with
  | .undecodable => session
  | .noPayload => session
  | .event event workerGone => handleEvent event workerGone session

def handleReceived (arrivals : List Arrival) (session : Session) : Session :=
  arrivals.foldl (fun now arrival => unlessEnded (handleArrival arrival) now) session

/-- The error that ends a drain ends the session, unless the queue is just empty. -/
def afterDrain (ending : SocketError) (session : Session) : Session :=
  match classifyRecvError ending with
  | .drained => session
  | .bufferOverrun => { session with result := some (.error (toIoError ending)) }
  | .fatal => { session with result := some (.error (toIoError ending)) }

def drain (received : List (List Arrival)) (ending : SocketError) (session : Session) : Session :=
  unlessEnded (afterDrain ending)
    (received.foldl (fun now arrivals => unlessEnded (handleReceived arrivals) now) session)

def pass (wakeup : Wakeup) (session : Session) : Session :=
  if session.shutdownFlag || wakeup.shutdown then
    { session with shutdownFlag := true, result := some (.ok ()) }
  else
    match wakeup.wait with
    | .timeout => session
    | .interrupted => session
    | .failed => session
    | .ready received ending => drain received ending session

/-- `NetlinkMonitor::listen`. -/
def Session.run (wakeups : List Wakeup) (session : Session) : Session :=
  wakeups.foldl (fun now wakeup => unlessEnded (pass wakeup) now) session

/-! ## What was received -/

def Arrival.events : Arrival → List ProcEvent
  | .event arrived _ => [arrived]
  | _ => []

def Wakeup.events (wakeup : Wakeup) : List ProcEvent :=
  match wakeup.wait with
  | .ready received _ => received.flatMap fun arrivals => arrivals.flatMap Arrival.events
  | _ => []

/-- What was handed over, the first one first. -/
def Listener.handed (listener : Listener) : List Process :=
  listener.past.reverse.filterMap Outcome.sent

/-- The session has put these events through the filter, and has sent on what it let through:
all of it, or all but the process that found the worker gone. -/
structure Accounts (events : List ProcEvent) (session : Session) : Prop where
  listener : session.listener = listen events
  sent : session.sent ++ session.unsent.toList = session.listener.handed
  unsent : session.unsent.isSome = true → session.result = some (.ok ())
  stopped : session.result = some (.ok ()) → session.shutdownFlag = true

/-- Of these further events a step has taken the first ones, and all of them unless it ended
the session in peace. -/
def Takes (events more : List ProcEvent) (session : Session) : Prop :=
  ∃ taken, taken <+: more ∧ Accounts (events ++ taken) session ∧
    (session.result ≠ some (.ok ()) → taken = more)

section Steps

variable {events more : List ProcEvent} {session : Session}

theorem Accounts.takes_none (accounts : Accounts events session) : Takes events [] session :=
  ⟨[], List.prefix_rfl, by rw [List.append_nil]; exact accounts, fun _ => rfl⟩

theorem Takes.accounts (takes : Takes events more session)
    (goesOn : session.result ≠ some (.ok ())) : Accounts (events ++ more) session := by
  obtain ⟨taken, _, accounts, all⟩ := takes
  rw [← all goesOn]
  exact accounts

/-- What comes after the end is not taken. -/
theorem Takes.cut (takes : Takes events more session) (ended : session.result = some (.ok ()))
    (rest : List ProcEvent) : Takes events (more ++ rest) session := by
  obtain ⟨taken, isPrefix, accounts, _⟩ := takes
  exact ⟨taken, isPrefix.trans (List.prefix_append more rest), accounts,
    fun goesOn => absurd ended goesOn⟩

theorem Takes.after {rest : List ProcEvent} (takes : Takes (events ++ more) rest session) :
    Takes events (more ++ rest) session := by
  obtain ⟨taken, isPrefix, accounts, all⟩ := takes
  refine ⟨more ++ taken, (List.prefix_append_right_inj more).mpr isPrefix, ?_, fun onward => ?_⟩
  · rw [← List.append_assoc]
    exact accounts
  · rw [all onward]

/-- What a step inside a drain does to the end of a session: it does not fail, and ends the
session only for want of a worker. -/
structure EndsOnlyGone (session next : Session) : Prop where
  noError : ∀ e, next.result ≠ some (.error e)
  gone : next.result = some (.ok ()) → next.unsent.isSome = true
  sameFlag : next.result = none → next.shutdownFlag = session.shutdownFlag

theorem EndsOnlyGone.refl (going : session.result = none) : EndsOnlyGone session session :=
  ⟨fun e => by simp [going], fun ended => absurd ended (by simp [going]), fun _ => rfl⟩

/-- A list of steps takes what its steps take, each of which only ends for want of a worker. -/
theorem takes_foldl {ι : Type} {step : ι → Session → Session} {offered : ι → List ProcEvent}
    (stepTakes : ∀ item events session, session.result = none → Accounts events session →
      Takes events (offered item) (step item session) ∧ EndsOnlyGone session (step item session))
    (items : List ι) (going : session.result = none) (accounts : Accounts events session) :
    let reached := items.foldl (fun now item => unlessEnded (step item) now) session
    Takes events (items.flatMap offered) reached ∧ EndsOnlyGone session reached := by
  induction items using List.reverseRecOn with
  | nil => exact ⟨accounts.takes_none, .refl going⟩
  | append_singleton items last inductionHypothesis =>
      obtain ⟨before, ends⟩ := inductionHypothesis
      simp only [List.foldl_append, List.foldl_cons, List.foldl_nil, List.flatMap_append,
        List.flatMap_cons, List.flatMap_nil, List.append_nil]
      generalize items.foldl (fun now item => unlessEnded (step item) now) session = now at before ends ⊢
      unfold unlessEnded
      cases result : now.result with
      | none =>
          have goesOn := before.accounts (by rw [result]; simp)
          obtain ⟨here, endsHere⟩ := stepTakes last _ now result goesOn
          exact ⟨here.after, endsHere.noError, endsHere.gone,
            fun onward => (endsHere.sameFlag onward).trans (ends.sameFlag result)⟩
      | some ending =>
          cases ending with
          | ok => exact ⟨before.cut result _, ends⟩
          | error e => exact absurd result (ends.noError e)

theorem handed_cons (outcome : Outcome) (reported : ReportedNames) (past : List Outcome) :
    (Listener.mk reported (outcome :: past)).handed =
      (Listener.mk reported past).handed ++ outcome.sent.toList := by
  unfold Listener.handed
  rw [List.reverse_cons, List.filterMap_append]
  cases sent : outcome.sent <;> simp [sent]

/-- An event goes through the filter; what is let through is sent on, or it finds the worker
gone. -/
theorem handleEvent_cases (event : ProcEvent) (workerGone : Bool) (session : Session) :
    let listener := receive event session.listener
    let next := handleEvent event workerGone session
    (listener.handed = session.listener.handed ∧ next = { session with listener }) ∨
    ∃ process, listener.handed = session.listener.handed ++ [process] ∧
      (next = { session with listener, sent := session.sent ++ [process] } ∨
        next = { session with
          listener, unsent := some process, shutdownFlag := true, result := some (.ok ()) }) := by
  intro listener next
  cases dispatched : event.dispatched with
  | none =>
      have same : listener = session.listener := by simp only [listener, receive, dispatched]
      have stays : next = session := by simp only [next, handleEvent, dispatched]
      rw [same, stays]
      exact .inl ⟨rfl, rfl⟩
  | some pid =>
      cases answered : session.listener.reported.shouldReport pid event.name with
      | mk report reported =>
          cases report with
          | false =>
              have kept : listener = ⟨reported, ⟨event, none⟩ :: session.listener.past⟩ := by
                simp only [listener, receive, dispatched, answered]
                rfl
              refine .inl ⟨?_, ?_⟩
              · rw [kept, handed_cons]
                exact List.append_nil _
              · rw [kept]
                simp only [next, handleEvent, dispatched, answered]
                rfl
          | true =>
              have passed : listener = ⟨reported,
                  ⟨event, some ⟨pid, event.name, true⟩⟩ :: session.listener.past⟩ := by
                simp only [listener, receive, dispatched, answered]
                rfl
              refine .inr ⟨⟨pid, event.name, true⟩, ?_, ?_⟩
              · rw [passed, handed_cons]
                rfl
              · rw [passed]
                simp only [next, handleEvent, dispatched, answered]
                cases workerGone with
                | false => exact .inl rfl
                | true => exact .inr rfl

theorem Accounts.allSent (accounts : Accounts events session) (going : session.result = none) :
    session.unsent = none ∧ session.sent = session.listener.handed := by
  have noUnsent : session.unsent = none := by
    cases unsent : session.unsent with
    | none => rfl
    | some process =>
        have ended := accounts.unsent (by rw [unsent]; rfl)
        exact absurd (going.symm.trans ended) (by simp)
  refine ⟨noUnsent, ?_⟩
  rw [← accounts.sent, noUnsent, Option.toList_none, List.append_nil]

theorem takes_handleArrival (arrival : Arrival) (going : session.result = none)
    (accounts : Accounts events session) :
    Takes events arrival.events (handleArrival arrival session) ∧
      EndsOnlyGone session (handleArrival arrival session) := by
  obtain ⟨noUnsent, sent⟩ := accounts.allSent going
  cases arrival with
  | undecodable => exact ⟨accounts.takes_none, .refl going⟩
  | noPayload => exact ⟨accounts.takes_none, .refl going⟩
  | event event workerGone =>
      have listener : receive event session.listener = listen (events ++ [event]) := by
        rw [listen_concat, accounts.listener]
      have takes : ∀ {next : Session}, Accounts (events ++ [event]) next →
          Takes events (Arrival.event event workerGone).events next :=
        fun {next} now => ⟨[event], List.prefix_rfl, now, fun _ => rfl⟩
      show Takes events _ (handleEvent event workerGone session) ∧
        EndsOnlyGone session (handleEvent event workerGone session)
      rcases handleEvent_cases event workerGone session with
        ⟨same, next⟩ | ⟨process, handed, next | next⟩
      · rw [next]
        have now := accounts.sent.trans same.symm
        refine ⟨takes ⟨listener, now, accounts.unsent, accounts.stopped⟩, ?_⟩
        exact ⟨fun e => by simp [going], fun ended => absurd ended (by simp [going]), fun _ => rfl⟩
      · rw [next]
        have now : session.sent ++ [process] ++ session.unsent.toList =
            (receive event session.listener).handed := by
          rw [handed, noUnsent, sent, Option.toList_none, List.append_nil]
        refine ⟨takes ⟨listener, now, accounts.unsent, accounts.stopped⟩, ?_⟩
        exact ⟨fun e => by simp [going], fun ended => absurd ended (by simp [going]), fun _ => rfl⟩
      · rw [next]
        have now : session.sent ++ [process] = (receive event session.listener).handed := by
          rw [handed, sent]
        refine ⟨takes ⟨listener, now, fun _ => rfl, fun _ => rfl⟩, ?_⟩
        exact ⟨fun e => by simp, fun _ => rfl, fun onward => absurd onward (by simp)⟩

theorem takes_handleReceived (arrivals : List Arrival) (going : session.result = none)
    (accounts : Accounts events session) :
    Takes events (arrivals.flatMap Arrival.events) (handleReceived arrivals session) ∧
      EndsOnlyGone session (handleReceived arrivals session) :=
  takes_foldl (fun arrival _ _ => takes_handleArrival arrival) arrivals going accounts

theorem Accounts.failed (accounts : Accounts events session) (going : session.result = none)
    (e : ListenError) : Accounts events { session with result := some (.error e) } where
  listener := accounts.listener
  sent := accounts.sent
  unsent isUnsent := by
    have unsent : session.unsent.isSome = true := isUnsent
    rw [(accounts.allSent going).1] at unsent
    exact absurd unsent (by decide)
  stopped ended := absurd ended (by simp)

/-- The error that the drain of a pass ends with, unless the queue is just empty. -/
def Wakeup.failure (wakeup : Wakeup) : Option ListenError :=
  match wakeup.wait with
  | .ready _ ending =>
      if classifyRecvError ending = .drained then none else some (toIoError ending)
  | _ => none

/-- What a pass came to, of a session that went on before it. -/
inductive PassEnds (events : List ProcEvent) (wakeup : Wakeup) (before after : Session) : Prop where
  | goesOn (result : after.result = none) (accounts : Accounts (events ++ wakeup.events) after)
      (quiet : wakeup.shutdown = false ∧ wakeup.failure = none)
      (sameFlag : after.shutdownFlag = before.shutdownFlag)
  | fails (e : ListenError) (result : after.result = some (.error e))
      (accounts : Accounts (events ++ wakeup.events) after) (failure : wakeup.failure = some e)
  | shutdown (result : after.result = some (.ok ())) (accounts : Accounts events after)
      (asked : before.shutdownFlag = true ∨ wakeup.shutdown = true) (unsent : after.unsent = none)
  | gone (result : after.result = some (.ok ())) (taken : List ProcEvent)
      (isPrefix : taken <+: wakeup.events) (accounts : Accounts (events ++ taken) after)
      (unsent : after.unsent.isSome = true)

/-- A drain takes what it receives and then ends as its last `recv` says, unless the worker is
gone before. -/
theorem passEnds_drain {received : List (List Arrival)} {ending : SocketError} {wakeup : Wakeup}
    (wait : wakeup.wait = .ready received ending) (noShutdown : wakeup.shutdown = false)
    (going : session.result = none) (accounts : Accounts events session) :
    PassEnds events wakeup session (drain received ending session) := by
  have offered : wakeup.events =
      received.flatMap fun arrivals => arrivals.flatMap Arrival.events := by
    rw [Wakeup.events, wait]
  have failure : wakeup.failure =
      if classifyRecvError ending = .drained then none else some (toIoError ending) := by
    rw [Wakeup.failure, wait]
  obtain ⟨takes, ends⟩ := takes_foldl
    (fun arrivals _ _ => takes_handleReceived arrivals) received going accounts
  rw [← offered] at takes
  unfold drain
  generalize received.foldl (fun now arrivals => unlessEnded (handleReceived arrivals) now)
    session = reached at takes ends ⊢
  unfold unlessEnded
  cases result : reached.result with
  | some ended =>
      cases ended with
      | error e => exact absurd result (ends.noError e)
      | ok =>
          obtain ⟨taken, isPrefix, now, _⟩ := takes
          exact .gone result taken isPrefix now (ends.gone result)
  | none =>
      have goesOn := takes.accounts (by simp [result])
      show PassEnds events wakeup session (afterDrain ending reached)
      unfold afterDrain
      cases classified : classifyRecvError ending with
      | drained =>
          rw [if_pos classified] at failure
          exact .goesOn result goesOn ⟨noShutdown, failure⟩ (ends.sameFlag result)
      | bufferOverrun =>
          rw [if_neg (by rw [classified]; decide)] at failure
          exact .fails _ rfl (goesOn.failed result _) failure
      | fatal =>
          rw [if_neg (by rw [classified]; decide)] at failure
          exact .fails _ rfl (goesOn.failed result _) failure

theorem passEnds_pass (wakeup : Wakeup) (going : session.result = none)
    (accounts : Accounts events session) :
    PassEnds events wakeup session (pass wakeup session) := by
  unfold pass
  split
  next asked =>
    have now : Accounts events { session with shutdownFlag := true, result := some (.ok ()) } :=
      ⟨accounts.listener, accounts.sent, fun _ => rfl, fun _ => rfl⟩
    exact .shutdown rfl now (Bool.or_eq_true_iff.mp asked) (accounts.allSent going).1
  next notAsked =>
    have noShutdown : wakeup.shutdown = false :=
      (Bool.or_eq_false_iff.mp (Bool.not_eq_true _ ▸ notAsked)).2
    have idle : wakeup.events = [] → wakeup.failure = none →
        PassEnds events wakeup session session := by
      intro noEvents noFailure
      refine .goesOn going ?_ ⟨noShutdown, noFailure⟩ rfl
      rw [noEvents, List.append_nil]
      exact accounts
    cases wait : wakeup.wait with
    | timeout => exact idle (by rw [Wakeup.events, wait]) (by rw [Wakeup.failure, wait])
    | interrupted => exact idle (by rw [Wakeup.events, wait]) (by rw [Wakeup.failure, wait])
    | failed => exact idle (by rw [Wakeup.events, wait]) (by rw [Wakeup.failure, wait])
    | ready received ending => exact passEnds_drain wait noShutdown going accounts

end Steps

/-! ## Whole sessions -/

/-- No shutdown was asked for before these passes, and no drain of theirs failed. -/
def Quiet (shutdownFlag : Bool) (wakeups : List Wakeup) : Prop :=
  ∀ wakeup ∈ wakeups, shutdownFlag = false ∧ wakeup.shutdown = false ∧ wakeup.failure = none

/-- The session ended in the first pass whose drain failed, and had handled everything that
came up to then. -/
def FailedAt (shutdownFlag : Bool) (wakeups : List Wakeup) (handled : List ProcEvent)
    (e : ListenError) : Prop :=
  ∃ before last after, wakeups = before ++ last :: after ∧ Quiet shutdownFlag before ∧
    last.failure = some e ∧ handled = (before ++ [last]).flatMap Wakeup.events

/-- Why a pass ended a session in peace, and what it had handled of its events: it met a
shutdown before it waited, or a process found the worker gone. -/
def Stops (shutdownFlag : Bool) (last : Wakeup) (taken : List ProcEvent) : Option Process → Prop
  | none => (shutdownFlag = true ∨ last.shutdown = true) ∧ taken = []
  | some _ => taken <+: last.events

/-- The session ended in peace in one of the passes, and no drain had failed by then. -/
def StoppedAt (shutdownFlag : Bool) (wakeups : List Wakeup) (handled : List ProcEvent)
    (unsent : Option Process) : Prop :=
  ∃ before last after taken, wakeups = before ++ last :: after ∧ Quiet shutdownFlag before ∧
    Stops shutdownFlag last taken unsent ∧ handled = before.flatMap Wakeup.events ++ taken

/-- How far a session has come on these passes, and how it ended. -/
def Ends (shutdownFlag : Bool) (wakeups : List Wakeup) (handled : List ProcEvent)
    (session : Session) : Prop :=
  match session.result with
  | none => Quiet shutdownFlag wakeups ∧ session.unsent = none ∧
      handled = wakeups.flatMap Wakeup.events
  | some (.ok ()) => StoppedAt shutdownFlag wakeups handled session.unsent
  | some (.error e) => session.unsent = none ∧ FailedAt shutdownFlag wakeups handled e

theorem Ends.isPrefix {shutdownFlag : Bool} {wakeups : List Wakeup} {handled : List ProcEvent}
    {session : Session} (ends : Ends shutdownFlag wakeups handled session) :
    handled <+: wakeups.flatMap Wakeup.events := by
  unfold Ends at ends
  split at ends
  · rw [ends.2.2]
  · obtain ⟨before, last, after, taken, rfl, _, stops, rfl⟩ := ends
    have isPrefix : taken <+: last.events := by
      unfold Stops at stops
      split at stops
      · rw [stops.2]
        exact List.nil_prefix
      · exact stops
    rw [List.flatMap_append, List.flatMap_cons]
    exact (List.prefix_append_right_inj _).mpr (isPrefix.trans (List.prefix_append _ _))
  · obtain ⟨_, before, last, after, rfl, _, _, rfl⟩ := ends
    rw [List.flatMap_append, List.flatMap_append, List.flatMap_singleton, List.flatMap_cons]
    exact (List.prefix_append_right_inj _).mpr (List.prefix_append _ _)

/-- What comes after the end of a session does not matter. -/
theorem Ends.later {shutdownFlag : Bool} {wakeups : List Wakeup} {handled : List ProcEvent}
    {session : Session} (ends : Ends shutdownFlag wakeups handled session)
    (ended : session.result.isSome = true) (more : List Wakeup) :
    Ends shutdownFlag (wakeups ++ more) handled session := by
  unfold Ends at ends ⊢
  split at ends
  next going => exact absurd ended (by simp [going])
  · obtain ⟨before, last, after, taken, split, rest⟩ := ends
    exact ⟨before, last, after ++ more, taken, by rw [split]; simp, rest⟩
  · obtain ⟨noUnsent, before, last, after, split, rest⟩ := ends
    exact ⟨noUnsent, before, last, after ++ more, by rw [split]; simp, rest⟩

/-- What a pass makes of a session that went on through all passes before it. -/
theorem ends_pass {shutdownFlag : Bool} {wakeups : List Wakeup} (last : Wakeup) {now : Session}
    (result : now.result = none) (flag : now.shutdownFlag = shutdownFlag)
    (quiet : Quiet shutdownFlag wakeups) (accounts : Accounts (wakeups.flatMap Wakeup.events) now) :
    ∃ handled, Accounts handled (pass last now) ∧
      Ends shutdownFlag (wakeups ++ [last]) handled (pass last now) ∧
      ((pass last now).result = none → (pass last now).shutdownFlag = shutdownFlag) := by
  have extended : (wakeups ++ [last]).flatMap Wakeup.events =
      wakeups.flatMap Wakeup.events ++ last.events := by
    rw [List.flatMap_append, List.flatMap_singleton]
  cases passEnds_pass last result accounts with
  | goesOn onward accounts quietLast kept =>
      -- A session whose flag is up does not go on through a pass.
      have noFlag : shutdownFlag = false := by
        by_contra isUp
        have ends : pass last now =
            { now with shutdownFlag := true, result := some (.ok ()) } := by
          have up : now.shutdownFlag = true := flag.trans (Bool.not_eq_false _ ▸ isUp)
          rw [pass, up]
          rfl
        rw [ends] at onward
        exact absurd onward (by simp)
      have quietAll : Quiet shutdownFlag (wakeups ++ [last]) := by
        intro wakeup member
        rcases List.mem_append.mp member with earlier | isLast
        · exact quiet wakeup earlier
        · rw [List.mem_singleton.mp isLast]
          exact ⟨noFlag, quietLast⟩
      refine ⟨_, accounts, ?_, fun _ => kept.trans flag⟩
      rw [Ends, onward]
      exact ⟨quietAll, (accounts.allSent onward).1, extended.symm⟩
  | fails e failed accounts failure =>
      refine ⟨_, accounts, ?_, fun onward => absurd onward (by simp [failed])⟩
      have noUnsent : (pass last now).unsent = none := by
        by_contra isUnsent
        have ended := accounts.unsent (Option.isSome_iff_ne_none.mpr isUnsent)
        exact absurd (failed.symm.trans ended) (by simp)
      rw [Ends, failed]
      exact ⟨noUnsent, wakeups, last, [], rfl, quiet, failure, extended.symm⟩
  | shutdown stopped accounts asked unsent =>
      refine ⟨_, accounts, ?_, fun onward => absurd onward (by simp [stopped])⟩
      rw [flag] at asked
      rw [Ends, stopped]
      refine ⟨wakeups, last, [], [], rfl, quiet, ?_, (List.append_nil _).symm⟩
      rw [unsent]
      exact ⟨asked, rfl⟩
  | gone stopped taken isPrefix accounts unsent =>
      refine ⟨_, accounts, ?_, fun onward => absurd onward (by simp [stopped])⟩
      obtain ⟨process, isUnsent⟩ := Option.isSome_iff_exists.mp unsent
      rw [Ends, stopped]
      refine ⟨wakeups, last, [], taken, rfl, quiet, ?_, rfl⟩
      rw [isUnsent]
      exact isPrefix

/-- What the filter was told of the processes. -/
def sightings (events : List ProcEvent) : List (Int32 × Identity) :=
  events.filterMap fun event => event.dispatched.map fun pid => (pid, .of event.name)

theorem sightings_eq_map (events : List ProcEvent) :
    sightings events = (events.filter fun event => event.dispatched.isSome).map
      fun event => (event.pid, .of event.name) := by
  unfold sightings
  induction events with
  | nil => rfl
  | cons event rest inductionHypothesis =>
      cases dispatched : event.dispatched with
      | none =>
  rw [List.filter_cons_of_neg (by simp [dispatched]),
    List.filterMap_cons_none (by rw [dispatched]; rfl)]
  exact inductionHypothesis
      | some pid =>
  rw [List.filter_cons_of_pos (by simp [dispatched]), List.map_cons,
    List.filterMap_cons_some (by rw [dispatched]; rfl), inductionHypothesis,
    dispatched_eq dispatched]

/-- What the worker was told of them. -/
def heard (processes : List Process) : List (Int32 × Identity) :=
  processes.map fun process => (process.pid, .of process.name)

/-- The filter holds nothing but what the worker was last told, and keeps nothing from it that
is news. -/
structure UpToDate (events : List ProcEvent) (listener : Listener) : Prop where
  values : ∀ pid identity, (pid, identity) ∈ listener.reported.seen →
    lastOf (heard listener.handed) pid = some identity
  same : SameLast (sightings events) (heard listener.handed)

theorem UpToDate.known {events : List ProcEvent} {listener : Listener}
    (upToDate : UpToDate events listener) {pid : Int32} {identity : Identity}
    (hit : listener.reported.seen.lookup pid = some identity) :
    lastOf (heard listener.handed) pid = some identity := by
  obtain ⟨front, rest, split, _⟩ := List.lookup_eq_some_iff.mp hit
  apply upToDate.values
  rw [split]
  exact List.mem_append_right front List.mem_cons_self

theorem sightings_concat (events : List ProcEvent) (event : ProcEvent) :
    sightings (events ++ [event]) =
      sightings events ++ (event.dispatched.map fun pid => (pid, Identity.of event.name)).toList := by
  unfold sightings
  rw [List.filterMap_append]
  cases dispatched : event.dispatched <;> simp [dispatched]

theorem heard_concat (processes : List Process) (process : Process) :
    heard (processes ++ [process]) = heard processes ++ [(process.pid, .of process.name)] :=
  List.map_append

/-- A repeated identity is kept back, and anything else is handed over. -/
theorem receive_cases {event : ProcEvent} {pid : Int32} (dispatched : event.dispatched = some pid)
    (listener : Listener) :
    (listener.reported.seen.lookup pid = some (.of event.name) ∧
      (receive event listener).reported.seen =
((lru reportedNamesCapacity).get pid listener.reported.seen).2 ∧
      (receive event listener).handed = listener.handed) ∨
    (receive event listener).reported.seen =
(lru reportedNamesCapacity).put pid (.of event.name) listener.reported.seen ∧
      (receive event listener).handed = listener.handed ++ [⟨pid, event.name, true⟩] := by
  unfold receive
  rw [dispatched]
  cases shouldReport_cases listener.reported pid event.name with
  | inl kept =>
      obtain ⟨hit, answered⟩ := kept
      simp only [answered]
      refine .inl ⟨hit, trivial, ?_⟩
      rw [handed_cons]
      exact List.append_nil _
  | inr news =>
      obtain ⟨_, answered⟩ := news
      simp only [answered]
      refine .inr ⟨trivial, ?_⟩
      rw [handed_cons]
      rfl

theorem upToDate_receive {events : List ProcEvent} {listener : Listener}
    (upToDate : UpToDate events listener) (event : ProcEvent) :
    UpToDate (events ++ [event]) (receive event listener) := by
  have seen := sightings_concat events event
  cases dispatched : event.dispatched with
  | none =>
      have same : receive event listener = listener := by rw [receive, dispatched]
      rw [dispatched, Option.map_none, Option.toList_none, List.append_nil] at seen
      rw [same]
      exact ⟨upToDate.values, by rw [seen]; exact upToDate.same⟩
  | some pid =>
      rw [dispatched, Option.map_some, Option.toList_some] at seen
      cases receive_cases dispatched listener with
      | inl kept =>
  obtain ⟨hit, touched, sameHanded⟩ := kept
  constructor
  · intro other identity held
    rw [touched] at held
    rw [sameHanded]
    exact upToDate.values other identity
      ((lru reportedNamesCapacity).get_keeps _ _ _ _ held)
  · rw [seen, sameHanded]
    exact upToDate.same.skip (upToDate.known hit)
      | inr news =>
  obtain ⟨stored, handed⟩ := news
  have told : heard (receive event listener).handed =
      heard listener.handed ++ [(pid, .of event.name)] := by
    rw [handed]
    exact heard_concat listener.handed _
  constructor
  · intro other identity held
    rw [stored] at held
    rw [told, lastOf_concat]
    cases (lru reportedNamesCapacity).put_holds _ _ _ _ _ held with
    | inl own => rw [if_pos own.1, own.2]
    | inr older =>
        rw [if_neg older.1]
        exact upToDate.values other identity older.2
  · rw [seen, told]
    exact upToDate.same.append fun _ => rfl

theorem upToDate_listen (events : List ProcEvent) : UpToDate events (listen events) := by
  induction events using List.reverseRecOn with
  | nil => exact ⟨fun _ _ held => absurd held List.not_mem_nil, fun _ => rfl⟩
  | append_singleton events event inductionHypothesis =>
      rw [listen_concat]
      exact upToDate_receive inductionHypothesis event

theorem dispatched_ne_zero {event : ProcEvent} {pid : Int32}
    (dispatched : event.dispatched = some pid) : pid ≠ 0 := by
  have conditional : ∀ {own : Int32}, (if own = 0 then none else some own) = some pid → pid ≠ 0 := by
    intro own isSome
    split at isSome
    · exact absurd isSome (by simp)
    next notIdle =>
      rw [← Option.some.inj isSome]
      exact notIdle
  unfold ProcEvent.dispatched at dispatched
  cases kind : event.kind with
  | exit => simp [kind] at dispatched
  | other => simp [kind] at dispatched
  | _ =>
      simp only [kind] at dispatched
      exact conditional dispatched

/-- The idle task is not a process, and the listener knows every name for certain. -/
theorem handed_process (events : List ProcEvent) :
    ∀ process ∈ (listen events).handed, process.pid ≠ 0 ∧ process.nameIsAuthoritative = true := by
  induction events using List.reverseRecOn with
  | nil => exact fun _ member => absurd member List.not_mem_nil
  | append_singleton events event inductionHypothesis =>
      rw [listen_concat]
      cases dispatched : event.dispatched with
      | none =>
  rw [receive, dispatched]
  exact inductionHypothesis
      | some pid =>
  cases receive_cases dispatched (listen events) with
  | inl kept =>
      rw [kept.2.2]
      exact inductionHypothesis
  | inr news =>
      rw [news.2]
      intro process member
      cases List.mem_append.mp member with
      | inl before => exact inductionHypothesis process before
      | inr own =>
          rw [List.mem_singleton.mp own]
          exact ⟨dispatched_ne_zero dispatched, rfl⟩

theorem accounts_run (shutdownFlag : Bool) (wakeups : List Wakeup) :
    let session := (Session.begin shutdownFlag).run wakeups
    ∃ handled, Accounts handled session ∧ Ends shutdownFlag wakeups handled session ∧
      (session.result = none → session.shutdownFlag = shutdownFlag) := by
  induction wakeups using List.reverseRecOn with
  | nil =>
      have begun : Accounts [] (Session.begin shutdownFlag) :=
        ⟨rfl, rfl, fun isUnsent => absurd isUnsent (by simp [Session.begin]),
          fun ended => absurd ended (by simp [Session.begin])⟩
      exact ⟨[], begun, ⟨fun _ member => absurd member List.not_mem_nil, rfl, rfl⟩, fun _ => rfl⟩
  | append_singleton wakeups last inductionHypothesis =>
      obtain ⟨handled, accounts, ends, sameFlag⟩ := inductionHypothesis
      have unfolded : (Session.begin shutdownFlag).run (wakeups ++ [last]) =
          unlessEnded (pass last) ((Session.begin shutdownFlag).run wakeups) := by
        unfold Session.run
        rw [List.foldl_append]
        rfl
      rw [unfolded]
      unfold unlessEnded
      generalize (Session.begin shutdownFlag).run wakeups = now at accounts ends sameFlag ⊢
      cases result : now.result with
      | some ended =>
          exact ⟨handled, accounts, ends.later (by rw [result]; rfl) [last],
            fun going => absurd going (by simp [result])⟩
      | none =>
          rw [Ends, result] at ends
          obtain ⟨quiet, _, rfl⟩ := ends
          exact ends_pass last result (sameFlag result) quiet accounts

/-- However the events come in, in whatever batches, between timeouts, interruptions and
elements that cannot be decoded, a session puts them through the filter one after the other
and sends on what the filter lets through; only a process that finds the worker gone is not
sent. So the worker has last heard of every process what was last seen of it, up to what the
filter takes for one name. The session goes on through an empty queue; the first other error
of the socket ends it with that error, after everything received before it was handled. It
ends in peace only in the first pass that meets a shutdown, or with the worker gone. -/
theorem listen_refines (shutdownFlag : Bool) (wakeups : List Wakeup) :
    let session := (Session.begin shutdownFlag).run wakeups
    let told := session.sent ++ session.unsent.toList
    ∃ handled, handled <+: wakeups.flatMap Wakeup.events ∧ told = (listen handled).handed ∧
      SameLast (sightings handled) (heard told) ∧
      (∀ process ∈ told, process.pid ≠ 0 ∧ process.nameIsAuthoritative = true) ∧
      Ends shutdownFlag wakeups handled session ∧
      (session.result = some (.ok ()) → session.shutdownFlag = true) := by
  intro session told
  obtain ⟨handled, accounts, ends, _⟩ := accounts_run shutdownFlag wakeups
  have isTold : told = (listen handled).handed := by
    rw [← accounts.listener]
    exact accounts.sent
  refine ⟨handled, ends.isPrefix, isTold, ?_, ?_, ends, accounts.stopped⟩
  · rw [isTold]
    exact (upToDate_listen handled).same
  · rw [isTold]
    exact handed_process handled

end AnanicyRs.Platform.Netlink
