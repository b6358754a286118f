import AnanicyRs.Daemon.Exit
import AnanicyRs.Platform.NetlinkSession

/-!
Contract: the netlink loop of `monitor::run`, one session after the other.

Owns `ProcfsScanner::full_scan` and the recovery from a failed session: a scan of `/proc`, a
pause, and a new session with a filter that remembers nothing. The initial scan runs on a
thread of its own beside the first session and shares the channel with the loop. `run_recovers`
says that the loop does not leave the worker with what a process was before: what it heard
last of it is what was seen last, in whichever session or scan that was, unless the initial
scan sent its own finding after that.

The pause and the counts of memory are left out. How the loop ends is that of
`Exit.netlinkLoop`.
-/

set_option autoImplicit false

namespace AnanicyRs.Daemon.Monitor

open AnanicyRs.Core
open AnanicyRs.Lib
open AnanicyRs.Lib.LastWins
open AnanicyRs.Platform.Netlink
open AnanicyRs.Daemon.Exit (LoopEnd NetlinkAttempt netlinkLoop)

/-! ## A scan -/

/-- An entry of `/proc` that could be read. -/
structure ScanEntry where
  fileName : String
  /-- What `get_command_from_pid` answers for it. -/
  name : String
  workerGone : Bool

/-- The pid of an entry, if it is the directory of a process. -/
def ScanEntry.pid (entry : ScanEntry) : Option Int32 :=
  if entry.fileName.toList.all Char.isDigit then Text.parseI32 entry.fileName else none

def ScanEntry.process (entry : ScanEntry) : Option Process :=
  entry.pid.map fun pid => ⟨pid, entry.name, true⟩

structure Scan where
  sent : List Process
  unsent : Option Process

/-- The loop of `full_scan`, which ends when the worker is gone. -/
def scanEntries : List ScanEntry → Scan
  | [] => ⟨[], none⟩
  | entry :: rest =>
      match entry.process with
      | none => scanEntries rest
      | some process =>
          if entry.workerGone then ⟨[], some process⟩
          else
            let scan := scanEntries rest
            { scan with sent := process :: scan.sent }

/-- `full_scan`; there may be no `/proc` to read. -/
def fullScan (entries : Option (List ScanEntry)) : Scan :=
  match entries with
  | some entries => scanEntries entries
  | none => ⟨[], none⟩

/-! ## The loop -/

inductive Attempt where
  /-- `NetlinkMonitor::new` fails. -/
  | refused
  /-- It succeeds; `recovery` is what `/proc` lists if the session fails. -/
  | connected (wakeups : List Wakeup) (recovery : Option (List ScanEntry))

inductive Phase where
  | connecting
  | listening
  | joining
  | exiting
deriving DecidableEq, Repr

structure State where
  sent : List Process
  unsent : List Process
  /-- What was seen of the processes, by the filter and by the scans. -/
  seen : List (Int32 × Identity)
  shutdownFlag : Bool
  phase : Phase

def State.started : State := ⟨[], [], [], false, .connecting⟩

/-- What the filter of a session was asked, the first question first. -/
def seenBy (listener : Listener) : List (Int32 × Identity) :=
  listener.past.reverse.map fun outcome => (outcome.pid, outcome.identity)

def sessionFrom (wakeups : List Wakeup) (state : State) : Session :=
  (Session.begin state.shutdownFlag).run wakeups

def afterSession (wakeups : List Wakeup) (state : State) : State :=
  let session := sessionFrom wakeups state
  { sent := state.sent ++ session.sent
    unsent := state.unsent ++ session.unsent.toList
    seen := state.seen ++ seenBy session.listener
    shutdownFlag := session.shutdownFlag
    phase :=
      match session.result with
      | none => .listening
      | some (.ok ()) => .joining
      | some (.error _) => .connecting }

def afterScan (scan : Scan) (state : State) : State :=
  { state with
    sent := state.sent ++ scan.sent
    unsent := state.unsent ++ scan.unsent.toList
    seen := state.seen ++ heard (scan.sent ++ scan.unsent.toList) }

/-- One round of the loop. -/
def round (attempt : Attempt) (state : State) : State :=
  if state.phase = .connecting then
    match attempt with
    | .refused => { state with phase := .exiting }
    | .connected wakeups recovery =>
        let reached := afterSession wakeups state
        -- The scan comes before the next attempt to connect.
        if reached.phase = .connecting then afterScan (fullScan recovery) reached else reached
  else state

def run (attempts : List Attempt) : State :=
  attempts.foldl (fun now attempt => round attempt now) .started

theorem run_append (attempts : List Attempt) (last : Attempt) :
    run (attempts ++ [last]) = round last (run attempts) := by
  unfold run
  rw [List.foldl_append]
  rfl

/-! ## The channel -/

inductive Sender where
  | loop
  | initialScan
deriving DecidableEq

/-- What the thread of the initial scan sends. It is started once the first session can be, and
it may not start; `listing` is what it finds in `/proc`. -/
def initialScan (attempts : List Attempt) (listing : Option (Option (List ScanEntry))) :
    List Process :=
  match attempts, listing with
  | .connected .. :: _, some entries => (fullScan entries).sent
  | _, _ => []

/-- What has come through the channel, each sender's messages in its own order. -/
structure Channel (attempts : List Attempt) (listing : Option (Option (List ScanEntry))) where
  messages : List (Sender × Process)
  ofLoop : (messages.filter fun message => message.1 = .loop).map Prod.snd = (run attempts).sent
  ofScan : (messages.filter fun message => message.1 = .initialScan).map Prod.snd <+:
    initialScan attempts listing

/-- The last message about a process is what the initial scan found. -/
def Channel.ScanLast {attempts : List Attempt} {listing : Option (Option (List ScanEntry))}
    (channel : Channel attempts listing) (pid : Int32) : Prop :=
  ∃ before process after, channel.messages = before ++ (.initialScan, process) :: after ∧
    process ∈ initialScan attempts listing ∧ process.pid = pid ∧ ∀ other ∈ after, other.2.pid ≠ pid

/-! ## How the loop ends -/

/-- What an attempt comes to, unless its session goes on. -/
def outcome (attempt : Attempt) (state : State) : Option NetlinkAttempt :=
  match attempt with
  | .refused => some .newFailed
  | .connected wakeups _ =>
      (sessionFrom wakeups state).result.map fun
        | .ok () => .listenEnded
        | .error _ => .listenFailed

/-- The outcomes of the attempts from a state on; a session that goes on is the last one. -/
def outcomes : List Attempt → State → List NetlinkAttempt
  | [], _ => []
  | attempt :: rest, state =>
      match outcome attempt state with
      | none => []
      | some ended => ended :: outcomes rest (round attempt state)

def Phase.loopEnd : Phase → LoopEnd
  | .connecting => .running
  | .listening => .running
  | .joining => .finished
  | .exiting => .failed

theorem foldl_round_of_ended {state : State} (ended : state.phase ≠ .connecting)
    (attempts : List Attempt) :
    attempts.foldl (fun now attempt => round attempt now) state = state := by
  induction attempts with
  | nil => rfl
  | cons attempt rest inductionHypothesis =>
      have stays : round attempt state = state := if_neg ended
      rw [List.foldl_cons, stays]
      exact inductionHypothesis

/-- The loop ends as its outcomes say. -/
theorem loopEnd_foldl_round (attempts : List Attempt) {state : State}
    (connecting : state.phase = .connecting) :
    (attempts.foldl (fun now attempt => round attempt now) state).phase.loopEnd =
      netlinkLoop (outcomes attempts state) := by
  induction attempts generalizing state with
  | nil =>
      rw [List.foldl_nil, connecting]
      rfl
  | cons attempt rest inductionHypothesis =>
      rw [List.foldl_cons, outcomes]
      have stays : (round attempt state).phase ≠ .connecting →
          rest.foldl (fun now attempt => round attempt now) (round attempt state) =
            round attempt state :=
        fun ended => foldl_round_of_ended ended rest
      cases attempt with
      | refused =>
          have exits : (round .refused state).phase = .exiting := by
            rw [round, if_pos connecting]
          rw [stays (by rw [exits]; decide), exits]
          rfl
      | connected wakeups recovery =>
          have next : (round (.connected wakeups recovery) state).phase =
              (afterSession wakeups state).phase := by
            rw [round, if_pos connecting]
            simp only
            split <;> rfl
          unfold afterSession at next
          cases result : (sessionFrom wakeups state).result with
          | none =>
              have going : outcome (.connected wakeups recovery) state = none := by
                rw [outcome, result]
                rfl
              simp only [result] at next
              rw [stays (by rw [next]; decide), next, going]
              rfl
          | some ended =>
              cases ended with
              | ok =>
                  have inPeace : outcome (.connected wakeups recovery) state =
                      some .listenEnded := by
                    rw [outcome, result]
                    rfl
                  simp only [result] at next
                  rw [stays (by rw [next]; decide), next, inPeace]
                  rfl
              | error e =>
                  have failed : outcome (.connected wakeups recovery) state =
                      some .listenFailed := by
                    rw [outcome, result]
                    rfl
                  simp only [result] at next
                  rw [failed]
                  exact inductionHypothesis next

/-! ## What the worker knows -/

theorem seenBy_listen (events : List ProcEvent) : seenBy (listen events) = sightings events := by
  have seen : seenBy (listen events) =
      ((listen events).past.map Outcome.event).reverse.map
        fun event => (event.pid, Identity.of event.name) := by
    unfold seenBy
    rw [← List.map_reverse, List.map_map]
    rfl
  rw [seen, past_listen, List.reverse_reverse, sightings_eq_map]

/-- The processes that `/proc` lists. -/
def listed (recovery : Option (List ScanEntry)) : List Process :=
  (recovery.getD []).filterMap ScanEntry.process

theorem sent_fullScan {recovery : Option (List ScanEntry)}
    (allSent : (fullScan recovery).unsent = none) : (fullScan recovery).sent = listed recovery := by
  have all : ∀ entries, (scanEntries entries).unsent = none →
      (scanEntries entries).sent = entries.filterMap ScanEntry.process := by
    intro entries
    induction entries with
    | nil => exact fun _ => rfl
    | cons entry rest inductionHypothesis =>
        unfold scanEntries
        cases isProcess : entry.process with
        | none =>
            rw [List.filterMap_cons_none isProcess]
            exact inductionHypothesis
        | some process =>
            rw [List.filterMap_cons_some isProcess]
            simp only
            split
            · exact fun isUnsent => absurd isUnsent (by simp)
            · exact fun restSent => congrArg (process :: ·) (inductionHypothesis restSent)
  cases recovery with
  | none => rfl
  | some entries => exact all entries allSent

/-- Nothing that was seen, and no send that was refused, is forgotten. -/
structure Extends (before after : State) : Prop where
  seen : before.seen <+: after.seen
  unsent : before.unsent <+: after.unsent

theorem Extends.trans {first second third : State} (left : Extends first second)
    (right : Extends second third) : Extends first third :=
  ⟨left.seen.trans right.seen, left.unsent.trans right.unsent⟩

theorem extends_round (attempt : Attempt) (state : State) : Extends state (round attempt state) := by
  have refl : Extends state state := ⟨List.prefix_rfl, List.prefix_rfl⟩
  unfold round
  split
  · cases attempt with
    | refused => exact ⟨List.prefix_rfl, List.prefix_rfl⟩
    | connected wakeups recovery =>
        have session : Extends state (afterSession wakeups state) :=
          ⟨List.prefix_append _ _, List.prefix_append _ _⟩
        simp only
        split
        · exact session.trans ⟨List.prefix_append _ _, List.prefix_append _ _⟩
        · exact session
  · exact refl

theorem extends_foldl (attempts : List Attempt) (state : State) :
    Extends state (attempts.foldl (fun now attempt => round attempt now) state) := by
  induction attempts generalizing state with
  | nil => exact ⟨List.prefix_rfl, List.prefix_rfl⟩
  | cons attempt rest inductionHypothesis =>
      exact (extends_round attempt state).trans (inductionHypothesis (round attempt state))

theorem unsent_of_extends {before after : State} (more : Extends before after)
    (allSent : after.unsent = []) : before.unsent = [] := by
  have none := more.unsent
  rw [allSent] at none
  exact List.prefix_nil.mp none

theorem heard_append (left right : List Process) : heard (left ++ right) = heard left ++ heard right :=
  List.map_append

theorem sameLast_session {shutdownFlag : Bool} {wakeups : List Wakeup}
    (allSent : ((Session.begin shutdownFlag).run wakeups).unsent = none) :
    SameLast (seenBy ((Session.begin shutdownFlag).run wakeups).listener)
      (heard ((Session.begin shutdownFlag).run wakeups).sent) := by
  obtain ⟨handled, accounts, _, _⟩ := accounts_run shutdownFlag wakeups
  have sent := accounts.sent
  rw [allSent, Option.toList_none, List.append_nil] at sent
  rw [sent, accounts.listener, seenBy_listen]
  exact (upToDate_listen handled).same

/-- One round leaves the worker with what was seen last, if it did before. -/
theorem sameLast_round (attempt : Attempt) {state : State}
    (same : state.unsent = [] → SameLast state.seen (heard state.sent))
    (allSent : (round attempt state).unsent = []) :
    SameLast (round attempt state).seen (heard (round attempt state).sent) := by
  have before := same (unsent_of_extends (extends_round attempt state) allSent)
  unfold round at allSent ⊢
  split at allSent
  next connecting =>
    rw [if_pos connecting]
    cases attempt with
    | refused => exact before
    | connected wakeups recovery =>
        simp only at allSent ⊢
        have session : (afterSession wakeups state).unsent = [] →
            SameLast (afterSession wakeups state).seen
              (heard (afterSession wakeups state).sent) := by
          intro sent
          have noneHere := Option.toList_eq_nil_iff.mp (List.append_eq_nil_iff.mp sent).2
          show SameLast _ (heard (state.sent ++ _))
          rw [heard_append]
          exact before.append (sameLast_session noneHere)
        split at allSent
        next failed =>
          rw [if_pos failed]
          obtain ⟨sent, noneHere⟩ := List.append_eq_nil_iff.mp allSent
          show SameLast _ (heard (_ ++ (fullScan recovery).sent))
          rw [heard_append]
          apply (session sent).append
          rw [Option.toList_eq_nil_iff.mp noneHere, Option.toList_none, List.append_nil]
          exact fun _ => rfl
        next goesOn =>
          rw [if_neg goesOn]
          exact session allSent
  next ended =>
    rw [if_neg ended]
    exact before

theorem sameLast_run (attempts : List Attempt) :
    (run attempts).unsent = [] → SameLast (run attempts).seen (heard (run attempts).sent) := by
  induction attempts using List.reverseRecOn with
  | nil => exact fun _ _ => rfl
  | append_singleton attempts last inductionHypothesis =>
      rw [run_append]
      exact sameLast_round last inductionHypothesis

/-- What `/proc` lists after a session, if it failed. -/
def recovered (session : Session) (recovery : Option (List ScanEntry)) : List Process :=
  match session.result with
  | some (.error _) => listed recovery
  | _ => []

/-- What a round adds to what was seen: the events of its session and, if that fails, every
process that the scan after it finds. -/
theorem seen_round {state : State} (connecting : state.phase = .connecting)
    (wakeups : List Wakeup) (recovery : Option (List ScanEntry))
    (allSent : (round (.connected wakeups recovery) state).unsent = []) :
    let session := sessionFrom wakeups state
    ∃ handled, Ends state.shutdownFlag wakeups handled session ∧
      (round (.connected wakeups recovery) state).seen =
        state.seen ++ sightings handled ++ heard (recovered session recovery) := by
  intro session
  obtain ⟨handled, accounts, ends, _⟩ := accounts_run state.shutdownFlag wakeups
  have isNext : round (.connected wakeups recovery) state =
      if (afterSession wakeups state).phase = .connecting then
        afterScan (fullScan recovery) (afterSession wakeups state)
      else afterSession wakeups state := by
    simp only [round, if_pos connecting]
  have seenHere : (afterSession wakeups state).seen = state.seen ++ sightings handled := by
    show state.seen ++ seenBy (sessionFrom wakeups state).listener = _
    rw [sessionFrom, accounts.listener, seenBy_listen]
  have withoutScan : recovered session recovery = [] →
      (afterSession wakeups state).phase ≠ .connecting →
      (round (.connected wakeups recovery) state).seen =
        state.seen ++ sightings handled ++ heard (recovered session recovery) := by
    intro noScan phase
    rw [isNext, if_neg phase, seenHere, noScan]
    exact (List.append_nil _).symm
  refine ⟨handled, ends, ?_⟩
  cases result : session.result with
  | none =>
      have phase : (afterSession wakeups state).phase = .listening := by
        simp only [afterSession, result, session]
      exact withoutScan (by rw [recovered, result]) (by rw [phase]; decide)
  | some ended =>
      cases ended with
      | ok =>
          have phase : (afterSession wakeups state).phase = .joining := by
            simp only [afterSession, result, session]
          exact withoutScan (by rw [recovered, result]) (by rw [phase]; decide)
      | error e =>
          have phase : (afterSession wakeups state).phase = .connecting := by
            simp only [afterSession, result, session]
          have scanned : recovered session recovery = listed recovery := by rw [recovered, result]
          rw [isNext, if_pos phase] at allSent
          have scanSent : (fullScan recovery).unsent = none :=
            Option.toList_eq_nil_iff.mp (List.append_eq_nil_iff.mp allSent).2
          rw [isNext, if_pos phase, scanned]
          show _ ++ heard ((fullScan recovery).sent ++ (fullScan recovery).unsent.toList) = _
          rw [scanSent, Option.toList_none, List.append_nil, sent_fullScan scanSent, seenHere]

/-- What the loop sends is not held back by the other sender; it can only be followed by what
the initial scan found. -/
theorem Channel.lastOf_heard {attempts : List Attempt}
    {listing : Option (Option (List ScanEntry))} (channel : Channel attempts listing) (pid : Int32) :
    lastOf (heard (channel.messages.map Prod.snd)) pid = lastOf (heard (run attempts).sent) pid ∨
      channel.ScanLast pid := by
  have whole : heard (channel.messages.map Prod.snd) =
      channel.messages.map fun message => (message.2.pid, .of message.2.name) := by
    rw [heard, List.map_map]
    rfl
  have loop : heard (run attempts).sent =
      (channel.messages.filter fun message => message.1 = .loop).map
        fun message => (message.2.pid, .of message.2.name) := by
    rw [← channel.ofLoop, heard, List.map_map]
    rfl
  rw [whole, loop]
  refine (lastOf_merged (fun message : Sender × Process => decide (message.1 = .loop)) _
    channel.messages pid).imp_right ?_
  rintro ⟨before, ⟨sender, process⟩, after, split, notLoop, isPid, others⟩
  have isScan : sender = .initialScan := by
    cases sender with
    | loop => exact absurd notLoop (by simp)
    | initialScan => rfl
  subst isScan
  refine ⟨before, process, after, split, channel.ofScan.subset ?_, isPid, others⟩
  refine List.mem_map.mpr ⟨(.initialScan, process), List.mem_filter.mpr ⟨?_, decide_eq_true rfl⟩, rfl⟩
  rw [split]
  exact List.mem_append_right before List.mem_cons_self

/-- A shell runs a command, the queue overflows, and the scan finds both the command and a
daemon that started in the gap. -/
def overrun : List Attempt :=
  [.connected
      [⟨false, .ready [[.event ⟨.fork, 7, 0, "sh"⟩ false, .event ⟨.exec, 7, 0, "make"⟩ false]]
        (.io (some again) "")⟩,
        ⟨false, .ready [] (.io (some nobufs) "")⟩]
      (some [⟨"7", "make", false⟩, ⟨"8", "daemon", false⟩, ⟨"self", "", false⟩]),
    .connected [⟨false, .ready [[.event ⟨.exec, 8, 1, "worker"⟩ false]] (.io (some again) "")⟩] none]

/-- The initial scan finds the shell before the exec and is not done yet. -/
def overrunChannel : Channel overrun (some (some [⟨"1", "init", false⟩, ⟨"7", "sh", false⟩])) where
  messages := (.initialScan, ⟨1, "init", true⟩) :: (run overrun).sent.map fun sent => (.loop, sent)
  ofLoop := by decide +kernel
  ofScan := by decide +kernel

end AnanicyRs.Daemon.Monitor
