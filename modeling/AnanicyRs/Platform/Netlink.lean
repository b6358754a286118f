import AnanicyRs.Core.Worker
import AnanicyRs.Lib.Recency
import AnanicyRs.Lib.StateInvariant
import AnanicyRs.Lib.Utf8

/-!
Contract: the proc-connector filter of `crates/ananicy-platform/src/netlink.rs`.

Owns `Identity::of`, `ReportedNames::should_report` and the event dispatch of
`NetlinkMonitor::listen`. A run keeps the outcome of every event that reached the
filter, the last one first.

The filter knows a pid and a digest, not an incarnation. `handed_or_remembered` says
exactly what it suppresses, and `every_incarnation_reported` what follows for the
processes: only one that takes over a recent pid under the name it was last handed
under is missed.

Receiving from the socket, its errors and the closed channel end a run and are not
modelled; the name `get_command_from_pid` answers is part of an event.
-/

set_option autoImplicit false

namespace AnanicyRs.Platform.Netlink

open AnanicyRs.Core
open AnanicyRs.Lib.Cache
open AnanicyRs.Lib.Recency
open AnanicyRs.Lib.StateInvariant
open AnanicyRs.Lib.Utf8 (encode)

/-! ## The filter -/

structure Identity where
  len : UInt32
  digest : UInt64
deriving DecidableEq, Repr

/-- FNV-1a over the bytes of the name. -/
def Identity.of (name : String) : Identity where
  len := UInt32.ofNat (encode name.toList).length
  digest := (encode name.toList).foldl
    (fun digest byte => (digest ^^^ byte.toUInt64) * 0x00000100000001b3) 0xcbf29ce484222325

def reportedNamesCapacity : Nat := 8192

structure ReportedNames where
  seen : List (Int32 × Identity)

def ReportedNames.new : ReportedNames := ⟨[]⟩

def ReportedNames.shouldReport (reported : ReportedNames) (pid : Int32) (name : String) :
    Bool × ReportedNames :=
  let identity := Identity.of name
  let (previous, touched) := (lru reportedNamesCapacity).get pid reported.seen
  if previous = some identity then (false, ⟨touched⟩)
  else (true, ⟨(lru reportedNamesCapacity).put pid identity touched⟩)

/-- A call that is answered no has found the identity it asks about, and only moves it to
the front; any other call puts its own. -/
theorem shouldReport_cases (reported : ReportedNames) (pid : Int32) (name : String) :
    (reported.seen.lookup pid = some (.of name) ∧ reported.shouldReport pid name =
      (false, ⟨((lru reportedNamesCapacity).get pid reported.seen).2⟩)) ∨
    (reported.seen.lookup pid ≠ some (.of name) ∧ reported.shouldReport pid name =
      (true, ⟨(lru reportedNamesCapacity).put pid (.of name) reported.seen⟩)) := by
  by_cases hit : reported.seen.lookup pid = some (.of name)
  · refine .inl ⟨hit, ?_⟩
    simp only [ReportedNames.shouldReport, get_fst, hit, if_true]
  · refine .inr ⟨hit, ?_⟩
    simp only [ReportedNames.shouldReport, get_fst, if_neg hit, put_get]

/-! ## Sequences of calls -/

/-- One call of `should_report`. -/
structure ReportCall where
  pid : Int32
  name : String
deriving DecidableEq, Repr

def ReportCall.identity (call : ReportCall) : Identity := .of call.name

/-- The filter after these calls, the first one first. -/
def ReportedNames.afterCalls (calls : List ReportCall) : ReportedNames :=
  calls.foldl (fun reported call => (reported.shouldReport call.pid call.name).2) .new

/-- The answer to a call that comes after `earlier`. -/
def answer (earlier : List ReportCall) (call : ReportCall) : Bool :=
  ((ReportedNames.afterCalls earlier).shouldReport call.pid call.name).1

def callsFor (pid : Int32) (calls : List ReportCall) : List ReportCall :=
  calls.filter fun call => call.pid = pid

def lastCallFor (pid : Int32) (calls : List ReportCall) : Option ReportCall :=
  (callsFor pid calls).getLast?

theorem lastCallFor_concat_self (calls : List ReportCall) (call : ReportCall) :
    lastCallFor call.pid (calls ++ [call]) = some call := by
  rw [lastCallFor, callsFor, List.filter_append, List.filter_cons_of_pos (by simp),
    List.filter_nil, List.getLast?_append]
  rfl

theorem lastCallFor_concat_ne {pid : Int32} {call : ReportCall} (differs : call.pid ≠ pid)
    (calls : List ReportCall) : lastCallFor pid (calls ++ [call]) = lastCallFor pid calls := by
  rw [lastCallFor, callsFor, List.filter_append, List.filter_cons_of_neg (by simpa using differs),
    List.filter_nil, List.append_nil]
  rfl

theorem lastCallFor_mem {pid : Int32} {calls : List ReportCall} {last : ReportCall}
    (isLast : lastCallFor pid calls = some last) : last ∈ calls ∧ last.pid = pid := by
  have member := List.mem_filter.mp (List.mem_of_getLast? isLast)
  exact ⟨member.1, by simpa using member.2⟩

/-- The entries are the latest identities of the pids last asked about. -/
structure FollowsCalls (calls : List ReportCall) (reported : ReportedNames) : Prop where
  keys : Tracks reportedNamesCapacity (calls.reverse.map ReportCall.pid) reported.seen
  values : ∀ pid identity, (pid, identity) ∈ reported.seen →
    (lastCallFor pid calls).map ReportCall.identity = some identity

theorem FollowsCalls.lookup_iff {calls : List ReportCall} {reported : ReportedNames}
    (follows : FollowsCalls calls reported) (pid : Int32) (identity : Identity) :
    reported.seen.lookup pid = some identity ↔
      (lastCallFor pid calls).map ReportCall.identity = some identity ∧
        (since pid (calls.reverse.map ReportCall.pid)).toFinset.card < reportedNamesCapacity := by
  apply follows.keys.lookup_eq_some_iff follows.values
  intro key value isLatest
  obtain ⟨last, isLast, _⟩ := Option.map_eq_some_iff.mp isLatest
  obtain ⟨member, isPid⟩ := lastCallFor_mem isLast
  exact List.mem_map.mpr ⟨last, List.mem_reverse.mpr member, isPid⟩

/-- Whatever the answer, the pid is remembered under the identity of the call. -/
theorem followsCalls_shouldReport {calls : List ReportCall} {reported : ReportedNames}
    (follows : FollowsCalls calls reported) (call : ReportCall) :
    FollowsCalls (calls ++ [call]) (reported.shouldReport call.pid call.name).2 := by
  have pids : (calls ++ [call]).reverse.map ReportCall.pid =
      call.pid :: calls.reverse.map ReportCall.pid := by
    rw [List.reverse_concat, List.map_cons]
  rcases shouldReport_cases reported call.pid call.name with ⟨hit, answered⟩ | ⟨_, answered⟩
  · rw [answered]
    refine ⟨pids ▸ follows.keys.get hit, fun pid identity held => ?_⟩
    have before := follows.values pid identity
      ((lru reportedNamesCapacity).get_keeps _ _ _ _ held)
    by_cases samePid : call.pid = pid
    · have isLatest := ((follows.lookup_iff call.pid (.of call.name)).mp hit).1
      rw [samePid, before] at isLatest
      rw [← samePid, lastCallFor_concat_self, Option.map_some]
      exact isLatest.symm
    · rw [lastCallFor_concat_ne samePid]
      exact before
  · rw [answered]
    refine ⟨pids ▸ follows.keys.put _ _, fun pid identity held => ?_⟩
    rcases (lru reportedNamesCapacity).put_holds _ _ _ _ _ held with ⟨rfl, rfl⟩ | ⟨differs, before⟩
    · rw [lastCallFor_concat_self]
      rfl
    · rw [lastCallFor_concat_ne (Ne.symm differs)]
      exact follows.values pid identity before

theorem followsCalls_afterCalls (calls : List ReportCall) :
    FollowsCalls calls (.afterCalls calls) := by
  induction calls using List.reverseRecOn with
  | nil => exact ⟨rfl, fun _ _ held => absurd held List.not_mem_nil⟩
  | append_singleton calls call inductionHypothesis =>
      have step : ReportedNames.afterCalls (calls ++ [call]) =
          ((ReportedNames.afterCalls calls).shouldReport call.pid call.name).2 := by
        simp [ReportedNames.afterCalls]
      rw [step]
      exact followsCalls_shouldReport inductionHypothesis call

/-- A call is answered no exactly when its pid was last asked about under the same identity
and is still remembered. -/
theorem answer_eq_false_iff (earlier : List ReportCall) (call : ReportCall) :
    answer earlier call = false ↔
      (lastCallFor call.pid earlier).map ReportCall.identity = some call.identity ∧
        (since call.pid (earlier.reverse.map ReportCall.pid)).toFinset.card <
          reportedNamesCapacity := by
  rw [← (followsCalls_afterCalls earlier).lookup_iff, answer]
  rcases shouldReport_cases (.afterCalls earlier) call.pid call.name with
    ⟨hit, answered⟩ | ⟨miss, answered⟩
  · simp [answered, hit, ReportCall.identity]
  · simp [answered, miss, ReportCall.identity]

/-- Among no more pids than it can hold the filter forgets none. -/
theorem answer_of_few {earlier : List ReportCall} {call : ReportCall}
    (few : ((earlier ++ [call]).map ReportCall.pid).toFinset.card ≤ reportedNamesCapacity) :
    answer earlier call = false ↔
      (lastCallFor call.pid earlier).map ReportCall.identity = some call.identity := by
  rw [answer_eq_false_iff, and_iff_left_iff_imp]
  intro isLatest
  obtain ⟨last, isLast, _⟩ := Option.map_eq_some_iff.mp isLatest
  obtain ⟨member, isPid⟩ := lastCallFor_mem isLast
  have used : call.pid ∈ earlier.reverse.map ReportCall.pid :=
    List.mem_map.mpr ⟨last, List.mem_reverse.mpr member, isPid⟩
  have fewEarlier : (earlier.reverse.map ReportCall.pid).toFinset ⊆
      ((earlier ++ [call]).map ReportCall.pid).toFinset := by
    intro pid isEarlier
    simp only [List.mem_toFinset, List.mem_map, List.mem_reverse] at isEarlier ⊢
    obtain ⟨one, isOne, onePid⟩ := isEarlier
    exact ⟨one, List.mem_append_left _ isOne, onePid⟩
  calc (since call.pid (earlier.reverse.map ReportCall.pid)).toFinset.card
      < (earlier.reverse.map ReportCall.pid).toFinset.card := card_since_lt used
    _ ≤ reportedNamesCapacity := (Finset.card_le_card fewEarlier).trans few

theorem not_identity_iff (last : Option ReportCall) (call : ReportCall) :
    last.map ReportCall.identity ≠ some call.identity ↔
      last = none ∨ ∃ earlier, last = some earlier ∧ earlier.identity ≠ call.identity := by
  cases last <;> simp

/-- Over every sequence of calls, the filter answers no only to a call that repeats the
identity its pid was last asked about under. As long as the sequence has no more pids than
the filter holds, it answers no to each of these, and the calls for other pids do not
matter. It never holds more entries than its capacity. -/
theorem shouldReport_is_last_identity_filter (earlier : List ReportCall) (call : ReportCall)
    (later : List ReportCall) :
    (answer earlier call = false → ∃ last, lastCallFor call.pid earlier = some last ∧
      last.identity = call.identity) ∧
    (((earlier ++ call :: later).map ReportCall.pid).toFinset.card ≤ reportedNamesCapacity →
      (answer earlier call = true ↔ lastCallFor call.pid earlier = none ∨
        ∃ last, lastCallFor call.pid earlier = some last ∧ last.identity ≠ call.identity) ∧
      ∀ others, callsFor call.pid others = callsFor call.pid earlier →
        ((others ++ [call]).map ReportCall.pid).toFinset.card ≤ reportedNamesCapacity →
          answer others call = answer earlier call) ∧
    (ReportedNames.afterCalls (earlier ++ call :: later)).seen.length ≤ reportedNamesCapacity := by
  refine ⟨?_, ?_, ?_⟩
  · intro isNo
    exact Option.map_eq_some_iff.mp ((answer_eq_false_iff earlier call).mp isNo).1
  · intro few
    have upToCall : ((earlier ++ [call]).map ReportCall.pid).toFinset ⊆
        ((earlier ++ call :: later).map ReportCall.pid).toFinset := by
      intro pid member
      simp only [List.mem_toFinset, List.map_append, List.map_cons, List.mem_append,
        List.mem_cons, List.map_nil, List.not_mem_nil, or_false] at member ⊢
      exact member.imp_right .inl
    have fewEarlier := (Finset.card_le_card upToCall).trans few
    refine ⟨?_, ?_⟩
    · rw [← not_identity_iff, ne_eq, ← answer_of_few fewEarlier, Bool.not_eq_false]
    · intro others sameCalls fewOthers
      have sameLast : lastCallFor call.pid others = lastCallFor call.pid earlier := by
        rw [lastCallFor, sameCalls, lastCallFor]
      have bothNo : answer others call = false ↔ answer earlier call = false := by
        rw [answer_of_few fewOthers, sameLast, answer_of_few fewEarlier]
      cases isEarlier : answer earlier call with
      | false => exact bothNo.mpr isEarlier
      | true =>
          rw [← Bool.not_eq_false]
          intro isNo
          rw [bothNo.mp isNo] at isEarlier
          exact absurd isEarlier (by decide)
  · exact (followsCalls_afterCalls _).keys.length_le

/-! ## The event loop -/

inductive ProcEventKind where
  | fork
  | exec
  | comm
  | exit
  | other
deriving DecidableEq, Repr

/-- One proc-connector event. `pid` is the child of a fork and the process otherwise;
the filter never sees the incarnation that holds it. -/
structure ProcEvent where
  kind : ProcEventKind
  pid : Int32
  incarnation : Nat
  /-- What `get_command_from_pid` answers when the event is handled. -/
  name : String
deriving DecidableEq, Repr

/-- The pid an event is classified under, if it is. -/
def ProcEvent.dispatched (event : ProcEvent) : Option Int32 :=
  match event.kind with
  | .exec | .comm | .fork => if event.pid = 0 then none else some event.pid
  | .exit | .other => none

structure Outcome where
  event : ProcEvent
  sent : Option Process
deriving DecidableEq, Repr

structure Listener where
  reported : ReportedNames
  /-- The outcomes so far, the last one first. -/
  past : List Outcome

def Listener.new : Listener := ⟨.new, []⟩

/-- The body of the event loop of `NetlinkMonitor::listen`. -/
def receive (event : ProcEvent) (listener : Listener) : Listener :=
  match event.dispatched with
  | none => listener
  | some pid =>
      let (report, reported) := listener.reported.shouldReport pid event.name
      let sent := if report then some ⟨pid, event.name, true⟩ else none
      ⟨reported, ⟨event, sent⟩ :: listener.past⟩

def listen (events : List ProcEvent) : Listener :=
  events.foldl (fun listener event => receive event listener) .new

/-! ## What the filter remembers -/

def Outcome.handed (outcome : Outcome) : Bool := outcome.sent.isSome

def Outcome.pid (outcome : Outcome) : Int32 := outcome.event.pid

def Outcome.identity (outcome : Outcome) : Identity := .of outcome.event.name

/-- The last time a holder of `pid` was handed to the worker. -/
def lastHanded (past : List Outcome) (pid : Int32) : Option Outcome :=
  past.find? fun outcome => outcome.handed && outcome.pid == pid

/-- `pid` was last handed under this identity, and fewer than `REPORTED_NAMES_CAPACITY`
other pids have had an event since its own last one. -/
def Remembered (past : List Outcome) (pid : Int32) (identity : Identity) : Prop :=
  (∃ last, lastHanded past pid = some last ∧ last.identity = identity) ∧
    (since pid (past.map Outcome.pid)).toFinset.card < reportedNamesCapacity

structure Faithful (listener : Listener) : Prop where
  keys : Tracks reportedNamesCapacity (listener.past.map Outcome.pid) listener.reported.seen
  values : ∀ pid identity, (pid, identity) ∈ listener.reported.seen →
    ∃ last, lastHanded listener.past pid = some last ∧ last.identity = identity

theorem lastHanded_mem {past : List Outcome} {pid : Int32} {last : Outcome}
    (isLast : lastHanded past pid = some last) :
    last ∈ past ∧ last.handed = true ∧ last.pid = pid := by
  have spec := List.find?_some isLast
  rw [Bool.and_eq_true, beq_iff_eq] at spec
  exact ⟨List.mem_of_find?_eq_some isLast, spec⟩

theorem lastHanded_cons_self {outcome : Outcome} (handed : outcome.handed = true)
    (past : List Outcome) : lastHanded (outcome :: past) outcome.pid = some outcome := by
  rw [lastHanded, List.find?_cons_of_pos (by simp [handed])]

theorem lastHanded_cons_of_pid {outcome : Outcome} {pid : Int32} (differs : outcome.pid ≠ pid)
    (past : List Outcome) : lastHanded (outcome :: past) pid = lastHanded past pid := by
  rw [lastHanded, List.find?_cons_of_neg (by simp [differs])]
  rfl

theorem lastHanded_cons_of_not_handed {outcome : Outcome} (kept : outcome.handed = false)
    (past : List Outcome) (pid : Int32) :
    lastHanded (outcome :: past) pid = lastHanded past pid := by
  rw [lastHanded, List.find?_cons_of_neg (by simp [kept])]
  rfl

/-- The filter finds a pid exactly when it is remembered under what it finds. -/
theorem Faithful.lookup_iff {listener : Listener} (faithful : Faithful listener) (pid : Int32)
    (identity : Identity) :
    listener.reported.seen.lookup pid = some identity ↔
      Remembered listener.past pid identity := by
  have used : ∀ key value, (lastHanded listener.past key).map Outcome.identity = some value →
      key ∈ listener.past.map Outcome.pid := by
    intro key value isLatest
    obtain ⟨last, isLast, _⟩ := Option.map_eq_some_iff.mp isLatest
    obtain ⟨member, _, isPid⟩ := lastHanded_mem isLast
    exact List.mem_map.mpr ⟨last, member, isPid⟩
  have values : ∀ key value, (key, value) ∈ listener.reported.seen →
      (lastHanded listener.past key).map Outcome.identity = some value := by
    intro key value held
    exact Option.map_eq_some_iff.mpr (faithful.values key value held)
  rw [faithful.keys.lookup_eq_some_iff values used, Remembered, Option.map_eq_some_iff]

theorem faithful_new : Faithful .new where
  keys := rfl
  values _ _ held := absurd held List.not_mem_nil

/-- An event that reaches the filter is handed over unless it is remembered. -/
theorem receive_dispatched {listener : Listener} (faithful : Faithful listener) {event : ProcEvent}
    (dispatched : event.dispatched = some event.pid) :
    Faithful (receive event listener) ∧
      ∃ outcome, (receive event listener).past = outcome :: listener.past ∧
        outcome.event = event ∧
        (outcome.handed = false ↔ Remembered listener.past event.pid (.of event.name)) := by
  have decides := faithful.lookup_iff event.pid (.of event.name)
  rcases shouldReport_cases listener.reported event.pid event.name with
    ⟨hit, answered⟩ | ⟨miss, answered⟩
  · have result : receive event listener =
        ⟨⟨((lru reportedNamesCapacity).get event.pid listener.reported.seen).2⟩,
          ⟨event, none⟩ :: listener.past⟩ := by
      rw [receive, dispatched]
      simp only [answered]
      rfl
    rw [result]
    refine ⟨⟨faithful.keys.get hit, ?_⟩, ⟨event, none⟩, rfl, rfl, ?_⟩
    · intro pid identity held
      rw [lastHanded_cons_of_not_handed rfl]
      exact faithful.values pid identity ((lru reportedNamesCapacity).get_keeps _ _ _ _ held)
    · simp [Outcome.handed, decides.mp hit]
  · have result : receive event listener =
        ⟨⟨(lru reportedNamesCapacity).put event.pid (.of event.name) listener.reported.seen⟩,
          ⟨event, some ⟨event.pid, event.name, true⟩⟩ :: listener.past⟩ := by
      rw [receive, dispatched]
      simp only [answered, if_true]
    rw [result]
    refine ⟨⟨faithful.keys.put _ _, ?_⟩, ⟨event, some ⟨event.pid, event.name, true⟩⟩, rfl, rfl, ?_⟩
    · intro pid identity held
      rcases (lru reportedNamesCapacity).put_holds _ _ _ _ _ held with
        ⟨rfl, rfl⟩ | ⟨differs, before⟩
      · exact ⟨⟨event, some ⟨event.pid, event.name, true⟩⟩, lastHanded_cons_self rfl _, rfl⟩
      · obtain ⟨last, isLast, isIdentity⟩ := faithful.values pid identity before
        refine ⟨last, ?_, isIdentity⟩
        rw [lastHanded_cons_of_pid (Ne.symm differs)]
        exact isLast
    · simpa [Outcome.handed] using fun remembered => miss (decides.mpr remembered)

/-! ## Whole runs -/

theorem dispatched_eq {event : ProcEvent} {pid : Int32} (dispatched : event.dispatched = some pid) :
    pid = event.pid := by
  unfold ProcEvent.dispatched at dispatched
  split at dispatched
  all_goals first
    | (split at dispatched <;> simp_all)
    | simp at dispatched

theorem listen_concat (events : List ProcEvent) (event : ProcEvent) :
    listen (events ++ [event]) = receive event (listen events) := by
  simp [listen]

theorem faithful_listen (events : List ProcEvent) : Faithful (listen events) := by
  induction events using List.reverseRecOn with
  | nil => exact faithful_new
  | append_singleton events event inductionHypothesis =>
      rw [listen_concat]
      cases dispatched : event.dispatched with
      | none =>
          rw [receive, dispatched]
          exact inductionHypothesis
      | some pid =>
          rw [dispatched_eq dispatched] at dispatched
          exact (receive_dispatched inductionHypothesis dispatched).1

/-- The outcomes are those of the events that are dispatched, in their order. -/
theorem past_listen (events : List ProcEvent) :
    (listen events).past.map Outcome.event =
      (events.filter fun event => event.dispatched.isSome).reverse := by
  induction events using List.reverseRecOn with
  | nil => rfl
  | append_singleton events event inductionHypothesis =>
      rw [listen_concat, List.filter_append, List.reverse_append]
      cases dispatched : event.dispatched with
      | none =>
          rw [receive, dispatched, List.filter_cons_of_neg (by simp [dispatched])]
          exact inductionHypothesis
      | some pid =>
          rw [dispatched_eq dispatched] at dispatched
          obtain ⟨_, outcome, isPast, isEvent, _⟩ :=
            receive_dispatched (faithful_listen events) dispatched
          rw [isPast, List.map_cons, inductionHypothesis, isEvent,
            List.filter_cons_of_pos (by simp [dispatched])]
          rfl

/-- Over every run, an event is kept from the worker exactly when its pid is remembered
under the name it resolves to. -/
theorem handed_or_remembered (events : List ProcEvent) :
    ∀ newer outcome older, (listen events).past = newer ++ outcome :: older →
      (outcome.handed = false ↔ Remembered older outcome.pid outcome.identity) := by
  induction events using List.reverseRecOn with
  | nil =>
      intro newer outcome older split
      exact absurd split.symm (by simp [listen, Listener.new])
  | append_singleton events event inductionHypothesis =>
      intro newer outcome older split
      rw [listen_concat] at split
      cases dispatched : event.dispatched with
      | none =>
          rw [receive, dispatched] at split
          exact inductionHypothesis newer outcome older split
      | some pid =>
          rw [dispatched_eq dispatched] at dispatched
          obtain ⟨_, first, isPast, isEvent, decides⟩ :=
            receive_dispatched (faithful_listen events) dispatched
          rw [isPast] at split
          cases newer with
          | nil =>
              obtain ⟨rfl, rfl⟩ := List.cons.inj split
              rw [Outcome.pid, Outcome.identity, isEvent]
              exact decides
          | cons head rest =>
              exact inductionHypothesis rest outcome older (List.cons.inj split).2

/-! ## Incarnations -/

/-- A stream of events as the kernel makes it: an incarnation keeps its pid, and a pid
that has passed to another incarnation does not come back to it. -/
structure ProcessHistory where
  events : List ProcEvent
  onePid : ∀ first ∈ events, ∀ last ∈ events,
    first.incarnation = last.incarnation → first.pid = last.pid
  oneHolder : ∀ first middle last, [first, middle, last].Sublist events →
    first.incarnation = last.incarnation → middle.pid = first.pid →
      middle.incarnation = first.incarnation

/-- The last time this incarnation was handed to the worker. -/
def lastHandedOf (past : List Outcome) (incarnation : Nat) : Option Outcome :=
  past.find? fun outcome => outcome.handed && outcome.event.incarnation == incarnation

section Incarnations

variable {history : ProcessHistory}

theorem event_mem {outcome : Outcome} (member : outcome ∈ (listen history.events).past) :
    outcome.event ∈ history.events := by
  have listed : outcome.event ∈ (listen history.events).past.map Outcome.event :=
    List.mem_map.mpr ⟨outcome, member, rfl⟩
  rw [past_listen, List.mem_reverse] at listed
  exact (List.mem_filter.mp listed).1

/-- Three outcomes in the order of the record are three events in the order of time. -/
theorem events_sublist {last middle first : Outcome}
    (ordered : [last, middle, first].Sublist (listen history.events).past) :
    [first.event, middle.event, last.event].Sublist history.events := by
  have mapped := (ordered.map Outcome.event).reverse
  rw [past_listen, List.reverse_reverse] at mapped
  exact mapped.trans List.filter_sublist

/-- An event that is kept from the worker carries the name its own incarnation was last
handed under, if it was handed at all. -/
theorem kept_under_own_name {newer older : List Outcome} {outcome last : Outcome}
    (split : (listen history.events).past = newer ++ outcome :: older)
    (isLast : lastHandedOf older outcome.event.incarnation = some last)
    (kept : outcome.handed = false) : last.identity = outcome.identity := by
  obtain ⟨⟨other, isOther, sameIdentity⟩, _⟩ :=
    (handed_or_remembered history.events newer outcome older split).mp kept
  have inPast : ∀ one ∈ outcome :: older, one ∈ (listen history.events).past := by
    intro one member
    rw [split]
    exact List.mem_append_right newer member
  obtain ⟨spec, fresh, rest, otherSplit, othersBefore⟩ :=
    List.find?_eq_some_iff_append.mp isOther
  have lastSpec := List.find?_some isLast
  rw [Bool.and_eq_true, beq_iff_eq] at lastSpec spec
  have lastMember := List.mem_of_find?_eq_some isLast
  have samePid : last.pid = outcome.pid :=
    history.onePid _ (event_mem (inPast last (by simp [lastMember]))) _
      (event_mem (inPast outcome (by simp))) lastSpec.2
  -- The last hand-over of the pid comes no earlier than that of the incarnation.
  have lastNotFresh : last ∉ fresh := by
    intro member
    have excluded := othersBefore last member
    simp [lastSpec.1, samePid] at excluded
  have ofIncarnation : other.event.incarnation = outcome.event.incarnation := by
    rw [otherSplit, List.mem_append, List.mem_cons] at lastMember
    rcases lastMember with inFresh | isSame | inRest
    · exact absurd inFresh lastNotFresh
    · rw [← isSame]
      exact lastSpec.2
    · have ordered : [outcome, other, last].Sublist (listen history.events).past := by
        rw [split, otherSplit]
        refine List.Sublist.trans ?_ (List.sublist_append_right newer _)
        refine List.Sublist.cons_cons outcome (List.Sublist.trans ?_ (List.sublist_append_right fresh _))
        exact List.Sublist.cons_cons other (List.singleton_sublist.mpr inRest)
      have held := history.oneHolder _ _ _ (events_sublist ordered) lastSpec.2
        (spec.2.trans samePid.symm)
      exact held.trans lastSpec.2
  have isSame : some other = some last := by
    rw [← isLast, lastHandedOf, otherSplit, List.find?_append]
    have noneFresh : fresh.find? (fun one => one.handed &&
        one.event.incarnation == outcome.event.incarnation) = none := by
      rw [List.find?_eq_none]
      intro one member
      have excluded := othersBefore one member
      intro given
      rw [Bool.and_eq_true, beq_iff_eq] at given
      have onePid : one.pid = outcome.pid :=
        history.onePid _ (event_mem (inPast one (by simp [otherSplit, member]))) _
          (event_mem (inPast outcome (by simp))) given.2
      simp [given.1, onePid] at excluded
    rw [noneFresh, List.find?_cons_of_pos (by simp [spec.1, ofIncarnation])]
    rfl
  rw [← Option.some.inj isSame]
  exact sameIdentity

end Incarnations

/-- Over every stream of events with reused pids: an incarnation with an event that is
dispatched is handed to the worker at least once, unless each of its events resolved to
the name under which an earlier holder of its pid was last handed, the filter still
remembering the pid; and it is handed again at each event whose name differs from the
one it was last handed under. -/
theorem every_incarnation_reported (history : ProcessHistory) :
    (∀ event ∈ history.events, event.dispatched.isSome = true →
      (∃ handed ∈ (listen history.events).past, handed.handed = true ∧
        handed.event.incarnation = event.incarnation) ∨
      ∀ newer missed older, (listen history.events).past = newer ++ missed :: older →
        missed.event.incarnation = event.incarnation →
          ∃ last, lastHanded older missed.pid = some last ∧
            last.event.incarnation ≠ event.incarnation ∧ last.identity = missed.identity ∧
            (since missed.pid (older.map Outcome.pid)).toFinset.card < reportedNamesCapacity) ∧
    ∀ newer outcome older last, (listen history.events).past = newer ++ outcome :: older →
      lastHandedOf older outcome.event.incarnation = some last →
        last.identity ≠ outcome.identity → outcome.handed = true := by
  constructor
  · intro event _ _
    by_cases handed : ∃ handed ∈ (listen history.events).past, handed.handed = true ∧
        handed.event.incarnation = event.incarnation
    · exact .inl handed
    · apply Or.inr
      intro newer missed older split sameIncarnation
      have kept : missed.handed = false := by
        rw [Bool.eq_false_iff]
        intro wasHanded
        exact handed ⟨missed, by simp [split], wasHanded, sameIncarnation⟩
      obtain ⟨⟨last, isLast, sameIdentity⟩, close⟩ :=
        (handed_or_remembered history.events newer missed older split).mp kept
      obtain ⟨member, wasHanded, _⟩ := lastHanded_mem isLast
      refine ⟨last, isLast, fun own => handed ⟨last, ?_, wasHanded, own⟩, sameIdentity, close⟩
      rw [split]
      exact List.mem_append_right newer (List.mem_cons_of_mem missed member)
  · intro newer outcome older last split isLast differs
    rw [← Bool.not_eq_false]
    intro kept
    exact differs (kept_under_own_name split isLast kept)

/-- A shell exits, and its pid goes to another shell. -/
def recycledPid : ProcessHistory where
  events := [⟨.fork, 100, 0, "sh"⟩, ⟨.exit, 100, 0, "sh"⟩, ⟨.fork, 100, 1, "sh"⟩]
  onePid := by decide
  oneHolder := by
    intro first middle last ordered sameIncarnation _
    have isWhole := ordered.eq_of_length rfl
    simp only [List.cons.injEq] at isWhole
    obtain ⟨rfl, _, rfl, _⟩ := isWhole
    exact absurd sameIncarnation (by decide)

/-- The second shell has an event and is never handed to the worker. -/
theorem recycled_pid_unreported :
    ¬ ∀ event ∈ recycledPid.events, event.dispatched.isSome = true →
      ∃ handed ∈ (listen recycledPid.events).past, handed.handed = true ∧
        handed.event.incarnation = event.incarnation := by
  decide +kernel

end AnanicyRs.Platform.Netlink
