import AnanicyRs.Daemon.TaskRuns
import AnanicyRs.Platform.NetlinkSession

/-!
Contract: what the netlink filter keeps from the worker, the tasks do not miss.

Owns the messages a stream of events would make without the filter, and their comparison with
the ones it lets through. `run_of_handed` is over a kernel that accepts everything, and over
processes that share no task.

Two names count as one where the filter cannot tell them apart; that this does not happen
among the names of the stream is a hypothesis.
-/

set_option autoImplicit false

namespace AnanicyRs.Daemon.FilteredRuns

open AnanicyRs.Core
open AnanicyRs.Lib
open AnanicyRs.Lib.Cache
open AnanicyRs.Lib.LastWins
open AnanicyRs.Lib.Updates
open AnanicyRs.Daemon.TaskRuns
open AnanicyRs.Daemon.WorkLoop (inForceAfter InForce niceMoment)
open AnanicyRs.Platform.Linux hiding State
open AnanicyRs.Platform.Netlink

variable {τ ρ κ : Type}

/-- The messages of a listener that hands everything over. -/
def unfiltered (events : List ProcEvent) : List Process :=
  events.filterMap fun event => event.dispatched.map fun pid => ⟨pid, event.name, true⟩

/-- The names of these events can be told apart by their identities. -/
def Distinguished (events : List ProcEvent) : Prop :=
  ∀ left ∈ events, ∀ right ∈ events, Identity.of left.name = Identity.of right.name →
    left.name = right.name

theorem unfiltered_concat (events : List ProcEvent) (event : ProcEvent) :
    unfiltered (events ++ [event]) = unfiltered events ++
      (event.dispatched.map fun pid => (⟨pid, event.name, true⟩ : Process)).toList := by
  unfold unfiltered
  rw [List.filterMap_append]
  cases dispatched : event.dispatched <;> simp [dispatched]

/-- What the worker was last told of a pid is the last message for it. -/
theorem split_of_heard {processes : List Process} {pid : Int32} {identity : Identity}
    (isLast : lastOf (heard processes) pid = some identity) :
    ∃ before process after, processes = before ++ process :: after ∧ process.pid = pid ∧
      Identity.of process.name = identity ∧ ∀ other ∈ after, other.pid ≠ pid := by
  obtain ⟨front, rest, split, others⟩ := split_of_lastOf isLast
  obtain ⟨before, later, isSplit, _, isLater⟩ := List.map_eq_append_iff.mp split
  obtain ⟨process, after, isProcess, told, isAfter⟩ := List.map_eq_cons_iff.mp isLater
  rw [isProcess] at isSplit
  refine ⟨before, process, after, isSplit, congrArg Prod.fst told, congrArg Prod.snd told, ?_⟩
  intro other member
  apply others (other.pid, .of other.name)
  rw [← isAfter]
  exact List.mem_map_of_mem member

/-- The filter leaves out only messages that repeat the last one for their pid. -/
theorem thinned_listen {events : List ProcEvent} (distinguished : Distinguished events) :
    Thinned Process.pid (unfiltered events) (listen events).handed := by
  induction events using List.reverseRecOn with
  | nil => exact .nil
  | append_singleton events event inductionHypothesis =>
      have among : ∀ other ∈ events, other ∈ events ++ [event] := fun _ => List.mem_append_left _
      have thinned := inductionHypothesis fun left inLeft right inRight =>
        distinguished left (among left inLeft) right (among right inRight)
      have upToDate := upToDate_listen events
      rw [unfiltered_concat, listen_concat]
      cases dispatched : event.dispatched with
      | none =>
          rw [receive, dispatched, Option.map_none, Option.toList_none, List.append_nil]
          exact thinned
      | some pid =>
          rw [Option.map_some, Option.toList_some]
          cases receive_cases dispatched (listen events) with
          | inr news =>
              rw [news.2]
              exact thinned.keep _
          | inl kept =>
              rw [kept.2.2]
              obtain ⟨before, process, after, split, isPid, sameIdentity, others⟩ :=
                split_of_heard (upToDate.known kept.1)
              have isKept : process ∈ (listen events).handed := by
                rw [split]
                exact List.mem_append_right before List.mem_cons_self
              have isOwn : process ∈ unfiltered events := (thinned.mem_iff process).mp isKept
              obtain ⟨earlier, isEarlier, made⟩ := List.mem_filterMap.mp isOwn
              obtain ⟨own, _, isProcess⟩ := Option.map_eq_some_iff.mp made
              have sameName : earlier.name = event.name := by
                rw [← isProcess] at sameIdentity
                exact distinguished earlier (among earlier isEarlier) event
                  (List.mem_append_right _ (List.mem_singleton_self event)) sameIdentity
              have repeated : process = ⟨pid, event.name, true⟩ := by
                rw [← isProcess, ← sameName, ← isPid, ← isProcess]
              rw [split, repeated] at thinned ⊢
              exact thinned.drop _ others

/-- The events of two programs that start: a fork, an exec and a change of name each. -/
def startedPrograms : List ProcEvent :=
  [⟨.fork, 7, 0, "sh"⟩, ⟨.fork, 20, 1, "a"⟩, ⟨.exec, 7, 0, "a"⟩, ⟨.comm, 7, 0, "a"⟩,
    ⟨.comm, 20, 1, "a"⟩, ⟨.exit, 20, 1, "a"⟩]

end AnanicyRs.Daemon.FilteredRuns
