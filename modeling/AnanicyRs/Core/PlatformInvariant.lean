import AnanicyRs.Core.Worker
import AnanicyRs.Lib.StateInvariant

/-!
Contract: what every answer of the platform keeps, the worker keeps.

Owns `Keeps`, an invariant of the platform's state that survives each question and each
request, and its passage through `apply_rule` and one pass of the loop. The worker touches
the platform in no other way, so there is nothing more to prove for a new invariant.
-/

set_option autoImplicit false

namespace AnanicyRs.Core

open AnanicyRs.Lib.CallLog
open AnanicyRs.Lib.StateInvariant

variable {σ ρ κ : Type}

structure Platform.Keeps (platform : Platform σ) (inv : σ → Prop) : Prop where
  isRealtime : ∀ pid, Maintains inv (platform.isRealtime pid)
  getProcessName : ∀ pid, Maintains inv (platform.getProcessName pid)
  getTids : ∀ pid, Maintains inv (platform.getTids pid)
  perform : ∀ setter, Maintains inv (platform.perform setter)

namespace Worker

variable {platform : Platform σ} {inv : σ → Prop}

theorem attempt_maintains (keeps : platform.Keeps inv) (setter : Setter)
    (tally : Tally PlatformError) : Maintains inv (attempt platform setter tally) :=
  maintains_bind (keeps.perform setter) fun _ => maintains_pure _

theorem attemptMirror_maintains (keeps : platform.Keeps inv) (setter : Setter)
    (tally : Tally PlatformError) : Maintains inv (attemptMirror platform setter tally) :=
  maintains_bind (keeps.perform setter) fun _ => maintains_pure _

theorem attemptAttribute_maintains {α : Type} (keeps : platform.Keeps inv) (enabled : Bool)
    (value : Option α) (make : α → Setter) (tally : Tally PlatformError) :
    Maintains inv (attemptAttribute platform enabled value make tally) := by
  unfold attemptAttribute
  apply maintains_ite _ (maintains_pure tally)
  cases value with
  | none => exact maintains_pure tally
  | some held => exact attempt_maintains keeps (make held) tally

variable (worker : Worker) (p : Process) (tids : List Int32) (rule : Rule.Accessors)
  (cfg : ConfigSnapshot) (isRealtime isAffectedByCgroupBug : Bool)

theorem applyNice_maintains (keeps : platform.Keeps inv) (tally : Tally PlatformError) :
    Maintains inv (worker.applyNice platform p tids rule cfg tally) := by
  unfold applyNice
  apply maintains_ite _ (maintains_pure tally)
  cases rule.nice with
  | none => exact maintains_pure tally
  | some nice =>
      refine maintains_bind (attempt_maintains keeps _ tally) fun counted => ?_
      exact maintains_ite (attemptMirror_maintains keeps _ counted) (maintains_pure counted)

theorem applyCpuset_maintains (keeps : platform.Keeps inv) (tally : Tally PlatformError) :
    Maintains inv (worker.applyCpuset platform p tids rule cfg tally) := by
  unfold applyCpuset
  apply maintains_ite _ (maintains_pure tally)
  cases rule.cpuset with
  | none => exact maintains_pure tally
  | some rawCpuset =>
      simp only
      split
      · split
        · exact attempt_maintains keeps _ tally
        · exact maintains_pure _
      · exact maintains_pure tally

theorem applyRule_maintains (keeps : platform.Keeps inv) :
    Maintains inv (worker.applyRule platform p tids rule cfg isRealtime isAffectedByCgroupBug) := by
  unfold applyRule
  refine maintains_bind (applyNice_maintains worker p tids rule cfg keeps _) fun _ => ?_
  refine maintains_bind (attemptAttribute_maintains keeps _ _ _ _) fun _ => ?_
  refine maintains_bind (attemptAttribute_maintains keeps _ _ _ _) fun _ => ?_
  refine maintains_bind (attemptAttribute_maintains keeps _ _ _ _) fun _ => ?_
  refine maintains_bind (attemptAttribute_maintains keeps _ _ _ _) fun _ => ?_
  refine maintains_bind ?_ fun _ => ?_
  · exact maintains_ite (maintains_pure _) (attemptAttribute_maintains keeps _ _ _ _)
  · exact maintains_bind (applyCpuset_maintains worker p tids rule cfg keeps _)
      fun _ => maintains_pure _

theorem resolveName_maintains (keeps : platform.Keeps inv) :
    Maintains inv (resolveName platform p) := by
  unfold resolveName
  apply maintains_ite (maintains_pure p)
  refine maintains_bind (keeps.getProcessName p.pid) fun fullName => ?_
  exact maintains_ite (maintains_pure _) (maintains_pure p)

theorem threadsOf_maintains (keeps : platform.Keeps inv) :
    Maintains inv (threadsOf platform p) := by
  unfold threadsOf
  refine maintains_bind (keeps.getTids p.pid) fun answer => ?_
  split
  · exact maintains_pure _
  · exact maintains_pure _
  · exact maintains_pure _

/-- One pass of the loop keeps what the platform keeps. -/
theorem handle_maintains (keeps : platform.Keeps inv) (crates : Crates ρ κ) (received : Process)
    (rules : Rules ρ κ) {state : σ} (holds : inv state) :
    inv (worker.handle crates platform cfg received (state, rules)).2.1 := by
  unfold handle
  split
  · exact holds
  · have named := resolveName_maintains received keeps state holds
    cases resolved : resolveName platform received state with
    | mk p afterName =>
        rw [resolved] at named
        have asked := keeps.isRealtime p.pid afterName named
        simp only
        cases (Rules.getRule crates (lookupName p.name) rules).1 with
        | none => exact asked
        | some answer =>
            have listed := threadsOf_maintains p keeps _ asked
            exact applyRule_maintains worker p _ _ cfg _ _ keeps _ listed

end Worker

end AnanicyRs.Core
