import AnanicyRs.Core.Worker

/-!
Contract: what applying a rule asks of the platform, and what is made of its answers.

Owns the attributes in the order they are attempted, the condition under which each
one leads to a request (`request`), and the refusal of a cpuset (`refusedCpuset`). None of
these mentions an answer of the platform; `applyRule_isolated` says that
`apply_rule` makes exactly the planned requests and classifies the log.
-/

set_option autoImplicit false

namespace AnanicyRs.Core

open AnanicyRs.Lib
open AnanicyRs.Lib.CallLog

/-- What `apply_rule` may set, the `cpu.weight` mirror included. -/
inductive RuleAttribute where
  | nice
  | cpuWeight
  | latencyNice
  | sched
  | ionice
  | oomScoreAdj
  | cgroup
  | cpuset
deriving DecidableEq, Repr

def RuleAttribute.all : List RuleAttribute :=
  [.nice, .cpuWeight, .latencyNice, .sched, .ionice, .oomScoreAdj, .cgroup, .cpuset]

def Setter.kind : Setter → RuleAttribute
  | .setPriority .. => .nice
  | .setCpuWeight .. => .cpuWeight
  | .setLatencyNice .. => .latencyNice
  | .setSched .. => .sched
  | .setIoPriority .. => .ionice
  | .setOomScoreAdj .. => .oomScoreAdj
  | .addPidToCgroup .. => .cgroup
  | .setAffinity .. => .cpuset

/-- The process a request is for. -/
def Setter.pid : Setter → Int32
  | .setPriority pid .. => pid
  | .setCpuWeight pid _ => pid
  | .setLatencyNice pid .. => pid
  | .setSched pid .. => pid
  | .setIoPriority pid .. => pid
  | .setOomScoreAdj pid _ => pid
  | .addPidToCgroup pid _ => pid
  | .setAffinity pid .. => pid

/-- The tasks a request names: the threads where it goes to each of them. -/
def Setter.tasks : Setter → List Int32
  | .setPriority _ tids _ => tids
  | .setLatencyNice _ tids _ => tids
  | .setSched _ tids .. => tids
  | .setAffinity _ tids _ => tids
  | .setCpuWeight pid _ => [pid]
  | .setIoPriority pid .. => [pid]
  | .setOomScoreAdj pid _ => [pid]
  | .addPidToCgroup pid _ => [pid]

/-- The mirror is the one request whose failure does not count. -/
def Setter.isMirror (setter : Setter) : Bool := setter.kind == .cpuWeight

def Platform.logged {σ : Type} (platform : Platform σ) :
    Platform (σ × Log Setter PlatformError) where
  isRealtime pid := fun held =>
    let answered := platform.isRealtime pid held.1
    (answered.1, (answered.2, held.2))
  getProcessName pid := fun held =>
    let answered := platform.getProcessName pid held.1
    (answered.1, (answered.2, held.2))
  getTids pid := fun held =>
    let answered := platform.getTids pid held.1
    (answered.1, (answered.2, held.2))
  isCgroupV2 := platform.isCgroupV2
  getMaxCores := platform.getMaxCores
  perform := CallLog.logged platform.perform

/-- Everything the requests of a rule depend on. -/
structure Situation where
  worker : Worker
  process : Process
  tids : List Int32
  rule : Rule.Accessors
  cfg : ConfigSnapshot
  isRealtime : Bool
  isAffectedByCgroupBug : Bool
  isCgroupV2 : Bool
  maxCores : Nat

namespace Situation

def cpusetStr (situation : Situation) : Option String :=
  situation.rule.cpuset.bind situation.worker.resolveCpuset

/-- A cpuset that is neither an empty alias nor parseable. -/
def refusedCpuset (situation : Situation) : Option PlatformError :=
  if situation.cfg.applyCpuset then
    situation.cpusetStr.bind fun text =>
      if (CpuSet.parse text situation.maxCores).isNone then some (.invalidCpuset text) else none
  else none

/-- The request an attribute leads to, if it is enabled. -/
def request (situation : Situation) : RuleAttribute → Option Setter
  | .nice =>
      if situation.cfg.applyNice then
        situation.rule.nice.map (.setPriority situation.process.pid situation.tids)
      else none
  | .cpuWeight =>
      if situation.cfg.applyNice && (situation.cfg.applyCpuWeight && situation.isCgroupV2) then
        situation.rule.nice.map fun nice =>
          .setCpuWeight situation.process.pid (clampWeight (situation.worker.scaledWeight nice))
      else none
  | .latencyNice =>
      if situation.cfg.applyLatnice then
        situation.rule.effectiveLatencyNice.map
          (.setLatencyNice situation.process.pid situation.tids)
      else none
  | .sched =>
      if situation.cfg.applySched then
        situation.rule.sched.map fun sched =>
          .setSched situation.process.pid situation.tids sched (situation.rule.rtprio.getD 1)
      else none
  | .ionice =>
      if situation.cfg.applyIonice then
        situation.rule.ioclass.map fun ioclass =>
          .setIoPriority situation.process.pid ioclass (situation.rule.ionice.getD 0)
      else none
  | .oomScoreAdj =>
      if situation.cfg.applyOomScoreAdj then
        situation.rule.oomScoreAdj.map (.setOomScoreAdj situation.process.pid)
      else none
  | .cgroup =>
      if situation.cfg.applyCgroups &&
          !(situation.isRealtime && situation.cfg.cgroupRealtimeWorkaround &&
            situation.isAffectedByCgroupBug) then
        situation.rule.cgroup.map (.addPidToCgroup situation.process.pid)
      else none
  | .cpuset =>
      if situation.cfg.applyCpuset then
        (situation.cpusetStr.bind fun text => CpuSet.parse text situation.maxCores).map
          (.setAffinity situation.process.pid situation.tids)
      else none

/-- The requests of a rule, one for each enabled attribute and in their order. -/
def planned (situation : Situation) : List Setter :=
  RuleAttribute.all.filterMap situation.request

theorem kind_request {situation : Situation} {kind : RuleAttribute} {setter : Setter}
    (requested : situation.request kind = some setter) : setter.kind = kind := by
  have named : ∀ {α : Type} {enabled : Bool} {value : Option α} {make : α → Setter},
      (∀ held, (make held).kind = kind) →
        (if enabled then value.map make else none) = some setter →
          setter.kind = kind := by
    intro α enabled value make isNamed made
    split at made
    · obtain ⟨held, _, rfl⟩ := Option.map_eq_some_iff.mp made
      exact isNamed held
    · exact absurd made (by simp)
  cases kind <;> exact named (fun _ => rfl) requested

/-- A request is for the process of its situation, and names that process or its threads. -/
theorem aim_request {situation : Situation} {kind : RuleAttribute} {setter : Setter}
    (requested : situation.request kind = some setter) :
    setter.pid = situation.process.pid ∧
      (setter.tasks = situation.tids ∨ setter.tasks = [situation.process.pid]) := by
  have aimed : ∀ {α : Type} {enabled : Bool} {value : Option α} {make : α → Setter},
      (∀ held, (make held).pid = situation.process.pid ∧
        ((make held).tasks = situation.tids ∨ (make held).tasks = [situation.process.pid])) →
        (if enabled then value.map make else none) = some setter →
          setter.pid = situation.process.pid ∧
            (setter.tasks = situation.tids ∨ setter.tasks = [situation.process.pid]) := by
    intro α enabled value make isAimed made
    split at made
    · obtain ⟨held, _, rfl⟩ := Option.map_eq_some_iff.mp made
      exact isAimed held
    · exact absurd made (by simp)
  cases kind with
  | nice => exact aimed (fun _ => ⟨rfl, .inl rfl⟩) requested
  | cpuWeight => exact aimed (fun _ => ⟨rfl, .inr rfl⟩) requested
  | latencyNice => exact aimed (fun _ => ⟨rfl, .inl rfl⟩) requested
  | sched => exact aimed (fun _ => ⟨rfl, .inl rfl⟩) requested
  | ionice => exact aimed (fun _ => ⟨rfl, .inr rfl⟩) requested
  | oomScoreAdj => exact aimed (fun _ => ⟨rfl, .inr rfl⟩) requested
  | cgroup => exact aimed (fun _ => ⟨rfl, .inr rfl⟩) requested
  | cpuset => exact aimed (fun _ => ⟨rfl, .inl rfl⟩) requested

theorem aim_planned {situation : Situation} {setter : Setter}
    (isPlanned : setter ∈ situation.planned) :
    setter.pid = situation.process.pid ∧
      (setter.tasks = situation.tids ∨ setter.tasks = [situation.process.pid]) := by
  obtain ⟨kind, _, requested⟩ := List.mem_filterMap.mp isPlanned
  exact aim_request requested

theorem eq_of_kind_planned {situation : Situation} {left right : Setter}
    (inLeft : left ∈ situation.planned) (inRight : right ∈ situation.planned)
    (same : left.kind = right.kind) : left = right := by
  obtain ⟨leftKind, _, leftRequested⟩ := List.mem_filterMap.mp inLeft
  obtain ⟨rightKind, _, rightRequested⟩ := List.mem_filterMap.mp inRight
  rw [← kind_request leftRequested, same] at leftRequested
  rw [← kind_request rightRequested] at rightRequested
  exact Option.some.inj (leftRequested.symm.trans rightRequested)

/-- Each attribute is attempted at most once, in the fixed order, and exactly when
it leads to a request. -/
theorem kind_planned (situation : Situation) :
    situation.planned.map Setter.kind =
      RuleAttribute.all.filter fun kind => (situation.request kind).isSome := by
  unfold planned
  induction RuleAttribute.all with
  | nil => rfl
  | cons kind rest inductionHypothesis =>
      cases requested : situation.request kind with
      | none => simpa [requested] using inductionHypothesis
      | some setter =>
          simpa [requested, kind_request requested] using inductionHypothesis

end Situation

/-! ## The steps of `apply_rule` -/

section Steps

variable {σ : Type} (platform : Platform σ)

theorem isolated_attempt {setter : Setter} (counts : setter.isMirror = false) :
    Isolated Setter.isMirror (Worker.attempt platform.logged setter) [setter] [] :=
  isolated_record platform.perform counts

theorem isolated_attemptMirror {setter : Setter} (mirror : setter.isMirror = true) :
    Isolated Setter.isMirror (Worker.attemptMirror platform.logged setter) [setter] [] :=
  isolated_recordOptional platform.perform mirror

theorem isolated_attemptAttribute {α : Type} {make : α → Setter} (enabled : Bool)
    (value : Option α) (counts : ∀ held, (make held).isMirror = false) :
    Isolated Setter.isMirror (Worker.attemptAttribute platform.logged enabled value make)
      (if enabled then value.map make else none).toList [] := by
  cases enabled with
  | false => exact isolated_skip
  | true =>
      cases value with
      | none => exact isolated_skip
      | some held => exact isolated_attempt platform (counts held)

variable (situation : Situation) (v2 : platform.isCgroupV2 = situation.isCgroupV2)
  (bound : platform.getMaxCores = situation.maxCores)

include v2 in
theorem isolated_applyNice :
    Isolated Setter.isMirror
      (situation.worker.applyNice platform.logged situation.process situation.tids situation.rule
        situation.cfg)
      ((situation.request .nice).toList ++ (situation.request .cpuWeight).toList) [] := by
  have isV2 : platform.logged.isCgroupV2 = situation.isCgroupV2 := v2
  unfold Situation.request Worker.applyNice
  cases situation.cfg.applyNice with
  | false => exact isolated_skip
  | true =>
      cases situation.rule.nice with
      | none => simpa using isolated_skip
      | some nice =>
          -- The mirror is asked for whatever the priority was answered.
          simp only [isV2, Bool.true_and, if_true]
          cases situation.cfg.applyCpuWeight && situation.isCgroupV2 with
          | true =>
              exact isolated_bind (isolated_attempt platform rfl)
                (isolated_attemptMirror platform rfl)
          | false => exact isolated_bind (isolated_attempt platform rfl) isolated_skip

theorem isolated_applyCgroup :
    Isolated Setter.isMirror
      (Worker.applyCgroup platform.logged situation.process situation.rule situation.cfg
        situation.isRealtime situation.isAffectedByCgroupBug)
      (situation.request .cgroup).toList [] := by
  unfold Situation.request Worker.applyCgroup
  cases situation.isRealtime && situation.cfg.cgroupRealtimeWorkaround &&
      situation.isAffectedByCgroupBug with
  | true => simpa using isolated_skip
  | false =>
      simp only [Bool.false_eq_true, if_false, Bool.not_false, Bool.and_true]
      exact isolated_attemptAttribute platform _ _ fun _ => rfl

include bound in
theorem isolated_applyCpuset :
    Isolated Setter.isMirror
      (situation.worker.applyCpuset platform.logged situation.process situation.tids
        situation.rule situation.cfg)
      (situation.request .cpuset).toList situation.refusedCpuset.toList := by
  have isBound : platform.logged.getMaxCores = situation.maxCores := bound
  unfold Situation.request Situation.refusedCpuset Situation.cpusetStr Worker.applyCpuset
  cases situation.cfg.applyCpuset with
  | false => exact isolated_skip
  | true =>
      cases situation.rule.cpuset with
      | none => exact isolated_skip
      | some rawCpuset =>
          cases resolved : situation.worker.resolveCpuset rawCpuset with
          | none => simpa [resolved] using isolated_skip
          | some text =>
              cases parsed : CpuSet.parse text situation.maxCores with
              | none => simpa [resolved, parsed, isBound] using isolated_reject _
              | some set =>
                  simpa [resolved, parsed, isBound] using isolated_attempt platform rfl

theorem isolated_applyLatnice :
    Isolated Setter.isMirror
      (Worker.applyLatnice platform.logged situation.process situation.tids situation.rule
        situation.cfg)
      (situation.request .latencyNice).toList [] :=
  isolated_attemptAttribute platform _ _ fun _ => rfl

theorem isolated_applySched :
    Isolated Setter.isMirror
      (Worker.applySched platform.logged situation.process situation.tids situation.rule
        situation.cfg)
      (situation.request .sched).toList [] :=
  isolated_attemptAttribute platform _ _ fun _ => rfl

theorem isolated_applyIonice :
    Isolated Setter.isMirror
      (Worker.applyIonice platform.logged situation.process situation.rule situation.cfg)
      (situation.request .ionice).toList [] :=
  isolated_attemptAttribute platform _ _ fun _ => rfl

theorem isolated_applyOomScoreAdj :
    Isolated Setter.isMirror
      (Worker.applyOomScoreAdj platform.logged situation.process situation.rule situation.cfg)
      (situation.request .oomScoreAdj).toList [] :=
  isolated_attemptAttribute platform _ _ fun _ => rfl

theorem planned_eq (situation : Situation) :
    situation.planned =
      ((situation.request .nice).toList ++ (situation.request .cpuWeight).toList) ++
        ((situation.request .latencyNice).toList ++ ((situation.request .sched).toList ++
          ((situation.request .ionice).toList ++ ((situation.request .oomScoreAdj).toList ++
            ((situation.request .cgroup).toList ++ (situation.request .cpuset).toList))))) := by
  have head : ∀ kind rest, (kind :: rest).filterMap situation.request =
      (situation.request kind).toList ++ rest.filterMap situation.request := by
    intro kind rest
    cases requested : situation.request kind <;> simp [requested]
  unfold Situation.planned RuleAttribute.all
  simp only [head, List.filterMap_nil, List.append_nil, List.append_assoc]

include v2 bound in
/-- `apply_rule` is its planned requests, then the classification of their log. -/
theorem applyRule_logged (state : σ) (log : Log Setter PlatformError) :
    ∃ entries next, entries.map Prod.fst = situation.planned ∧
      situation.worker.applyRule platform.logged situation.process situation.tids situation.rule
          situation.cfg situation.isRealtime situation.isAffectedByCgroupBug (state, log) =
        (Worker.outcome (Tally.start.over Setter.isMirror entries situation.refusedCpuset.toList),
          (next, log ++ entries)) := by
  have isolated := isolated_bind (isolated_applyNice platform situation v2)
    (isolated_bind (isolated_applyLatnice platform situation)
      (isolated_bind (isolated_applySched platform situation)
        (isolated_bind (isolated_applyIonice platform situation)
          (isolated_bind (isolated_applyOomScoreAdj platform situation)
            (isolated_bind (isolated_applyCgroup platform situation)
              (isolated_applyCpuset platform situation bound))))))
  rw [← planned_eq] at isolated
  obtain ⟨entries, next, asked, run⟩ := isolated Tally.start state log
  exact ⟨entries, next, asked, congrArg (Prod.map Worker.outcome id) run⟩

end Steps

/-! ## The result -/

def Situation.of {σ : Type} (worker : Worker) (platform : Platform σ) (p : Process)
    (tids : List Int32) (rule : Rule.Accessors) (cfg : ConfigSnapshot)
    (isRealtime isAffectedByCgroupBug : Bool) : Situation where
  worker := worker
  process := p
  tids := tids
  rule := rule
  cfg := cfg
  isRealtime := isRealtime
  isAffectedByCgroupBug := isAffectedByCgroupBug
  isCgroupV2 := platform.isCgroupV2
  maxCores := platform.getMaxCores

/-- The four results, by whether anything succeeded and which failure came first. -/
structure Classified (result : Except PlatformError RuleApplication) (anySuccess : Prop)
    (failures : List PlatformError) : Prop where
  applied : result = .ok .applied ↔ anySuccess ∧ failures = []
  failed : ∀ e, result = .error e ↔ ¬ anySuccess ∧ failures.head? = some e
  partially : ∀ e, result = .ok (.partially e) ↔ anySuccess ∧ failures.head? = some e
  noApplicable : result = .ok .noApplicable ↔ ¬ anySuccess ∧ failures = []

theorem classified_outcome (log : Log Setter PlatformError) (rejected : List PlatformError) :
    Classified (Worker.outcome (Tally.start.over Setter.isMirror log rejected))
      (∃ entry ∈ log, entry.2 = .ok ()) (failures Setter.isMirror log rejected) := by
  have anyOk : log.any succeeded = true ↔ ∃ entry ∈ log, entry.2 = .ok () := by
    rw [List.any_eq_true]
    refine exists_congr fun entry => and_congr_right fun _ => ?_
    unfold succeeded
    cases entry.2 <;> simp
  have first : (Tally.start.over Setter.isMirror log rejected).firstFailure =
      (failures Setter.isMirror log rejected).head? := rfl
  have any : (Tally.start.over Setter.isMirror log rejected).anySuccess = log.any succeeded := rfl
  rw [← anyOk]
  unfold Worker.outcome
  rw [first, any]
  cases log.any succeeded <;> cases failures Setter.isMirror log rejected <;>
    constructor <;> simp

/-- Whatever the platform answers, applying a rule makes the planned requests and no
others, one for each enabled attribute and in the fixed order; and its result is
the classification of their outcomes and of a refused cpuset. -/
theorem applyRule_isolated {σ : Type} (worker : Worker) (platform : Platform σ) (p : Process)
    (tids : List Int32) (rule : Rule.Accessors) (cfg : ConfigSnapshot)
    (isRealtime isAffectedByCgroupBug : Bool) (state : σ) :
    ∃ result log next,
      worker.applyRule platform.logged p tids rule cfg isRealtime isAffectedByCgroupBug
          (state, []) = (result, (next, log)) ∧
      log.map Prod.fst =
        (Situation.of worker platform p tids rule cfg isRealtime isAffectedByCgroupBug).planned ∧
      log.map (fun entry => entry.1.kind) =
        RuleAttribute.all.filter (fun kind => ((Situation.of worker platform p tids rule cfg
          isRealtime isAffectedByCgroupBug).request kind).isSome) ∧
      Classified result (∃ entry ∈ log, entry.2 = .ok ())
        (failures Setter.isMirror log (Situation.of worker platform p tids rule cfg isRealtime
          isAffectedByCgroupBug).refusedCpuset.toList) := by
  obtain ⟨log, next, asked, run⟩ := applyRule_logged platform
    (Situation.of worker platform p tids rule cfg isRealtime isAffectedByCgroupBug) rfl rfl state []
  refine ⟨_, log, next, run, asked, ?_, classified_outcome log _⟩
  rw [← Situation.kind_planned, ← asked, List.map_map]
  rfl

end AnanicyRs.Core
