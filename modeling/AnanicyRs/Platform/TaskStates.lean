import AnanicyRs.Lib.Updates
import AnanicyRs.Platform.LatencyNice
import AnanicyRs.Platform.Linux

/-!
Contract: what the setters of `LinuxPlatform` leave behind in the tasks.

Owns the state of a task, as far as a rule can change it, and what an accepted call makes of
it: the scheduling state as `sched_setattr(2)` and its kin change it, the I/O priority, the
score for the OOM killer and the CPUs that were asked for. Over such a kernel each setter has
an effect of its own (`assigns`), on the tasks it names and on no other.

`performLive_view` says that a kernel that accepts everything ends in exactly that effect, and
`perform_moves` that no kernel is moved anywhere else. The cgroup file system is not part of
the state of a task.
-/

set_option autoImplicit false

namespace AnanicyRs.Platform.Linux

open AnanicyRs.Core
open AnanicyRs.Lib
open AnanicyRs.Lib.ByteMask
open AnanicyRs.Lib.CallLog
open AnanicyRs.Lib.StateInvariant
open AnanicyRs.Platform.Priority (SchedState schedChoice ioClassValue ioprioValid ioprioPrioValue
  latencyNiceAttr Syscall)

variable {τ : Type}

/-! ## The kernel -/

structure TaskState where
  sched : SchedState
  ioprio : Int32
  oomScoreAdj : Int32
  /-- The CPUs that were last asked for. -/
  affinity : Nat → Bool

/-- What an accepted call makes of its task. -/
def Deed.applyTo : Deed → TaskState → TaskState
  | .syscall (.setpriority _ nice), task => { task with sched := { task.sched with nice } }
  | .syscall (.schedSetattr _ attr), task => { task with sched := attr.applyTo task.sched }
  | .syscall (.schedSetscheduler _ policy priority), task =>
      { task with sched := { task.sched with
          policy := policy.toUInt32, rtPriority := priority.toUInt32 } }
  | .syscall (.ioprioSet _ ioprio), task => { task with ioprio }
  | .schedSetaffinity _ mask, task => { task with affinity := testBit mask }
  | .writeOomScoreAdj _ text, task =>
      match Text.parseI32 text with
      | some oomScoreAdj => { task with oomScoreAdj }
      | none => task

/-- The task a call is about: zero stands for the caller. -/
def aimedAt (caller task : Int32) : Int32 := if task = 0 then caller else task

/-- A kernel, seen through the states of its tasks: a refused call leaves all of them as they
are, an accepted one changes only its task, and no question changes any. -/
structure TaskKernel (τ : Type) where
  calls : Calls τ
  caller : Int32
  view : τ → Int32 → TaskState
  refused : ∀ deed state e, (calls.deed deed state).1 = .error e →
    view (calls.deed deed state).2 = view state
  accepted : ∀ deed state, (calls.deed deed state).1 = .ok () →
    view (calls.deed deed state).2 =
      Function.update (view state) (aimedAt caller deed.task)
        (deed.applyTo (view state (aimedAt caller deed.task)))
  asks : ∀ tasks, calls.Asks fun state => view state = tasks

namespace TaskKernel

variable (kernel : TaskKernel τ)

def AcceptsAll : Prop := ∀ deed state, (kernel.calls.deed deed state).1 = .ok ()

/-- The tasks a setter names. -/
def targets (setter : Setter) : List Int32 := setter.tasks.map (aimedAt kernel.caller)

end TaskKernel

/-! ## What a setter is for -/

/-- One field of a task, or the two that a policy is made of, with its new value. -/
inductive Assignment where
  | nice (value : Int32)
  | latencyNice (value : Int32)
  | policy (value rtPriority : UInt32)
  | ioprio (value : Int32)
  | oomScoreAdj (value : Int32)
  | affinity (cpus : Nat → Bool)

namespace Assignment

def kind : Assignment → RuleAttribute
  | .nice _ => .nice
  | .latencyNice _ => .latencyNice
  | .policy .. => .sched
  | .ioprio _ => .ionice
  | .oomScoreAdj _ => .oomScoreAdj
  | .affinity _ => .cpuset

def applyTo : Assignment → TaskState → TaskState
  | .nice value, task => { task with sched := { task.sched with nice := value } }
  | .latencyNice value, task => { task with sched := { task.sched with latencyNice := value } }
  | .policy value priority, task =>
      { task with sched := { task.sched with policy := value, rtPriority := priority } }
  | .ioprio value, task => { task with ioprio := value }
  | .oomScoreAdj value, task => { task with oomScoreAdj := value }
  | .affinity cpus, task => { task with affinity := cpus }

theorem applyTo_same {first second : Assignment} (same : first.kind = second.kind)
    (task : TaskState) : second.applyTo (first.applyTo task) = second.applyTo task := by
  cases first <;> cases second <;> first | rfl | exact absurd same (by simp [kind])

theorem applyTo_commute {first second : Assignment} (different : first.kind ≠ second.kind)
    (task : TaskState) :
    second.applyTo (first.applyTo task) = first.applyTo (second.applyTo task) := by
  cases first <;> cases second <;> first | rfl | exact absurd rfl different

end Assignment

/-- What a setter assigns to each task it names, on a machine with `numCpus` CPUs. -/
def assigns (numCpus : Nat) : Setter → Option Assignment
  | .setPriority _ _ nice => some (.nice nice)
  | .setLatencyNice _ _ latencyNice => some (.latencyNice latencyNice)
  | .setSched _ _ sched rtprio => (schedChoice sched rtprio).map fun choice =>
      .policy choice.policy choice.schedPriority.toUInt32
  | .setIoPriority _ ioclass ionice => (ioClassValue ioclass).bind fun ioClass =>
      if ioprioValid ioClass then some (.ioprio (ioprioPrioValue ioClass ionice)) else none
  | .setOomScoreAdj _ oomScoreAdj => some (.oomScoreAdj oomScoreAdj)
  | .setAffinity _ _ cpuset =>
      if cpuset.isEmpty then none
      else some (.affinity fun cpu => cpuset.hasCpu cpu && decide (cpu < numCpus))
  | .setCpuWeight .. => none
  | .addPidToCgroup .. => none

theorem kind_assigns {numCpus : Nat} {setter : Setter} {assignment : Assignment}
    (assigned : assigns numCpus setter = some assignment) :
    assignment.kind = setter.kind := by
  cases setter with
  | setPriority pid tids nice =>
      rw [← Option.some.inj assigned]
      rfl
  | setLatencyNice pid tids latencyNice =>
      rw [← Option.some.inj assigned]
      rfl
  | setOomScoreAdj pid oomScoreAdj =>
      rw [← Option.some.inj assigned]
      rfl
  | setSched pid tids sched rtprio =>
      obtain ⟨choice, _, rfl⟩ := Option.map_eq_some_iff.mp assigned
      rfl
  | setIoPriority pid ioclass ionice =>
      obtain ⟨ioClass, _, valid⟩ := Option.bind_eq_some_iff.mp assigned
      split at valid
      · rw [← Option.some.inj valid]
        rfl
      · exact absurd valid (by simp)
  | setAffinity pid tids cpuset =>
      cases empty : cpuset.isEmpty with
      | true => exact absurd assigned (by simp [assigns, empty])
      | false =>
          rw [assigns, empty] at assigned
          rw [← Option.some.inj assigned]
          rfl
  | setCpuWeight pid weight => exact absurd assigned (by simp [assigns])
  | addPidToCgroup pid cgroup => exact absurd assigned (by simp [assigns])

namespace TaskKernel

variable (kernel : TaskKernel τ) (numCpus : Nat)

/-- A setter's effect on all tasks. -/
def settle (tasks : Int32 → TaskState) (setter : Setter) : Int32 → TaskState := fun task =>
  match assigns numCpus setter with
  | some assignment =>
      if task ∈ kernel.targets setter then assignment.applyTo (tasks task) else tasks task
  | none => tasks task

theorem settle_again (setter : Setter) (tasks : Int32 → TaskState) :
    kernel.settle numCpus (kernel.settle numCpus tasks setter) setter =
      kernel.settle numCpus tasks setter := by
  funext task
  unfold settle
  cases assigns numCpus setter with
  | none => rfl
  | some assignment =>
      by_cases named : task ∈ kernel.targets setter
      · simp only [if_pos named, Assignment.applyTo_same rfl]
      · simp only [if_neg named]

theorem settle_commute {left right : Setter} (different : left.kind ≠ right.kind)
    (tasks : Int32 → TaskState) :
    kernel.settle numCpus (kernel.settle numCpus tasks left) right =
      kernel.settle numCpus (kernel.settle numCpus tasks right) left := by
  funext task
  unfold settle
  cases leftAssigns : assigns numCpus left with
  | none => rfl
  | some first =>
      cases rightAssigns : assigns numCpus right with
      | none => rfl
      | some second =>
          have apart : first.kind ≠ second.kind := by
            rw [kind_assigns leftAssigns, kind_assigns rightAssigns]
            exact different
          by_cases inLeft : task ∈ kernel.targets left
          · by_cases inRight : task ∈ kernel.targets right
            · simp only [if_pos inLeft, if_pos inRight, Assignment.applyTo_commute apart]
            · simp only [if_pos inLeft, if_neg inRight]
          · by_cases inRight : task ∈ kernel.targets right
            · simp only [if_neg inLeft, if_pos inRight]
            · simp only [if_neg inLeft, if_neg inRight]

theorem settle_unnamed {setter : Setter} {task : Int32} (unnamed : task ∉ kernel.targets setter)
    (tasks : Int32 → TaskState) : kernel.settle numCpus tasks setter task = tasks task := by
  unfold settle
  cases assigns numCpus setter with
  | none => rfl
  | some assignment => exact if_neg unnamed

theorem settle_named {setter : Setter} {assignment : Assignment} {task : Int32}
    (assigned : assigns numCpus setter = some assignment) (named : task ∈ kernel.targets setter)
    (tasks : Int32 → TaskState) :
    kernel.settle numCpus tasks setter task = assignment.applyTo (tasks task) := by
  unfold settle
  rw [assigned]
  exact if_pos named

/-- A setter looks at no other task. -/
theorem settle_local {tasks others : Int32 → TaskState} {task : Int32}
    (same : tasks task = others task) (setter : Setter) :
    kernel.settle numCpus tasks setter task = kernel.settle numCpus others setter task := by
  unfold settle
  rw [same]

/-- Setters that share no task do not meet. -/
theorem settle_commute_apart {left right : Setter}
    (apart : ∀ task ∈ kernel.targets left, task ∉ kernel.targets right)
    (tasks : Int32 → TaskState) :
    kernel.settle numCpus (kernel.settle numCpus tasks left) right =
      kernel.settle numCpus (kernel.settle numCpus tasks right) left := by
  funext task
  by_cases inLeft : task ∈ kernel.targets left
  · have unnamed := kernel.settle_unnamed numCpus (apart task inLeft)
    rw [unnamed]
    exact kernel.settle_local numCpus (unnamed tasks).symm left
  · have unnamed := kernel.settle_unnamed numCpus inLeft
    rw [unnamed]
    exact kernel.settle_local numCpus (unnamed tasks) right

/-- A task has what it was assigned, until something else of that kind is assigned to it. -/
theorem applyTo_settle {assignment : Assignment} {setter : Setter} {task : Int32}
    {tasks : Int32 → TaskState} (has : assignment.applyTo (tasks task) = tasks task)
    (other : setter.kind = assignment.kind → task ∉ kernel.targets setter) :
    assignment.applyTo (kernel.settle numCpus tasks setter task) =
      kernel.settle numCpus tasks setter task := by
  by_cases named : task ∈ kernel.targets setter
  · unfold settle
    cases assigned : assigns numCpus setter with
    | none => exact has
    | some later =>
        have different : later.kind ≠ assignment.kind := by
          rw [kind_assigns assigned]
          exact fun same => other same named
        simp only [if_pos named]
        rw [Assignment.applyTo_commute different, has]
  · rw [kernel.settle_unnamed numCpus named]
    exact has

theorem applyTo_foldl_settle {assignment : Assignment} {task : Int32} {setters : List Setter}
    (others : ∀ setter ∈ setters, setter.kind = assignment.kind → task ∉ kernel.targets setter)
    {tasks : Int32 → TaskState} (has : assignment.applyTo (tasks task) = tasks task) :
    assignment.applyTo (setters.foldl (kernel.settle numCpus) tasks task) =
      setters.foldl (kernel.settle numCpus) tasks task := by
  induction setters generalizing tasks with
  | nil => exact has
  | cons setter rest inductionHypothesis =>
      rw [List.foldl_cons]
      apply inductionHypothesis fun later member => others later (List.mem_cons_of_mem _ member)
      exact kernel.applyTo_settle numCpus has (others setter List.mem_cons_self)

/-- The last of the setters that name a task for an attribute is the one that counts. -/
theorem applyTo_last {setter : Setter} {assignment : Assignment} {task : Int32}
    {before after : List Setter} (assigned : assigns numCpus setter = some assignment)
    (named : task ∈ kernel.targets setter)
    (last : ∀ later ∈ after, later.kind = setter.kind → task ∉ kernel.targets later)
    (tasks : Int32 → TaskState) :
    assignment.applyTo ((before ++ setter :: after).foldl (kernel.settle numCpus) tasks task) =
      (before ++ setter :: after).foldl (kernel.settle numCpus) tasks task := by
  rw [List.foldl_append, List.foldl_cons]
  apply kernel.applyTo_foldl_settle numCpus
  · rw [kind_assigns assigned]
    exact last
  · rw [kernel.settle_named numCpus assigned named, Assignment.applyTo_same rfl]

end TaskKernel

/-! ## Any kernel -/

/-- What a setter may assign: a retry of `set_affinity` asks for fewer CPUs. -/
def Obeys (numCpus : Nat) (setter : Setter) (assignment : Assignment) : Prop :=
  assigns numCpus setter = some assignment ∨
    ∃ pid tids cpuset cpus, setter = .setAffinity pid tids cpuset ∧ assignment = .affinity cpus ∧
      ∀ cpu, cpus cpu = true → cpuset.hasCpu cpu = true

theorem Obeys.kind {numCpus : Nat} {setter : Setter} {assignment : Assignment}
    (obeys : Obeys numCpus setter assignment) : assignment.kind = setter.kind := by
  cases obeys with
  | inl assigned => exact kind_assigns assigned
  | inr narrower =>
      obtain ⟨pid, tids, cpuset, cpus, rfl, rfl, _⟩ := narrower
      rfl

/-- A call that serves a setter makes an assignment of that setter. -/
theorem obeys_of_serves (numCpus : Nat) {setter : Setter} {deed : Deed}
    (serves : Serves setter deed) :
    ∃ assignment, Obeys numCpus setter assignment ∧ ∀ task, deed.applyTo task = assignment.applyTo task := by
  cases setter with
  | setPriority pid tids nice =>
      obtain ⟨tid, _, rfl⟩ := serves
      exact ⟨.nice nice, .inl rfl, fun _ => rfl⟩
  | setLatencyNice pid tids latencyNice =>
      obtain ⟨tid, _, rfl⟩ := serves
      refine ⟨.latencyNice latencyNice, .inl rfl, fun task => ?_⟩
      show { task with sched := _ } = { task with sched := _ }
      rw [Priority.applyTo_latencyNiceAttr]
  | setSched pid tids sched rtprio =>
      obtain ⟨tid, _, choice, chosen, rfl⟩ := serves
      refine ⟨.policy choice.policy choice.schedPriority.toUInt32, .inl ?_, fun _ => rfl⟩
      rw [assigns, chosen]
      rfl
  | setIoPriority pid ioclass ionice =>
      obtain ⟨ioClass, isClass, valid, rfl⟩ := serves
      refine ⟨.ioprio (ioprioPrioValue ioClass ionice), .inl ?_, fun _ => rfl⟩
      rw [assigns, isClass, Option.bind_some, if_pos valid]
  | setOomScoreAdj pid oomScoreAdj =>
      obtain rfl := serves
      refine ⟨.oomScoreAdj oomScoreAdj, .inl rfl, fun task => ?_⟩
      have read : Text.parseI32 (toString oomScoreAdj) = some oomScoreAdj :=
        Text.parseI32_toString oomScoreAdj
      rw [Deed.applyTo, read]
      rfl
  | setAffinity pid tids cpuset =>
      obtain ⟨tid, _, mask, rfl, within⟩ := serves
      exact ⟨.affinity (testBit mask), .inr ⟨pid, tids, cpuset, _, rfl, rfl, within⟩, fun _ => rfl⟩
  | setCpuWeight pid weight => exact serves.elim
  | addPidToCgroup pid cgroup => exact serves.elim

/-- What a setter may have made of a task it names, whatever the kernel says. -/
def Moves (numCpus : Nat) (setter : Setter) (before after : TaskState) : Prop :=
  after = before ∨ ∃ assignment, Obeys numCpus setter assignment ∧ after = assignment.applyTo before

theorem Moves.again {numCpus : Nat} {setter : Setter} {before after : TaskState}
    {assignment : Assignment} (moves : Moves numCpus setter before after)
    (obeys : Obeys numCpus setter assignment) :
    Moves numCpus setter before (assignment.applyTo after) := by
  refine .inr ⟨assignment, obeys, ?_⟩
  cases moves with
  | inl same => rw [same]
  | inr assigned =>
      obtain ⟨earlier, obeysToo, rfl⟩ := assigned
      exact Assignment.applyTo_same (obeysToo.kind.trans obeys.kind.symm) before

namespace TaskKernel

variable (kernel : TaskKernel τ)

theorem asks_view (inv : (Int32 → TaskState) → Prop) :
    kernel.calls.Asks fun state => inv (kernel.view state) where
  schedGetattr pid := maintains_of_frame (fun tasks => (kernel.asks tasks).schedGetattr pid) inv
  commandName pid := maintains_of_frame (fun tasks => (kernel.asks tasks).commandName pid) inv
  taskNames pid := maintains_of_frame (fun tasks => (kernel.asks tasks).taskNames pid) inv
  cpuFiles := maintains_of_frame (fun tasks => (kernel.asks tasks).cpuFiles) inv
  pidReads pid := maintains_of_frame (fun tasks => (kernel.asks tasks).pidReads pid) inv
  processCgroup pid := maintains_of_frame (fun tasks => (kernel.asks tasks).processCgroup pid) inv

/-- What a setter may have made of all tasks. -/
def MovesAll (numCpus : Nat) (setter : Setter) (before after : Int32 → TaskState) : Prop :=
  ∀ task, (task ∈ kernel.targets setter → Moves numCpus setter (before task) (after task)) ∧
    (task ∉ kernel.targets setter → after task = before task)

variable {kernel} {numCpus : Nat} {setter : Setter}

theorem movesAll_refl (tasks : Int32 → TaskState) : kernel.MovesAll numCpus setter tasks tasks :=
  fun _ => ⟨fun _ => .inl rfl, fun _ => rfl⟩

theorem deed_moves {deed : Deed} (serves : Serves setter deed) (before : Int32 → TaskState) :
    Maintains (fun state => kernel.MovesAll numCpus setter before (kernel.view state))
      (kernel.calls.deed deed) := by
  intro state moves
  cases answered : (kernel.calls.deed deed state).1 with
  | error e =>
      rw [kernel.refused deed state e answered]
      exact moves
  | ok =>
      obtain ⟨assignment, obeys, isAssignment⟩ := obeys_of_serves numCpus serves
      have named : aimedAt kernel.caller deed.task ∈ kernel.targets setter :=
        List.mem_map_of_mem serves.task
      rw [kernel.accepted deed state answered]
      intro task
      by_cases isTask : task = aimedAt kernel.caller deed.task
      · subst isTask
        rw [Function.update_self, isAssignment]
        exact ⟨fun _ => ((moves _).1 named).again obeys, fun outside => absurd named outside⟩
      · rw [Function.update_of_ne isTask]
        exact moves task

/-- Whatever the kernel says, a setter makes of the tasks it names only what it is for, and
nothing of the others. -/
theorem perform_moves (setup : Setup) (setter : Setter) (state : State τ) :
    kernel.MovesAll numCpus setter (kernel.view state.kernel)
      (kernel.view (perform setup kernel.calls setter state).2.kernel) := by
  have kept : Maintains
      (Done (fun reached => kernel.MovesAll numCpus setter (kernel.view state.kernel)
        (kernel.view reached)) (fun _ => True) fun _ => True)
      (perform setup kernel.calls setter) :=
    perform_maintains setup kernel.calls FileSystem.keptByDirs_true (kernel.asks_view _) setter
      (fun _ serves => deed_moves serves _) fun _ _ => trivial
  exact (kept state ⟨movesAll_refl _, fun _ _ => trivial, trivial⟩).kernel

end TaskKernel

/-- The probe of a reload changes the thread it runs on and no other task. -/
theorem TaskKernel.testLatniceSupport_frame (kernel : TaskKernel τ) {thread task : Int32}
    (other : task ≠ aimedAt kernel.caller thread) (state : τ) :
    kernel.view (testLatniceSupport kernel.calls thread state).2 task = kernel.view state task := by
  refine @testLatniceSupport_maintains _ kernel.calls
    (fun reached => kernel.view reached task = kernel.view state task) thread ?_ ?_ state rfl
  · exact (kernel.asks_view fun tasks => tasks task = kernel.view state task).schedGetattr thread
  · intro deed isProbe reached same
    obtain ⟨value, rfl⟩ := isProbe
    cases answered : (kernel.calls.deed _ reached).1 with
    | error e => rw [kernel.refused _ reached e answered, same]
    | ok =>
        rw [kernel.accepted _ reached answered]
        exact (Function.update_of_ne other _ _).trans same

/-! ## A kernel that accepts everything -/

namespace TaskKernel

section Accepting

variable {kernel : TaskKernel τ}

/-- The tasks that are named get the assignment, and the others stay. -/
def assign (kernel : TaskKernel τ) (named : List Int32) (assignment : Assignment)
    (tasks : Int32 → TaskState) : Int32 → TaskState := fun task =>
  if task ∈ named.map (aimedAt kernel.caller) then assignment.applyTo (tasks task) else tasks task

theorem settle_of_assigns {numCpus : Nat} {setter : Setter} {assignment : Assignment}
    (assigned : assigns numCpus setter = some assignment) (tasks : Int32 → TaskState) :
    kernel.settle numCpus tasks setter = kernel.assign setter.tasks assignment tasks := by
  unfold settle
  rw [assigned]
  rfl

theorem settle_of_none {numCpus : Nat} {setter : Setter} (nothing : assigns numCpus setter = none)
    (tasks : Int32 → TaskState) : kernel.settle numCpus tasks setter = tasks := by
  unfold settle
  rw [nothing]

theorem view_deed (accepts : kernel.AcceptsAll) {deed : Deed} {assignment : Assignment}
    (isAssignment : ∀ task, deed.applyTo task = assignment.applyTo task) (state : τ) :
    kernel.view (kernel.calls.deed deed state).2 =
      kernel.assign [deed.task] assignment (kernel.view state) := by
  rw [kernel.accepted deed state (accepts deed state), isAssignment]
  funext task
  unfold assign
  rw [List.map_singleton]
  by_cases isTask : task = aimedAt kernel.caller deed.task
  · rw [if_pos (List.mem_singleton.mpr isTask), isTask, Function.update_self]
  · rw [if_neg (mt List.mem_singleton.mp isTask), Function.update_of_ne isTask]

theorem assign_cons (first : Int32) (rest : List Int32) (assignment : Assignment)
    (tasks : Int32 → TaskState) :
    kernel.assign rest assignment (kernel.assign [first] assignment tasks) =
      kernel.assign (first :: rest) assignment tasks := by
  funext task
  unfold assign
  simp only [List.map_cons, List.map_nil, List.mem_cons, List.not_mem_nil, or_false]
  by_cases isFirst : task = aimedAt kernel.caller first
  · by_cases later : task ∈ rest.map (aimedAt kernel.caller)
    · rw [if_pos later, if_pos isFirst, if_pos (.inl isFirst), Assignment.applyTo_same rfl]
    · rw [if_neg later, if_pos isFirst, if_pos (.inl isFirst)]
  · by_cases later : task ∈ rest.map (aimedAt kernel.caller)
    · rw [if_pos later, if_neg isFirst, if_pos (.inr later)]
    · rw [if_neg later, if_neg isFirst, if_neg (by simp [isFirst, later])]

/-- One call for each thread, all of them accepted: every thread has the assignment, and no
error is remembered. -/
theorem collect_view (accepts : kernel.AcceptsAll) {deedOf : Int32 → Deed}
    {assignment : Assignment} (isTask : ∀ tid, (deedOf tid).task = tid)
    (isAssignment : ∀ tid task, (deedOf tid).applyTo task = assignment.applyTo task)
    (tids : List Int32) (held : Sweep) (state : τ) :
    let run := collect Sweep.record kernel.calls.deed (tids.map deedOf) held state
    kernel.view run.2 = kernel.assign tids assignment (kernel.view state) ∧
      run.1.firstReal = held.firstReal ∧ run.1.notFound = held.notFound := by
  induction tids generalizing held state with
  | nil => exact ⟨rfl, rfl, rfl⟩
  | cons tid rest inductionHypothesis =>
      let next := (kernel.calls.deed (deedOf tid) state).2
      have unfolded : collect Sweep.record kernel.calls.deed ((tid :: rest).map deedOf) held state =
          collect Sweep.record kernel.calls.deed (rest.map deedOf) (held.record (.ok ())) next := by
        rw [List.map_cons]
        show collect Sweep.record kernel.calls.deed (rest.map deedOf)
          (held.record (kernel.calls.deed (deedOf tid) state).1) next = _
        rw [accepts]
      have first := view_deed accepts (isAssignment tid) state
      have others := inductionHypothesis (held.record (.ok ())) next
      rw [isTask] at first
      simp only [unfolded]
      rw [others.1, first, assign_cons]
      exact ⟨rfl, others.2⟩

theorem view_forThreads (accepts : kernel.AcceptsAll) (describe : Errno → String)
    {request : Int32 → Syscall} {assignment : Assignment}
    (isTask : ∀ tid, (Deed.syscall (request tid)).task = tid)
    (isAssignment : ∀ tid task, (Deed.syscall (request tid)).applyTo task = assignment.applyTo task)
    (tids : List Int32) (state : τ) :
    kernel.view (Priority.forThreads describe (kernel.calls.deed ∘ .syscall) request tids state).2 =
      kernel.assign tids assignment (kernel.view state) := by
  have swept := (collect_view accepts isTask isAssignment tids .start state).1
  have sameDeeds : tids.map (fun tid => Deed.syscall (request tid)) =
      (tids.map request).map Deed.syscall := by
    rw [List.map_map]
    rfl
  rw [sameDeeds, ← collect_map] at swept
  exact swept

/-- Threads that all accept leave nothing to retry. -/
theorem view_applyToTids (accepts : kernel.AcceptsAll) (describe : Errno → String) (mask : Mask)
    (tids : List Int32) (state : τ) :
    let run := Affinity.applyToTids describe
      (fun call => kernel.calls.deed (.schedSetaffinity call.1 call.2)) tids mask state
    run.1 = .ok () ∧
      kernel.view run.2 = kernel.assign tids (.affinity (testBit mask)) (kernel.view state) := by
  have swept := @collect_view τ kernel accepts (fun tid => .schedSetaffinity tid mask)
    (.affinity (testBit mask)) (fun _ => rfl) (fun _ _ => rfl) tids .start state
  have sameDeeds : tids.map (fun tid => Deed.schedSetaffinity tid mask) =
      (tids.map fun tid => (tid, mask)).map fun call => Deed.schedSetaffinity call.1 call.2 := by
    rw [List.map_map]
    rfl
  rw [sameDeeds, ← collect_map] at swept
  refine ⟨?_, swept.1⟩
  show Affinity.passVerdict describe _ = .ok ()
  unfold Affinity.passVerdict
  rw [swept.2.1, swept.2.2]
  split <;> rfl

theorem view_setAffinity (accepts : kernel.AcceptsAll) (describe : Errno → String)
    (files : Affinity.CpuFiles) {numCpus : Nat} {pid : Int32} {tids : List Int32} {cpuset : CpuSet}
    (fits : ¬ Overruns numCpus (.setAffinity pid tids cpuset)) (state : τ) :
    let run := Affinity.setAffinity describe
      (fun call => kernel.calls.deed (.schedSetaffinity call.1 call.2)) files numCpus pid tids cpuset
      state
    run.1 = some (.ok ()) ∧
      kernel.view run.2 = kernel.settle numCpus (kernel.view state) (.setAffinity pid tids cpuset) := by
  unfold Affinity.setAffinity
  cases empty : cpuset.isEmpty with
  | true =>
      have nothing : assigns numCpus (.setAffinity pid tids cpuset) = none := if_pos empty
      rw [settle_of_none nothing]
      exact ⟨rfl, rfl⟩
  | false =>
      have assigned : assigns numCpus (.setAffinity pid tids cpuset) =
          some (.affinity fun cpu => cpuset.hasCpu cpu && decide (cpu < numCpus)) :=
        if_neg (Bool.eq_false_iff.mp empty)
      cases built : Affinity.maskFrom cpuset numCpus with
      | none => exact absurd ((maskFrom_eq_none_iff pid tids cpuset numCpus).mp built) fits
      | some mask =>
          have bits : testBit mask = fun cpu => cpuset.hasCpu cpu && decide (cpu < numCpus) := by
            funext cpu
            have bit := Affinity.testBit_maskFrom built cpu
            rw [Bool.eq_iff_iff, bit, Bool.and_eq_true, decide_eq_true_eq]
          obtain ⟨allAccepted, swept⟩ := view_applyToTids accepts describe mask tids state
          rw [settle_of_assigns assigned, ← bits]
          simp only [Bool.false_eq_true, if_false, bind, StateT.bind]
          cases ran : Affinity.applyToTids describe
            (fun call => kernel.calls.deed (.schedSetaffinity call.1 call.2)) tids mask state with
          | mk outcome next =>
              rw [ran] at allAccepted swept
              subst allAccepted
              exact ⟨rfl, swept⟩

/-- On a kernel that accepts everything a setter ends in its effect. -/
theorem performLive_view (accepts : kernel.AcceptsAll) (setup : Setup) {setter : Setter}
    (fits : ¬ Overruns (maxCores setup) setter) (state : State τ) :
    kernel.view (performLive setup kernel.calls setter state).2.kernel =
      kernel.settle (maxCores setup) (kernel.view state.kernel) setter := by
  cases setter with
  | setPriority pid tids nice =>
      exact view_forThreads accepts setup.describe (fun _ => rfl) (fun _ _ => rfl) tids state.kernel
  | setLatencyNice pid tids latencyNice =>
      have isAssignment : ∀ (tid : Int32) task,
          (Deed.syscall (.schedSetattr tid (latencyNiceAttr latencyNice))).applyTo task =
            (Assignment.latencyNice latencyNice).applyTo task := by
        intro tid task
        show { task with sched := _ } = { task with sched := _ }
        rw [Priority.applyTo_latencyNiceAttr]
      exact view_forThreads accepts setup.describe (fun _ => rfl) isAssignment tids state.kernel
  | setSched pid tids sched rtprio =>
      show kernel.view (Priority.setSched setup.describe (kernel.calls.deed ∘ .syscall) tids sched
        rtprio state.kernel).2 = _
      unfold Priority.setSched
      cases chosen : schedChoice sched rtprio with
      | none =>
          have nothing : assigns (maxCores setup) (.setSched pid tids sched rtprio) = none := by
            rw [assigns, chosen]
            rfl
          rw [settle_of_none nothing]
          rfl
      | some choice =>
          have assigned : assigns (maxCores setup) (.setSched pid tids sched rtprio) =
              some (.policy choice.policy choice.schedPriority.toUInt32) := by
            rw [assigns, chosen]
            rfl
          rw [settle_of_assigns assigned]
          exact view_forThreads accepts setup.describe (fun _ => rfl) (fun _ _ => rfl) tids
            state.kernel
  | setIoPriority pid ioclass ionice =>
      show kernel.view (Priority.setIoPriority setup.describe (kernel.calls.deed ∘ .syscall) pid
        ioclass ionice state.kernel).2 = _
      unfold Priority.setIoPriority
      cases isClass : ioClassValue ioclass with
      | none =>
          have nothing : assigns (maxCores setup) (.setIoPriority pid ioclass ionice) = none := by
            rw [assigns, isClass]
            rfl
          rw [settle_of_none nothing]
          rfl
      | some ioClass =>
          cases valid : ioprioValid ioClass with
          | false =>
              have nothing : assigns (maxCores setup) (.setIoPriority pid ioclass ionice) = none := by
                rw [assigns, isClass, Option.bind_some, valid]
                rfl
              rw [settle_of_none nothing]
              simp only [valid, Bool.not_false, if_true]
              rfl
          | true =>
              have assigned : assigns (maxCores setup) (.setIoPriority pid ioclass ionice) =
                  some (.ioprio (ioprioPrioValue ioClass ionice)) := by
                rw [assigns, isClass, Option.bind_some, if_pos valid]
              rw [settle_of_assigns assigned]
              simp only [valid, Bool.not_true, Bool.false_eq_true, if_false]
              exact view_deed accepts (fun _ => rfl) state.kernel
  | setOomScoreAdj pid oomScoreAdj =>
      have isAssignment : ∀ task, (Deed.writeOomScoreAdj pid (toString oomScoreAdj)).applyTo task =
          (Assignment.oomScoreAdj oomScoreAdj).applyTo task := by
        intro task
        have read : Text.parseI32 (toString oomScoreAdj) = some oomScoreAdj :=
          Text.parseI32_toString oomScoreAdj
        rw [Deed.applyTo, read]
        rfl
      have written := view_deed accepts isAssignment state.kernel
      show kernel.view (setOomScoreAdjust setup.describe kernel.calls pid oomScoreAdj
        state.kernel).2 = _
      unfold setOomScoreAdjust
      simp only [bind, StateT.bind]
      cases ran : kernel.calls.deed (.writeOomScoreAdj pid (toString oomScoreAdj)) state.kernel with
      | mk answer next =>
          rw [ran] at written
          cases answer with
          | ok => exact written
          | error e => exact written
  | setAffinity pid tids cpuset =>
      let read := kernel.calls.cpuFiles state.kernel
      have unread : kernel.view read.2 = kernel.view state.kernel :=
        (kernel.asks (kernel.view state.kernel)).cpuFiles state.kernel rfl
      obtain ⟨answered, settled⟩ :=
        view_setAffinity accepts setup.describe read.1 fits read.2
      rw [unread] at settled
      show kernel.view (setAffinity setup kernel.calls pid tids cpuset state).2.kernel = _
      unfold setAffinity
      simp only [bind, StateT.bind, onKernel, read] at answered ⊢
      rw [answered]
      exact settled
  | setCpuWeight pid weight =>
      have unread : kernel.view (kernel.calls.processCgroup pid state.kernel).2 =
          kernel.view state.kernel :=
        (kernel.asks (kernel.view state.kernel)).processCgroup pid state.kernel rfl
      show kernel.view (setCpuWeight setup kernel.calls pid weight state).2.kernel =
        kernel.view state.kernel
      unfold setCpuWeight
      simp only [bind, StateT.bind, onKernel]
      cases (kernel.calls.processCgroup pid state.kernel).1 with
      | none => exact unread
      | some path => exact unread
  | addPidToCgroup pid cgroup =>
      show kernel.view (kernel.calls.pidReads pid state.kernel).2 = kernel.view state.kernel
      exact (kernel.asks (kernel.view state.kernel)).pidReads pid state.kernel rfl

end Accepting

end TaskKernel

end AnanicyRs.Platform.Linux
