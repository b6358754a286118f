import Mathlib.Algebra.GroupWithZero.Nat
import Mathlib.Data.List.Basic

/-!
Contract: the task numbers of a Unix kernel over time.

A task has a number, belongs to a process (its thread group) and was started at a time.
Numbers are given again once they are free. The number of a thread group stays taken
while the group has any task, and no two tasks ever share a number and a start time;
these two rules are the guards of `TaskTable.step`.

`leader_of_mem` says what the first rule gives in every table, and `mem_between` what
the second one gives over time: a task found at two times was there all the time between.
`tgid_of_process` says that a group keeps its number while its tasks come and go, and
`process_of_givenLast` that a number belongs to whom it was given last.
-/

set_option autoImplicit false

namespace AnanicyRs.Lib.Tasks

/-! ## Tables -/

structure Task where
  number : Nat
  /-- The thread group, never given again. -/
  process : Nat
  /-- The number of the thread group. -/
  tgid : Nat
  startTime : Nat
deriving DecidableEq, Repr

structure TaskTable where
  live : List Task
  /-- Every number and start time given so far. -/
  born : List (Nat × Nat)
  nextProcess : Nat
deriving DecidableEq, Repr

inductive TaskEvent where
  | fork (number startTime : Nat)
  | clone (parent number startTime : Nat)
  | exit (number : Nat)
deriving DecidableEq, Repr

def TaskTable.boot : TaskTable := ⟨[], [], 0⟩

def TaskTable.holder (table : TaskTable) (number : Nat) : Option Task :=
  table.live.find? fun task => task.number == number

/-- `PID_MAX_LIMIT` of a 64-bit Linux. -/
def numberLimit : Nat := 2 ^ 22

/-- A new task may have this number and this start time. -/
def TaskTable.Free (table : TaskTable) (number startTime : Nat) : Prop :=
  0 < number ∧ number < numberLimit ∧ startTime < 2 ^ 64 ∧
    (∀ task ∈ table.live, task.number ≠ number) ∧ (number, startTime) ∉ table.born

instance (table : TaskTable) (number startTime : Nat) : Decidable (table.Free number startTime) :=
  inferInstanceAs (Decidable (_ ∧ _ ∧ _ ∧ _ ∧ _))

def TaskTable.add (table : TaskTable) (task : Task) : TaskTable where
  live := task :: table.live
  born := (task.number, task.startTime) :: table.born
  nextProcess := table.nextProcess

/-- No other task is left in the thread group of this number. -/
def TaskTable.Alone (table : TaskTable) (number : Nat) : Prop :=
  ∀ task ∈ table.live, task.number ≠ number → task.tgid ≠ number

instance (table : TaskTable) (number : Nat) : Decidable (table.Alone number) :=
  inferInstanceAs (Decidable (∀ task ∈ table.live, task.number ≠ number → task.tgid ≠ number))

/-- An event that the guards do not allow does not happen. -/
def TaskTable.step (event : TaskEvent) (table : TaskTable) : TaskTable :=
  match event with
  | .fork number startTime =>
      if table.Free number startTime then
        { table.add ⟨number, table.nextProcess, number, startTime⟩ with
          nextProcess := table.nextProcess + 1 }
      else table
  | .clone parent number startTime =>
      match table.holder parent with
      | some task =>
          if table.Free number startTime then
            table.add ⟨number, task.process, task.tgid, startTime⟩
          else table
      | none => table
  | .exit number =>
      if table.Alone number then
        { table with live := table.live.filter fun task => task.number != number }
      else table

def run (events : List TaskEvent) (table : TaskTable) : TaskTable :=
  events.foldl (fun now event => now.step event) table

/-- The table after the first `time` events. -/
def tableAt (events : List TaskEvent) (time : Nat) : TaskTable := run (events.take time) .boot

/-! ## One step -/

/-- The group of a new task, beside the process that comes next: it starts that process, or
another task of its process is there. -/
def TaskTable.Groups (table : TaskTable) (task : Task) (next : Nat) : Prop :=
  (task.process = table.nextProcess ∧ task.tgid = task.number ∧ next = table.nextProcess + 1) ∨
    (next = table.nextProcess ∧
      ∃ parent ∈ table.live, parent.process = task.process ∧ parent.tgid = task.tgid)

/-- A step adds one fresh task to an existing or a new group, or removes the task of one
number, or does nothing. -/
theorem step_cases (event : TaskEvent) (table : TaskTable) :
    table.step event = table ∨
    (∃ task next, table.Free task.number task.startTime ∧ table.Groups task next ∧
      table.step event = { table.add task with nextProcess := next }) ∨
    (∃ number, table.Alone number ∧
      table.step event =
        { table with live := table.live.filter fun task => task.number != number }) := by
  cases event with
  | fork number startTime =>
      rw [TaskTable.step]
      split
      next free =>
        exact .inr (.inl ⟨⟨number, _, number, startTime⟩, _, free, .inl ⟨rfl, rfl, rfl⟩, rfl⟩)
      next => exact .inl rfl
  | clone parent number startTime =>
      rw [TaskTable.step]
      cases found : table.holder parent with
      | none => exact .inl rfl
      | some task =>
          simp only
          split
          next free =>
            refine .inr (.inl ⟨⟨number, task.process, task.tgid, startTime⟩, table.nextProcess,
              free, .inr ⟨rfl, task, ?_, rfl, rfl⟩, rfl⟩)
            exact List.mem_of_find?_eq_some found
          next => exact .inl rfl
  | exit number =>
      rw [TaskTable.step]
      split
      next alone => exact .inr (.inr ⟨number, alone, rfl⟩)
      next => exact .inl rfl

/-- What holds of the table at every time. -/
structure Valid (table : TaskTable) : Prop where
  unique : ∀ task ∈ table.live, ∀ other ∈ table.live, task.number = other.number → task = other
  inRange : ∀ task ∈ table.live,
    0 < task.number ∧ task.number < numberLimit ∧ task.startTime < 2 ^ 64
  leader : ∀ task ∈ table.live, ∃ leader ∈ table.live,
    leader.number = task.tgid ∧ leader.process = task.process
  recorded : ∀ task ∈ table.live, (task.number, task.startTime) ∈ table.born
  counted : ∀ task ∈ table.live, task.process < table.nextProcess
  oneGroup : ∀ task ∈ table.live, ∀ other ∈ table.live, task.process = other.process →
    task.tgid = other.tgid

theorem valid_boot : Valid .boot := by
  constructor <;> intro task member <;> exact absurd member List.not_mem_nil

theorem valid_add {table : TaskTable} (valid : Valid table) {task : Task} {next : Nat}
    (free : table.Free task.number task.startTime) (group : table.Groups task next) :
    Valid { table.add task with nextProcess := next } := by
  obtain ⟨positive, bounded, early, unused, _⟩ := free
  have sameGroup : ∀ old ∈ table.live, old.process = task.process → old.tgid = task.tgid := by
    intro old inTable same
    rcases group with ⟨isNext, _, _⟩ | ⟨_, parent, inLive, sameProcess, isGroup⟩
    · have below := valid.counted old inTable
      omega
    · rw [valid.oneGroup old inTable parent inLive (same.trans sameProcess.symm), isGroup]
  constructor
  · intro first inFirst second inSecond same
    rcases List.mem_cons.mp inFirst with rfl | oldFirst
    · rcases List.mem_cons.mp inSecond with rfl | oldSecond
      · rfl
      · exact absurd same.symm (unused second oldSecond)
    · rcases List.mem_cons.mp inSecond with rfl | oldSecond
      · exact absurd same (unused first oldFirst)
      · exact valid.unique first oldFirst second oldSecond same
  · intro member inLive
    rcases List.mem_cons.mp inLive with rfl | old
    · exact ⟨positive, bounded, early⟩
    · exact valid.inRange member old
  · intro member inLive
    rcases List.mem_cons.mp inLive with rfl | old
    · rcases group with ⟨_, itself, _⟩ | ⟨_, parent, inTable, sameProcess, isGroup⟩
      · exact ⟨member, List.mem_cons_self, itself.symm, rfl⟩
      · obtain ⟨leader, inLeaders, isNumber, isProcess⟩ := valid.leader parent inTable
        refine ⟨leader, List.mem_cons_of_mem _ inLeaders, ?_, ?_⟩
        · rw [isNumber, isGroup]
        · rw [isProcess, sameProcess]
    · obtain ⟨leader, inLeaders, facts⟩ := valid.leader member old
      exact ⟨leader, List.mem_cons_of_mem _ inLeaders, facts⟩
  · intro member inLive
    rcases List.mem_cons.mp inLive with rfl | old
    · exact List.mem_cons_self
    · exact List.mem_cons_of_mem _ (valid.recorded member old)
  · intro member inLive
    show member.process < next
    rcases List.mem_cons.mp inLive with rfl | old
    · rcases group with ⟨isNext, _, isSuccessor⟩ | ⟨unchanged, parent, inTable, sameProcess, _⟩
      · omega
      · have below := valid.counted parent inTable
        omega
    · have below := valid.counted member old
      rcases group with ⟨_, _, isSuccessor⟩ | ⟨unchanged, _⟩ <;> omega
  · intro first inFirst second inSecond same
    rcases List.mem_cons.mp inFirst with rfl | oldFirst
    · rcases List.mem_cons.mp inSecond with rfl | oldSecond
      · rfl
      · exact (sameGroup second oldSecond same.symm).symm
    · rcases List.mem_cons.mp inSecond with rfl | oldSecond
      · exact sameGroup first oldFirst same
      · exact valid.oneGroup first oldFirst second oldSecond same

theorem valid_exit {table : TaskTable} (valid : Valid table) {number : Nat}
    (alone : table.Alone number) :
    Valid { table with live := table.live.filter fun task => task.number != number } := by
  constructor
  · intro first inFirst second inSecond
    exact valid.unique first (List.mem_filter.mp inFirst).1 second
      (List.mem_filter.mp inSecond).1
  · intro member inLive
    exact valid.inRange member (List.mem_filter.mp inLive).1
  · intro member inLive
    obtain ⟨inTable, stays⟩ := List.mem_filter.mp inLive
    obtain ⟨leader, inLeaders, isNumber, isProcess⟩ := valid.leader member inTable
    refine ⟨leader, List.mem_filter.mpr ⟨inLeaders, ?_⟩, isNumber, isProcess⟩
    -- The leader goes last: this member of its group is still there.
    have kept := alone member inTable (by simpa using stays)
    rw [isNumber]
    simpa using kept
  · intro member inLive
    exact valid.recorded member (List.mem_filter.mp inLive).1
  · intro member inLive
    exact valid.counted member (List.mem_filter.mp inLive).1
  · intro first inFirst second inSecond
    exact valid.oneGroup first (List.mem_filter.mp inFirst).1 second (List.mem_filter.mp inSecond).1

theorem valid_step {table : TaskTable} (valid : Valid table) (event : TaskEvent) :
    Valid (table.step event) := by
  rcases step_cases event table with same | ⟨task, next, free, group, added⟩ | ⟨number, alone, left⟩
  · rw [same]
    exact valid
  · rw [added]
    exact valid_add valid free group
  · rw [left]
    exact valid_exit valid alone

/-- A task whose number and start time were given before was not added by the step. -/
theorem mem_of_mem_step {table : TaskTable} {event : TaskEvent} {task : Task}
    (later : task ∈ (table.step event).live)
    (known : (task.number, task.startTime) ∈ table.born) : task ∈ table.live := by
  rcases step_cases event table with same | ⟨added, next, free, _, isStep⟩ | ⟨number, _, isStep⟩
  · rwa [same] at later
  · rw [isStep] at later
    rcases List.mem_cons.mp later with rfl | old
    · exact absurd known free.2.2.2.2
    · exact old
  · rw [isStep] at later
    exact (List.mem_filter.mp later).1

theorem born_step {table : TaskTable} (event : TaskEvent) {pair : Nat × Nat}
    (known : pair ∈ table.born) : pair ∈ (table.step event).born := by
  rcases step_cases event table with same | ⟨added, next, _, _, isStep⟩ | ⟨number, _, isStep⟩
  · rwa [same]
  · rw [isStep]
    exact List.mem_cons_of_mem _ known
  · rw [isStep]
    exact known

theorem nextProcess_le_step {table : TaskTable} (event : TaskEvent) :
    table.nextProcess ≤ (table.step event).nextProcess := by
  rcases step_cases event table with same | ⟨added, next, _, group, isStep⟩ | ⟨number, _, isStep⟩
  · exact Nat.le_of_eq (congrArg TaskTable.nextProcess same.symm)
  · rw [isStep]
    show table.nextProcess ≤ next
    rcases group with ⟨_, _, isSuccessor⟩ | ⟨unchanged, _⟩ <;> omega
  · have unchanged : (table.step event).nextProcess = table.nextProcess := by rw [isStep]
    exact Nat.le_of_eq unchanged.symm

/-- A task of an old process was there, or joined one that was. -/
theorem origin_of_mem_step {table : TaskTable} {event : TaskEvent} {task : Task}
    (later : task ∈ (table.step event).live) (old : task.process < table.nextProcess) :
    ∃ origin ∈ table.live, origin.process = task.process ∧ origin.tgid = task.tgid := by
  rcases step_cases event table with same | ⟨added, next, _, group, isStep⟩ | ⟨number, _, isStep⟩
  · rw [same] at later
    exact ⟨task, later, rfl, rfl⟩
  · rw [isStep] at later
    rcases List.mem_cons.mp later with rfl | inTable
    · rcases group with ⟨isNext, _, _⟩ | ⟨_, parent⟩
      · omega
      · exact parent
    · exact ⟨task, inTable, rfl, rfl⟩
  · rw [isStep] at later
    exact ⟨task, (List.mem_filter.mp later).1, rfl, rfl⟩

/-! ## Runs -/

theorem valid_run (events : List TaskEvent) {table : TaskTable} (valid : Valid table) :
    Valid (run events table) := by
  induction events generalizing table with
  | nil => exact valid
  | cons event rest inductionHypothesis => exact inductionHypothesis (valid_step valid event)

theorem mem_of_mem_run (events : List TaskEvent) {table : TaskTable} {task : Task}
    (later : task ∈ (run events table).live)
    (known : (task.number, task.startTime) ∈ table.born) : task ∈ table.live := by
  induction events generalizing table with
  | nil => exact later
  | cons event rest inductionHypothesis =>
      exact mem_of_mem_step (inductionHypothesis later (born_step event known)) known

theorem born_run (events : List TaskEvent) {table : TaskTable} {pair : Nat × Nat}
    (known : pair ∈ table.born) : pair ∈ (run events table).born := by
  induction events generalizing table with
  | nil => exact known
  | cons event rest inductionHypothesis => exact inductionHypothesis (born_step event known)

theorem origin_of_mem_run (events : List TaskEvent) {table : TaskTable} {task : Task}
    (later : task ∈ (run events table).live) (old : task.process < table.nextProcess) :
    ∃ origin ∈ table.live, origin.process = task.process ∧ origin.tgid = task.tgid := by
  induction events generalizing table with
  | nil => exact ⟨task, later, rfl, rfl⟩
  | cons event rest inductionHypothesis =>
      obtain ⟨between, inStep, isProcess, isGroup⟩ := inductionHypothesis later
        (Nat.lt_of_lt_of_le old (nextProcess_le_step event))
      obtain ⟨origin, inTable, sameProcess, sameGroup⟩ := origin_of_mem_step inStep
        (isProcess ▸ old)
      exact ⟨origin, inTable, sameProcess.trans isProcess, sameGroup.trans isGroup⟩

section Time

variable {events : List TaskEvent} {earlier later : Nat} {task : Task}

theorem valid_tableAt (events : List TaskEvent) (time : Nat) : Valid (tableAt events time) :=
  valid_run _ valid_boot

theorem tableAt_later (events : List TaskEvent) (ordered : earlier ≤ later) :
    tableAt events later = run ((events.take later).drop earlier) (tableAt events earlier) := by
  have split := List.take_append_drop earlier (events.take later)
  rw [List.take_take, Nat.min_eq_left ordered] at split
  calc tableAt events later
      = run (events.take earlier ++ (events.take later).drop earlier) .boot := by
        rw [split]
        rfl
    _ = run ((events.take later).drop earlier) (tableAt events earlier) := by
        rw [run, List.foldl_append]
        rfl

/-- The number of a live group names a task of that group. -/
theorem leader_of_mem (alive : task ∈ (tableAt events later).live) :
    ∃ leader, (tableAt events later).holder task.tgid = some leader ∧
      leader.process = task.process := by
  have valid := valid_tableAt events later
  obtain ⟨leader, inTable, isNumber, isProcess⟩ := valid.leader task alive
  cases found : (tableAt events later).holder task.tgid with
  | none =>
      have missing := List.find?_eq_none.mp found leader inTable
      exact absurd isNumber (by simpa using missing)
  | some other =>
      have sameNumber : other.number = task.tgid := by
        simpa using List.find?_some found
      have same := valid.unique other (List.mem_of_find?_eq_some found) leader inTable
        (sameNumber.trans isNumber.symm)
      exact ⟨other, rfl, by rw [same, isProcess]⟩

theorem holder_eq_some_iff {number : Nat} :
    (tableAt events later).holder number = some task ↔
      task ∈ (tableAt events later).live ∧ task.number = number := by
  constructor
  · intro found
    exact ⟨List.mem_of_find?_eq_some found, by simpa using List.find?_some found⟩
  · rintro ⟨alive, rfl⟩
    cases found : (tableAt events later).holder task.number with
    | none =>
        have missing := List.find?_eq_none.mp found task alive
        simp at missing
    | some other =>
        have sameNumber : other.number = task.number := by
          simpa using List.find?_some found
        rw [(valid_tableAt events later).unique other (List.mem_of_find?_eq_some found) task alive
          sameNumber]

/-- The same number with the same start time is the same task. -/
theorem eq_of_startTime (ordered : earlier ≤ later) {other : Task} {number : Nat}
    (before : (tableAt events earlier).holder number = some task)
    (after : (tableAt events later).holder number = some other)
    (sameStart : other.startTime = task.startTime) : other = task := by
  obtain ⟨alive, isNumber⟩ := holder_eq_some_iff.mp before
  obtain ⟨aliveLater, isSame⟩ := holder_eq_some_iff.mp after
  have valid := valid_tableAt events earlier
  rw [tableAt_later events ordered] at aliveLater
  have known := valid.recorded task alive
  rw [isNumber, ← sameStart, ← isSame] at known
  have aliveBefore := mem_of_mem_run _ aliveLater known
  exact valid.unique other aliveBefore task alive (isSame.trans isNumber.symm)

/-- A task found at two times was there at every time between them. -/
theorem mem_between {between : Nat} (first : earlier ≤ between) (second : between ≤ later)
    (before : task ∈ (tableAt events earlier).live) (after : task ∈ (tableAt events later).live) :
    task ∈ (tableAt events between).live := by
  have known := (valid_tableAt events earlier).recorded task before
  have stillKnown := born_run ((events.take between).drop earlier) known
  rw [← tableAt_later events first] at stillKnown
  rw [tableAt_later events second] at after
  exact mem_of_mem_run _ after stillKnown

/-- A process has the same group number at all times. -/
theorem tgid_of_process (ordered : earlier ≤ later) {other : Task}
    (before : task ∈ (tableAt events earlier).live) (after : other ∈ (tableAt events later).live)
    (same : other.process = task.process) : other.tgid = task.tgid := by
  have valid := valid_tableAt events earlier
  rw [tableAt_later events ordered] at after
  have old := valid.counted task before
  rw [← same] at old
  obtain ⟨origin, inTable, isProcess, isGroup⟩ := origin_of_mem_run _ after old
  rw [← isGroup]
  exact valid.oneGroup origin inTable task before (isProcess.trans same)

/-! ## Numbers given again -/

/-- The event at `moment` starts the task. -/
def Starts (events : List TaskEvent) (moment : Nat) (task : Task) : Prop :=
  task ∉ (tableAt events moment).live ∧ task ∈ (tableAt events (moment + 1)).live

/-- The number was given between the two times, and the last time to this process. -/
def GivenLast (events : List TaskEvent) (earlier later number process : Nat) : Prop :=
  ∃ moment task, earlier ≤ moment ∧ moment < later ∧ Starts events moment task ∧
    task.number = number ∧ task.process = process ∧
    ∀ next other, moment < next → next < later → Starts events next other → other.number ≠ number

theorem tableAt_succ (events : List TaskEvent) (time : Nat) :
    tableAt events (time + 1) = tableAt events time ∨
      ∃ event, tableAt events (time + 1) = (tableAt events time).step event := by
  rw [tableAt, List.take_add_one, run, List.foldl_append]
  cases events[time]? with
  | none => exact .inl rfl
  | some event => exact .inr ⟨event, rfl⟩

/-- A number that is given was free. -/
theorem free_of_starts {moment : Nat} (starts : Starts events moment task) :
    ∀ other ∈ (tableAt events moment).live, other.number ≠ task.number := by
  obtain ⟨missing, there⟩ := starts
  rcases tableAt_succ events moment with same | ⟨event, isStep⟩
  · rw [same] at there
    exact absurd there missing
  · rw [isStep] at there
    rcases step_cases event (tableAt events moment) with
      same | ⟨added, next, free, _, isAdded⟩ | ⟨number, _, isLeft⟩
    · rw [same] at there
      exact absurd there missing
    · rw [isAdded] at there
      rcases List.mem_cons.mp there with rfl | old
      · exact free.2.2.2.1
      · exact absurd old missing
    · rw [isLeft] at there
      exact absurd (List.mem_filter.mp there).1 missing

/-- A task that was not there before was started in between. The induction is on the later
time. -/
theorem exists_starts (ordered : earlier ≤ later) (before : task ∉ (tableAt events earlier).live)
    (after : task ∈ (tableAt events later).live) :
    ∃ moment, earlier ≤ moment ∧ moment < later ∧ Starts events moment task := by
  induction ordered with
  | refl => exact absurd after before
  | @step time reached inductionHypothesis =>
      by_cases already : task ∈ (tableAt events time).live
      · obtain ⟨moment, notBefore, isBefore, starts⟩ := inductionHypothesis already
        exact ⟨moment, notBefore, Nat.lt_succ_of_lt isBefore, starts⟩
      · exact ⟨time, reached, Nat.lt_succ_self time, already, after⟩

/-- A number belongs to the process that it was given to last. -/
theorem process_of_givenLast {number process : Nat}
    (given : GivenLast events earlier later number process)
    (found : (tableAt events later).holder number = some task) : task.process = process := by
  obtain ⟨moment, first, _, isBefore, starts, isNumber, rfl, noOther⟩ := given
  obtain ⟨alive, sameNumber⟩ := holder_eq_some_iff.mp found
  by_cases already : task ∈ (tableAt events (moment + 1)).live
  · rw [(valid_tableAt events (moment + 1)).unique task already first starts.2
      (sameNumber.trans isNumber.symm)]
  · obtain ⟨next, after, inTime, startsLater⟩ := exists_starts isBefore already alive
    exact absurd sameNumber (noOther next task after inTime startsLater)

/-- A task that was not there before was given its number in between, and nobody was after
it. -/
theorem givenLast_of_holder {number : Nat} (ordered : earlier ≤ later)
    (before : task ∉ (tableAt events earlier).live)
    (found : (tableAt events later).holder number = some task) :
    GivenLast events earlier later number task.process := by
  obtain ⟨alive, isNumber⟩ := holder_eq_some_iff.mp found
  obtain ⟨moment, notBefore, isBefore, starts⟩ := exists_starts ordered before alive
  refine ⟨moment, task, notBefore, isBefore, starts, isNumber, rfl, ?_⟩
  intro next other after inTime startsNext sameNumber
  have there := mem_between after (Nat.le_of_lt inTime) starts.2 alive
  exact free_of_starts startsNext task there (isNumber.trans sameNumber.symm)

end Time

end AnanicyRs.Lib.Tasks
