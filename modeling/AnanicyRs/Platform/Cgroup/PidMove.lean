import AnanicyRs.Lib.Tasks
import AnanicyRs.Platform.Cgroup.Manager
import AnanicyRs.Platform.ProcessInfo

/-!
Contract: `CgroupManager::move_pid` while tasks come and go.

Owns the interleaving of one move with a history of the task table (`Lib.Tasks`): each
of its four looks at the pid happens at its own time, between any events of the history,
and what it reads there are the bytes procfs prints (`Platform.ProcessInfo`); a name may
change from one look to the next, and need not be text. `movePid_eq` is the one lemma
about the operation itself; the decision to write is `attempted`.

The identity that is checked is read after the number that is written.
`movePid_honest_iff` says for which histories the move is the one that `true` reports.
-/

set_option autoImplicit false

namespace AnanicyRs.Platform.PidMove

open AnanicyRs.Lib
open AnanicyRs.Lib.UnixPath
open AnanicyRs.Lib.FileSystem
open AnanicyRs.Lib.Tasks
open AnanicyRs.Lib.Utf8
open AnanicyRs.Platform.Cgroup
open AnanicyRs.Platform.ProcessInfo
open AnanicyRs.Platform.Procfs

/-! ## The operation -/

def procsPath (manager : CgroupManager) (target : String) : Path :=
  join (components target) (if manager.info.version == .v2 then "cgroup.procs" else "tasks")

/-- The unified hierarchy takes thread groups, the legacy one takes single tasks. -/
def pidToWrite (manager : CgroupManager) (reads : PidReads) (pid : Int) : Option Int :=
  if manager.info.version == .v2 then reads.tgid else some pid

/-- The number and the start time with which the move reaches its write. -/
def attempted (manager : CgroupManager) (machine : Machine) (reads : PidReads) (pid : Int)
    (target : String) (world : World) : Option (Int × Nat) :=
  if ownership manager target = .foreign then none
  else if !world.fs.pathExists (components target) then none
  else if !(openForWrite machine.kernel (procsPath manager target) world).1 then none
  else (pidToWrite manager reads pid).bind fun number =>
    reads.startBefore.map fun startTimeBefore => (number, startTimeBefore)

def printed (number : Int) : String := toString number ++ "\n"

/-- `move_pid` is its decision, one write, and one look at the pid after it. -/
theorem movePid_eq (manager : CgroupManager) (machine : Machine) (reads : PidReads) (pid : Int)
    (target : String) (world : World) :
    movePid manager machine reads pid target world =
      match attempted manager machine reads pid target world with
      | none => (false, world)
      | some (number, startTimeBefore) =>
          ((writeAll machine.kernel (procsPath manager target) (printed number) world).1 &&
              reads.startAfter == some startTimeBefore,
            (writeAll machine.kernel (procsPath manager target) (printed number) world).2) := by
  have chosen : (if (manager.info.version == .v2) = true then reads.tgid else some pid) =
      pidToWrite manager reads pid := rfl
  unfold attempted
  by_cases foreign : ownership manager target = .foreign
  · rw [if_pos foreign, movePid, if_pos foreign]
    rfl
  · rw [if_neg foreign, movePid, if_neg foreign]
    change (if world.fs.pathExists (components target) = true then _ else _ : Host Bool) world = _
    cases present : world.fs.pathExists (components target) with
    | false => rfl
    | true =>
        change (if (openForWrite machine.kernel (procsPath manager target) world).1 = true
          then _ else _ : Host Bool) world = _
        cases (openForWrite machine.kernel (procsPath manager target) world).1 with
        | false => rfl
        | true =>
            simp only [if_true, chosen]
            cases pidToWrite manager reads pid with
            | none => rfl
            | some number =>
                cases reads.startBefore with
                | none => rfl
                | some startTimeBefore =>
                    let written := writeAll machine.kernel (procsPath manager target)
                      (printed number) world
                    change (if written.1 = true then pure (reads.startAfter == some startTimeBefore)
                      else pure false : Host Bool) written.2 =
                        (written.1 && reads.startAfter == some startTimeBefore, written.2)
                    cases written.1 <;> rfl

theorem attempted_eq_some_iff {manager : CgroupManager} {machine : Machine} {reads : PidReads}
    {pid : Int} {target : String} {world : World} {number : Int} {startTime : Nat} :
    attempted manager machine reads pid target world = some (number, startTime) ↔
      ownership manager target ≠ .foreign ∧
      world.fs.pathExists (components target) = true ∧
      (openForWrite machine.kernel (procsPath manager target) world).1 = true ∧
      pidToWrite manager reads pid = some number ∧ reads.startBefore = some startTime := by
  unfold attempted
  by_cases foreign : ownership manager target = .foreign
  · simp [foreign]
  · rw [if_neg foreign]
    cases world.fs.pathExists (components target) with
    | false => simp
    | true =>
        cases (openForWrite machine.kernel (procsPath manager target) world).1 with
        | false => simp
        | true => simp [foreign, Option.bind_eq_some_iff, and_comm]

theorem writeAll_taken (kernel : Kernel) (path : Path) (text : String) (world : World) :
    (writeAll kernel path text world).1 = !kernel.refusesWrite world.fs path text := by
  unfold writeAll
  cases kernel.refusesWrite world.fs path text <;> rfl

theorem writeAll_log (kernel : Kernel) (path : Path) (text : String) (world : World) :
    (writeAll kernel path text world).2.log = world.log ++ [⟨world.fs, .write path text⟩] := by
  unfold writeAll
  cases kernel.refusesWrite world.fs path text <;> rfl

/-! ## The pid over time -/

/-- The task a signed pid names: negative numbers name none. -/
def holderOf (table : TaskTable) (pid : Int) : Option Task :=
  if 0 ≤ pid then table.holder pid.toNat else none

/-- The task the kernel resolves a written text to. -/
def named (table : TaskTable) (text : String) : Option Task :=
  (Text.parseI32 (Text.trim text)).bind fun number => holderOf table number.toInt

/-- What is printed says of a task who it is. -/
structure Describes (shown : Printed) (task : Task) : Prop where
  pid : shown.pid = task.number
  tgid : shown.tgid = task.tgid
  startTime : shown.startTime = task.startTime

/-- One move among the events of the task table. The kernel takes a number other than
zero, which names the writer, only while a task has it. -/
structure Interleaving (kernel : Kernel) where
  events : List TaskEvent
  /-- The name of a task at a time, and what else is printed of it. -/
  comm : Nat → Task → Comm
  shown : Nat → Task → Printed
  describes : ∀ time, ∀ task ∈ (tableAt events time).live, Describes (shown time task) task
  tgidAt : Nat
  startAt : Nat
  writeAt : Nat
  againAt : Nat
  tgid_le_start : tgidAt ≤ startAt
  start_le_write : startAt ≤ writeAt
  write_le_again : writeAt ≤ againAt
  resolves : ∀ fs directory file text, file = "cgroup.procs" ∨ file = "tasks" →
    Text.parseI32 (Text.trim text) ≠ some 0 →
      kernel.refusesWrite fs (join directory file) text = false →
        (named (tableAt events writeAt) text).isSome = true

section Reads

variable {kernel : Kernel} (within : Interleaving kernel)

def Interleaving.holderAt (time : Nat) (pid : Int) : Option Task :=
  holderOf (tableAt within.events time) pid

/-- `get_tgid` at one time. -/
def Interleaving.tgidRead (time : Nat) (pid : Int) : Option Int :=
  (getTgid ((within.holderAt time pid).bind fun task =>
    readToString (statusContent (within.comm time task).bytes (within.shown time task)))).map
      Int32.toInt

/-- `get_start_time` at one time. -/
def Interleaving.startRead (time : Nat) (pid : Int) : Option Nat :=
  getStartTime ((within.holderAt time pid).bind fun task =>
    readToString (statContent (within.comm time task).bytes (within.shown time task)))

/-- The task holds the pid at one time, and its name is text then. -/
structure Interleaving.Found (time : Nat) (pid : Int) (task : Task) : Prop where
  holds : within.holderAt time pid = some task
  text : IsUtf8 (within.comm time task).bytes

def Interleaving.reads (pid : Int) : PidReads where
  tgid := within.tgidRead within.tgidAt pid
  startBefore := within.startRead within.startAt pid
  startAfter := within.startRead within.againAt pid

variable {within} {time : Nat} {pid : Int} {task : Task}

theorem holderAt_eq_some_iff :
    within.holderAt time pid = some task ↔
      task ∈ (tableAt within.events time).live ∧ (task.number : Int) = pid := by
  unfold Interleaving.holderAt holderOf
  split
  next positive =>
    rw [holder_eq_some_iff]
    constructor
    · rintro ⟨alive, isNumber⟩
      exact ⟨alive, by omega⟩
    · rintro ⟨alive, isNumber⟩
      exact ⟨alive, by omega⟩
  next negative =>
    constructor
    · intro impossible
      simp at impossible
    · rintro ⟨_, isNumber⟩
      omega

theorem tgid_lt (alive : task ∈ (tableAt within.events time).live) : task.tgid < numberLimit := by
  obtain ⟨leader, found, _⟩ := leader_of_mem alive
  obtain ⟨inTable, isNumber⟩ := holder_eq_some_iff.mp found
  rw [← isNumber]
  exact ((valid_tableAt within.events time).inRange leader inTable).2.1

/-- The start time of the holder is read, where its name is text. -/
theorem startRead_eq_some_iff {startTime : Nat} :
    within.startRead time pid = some startTime ↔
      ∃ task, within.Found time pid task ∧ task.startTime = startTime := by
  unfold Interleaving.startRead
  cases holds : within.holderAt time pid with
  | none =>
      apply iff_of_false (by simp [getStartTime])
      rintro ⟨task, found, _⟩
      exact absurd (holds.symm.trans found.holds) (by simp)
  | some task =>
      have describes := within.describes time task (holderAt_eq_some_iff.mp holds).1
      rw [Option.bind_some, getStartTime_eq_some_iff, describes.startTime]
      constructor
      · rintro ⟨text, rfl⟩
        exact ⟨task, ⟨holds, text⟩, rfl⟩
      · rintro ⟨other, found, rfl⟩
        obtain rfl := Option.some.inj (holds.symm.trans found.holds)
        exact ⟨found.text, rfl⟩

/-- The group of the holder is read, where its name is text. -/
theorem tgidRead_eq_some_iff {tgid : Int} :
    within.tgidRead time pid = some tgid ↔
      ∃ task, within.Found time pid task ∧ (task.tgid : Int) = tgid := by
  rw [Interleaving.tgidRead, Option.map_eq_some_iff]
  cases holds : within.holderAt time pid with
  | none =>
      apply iff_of_false (by simp [getTgid])
      rintro ⟨task, found, _⟩
      exact absurd (holds.symm.trans found.holds) (by simp)
  | some task =>
      have alive := (holderAt_eq_some_iff.mp holds).1
      have describes := within.describes time task alive
      have small : task.tgid < 2 ^ 31 := by
        have bound := tgid_lt alive
        unfold numberLimit at bound
        omega
      simp only [Option.bind_some, getTgid_eq_some_iff, describes.tgid]
      constructor
      · rintro ⟨_, ⟨text, rfl⟩, rfl⟩
        exact ⟨task, ⟨holds, text⟩, (Int32.toInt_ofNat_of_lt small).symm⟩
      · rintro ⟨other, found, rfl⟩
        obtain rfl := Option.some.inj (holds.symm.trans found.holds)
        exact ⟨_, ⟨found.text, rfl⟩, Int32.toInt_ofNat_of_lt small⟩

end Reads

theorem parse_printed {number : Nat} (small : number < 2 ^ 31) :
    Text.parseI32 (Text.trim (printed number)) = some (Int32.ofNat number) := by
  have chars : (printed number).toList = Nat.toDigits 10 number ++ ['\n'] := by
    rw [printed, String.toList_append]
    exact congrArg (· ++ ['\n']) String.toList_ofList
  have solid : ∀ c ∈ Nat.toDigits 10 number, Text.isWhitespace c = false :=
    fun c member => Text.isWhitespace_of_digit (Text.digit_of_mem_toDigits member)
  rw [Text.trim, chars, Text.trimChars_newline solid, Text.parseI32, String.toList_ofList]
  exact Text.parseI32Chars_toDigits small

/-- The kernel resolves a printed number to the task that has it. -/
theorem named_printed (table : TaskTable) {number : Nat} (small : number < 2 ^ 31) :
    named table (printed number) = table.holder number := by
  rw [named, parse_printed small, Option.bind_some, Int32.toInt_ofNat_of_lt small, holderOf,
    if_pos (by omega), Int.toNat_natCast]

/-! ## What `true` reports -/

section Move

variable (manager : CgroupManager) (machine : Machine) (pid : Int) (target : String)
  (world : World) (within : Interleaving machine.kernel)

/-- `move_pid` with the four looks of this interleaving. -/
def move : Bool × World := movePid manager machine (within.reads pid) pid target world

/-- After `true`, one write was made, and it moved the process the pid belonged to at both
readings of its start time. A move that stops before its write has written nothing. -/
structure Honest : Prop where
  moved : (move manager machine pid target world within).1 = true →
    ∃ text before after task,
      (move manager machine pid target world within).2.log =
        world.log ++ [⟨world.fs, .write (procsPath manager target) text⟩] ∧
      within.holderAt within.startAt pid = some before ∧
      within.holderAt within.againAt pid = some after ∧
      named (tableAt within.events within.writeAt) text = some task ∧
      before.process = task.process ∧ after.process = task.process
  untouched : attempted manager machine (within.reads pid) pid target world = none →
    move manager machine pid target world within = (false, world)

/-- Nothing but the number itself stands against the move of `holder` under `number`. -/
structure Passes (number : Nat) (holder : Task) : Prop where
  mayWrite : ownership manager target ≠ .foreign
  present : world.fs.pathExists (components target) = true
  opens : (openForWrite machine.kernel (procsPath manager target) world).1 = true
  taken : machine.kernel.refusesWrite world.fs (procsPath manager target) (printed number) = false
  still : within.Found within.againAt pid holder

/-- On the unified hierarchy, no other process takes the pid between the reading of the
thread group and that of the start time; unless the pid is its group's own number, or the
group has gone by the write and its number was given to the process that took the pid. -/
def KeepsPid : Prop :=
  manager.info.version = .v2 → ∀ asked holder,
    within.Found within.tgidAt pid asked → within.Found within.startAt pid holder →
    Passes manager machine pid target world within asked.tgid holder →
      holder.process = asked.process ∨ (asked.tgid : Int) = pid ∨
        GivenLast within.events within.tgidAt within.writeAt asked.tgid holder.process

variable {manager machine pid target world within}

/-- The same start time at both readings is the same task, and it is there in between. -/
theorem holder_between {before after : Task}
    (isBefore : within.holderAt within.startAt pid = some before)
    (isAfter : within.holderAt within.againAt pid = some after)
    (sameStart : after.startTime = before.startTime) :
    after = before ∧ before ∈ (tableAt within.events within.writeAt).live := by
  obtain ⟨alive, isPid⟩ := holderAt_eq_some_iff.mp isBefore
  obtain ⟨aliveAfter, isPidAfter⟩ := holderAt_eq_some_iff.mp isAfter
  have sameNumber : after.number = before.number := by
    omega
  have ordered := within.start_le_write.trans within.write_le_again
  have same : after = before := eq_of_startTime ordered
    (holder_eq_some_iff.mpr ⟨alive, rfl⟩) (holder_eq_some_iff.mpr ⟨aliveAfter, sameNumber⟩)
    sameStart
  rw [same] at aliveAfter
  exact ⟨same, mem_between within.start_le_write within.write_le_again alive aliveAfter⟩

/-- A move answers `true` exactly when it goes through with the task that holds the pid. -/
theorem move_true_iff :
    (move manager machine pid target world within).1 = true ↔
      ∃ number before,
        pidToWrite manager (within.reads pid) pid = some number ∧
        within.Found within.startAt pid before ∧
        within.Found within.againAt pid before ∧
        ownership manager target ≠ .foreign ∧
        world.fs.pathExists (components target) = true ∧
        (openForWrite machine.kernel (procsPath manager target) world).1 = true ∧
        machine.kernel.refusesWrite world.fs (procsPath manager target) (printed number) =
          false := by
  rw [move, movePid_eq]
  constructor
  · intro answered
    cases decision : attempted manager machine (within.reads pid) pid target world with
    | none => simp [decision] at answered
    | some decided =>
        obtain ⟨number, startTime⟩ := decided
        simp only [decision, writeAll_taken, Bool.and_eq_true, beq_iff_eq,
          Bool.not_eq_true_eq_eq_false] at answered
        obtain ⟨mayWrite, present, opens, isNumber, isStart⟩ := attempted_eq_some_iff.mp decision
        obtain ⟨before, isBefore, rfl⟩ := startRead_eq_some_iff.mp isStart
        obtain ⟨after, isAfter, sameStart⟩ := startRead_eq_some_iff.mp answered.2
        obtain ⟨rfl, _⟩ := holder_between isBefore.holds isAfter.holds sameStart
        exact ⟨number, after, isNumber, isBefore, isAfter, mayWrite, present, opens, answered.1⟩
  · rintro ⟨number, before, isNumber, isBefore, isAfter, mayWrite, present, opens, taken⟩
    have startBefore : (within.reads pid).startBefore = some before.startTime :=
      startRead_eq_some_iff.mpr ⟨before, isBefore, rfl⟩
    have startAfter : (within.reads pid).startAfter = some before.startTime :=
      startRead_eq_some_iff.mpr ⟨before, isAfter, rfl⟩
    rw [attempted_eq_some_iff.mpr ⟨mayWrite, present, opens, isNumber, startBefore⟩]
    simp only [writeAll_taken, taken, startAfter, Bool.not_false, beq_self_eq_true, Bool.and_self]

theorem move_log {number : Int} {startTime : Nat}
    (decision : attempted manager machine (within.reads pid) pid target world =
      some (number, startTime)) :
    (move manager machine pid target world within).2.log =
      world.log ++ [⟨world.fs, .write (procsPath manager target) (printed number)⟩] := by
  rw [move, movePid_eq, decision]
  exact writeAll_log _ _ _ _

/-- The number that is written is the pid, or on the unified hierarchy the number of the
group the pid belonged to when it was asked for. -/
theorem number_of_pidToWrite {number : Int} {before : Task}
    (isNumber : pidToWrite manager (within.reads pid) pid = some number)
    (isBefore : within.holderAt within.startAt pid = some before) :
    ∃ written : Nat, number = written ∧ 0 < written ∧ written < 2 ^ 31 ∧
      ((manager.info.version ≠ .v2 ∧ (written : Int) = pid) ∨
        (manager.info.version = .v2 ∧ ∃ asked,
          within.Found within.tgidAt pid asked ∧ written = asked.tgid)) := by
  have inRange : ∀ {time : Nat} {member : Task},
      member ∈ (tableAt within.events time).live → 0 < member.number ∧ member.number < 2 ^ 31 := by
    intro time member alive
    have bounds := (valid_tableAt within.events time).inRange member alive
    unfold numberLimit at bounds
    omega
  unfold pidToWrite at isNumber
  by_cases unified : manager.info.version = .v2
  · have isRead : within.tgidRead within.tgidAt pid = some number := by
      simpa [unified, Interleaving.reads] using isNumber
    obtain ⟨asked, isAsked, rfl⟩ := tgidRead_eq_some_iff.mp isRead
    obtain ⟨leader, found, _⟩ := leader_of_mem (holderAt_eq_some_iff.mp isAsked.holds).1
    obtain ⟨aliveLeader, leads⟩ := holder_eq_some_iff.mp found
    have bounds := inRange aliveLeader
    rw [leads] at bounds
    exact ⟨asked.tgid, rfl, bounds.1, bounds.2, .inr ⟨unified, asked, isAsked, rfl⟩⟩
  · obtain ⟨alive, isPid⟩ := holderAt_eq_some_iff.mp isBefore
    have bounds := inRange alive
    rw [if_neg (by simpa using unified), Option.some.injEq] at isNumber
    exact ⟨before.number, isNumber.symm.trans isPid.symm, bounds.1, bounds.2,
      .inl ⟨unified, isPid⟩⟩

/-- A write that the kernel takes moved the task with the number. -/
theorem holder_of_taken {written : Nat} (positive : 0 < written) (small : written < 2 ^ 31)
    (taken : machine.kernel.refusesWrite world.fs (procsPath manager target) (printed written) =
      false) :
    ∃ task, (tableAt within.events within.writeAt).holder written = some task := by
  have notSelf : Text.parseI32 (Text.trim (printed written)) ≠ some 0 := by
    rw [parse_printed small]
    intro isZero
    have zero := congrArg Int32.toInt (Option.some.inj isZero)
    rw [Int32.toInt_ofNat_of_lt small] at zero
    simp at zero
    omega
  have found := within.resolves world.fs (components target) _ (printed written)
    (by split <;> simp) notSelf taken
  rw [named_printed _ small] at found
  exact Option.isSome_iff_exists.mp found

/-- The task with the number of the write is in the holder's process if the number is its own
or its group's, or was given to its process last. -/
theorem moved_process {before task : Task} {written : Nat}
    (isBefore : within.holderAt within.startAt pid = some before)
    (alive : before ∈ (tableAt within.events within.writeAt).live)
    (resolved : (tableAt within.events within.writeAt).holder written = some task)
    (names : (written : Int) = pid ∨ before.tgid = written ∨
      GivenLast within.events within.tgidAt within.writeAt written before.process) :
    before.process = task.process := by
  rcases names with own | group | given
  · have isPid := (holderAt_eq_some_iff.mp isBefore).2
    have ownNumber : before.number = written := by
      omega
    have found := holder_eq_some_iff.mpr ⟨alive, ownNumber⟩
    rw [Option.some.inj (found.symm.trans resolved)]
  · obtain ⟨leader, isLeader, sameProcess⟩ := leader_of_mem alive
    rw [group] at isLeader
    rw [← sameProcess, Option.some.inj (isLeader.symm.trans resolved)]
  · exact (process_of_givenLast given resolved).symm

theorem honest_of_keepsPid (keeps : KeepsPid manager machine pid target world within) :
    Honest manager machine pid target world within where
  moved := by
    intro answered
    obtain ⟨number, before, isNumber, isBefore, isAfter, mayWrite, present, opens, taken⟩ :=
      move_true_iff.mp answered
    obtain ⟨written, rfl, positive, small, origin⟩ := number_of_pidToWrite isNumber isBefore.holds
    obtain ⟨task, resolved⟩ : ∃ task,
        (tableAt within.events within.writeAt).holder written = some task :=
      holder_of_taken positive small taken
    obtain ⟨_, alive⟩ := holder_between isBefore.holds isAfter.holds rfl
    have startBefore : (within.reads pid).startBefore = some before.startTime :=
      startRead_eq_some_iff.mpr ⟨before, isBefore, rfl⟩
    have decision := attempted_eq_some_iff.mpr ⟨mayWrite, present, opens, isNumber, startBefore⟩
    have same : before.process = task.process := by
      apply moved_process isBefore.holds alive resolved
      rcases origin with ⟨_, own⟩ | ⟨unified, asked, isAsked, rfl⟩
      · exact .inl own
      · rcases keeps unified asked before isAsked isBefore
          ⟨mayWrite, present, opens, taken, isAfter⟩ with kept | own | given
        · exact .inr (.inl (tgid_of_process within.tgid_le_start
            (holderAt_eq_some_iff.mp isAsked.holds).1 (holderAt_eq_some_iff.mp isBefore.holds).1 kept))
        · exact .inl own
        · exact .inr (.inr given)
    refine ⟨printed written, before, before, task, move_log decision, isBefore.holds, isAfter.holds,
      ?_, same, same⟩
    rw [named_printed _ small, resolved]
  untouched := by
    intro stopped
    rw [move, movePid_eq, stopped]

/-- A group whose number names a task of another process has gone, and the number was given
to that process. -/
theorem keepsPid_of_honest (honest : Honest manager machine pid target world within) :
    KeepsPid manager machine pid target world within := by
  intro unified asked holder isAsked isHolder passes
  have isNumber : pidToWrite manager (within.reads pid) pid = some (asked.tgid : Int) := by
    have isRead : within.tgidRead within.tgidAt pid = some (asked.tgid : Int) :=
      tgidRead_eq_some_iff.mpr ⟨asked, isAsked, rfl⟩
    simpa [pidToWrite, unified, Interleaving.reads] using isRead
  have startBefore : (within.reads pid).startBefore = some holder.startTime :=
    startRead_eq_some_iff.mpr ⟨holder, isHolder, rfl⟩
  have answered := move_true_iff.mpr ⟨_, holder, isNumber, isHolder, passes.still,
    passes.mayWrite, passes.present, passes.opens, passes.taken⟩
  have decision := attempted_eq_some_iff.mpr
    ⟨passes.mayWrite, passes.present, passes.opens, isNumber, startBefore⟩
  obtain ⟨text, before, after, task, log, isBefore, _, resolved, same, _⟩ :=
    honest.moved answered
  obtain rfl := Option.some.inj (isHolder.holds.symm.trans isBefore)
  have isText : text = printed asked.tgid := by
    have both := List.append_cancel_left ((move_log decision).symm.trans log)
    simpa using both.symm
  have aliveAsked := (holderAt_eq_some_iff.mp isAsked.holds).1
  have small : asked.tgid < 2 ^ 31 := by
    have bound := tgid_lt aliveAsked
    unfold numberLimit at bound
    omega
  rw [isText, named_printed _ small] at resolved
  by_cases kept : holder.process = asked.process
  · exact .inl kept
  · have ordered := within.tgid_le_start.trans within.start_le_write
    have notThere : task ∉ (tableAt within.events within.tgidAt).live := by
      intro there
      obtain ⟨leader, isLeader, sameProcess⟩ := leader_of_mem aliveAsked
      have alreadyNamed := holder_eq_some_iff.mpr ⟨there, (holder_eq_some_iff.mp resolved).2⟩
      rw [← Option.some.inj (alreadyNamed.symm.trans isLeader)] at sameProcess
      exact kept (same.trans sameProcess)
    have given := givenLast_of_holder ordered notThere resolved
    rw [← same] at given
    exact .inr (.inr given)

end Move

/-- For every manager, target, world and interleaving of a move with the task table:
`true` reports the one move that was made exactly when the pid keeps its process from the
reading of the thread group to that of the start time, or both numbers went to one. -/
theorem movePid_honest_iff (manager : CgroupManager) (machine : Machine) (pid : Int)
    (target : String) (world : World) (within : Interleaving machine.kernel) :
    Honest manager machine pid target world within ↔
      KeepsPid manager machine pid target world within :=
  ⟨keepsPid_of_honest, honest_of_keepsPid⟩

/-! ### A reused thread number -/

/-- Thread 101 of group 100 exits, and a new process is given its number. -/
def threadReused : List TaskEvent :=
  [.fork 100 500, .clone 100 101 501, .exit 101, .fork 101 900]

def threadKernel : Kernel :=
  { Kernel.permissive with
    refusesWrite := fun _ _ text => (named (tableAt threadReused 4) text).isNone }

def threadMachine : Machine := ⟨threadKernel, 8, id⟩

def workerName : Comm where
  bytes := encode "worker".toList
  short := by decide
  noNul := by decide

/-- What is printed of a worker without a terminal. -/
def shownWorker (task : Task) : Printed :=
  { sleeper with
    pid := task.number
    fields := [1, 100, 100, 0, -1, 4194304, 20, 0, 0, 0, 0, 0, 0, 0, 20, 0, 2, 0,
      Int.ofNat (task.startTime % 18446744073709551616), 9007104]
    startTime := task.startTime % 18446744073709551616
    isStartTime := rfl
    startTimeFits := Nat.mod_lt _ (by decide)
    tgid := task.tgid % 2147483648
    tgidFits := Nat.mod_lt _ (by decide) }

theorem describes_shownWorker {events : List TaskEvent} {time : Nat} {task : Task}
    (alive : task ∈ (tableAt events time).live) : Describes (shownWorker task) task := by
  have valid := valid_tableAt events time
  obtain ⟨leader, inTable, isNumber, _⟩ := valid.leader task alive
  have bounds := (valid.inRange leader inTable).2.1
  have early := (valid.inRange task alive).2.2
  unfold numberLimit at bounds
  exact ⟨rfl, Nat.mod_eq_of_lt (by omega), Nat.mod_eq_of_lt early⟩

/-- The thread group is read before the thread exits, everything else after its number
was given again. -/
def reuseAfterTgid : Interleaving threadMachine.kernel where
  events := threadReused
  comm _ _ := workerName
  shown _ task := shownWorker task
  describes _ _ alive := describes_shownWorker alive
  tgidAt := 2
  startAt := 4
  writeAt := 4
  againAt := 4
  tgid_le_start := by decide
  start_le_write := by decide
  write_le_again := by decide
  resolves _ _ _ text _ _ taken := by
    simp only [threadMachine, threadKernel, Option.isNone_eq_false_iff] at taken
    exact taken

def delegatedManager : CgroupManager := ⟨⟨.v2, "/sys/fs/cgroup"⟩, some "/sys/fs/cgroup/own"⟩

def childWorld : World :=
  ⟨Fs.ofLists ["/sys/fs/cgroup/own/cpu80"] ["/sys/fs/cgroup/own/cpu80/cgroup.procs"], []⟩

/-- The move answers `true` for pid 101, and moved the group that 101 had left. -/
theorem wrong_group_moved :
    (move delegatedManager threadMachine 101 "/sys/fs/cgroup/own/cpu80" childWorld
        reuseAfterTgid).1 = true ∧
      ((move delegatedManager threadMachine 101 "/sys/fs/cgroup/own/cpu80" childWorld
        reuseAfterTgid).2.log.map Effect.action) =
          [.write (components "/sys/fs/cgroup/own/cpu80/cgroup.procs") "100\n"] ∧
      (reuseAfterTgid.holderAt 4 101).map Task.process = some 1 ∧
      (named (tableAt threadReused 4) "100\n").map Task.process = some 0 ∧
      ¬ Honest delegatedManager threadMachine 101 "/sys/fs/cgroup/own/cpu80" childWorld
        reuseAfterTgid := by
  refine ⟨by decide +kernel, by decide +kernel, by decide, by decide, fun honest => ?_⟩
  obtain ⟨text, before, _, task, log, isBefore, _, resolved, same, _⟩ :=
    honest.moved (by decide +kernel)
  have isText : text = "100\n" := by
    have written : (move delegatedManager threadMachine 101 "/sys/fs/cgroup/own/cpu80" childWorld
        reuseAfterTgid).2.log.map Effect.action =
          [.write (components "/sys/fs/cgroup/own/cpu80/cgroup.procs") "100\n"] := by
      decide +kernel
    rw [log] at written
    have parts : procsPath delegatedManager "/sys/fs/cgroup/own/cpu80" =
        components "/sys/fs/cgroup/own/cpu80/cgroup.procs" ∧ text = "100\n" := by
      simpa [childWorld] using written
    exact parts.2
  have isNew : reuseAfterTgid.holderAt 4 101 = some ⟨101, 1, 101, 900⟩ := by
    decide
  have isLeader : named (tableAt threadReused 4) "100\n" = some ⟨100, 0, 100, 500⟩ := by
    decide
  rw [isText] at resolved
  rw [← Option.some.inj (isNew.symm.trans isBefore),
    ← Option.some.inj (isLeader.symm.trans resolved)] at same
  exact absurd same (by decide)

end AnanicyRs.Platform.PidMove
