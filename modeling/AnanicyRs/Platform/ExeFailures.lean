import AnanicyRs.Lib.Cache
import AnanicyRs.Lib.StateInvariant
import AnanicyRs.Platform.CommandName
import AnanicyRs.Platform.Procfs

/-!
Contract: the budget of failed `exe` reads of `crates/ananicy-platform/src/procfs.rs`.

Owns `EXE_FAIL_CACHE`, `exe_failures_for`, `remembered_budget` and `get_command_from_pid`
as functions of what each read of a call gives, and the runs of calls. A pid may change
hands between any two reads of one call, so a call says for each read what it saw; the
start time an `exe` link belongs to is known to the run and not to the code.

A count is read under one start time and written under another, with the failing read
between them. `exe_budget_is_own` says that a read is only skipped for its process' own
failures as long as the three agree where a read is denied, and the first two where it is
skipped; `reused_pid_skipped` is a run where they do not.

Calls follow one another. What several threads make of the cache is not modelled, and the
lock is always granted: nothing panics while it is held.
-/

set_option autoImplicit false

namespace AnanicyRs.Platform.ExeFailures

open AnanicyRs.Lib
open AnanicyRs.Lib.StateInvariant
open AnanicyRs.Platform.CommandName
open AnanicyRs.Platform.Procfs

/-! ## The cache -/

structure ExeFailure where
  startTime : Option Nat
  count : Nat
deriving DecidableEq

abbrev FailCache := List (Int32 × ExeFailure)

def commandNameHeuristicSkipExeFailures : Nat := 5

def maxExeFailCacheSize : Nat := 256

def exeFailCache : Cache.LossyCache FailCache Int32 ExeFailure := Cache.lru maxExeFailCacheSize

def rememberedBudget (entry : ExeFailure) (observed : Option Nat) : Option Nat :=
  match entry.startTime, observed with
  | some recorded, some now => if recorded = now then some entry.count else none
  | _, _ => none

def exeFailuresFor (pid : Int32) (stat : Option String) (cache : FailCache) : Nat × FailCache :=
  match exeFailCache.get pid cache with
  | (none, cache) => (0, cache)
  | (some entry, cache) =>
      match rememberedBudget entry (getStartTime stat) with
      | some count => (count, cache)
      | none => (0, Cache.pop pid cache)

/-! ## One call -/

/-- What `fs::read_link` says of `/proc/<pid>/exe`. -/
inductive ExeRead where
  | target (path : List UInt8)
  | denied
  | failed
deriving DecidableEq

/-- What the reads of one call give, in their order, had they all been made. -/
structure Reads where
  cmdline : Option (List UInt8)
  /-- `comm`, read beside a second argument. -/
  commOfScript : Option String
  /-- `stat`, read to check an entry. -/
  statAtCheck : Option String
  exe : ExeRead
  /-- `stat`, read to stamp an entry. -/
  statAtStamp : Option String
  comm : Option String

def getCommandFromPid (pid : Int32) (reads : Reads) (cache : FailCache) : String × FailCache :=
  match nameFromCmdline reads.cmdline reads.commOfScript with
  | some name => (name, cache)
  | none =>
      let (exeFailures, cache) := exeFailuresFor pid reads.statAtCheck cache
      if exeFailures < commandNameHeuristicSkipExeFailures then
        match reads.exe with
        | .target path =>
            let cache := if exeFailures > 0 then Cache.pop pid cache else cache
            ((nameFromExe path).getD (nameFromComm reads.comm), cache)
        | .denied =>
            let entry := ⟨getStartTime reads.statAtStamp, exeFailures + 1⟩
            (nameFromComm reads.comm, exeFailCache.put pid entry cache)
        | .failed => (nameFromComm reads.comm, cache)
      else (nameFromComm reads.comm, cache)

/-! ## Runs -/

structure Process where
  pid : Int32
  startTime : Nat
deriving DecidableEq

structure Call where
  pid : Int32
  reads : Reads
  /-- The start time of the process that holds the pid when its `exe` is read, or skipped. -/
  holder : Nat

section Calls

variable (call : Call) (cache : FailCache)

def Call.seenAtCheck : Option Nat := getStartTime call.reads.statAtCheck

def Call.seenAtStamp : Option Nat := getStartTime call.reads.statAtStamp

/-- The failures the call starts from. -/
def Call.carried : Nat := (exeFailuresFor call.pid call.reads.statAtCheck cache).1

/-- The cache after the check. -/
def Call.checked : FailCache := (exeFailuresFor call.pid call.reads.statAtCheck cache).2

/-- The call gets as far as `exe` and reads it. -/
def Call.ReadsExe : Prop :=
  nameFromCmdline call.reads.cmdline call.reads.commOfScript = none ∧
    call.carried cache < commandNameHeuristicSkipExeFailures

/-- The call gets as far as `exe` and does not read it. -/
def Call.SkipsExe : Prop :=
  nameFromCmdline call.reads.cmdline call.reads.commOfScript = none ∧
    commandNameHeuristicSkipExeFailures ≤ call.carried cache

/-- An entry describes the process the check sees. -/
def Call.Remembered : Prop :=
  ∃ entry, (exeFailCache.get call.pid cache).1 = some entry ∧
    rememberedBudget entry call.seenAtCheck ≠ none

instance : Decidable (call.ReadsExe cache) :=
  inferInstanceAs (Decidable (_ ∧ _))

instance : Decidable (call.SkipsExe cache) :=
  inferInstanceAs (Decidable (_ ∧ _))

end Calls

structure State where
  cache : FailCache
  /-- The `exe` reads so far and the processes they asked, the last one first. -/
  exeReads : List (Process × ExeRead)

def initial : State := ⟨[], []⟩

def step (call : Call) (state : State) : State where
  cache := (getCommandFromPid call.pid call.reads state.cache).2
  exeReads :=
    if call.ReadsExe state.cache then (⟨call.pid, call.holder⟩, call.reads.exe) :: state.exeReads
    else state.exeReads

/-- The failures since the last success, after one more read. -/
def ExeRead.failuresAfter (earlier : Nat) : ExeRead → Nat
  | .target _ => 0
  | .denied => earlier + 1
  | .failed => earlier

/-- How often a process has denied its link since it last gave it. -/
def ownFailures (process : Process) : List (Process × ExeRead) → Nat
  | [] => 0
  | (asked, outcome) :: earlier =>
      if asked = process then outcome.failuresAfter (ownFailures process earlier)
      else ownFailures process earlier

/-- The read is skipped only for a process that has used up the budget itself. -/
def OwnBudget (state : State) (call : Call) : Prop :=
  call.SkipsExe state.cache →
    commandNameHeuristicSkipExeFailures ≤ ownFailures ⟨call.pid, call.holder⟩ state.exeReads

/-- Where a read is denied, the count is stamped for nobody, or for the process that denied
it with what was remembered of that process; where a read is skipped, the process that is
skipped is the one the check sees. -/
structure SameProcess (state : State) (call : Call) : Prop where
  denied : call.ReadsExe state.cache → call.reads.exe = .denied →
    call.seenAtStamp = none ∨
      call.seenAtStamp = some call.holder ∧
        (call.Remembered state.cache → call.seenAtCheck = some call.holder)
  skipped : call.SkipsExe state.cache → call.seenAtCheck = some call.holder

/-! ## What a call leaves in the cache -/

/-- Both sides have to be known: two absent start times are no match. -/
theorem rememberedBudget_eq_some_iff {entry : ExeFailure} {observed : Option Nat} {count : Nat} :
    rememberedBudget entry observed = some count ↔
      ∃ now, entry.startTime = some now ∧ observed = some now ∧ count = entry.count := by
  unfold rememberedBudget
  split
  next recorded now isRecorded =>
    rw [Option.ite_none_right_eq_some, Option.some.injEq, isRecorded]
    constructor
    · intro remembered
      exact ⟨now, congrArg some remembered.1, rfl, remembered.2.symm⟩
    · intro described
      obtain ⟨_, isRecorded, isNow, isCount⟩ := described
      cases isRecorded
      cases isNow
      exact ⟨rfl, isCount.symm⟩
  next unknown =>
    constructor
    · intro impossible
      exact absurd impossible (by simp)
    · intro described
      obtain ⟨now, isRecorded, isNow, _⟩ := described
      exact absurd isNow (unknown now now isRecorded)

section Step

variable {call : Call} {state : State}

/-- The check answers zero and leaves no entry of the pid, or finds the entry of the process
it sees, answers its count and leaves it. -/
theorem Call.carried_cases (call : Call) (cache : FailCache) :
    (call.carried cache = 0 ∧ ∀ other ∈ call.checked cache, other ∈ cache ∧ other.1 ≠ call.pid) ∨
      ∃ entry now, (exeFailCache.get call.pid cache).1 = some entry ∧ (call.pid, entry) ∈ cache ∧
        entry.startTime = some now ∧ call.seenAtCheck = some now ∧
        call.carried cache = entry.count ∧
          ∀ other ∈ call.checked cache, other ∈ cache ∧ (other.1 = call.pid → other.2 = entry) := by
  unfold Call.carried Call.checked exeFailuresFor
  rcases Cache.lru_get_cases maxExeFailCacheSize call.pid cache with
    ⟨missing, absent⟩ | ⟨entry, later, found, listed, kept⟩
  · left
    have isMissing : exeFailCache.get call.pid cache = (none, cache) := missing
    rw [isMissing]
    exact ⟨rfl, fun other member => ⟨member, absent other member⟩⟩
  · have isFound : exeFailCache.get call.pid cache = (some entry, later) := found
    rw [isFound]
    cases budget : rememberedBudget entry (getStartTime call.reads.statAtCheck) with
    | none =>
        left
        simp only [budget]
        refine ⟨trivial, fun other member => ?_⟩
        obtain ⟨inLater, different⟩ := Cache.mem_pop.mp member
        exact ⟨(kept other inLater).1, different⟩
    | some count =>
        right
        obtain ⟨now, isRecorded, isNow, isCount⟩ := rememberedBudget_eq_some_iff.mp budget
        simp only [budget]
        exact ⟨entry, now, rfl, listed, isRecorded, isNow, isCount, kept⟩

theorem Call.mem_of_mem_checked {cache : FailCache} {entry : Int32 × ExeFailure}
    (member : entry ∈ call.checked cache) : entry ∈ cache := by
  rcases call.carried_cases cache with ⟨_, kept⟩ | ⟨_, _, _, _, _, _, _, kept⟩
  · exact (kept entry member).1
  · exact (kept entry member).1

/-- A check that answers zero leaves no entry of the pid that counts a failure. -/
theorem Call.count_eq_zero {cache : FailCache} {entry : Int32 × ExeFailure}
    (nothing : call.carried cache = 0) (member : entry ∈ call.checked cache)
    (samePid : entry.1 = call.pid) : entry.2.count = 0 := by
  rcases call.carried_cases cache with ⟨_, kept⟩ | ⟨found, _, _, _, _, _, isCount, kept⟩
  · exact absurd samePid (kept entry member).2
  · rw [(kept entry member).2 samePid, ← isCount, nothing]

theorem step_cache_of_reads (reads : call.ReadsExe state.cache) :
    (step call state).cache =
      match call.reads.exe with
      | .target _ =>
          if call.carried state.cache > 0 then Cache.pop call.pid (call.checked state.cache)
          else call.checked state.cache
      | .denied =>
          exeFailCache.put call.pid ⟨call.seenAtStamp, call.carried state.cache + 1⟩
            (call.checked state.cache)
      | .failed => call.checked state.cache := by
  have below : (exeFailuresFor call.pid call.reads.statAtCheck state.cache).1 <
      commandNameHeuristicSkipExeFailures := reads.2
  simp only [step, getCommandFromPid, reads.1, if_pos below]
  cases call.reads.exe <;> rfl

theorem step_cache_of_not_reads (skips : ¬ call.ReadsExe state.cache) :
    (step call state).cache = state.cache ∨
      (step call state).cache = call.checked state.cache := by
  cases named : nameFromCmdline call.reads.cmdline call.reads.commOfScript with
  | some name =>
      left
      simp only [step, getCommandFromPid, named]
  | none =>
      right
      have above : ¬ (exeFailuresFor call.pid call.reads.statAtCheck state.cache).1 <
          commandNameHeuristicSkipExeFailures := fun below => skips ⟨named, below⟩
      simp only [step, getCommandFromPid, named, if_neg above]
      rfl

/-- Nothing a call does depends on a link that it does not read. -/
theorem getCommandFromPid_unread (skips : ¬ call.ReadsExe state.cache) (exe : ExeRead) :
    getCommandFromPid call.pid { call.reads with exe } state.cache =
      getCommandFromPid call.pid call.reads state.cache := by
  cases named : nameFromCmdline call.reads.cmdline call.reads.commOfScript with
  | some name => simp only [getCommandFromPid, named]
  | none =>
      have above : ¬ (exeFailuresFor call.pid call.reads.statAtCheck state.cache).1 <
          commandNameHeuristicSkipExeFailures := fun below => skips ⟨named, below⟩
      simp only [getCommandFromPid, named, if_neg above]

/-- What a step can do to an entry. Of the pid of a call that reads the link, it keeps none
that counts a failure unless the read fails otherwise; where the link is denied, it writes
one. -/
theorem mem_step_cache {entry : Int32 × ExeFailure} (member : entry ∈ (step call state).cache) :
    (entry ∈ state.cache ∧ (call.ReadsExe state.cache → entry.1 = call.pid →
        call.reads.exe = .failed ∨ entry.2.count = 0)) ∨
      (call.ReadsExe state.cache ∧ call.reads.exe = .denied ∧
        entry = (call.pid, ⟨call.seenAtStamp, call.carried state.cache + 1⟩)) := by
  by_cases reads : call.ReadsExe state.cache
  · rw [step_cache_of_reads reads] at member
    cases outcome : call.reads.exe with
    | target path =>
        left
        simp only [outcome] at member
        split at member
        next counted =>
          obtain ⟨inChecked, different⟩ := Cache.mem_pop.mp member
          exact ⟨Call.mem_of_mem_checked inChecked, fun _ samePid => absurd samePid different⟩
        next uncounted =>
          have nothing : call.carried state.cache = 0 := by
            omega
          exact ⟨Call.mem_of_mem_checked member,
            fun _ samePid => .inr (Call.count_eq_zero nothing member samePid)⟩
    | denied =>
        simp only [outcome] at member
        rcases exeFailCache.put_holds _ _ _ entry.1 entry.2 member with
          ⟨isPid, isEntry⟩ | ⟨different, inChecked⟩
        · exact .inr ⟨reads, rfl, Prod.ext isPid isEntry⟩
        · exact .inl ⟨Call.mem_of_mem_checked inChecked, fun _ samePid => absurd samePid different⟩
    | failed =>
        simp only [outcome] at member
        exact .inl ⟨Call.mem_of_mem_checked member, fun _ _ => .inl rfl⟩
  · left
    refine ⟨?_, fun reads' => absurd reads' reads⟩
    rcases step_cache_of_not_reads reads with same | checked
    · exact same ▸ member
    · rw [checked] at member
      exact Call.mem_of_mem_checked member

/-! ## Whose failures are counted -/

theorem step_exeReads_of_reads (reads : call.ReadsExe state.cache) :
    (step call state).exeReads = (⟨call.pid, call.holder⟩, call.reads.exe) :: state.exeReads :=
  if_pos reads

theorem step_exeReads_of_not_reads (skips : ¬ call.ReadsExe state.cache) :
    (step call state).exeReads = state.exeReads :=
  if_neg skips

/-- Only a link that is given, of the process itself, takes failures away. -/
theorem ownFailures_step_le (process : Process)
    (kept : call.ReadsExe state.cache → process.pid = call.pid →
      ∀ path, call.reads.exe ≠ .target path) :
    ownFailures process state.exeReads ≤ ownFailures process (step call state).exeReads := by
  by_cases reads : call.ReadsExe state.cache
  · rw [step_exeReads_of_reads reads, ownFailures]
    split
    next asked =>
      have samePid : process.pid = call.pid := by
        rw [← asked]
      cases outcome : call.reads.exe with
      | target path => exact absurd outcome (kept reads samePid path)
      | denied => exact Nat.le_succ _
      | failed => exact Nat.le_refl _
    next => exact Nat.le_refl _
  · rw [step_exeReads_of_not_reads reads]

theorem ownFailures_step_denied (reads : call.ReadsExe state.cache)
    (denied : call.reads.exe = .denied) :
    ownFailures ⟨call.pid, call.holder⟩ (step call state).exeReads =
      ownFailures ⟨call.pid, call.holder⟩ state.exeReads + 1 := by
  rw [step_exeReads_of_reads reads, ownFailures, if_pos rfl, denied]
  rfl

/-- No entry counts more failures than its process has had. -/
def Attributed (state : State) : Prop :=
  ∀ pid entry startTime, (pid, entry) ∈ state.cache → entry.startTime = some startTime →
    entry.count ≤ ownFailures ⟨pid, startTime⟩ state.exeReads

/-- No entry counts more failures than are waited for. -/
def Bounded (state : State) : Prop :=
  ∀ entry ∈ state.cache, entry.2.count ≤ commandNameHeuristicSkipExeFailures

theorem bounded_step (bounded : Bounded state) : Bounded (step call state) := by
  intro entry member
  rcases mem_step_cache member with ⟨before, _⟩ | ⟨reads, _, rfl⟩
  · exact bounded entry before
  · exact reads.2

/-- What is carried over is at most what the process the check sees has had. -/
theorem carried_le (attributed : Attributed state)
    (same : call.Remembered state.cache → call.seenAtCheck = some call.holder) :
    call.carried state.cache ≤ ownFailures ⟨call.pid, call.holder⟩ state.exeReads := by
  rcases call.carried_cases state.cache with
    ⟨nothing, _⟩ | ⟨entry, now, found, listed, isRecorded, isNow, isCount, _⟩
  · omega
  · have remembered : call.Remembered state.cache := by
      refine ⟨entry, found, ?_⟩
      rw [rememberedBudget_eq_some_iff.mpr ⟨now, isRecorded, isNow, rfl⟩]
      exact Option.some_ne_none _
    have isHolder : now = call.holder := by
      rw [same remembered] at isNow
      exact (Option.some.inj isNow).symm
    rw [isCount, ← isHolder]
    exact attributed call.pid entry now listed isRecorded

theorem attributed_step (attributed : Attributed state) (same : SameProcess state call) :
    Attributed (step call state) := by
  intro pid entry startTime member isRecorded
  rcases mem_step_cache member with ⟨before, fate⟩ | ⟨reads, denied, isNew⟩
  · by_cases uncounted : entry.count = 0
    · omega
    · have kept : call.ReadsExe state.cache → pid = call.pid →
          ∀ path, call.reads.exe ≠ .target path := by
        intro reads samePid path given
        rcases fate reads samePid with failed | isZero
        · rw [given] at failed
          exact absurd failed (by simp)
        · exact uncounted isZero
      calc entry.count
          ≤ ownFailures ⟨pid, startTime⟩ state.exeReads :=
            attributed pid entry startTime before isRecorded
        _ ≤ ownFailures ⟨pid, startTime⟩ (step call state).exeReads :=
            ownFailures_step_le ⟨pid, startTime⟩ kept
  · obtain ⟨rfl, rfl⟩ := Prod.mk.inj isNew
    have stamped : call.seenAtStamp = some startTime := isRecorded
    rcases same.denied reads denied with nobody | ⟨isHolder, remembered⟩
    · rw [stamped] at nobody
      exact absurd nobody (by simp)
    · have sameStart : startTime = call.holder := by
        rw [stamped] at isHolder
        exact Option.some.inj isHolder
      rw [sameStart, ownFailures_step_denied reads denied]
      exact Nat.succ_le_succ (carried_le attributed remembered)

theorem ownBudget_of_attributed (attributed : Attributed state) (same : SameProcess state call) :
    OwnBudget state call := by
  intro skips
  calc commandNameHeuristicSkipExeFailures
      ≤ call.carried state.cache := skips.2
    _ ≤ ownFailures ⟨call.pid, call.holder⟩ state.exeReads :=
        carried_le attributed fun _ => same.skipped skips

end Step

/-- In every run a stored count stays within the budget. Where no call of a run denies or skips
a link between two processes, every call skips it only for a process that has used up the budget
itself. -/
theorem exe_budget_is_own (calls : List Call) :
    (∀ reached ∈ states step calls initial, Bounded reached) ∧
      (Admits step SameProcess calls initial → Admits step OwnBudget calls initial) := by
  have empty : Bounded initial := by
    intro entry member
    exact absurd member List.not_mem_nil
  have unused : Attributed initial := by
    intro pid entry startTime member
    exact absurd member List.not_mem_nil
  constructor
  · exact invariant_of_step (fun _ _ bounded => bounded_step bounded) calls initial empty
  · exact admits_of_invariant (fun _ _ attributed same => attributed_step attributed same)
      (fun _ _ attributed same => ownBudget_of_attributed attributed same) calls unused

/-- The stat of pid 7, up to the size of its memory. -/
def appStat (startTime : Nat) : String :=
  "7 (app) S 1 7 7 0 -1 4194304 20 0 0 0 5 3 0 0 20 0 1 0 " ++ toString startTime ++ " 9007104\n"

/-- A call for pid 7 that is denied the link of the process started at `holder`, between two
reads of `stat` that see the processes started at `check` and at `stamp`. -/
def deniedCall (check holder stamp : Nat) : Call where
  pid := 7
  reads :=
    { cmdline := some []
      commOfScript := none
      statAtCheck := some (appStat check)
      exe := .denied
      statAtStamp := some (appStat stamp)
      comm := some "app\n" }
  holder := holder

def afterFive : State :=
  (List.replicate 5 (deniedCall 100 100 100)).foldl (fun now call => step call now) initial

/-- A process that keeps its pid through six calls is skipped for its own failures. -/
theorem exe_budget_is_own_six :
    Admits step OwnBudget (List.replicate 6 (deniedCall 100 100 100)) initial ∧
      (deniedCall 100 100 100).SkipsExe afterFive.cache := by
  have seen : getStartTime (some (appStat 100)) = some 100 := by
    decide +kernel
  have steady : ∀ state, SameProcess state (deniedCall 100 100 100) :=
    fun state => ⟨fun reads denied => .inr ⟨seen, fun _ => seen⟩, fun _ => seen⟩
  have admitted : Admits step SameProcess (List.replicate 6 (deniedCall 100 100 100)) initial :=
    ⟨steady _, steady _, steady _, steady _, steady _, steady _, trivial⟩
  have skipped : (deniedCall 100 100 100).SkipsExe afterFive.cache := by
    decide +kernel
  exact ⟨(exe_budget_is_own _).2 admitted, skipped⟩

/-! ## A pid that changes hands inside a call -/

/-- Four calls about one process, and a fifth during which another one takes its pid. -/
def reusedRun : List Call := List.replicate 4 (deniedCall 100 100 100) ++ [deniedCall 100 100 200]

def afterReuse : State := reusedRun.foldl (fun now call => step call now) initial

/-- The new process has never been asked for its link, and is not going to be. -/
theorem reused_pid_skipped :
    (deniedCall 200 200 200).SkipsExe afterReuse.cache ∧
      (deniedCall 200 200 200).seenAtCheck = some 200 ∧
      ownFailures ⟨7, 200⟩ afterReuse.exeReads = 0 ∧
      ¬ Admits step OwnBudget (reusedRun ++ [deniedCall 200 200 200]) initial := by
  have skipped : (deniedCall 200 200 200).SkipsExe afterReuse.cache := by
    decide +kernel
  have seen : (deniedCall 200 200 200).seenAtCheck = some 200 := by
    decide +kernel
  have neverAsked : ownFailures ⟨7, 200⟩ afterReuse.exeReads = 0 := by
    decide +kernel
  refine ⟨skipped, seen, neverAsked, fun own => ?_⟩
  obtain ⟨_, _, _, _, _, last, _⟩ := own
  have used : commandNameHeuristicSkipExeFailures ≤ ownFailures ⟨7, 200⟩ afterReuse.exeReads :=
    last skipped
  rw [neverAsked] at used
  exact absurd used (by decide)

end AnanicyRs.Platform.ExeFailures
