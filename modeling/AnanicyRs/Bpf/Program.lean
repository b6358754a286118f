import AnanicyRs.Lib.StateInvariant
import Mathlib.Data.List.Pairwise

/-!
Contract: the tracepoint program of `crates/ananicy-bpf/bpf/ananicy_cpp.bpf.c`.

Owns `handle_event`, its two callers `handle_exec` and `handle_fork`, and the
minimum interval between reports. `prev_pid` and `prev_ts` are function-static: one
copy for each tracepoint, shared by every CPU the program runs on.

The interval is documented per CPU. `spacedOnCpu_iff` says what is true of the shared
copies: a run drops only what its own CPU reported just before exactly when, at each
drop, the last report of one of the two tracepoints was on that CPU and recent.

The scratch element of the per-CPU `heap` map is always there, so its lookup has no
failure branch; the perf buffer behind `bpf_perf_event_output` is not modelled.
-/

set_option autoImplicit false

namespace AnanicyRs.Bpf

open AnanicyRs.Lib.StateInvariant

/-! ## The program -/

inductive Tracepoint where
  | exec
  | fork
deriving DecidableEq, Repr

/-- What the kernel hands a tracepoint handler. -/
structure Firing where
  tracepoint : Tracepoint
  cpu : Nat
  /-- `bpf_ktime_get_ns()`. -/
  ts : UInt64
  currentPid : Int32
  childPid : Int32
  comm : String
deriving DecidableEq, Repr

structure Event where
  pid : Int32
  prevPid : Int32
  deltaUs : UInt64
  task : String
deriving DecidableEq, Repr

/-- The function-static variables of one handler. -/
structure Statics where
  prevPid : Int32
  prevTs : UInt64
deriving DecidableEq, Repr

def handleEvent (minUs : UInt64) (pid : Int32) (firing : Firing) (statics : Statics) :
    Option Event × Statics :=
  let deltaUs := (firing.ts - statics.prevTs) / 1000
  if minUs ≠ 0 ∧ deltaUs ≤ minUs then (none, statics)
  else
    (some { pid, prevPid := statics.prevPid, deltaUs, task := firing.comm }, ⟨pid, firing.ts⟩)

def handleExec (minUs : UInt64) (firing : Firing) : Statics → Option Event × Statics :=
  handleEvent minUs firing.currentPid firing

/-- The event is about the child, not about the task that forks. -/
def handleFork (minUs : UInt64) (firing : Firing) : Statics → Option Event × Statics :=
  handleEvent minUs firing.childPid firing

/-- The statics of both handlers, and the firings reported so far, the last one first. -/
structure Program where
  statics : Tracepoint → Statics
  reported : List Firing

def Program.loaded : Program := ⟨fun _ => ⟨0, 0⟩, []⟩

def handle (minUs : UInt64) (firing : Firing) (program : Program) : Option Event × Statics :=
  match firing.tracepoint with
  | .exec => handleExec minUs firing (program.statics .exec)
  | .fork => handleFork minUs firing (program.statics .fork)

def fire (minUs : UInt64) (firing : Firing) (program : Program) : Program where
  statics tracepoint :=
    if tracepoint = firing.tracepoint then (handle minUs firing program).2
    else program.statics tracepoint
  reported :=
    if (handle minUs firing program).1.isSome then firing :: program.reported
    else program.reported

/-! ## Drops -/

def Dropped (minUs : UInt64) (program : Program) (firing : Firing) : Prop :=
  (handle minUs firing program).1 = none

/-- `earlier` lies at most `minUs` whole microseconds before `later`. -/
def Within (minUs : UInt64) (earlier later : UInt64) : Prop :=
  (later.toNat - earlier.toNat) / 1000 ≤ minUs.toNat

/-- The drop the documentation allows: this CPU has reported something just before. -/
def Justified (minUs : UInt64) (program : Program) (firing : Firing) : Prop :=
  ∃ earlier ∈ program.reported,
    earlier.cpu = firing.cpu ∧ Within minUs earlier.ts firing.ts

def Program.lastReport (program : Program) (tracepoint : Tracepoint) : Option Firing :=
  program.reported.find? (·.tracepoint = tracepoint)

/-- When the tracepoint's last report, on whatever CPU, is recent, then the last report
of one of the two tracepoints is recent and was on the CPU of this firing. -/
def SpacedOnCpu (minUs : UInt64) (program : Program) (firing : Firing) : Prop :=
  minUs ≠ 0 → Within minUs (program.statics firing.tracepoint).prevTs firing.ts →
    ∃ tracepoint last, program.lastReport tracepoint = some last ∧
      last.cpu = firing.cpu ∧ Within minUs last.ts firing.ts

/-! ## What the statics remember -/

/-- `prev_ts` is the time of the tracepoint's last report, and two reports of one
tracepoint are more than the interval apart. -/
structure Spaced (minUs : UInt64) (program : Program) : Prop where
  statics : ∀ tracepoint,
    (program.statics tracepoint).prevTs = ((program.lastReport tracepoint).map Firing.ts).getD 0
  ordered : program.reported.Pairwise fun later earlier => earlier.ts ≤ later.ts
  apart : minUs ≠ 0 → program.reported.Pairwise fun later earlier =>
    earlier.tracepoint = later.tracepoint → ¬ Within minUs earlier.ts later.ts

theorem spaced_loaded (minUs : UInt64) : Spaced minUs .loaded where
  statics _ := rfl
  ordered := .nil
  apart _ := .nil

theorem Within.mono {minUs earlier middle later : UInt64} (within : Within minUs earlier later)
    (upper : middle ≤ later) : Within minUs earlier middle := by
  rw [UInt64.le_iff_toNat_le] at upper
  unfold Within at within ⊢
  omega

theorem Within.of_le {minUs earlier middle later : UInt64} (within : Within minUs earlier later)
    (lower : earlier ≤ middle) : Within minUs middle later := by
  rw [UInt64.le_iff_toNat_le] at lower
  unfold Within at within ⊢
  omega

/-- Both handlers are `handle_event` on the statics of their tracepoint. -/
theorem handle_eq (minUs : UInt64) (firing : Firing) (program : Program) :
    ∃ pid, handle minUs firing program =
      handleEvent minUs pid firing (program.statics firing.tracepoint) := by
  unfold handle
  cases firing.tracepoint with
  | exec => exact ⟨firing.currentPid, rfl⟩
  | fork => exact ⟨firing.childPid, rfl⟩

/-- While the clock has not gone back, the drop test is one on natural numbers. -/
theorem dropped_iff {minUs : UInt64} {program : Program} {firing : Firing}
    (ordered : (program.statics firing.tracepoint).prevTs ≤ firing.ts) :
    Dropped minUs program firing ↔
      minUs ≠ 0 ∧ Within minUs (program.statics firing.tracepoint).prevTs firing.ts := by
  have elapsed : (firing.ts - (program.statics firing.tracepoint).prevTs) / 1000 ≤ minUs ↔
      Within minUs (program.statics firing.tracepoint).prevTs firing.ts := by
    rw [UInt64.le_iff_toNat_le, UInt64.toNat_div, UInt64.toNat_sub_of_le _ _ ordered]
    rfl
  obtain ⟨pid, isEvent⟩ := handle_eq minUs firing program
  rw [← elapsed, Dropped, isEvent, handleEvent]
  split
  next within => simpa using within
  next passes => simpa using passes

/-- A dropped firing leaves no trace. -/
theorem fire_dropped {minUs : UInt64} {program : Program} {firing : Firing}
    (dropped : Dropped minUs program firing) : fire minUs firing program = program := by
  obtain ⟨pid, isEvent⟩ := handle_eq minUs firing program
  have unchanged : handle minUs firing program =
      (none, program.statics firing.tracepoint) := by
    rw [Dropped, isEvent, handleEvent] at dropped
    rw [isEvent, handleEvent]
    split at dropped
    next within => rw [if_pos within]
    · simp at dropped
  have sameStatics : (fire minUs firing program).statics = program.statics := by
    funext tracepoint
    simp only [fire, unchanged]
    split
    next same => rw [same]
    · rfl
  have sameReports : (fire minUs firing program).reported = program.reported := by
    simp [fire, unchanged]
  cases program
  simp only [fire] at sameStatics sameReports ⊢
  rw [sameStatics, sameReports]

/-- A reported firing becomes the last report of its tracepoint. -/
theorem fire_reported {minUs : UInt64} {program : Program} {firing : Firing}
    (kept : ¬ Dropped minUs program firing) :
    (fire minUs firing program).reported = firing :: program.reported ∧
      ∀ tracepoint, ((fire minUs firing program).statics tracepoint).prevTs =
        if tracepoint = firing.tracepoint then firing.ts
        else (program.statics tracepoint).prevTs := by
  obtain ⟨pid, isEvent⟩ := handle_eq minUs firing program
  have passes : ¬ (minUs ≠ 0 ∧
      (firing.ts - (program.statics firing.tracepoint).prevTs) / 1000 ≤ minUs) := by
    intro within
    rw [Dropped, isEvent, handleEvent, if_pos within] at kept
    exact kept rfl
  constructor
  · simp only [fire, isEvent, handleEvent, if_neg passes, Option.isSome_some, if_true]
  · intro tracepoint
    simp only [fire, isEvent, handleEvent, if_neg passes]
    split <;> rfl

/-! ## The invariant over a run -/

section Run

variable {minUs : UInt64} {program : Program} {firing : Firing}

theorem lastReport_mem {tracepoint : Tracepoint} {last : Firing}
    (isLast : program.lastReport tracepoint = some last) :
    last ∈ program.reported ∧ last.tracepoint = tracepoint :=
  ⟨List.mem_of_find?_eq_some isLast, by simpa using List.find?_some isLast⟩

/-- A report of a tracepoint is its last one, or comes before the last one. -/
theorem Spaced.before_last (spaced : Spaced minUs program) {earlier : Firing}
    (member : earlier ∈ program.reported) :
    ∃ last, program.lastReport earlier.tracepoint = some last ∧
      (earlier = last ∨ earlier.ts ≤ last.ts ∧
        (minUs ≠ 0 → ¬ Within minUs earlier.ts last.ts)) := by
  have found : (program.lastReport earlier.tracepoint).isSome := by
    rw [Program.lastReport, List.find?_isSome]
    exact ⟨earlier, member, by simp⟩
  obtain ⟨last, isLast⟩ := Option.isSome_iff_exists.mp found
  refine ⟨last, isLast, ?_⟩
  obtain ⟨sameTracepoint, newer, older, split, newerOthers⟩ :=
    List.find?_eq_some_iff_append.mp isLast
  rw [split, List.mem_append, List.mem_cons] at member
  rcases member with inNewer | isSame | inOlder
  · exact absurd (newerOthers earlier inNewer) (by simp)
  · exact .inl isSame
  · refine .inr ⟨?_, fun positive => ?_⟩
    · have ordered := spaced.ordered
      rw [split, List.pairwise_append, List.pairwise_cons] at ordered
      exact ordered.2.1.1 earlier inOlder
    · have apart := spaced.apart positive
      rw [split, List.pairwise_append, List.pairwise_cons] at apart
      exact apart.2.1.1 earlier inOlder (of_decide_eq_true sameTracepoint).symm

theorem prevTs_le (spaced : Spaced minUs program)
    (ahead : ∀ earlier ∈ program.reported, earlier.ts ≤ firing.ts) (tracepoint : Tracepoint) :
    (program.statics tracepoint).prevTs ≤ firing.ts := by
  rw [spaced.statics tracepoint]
  cases isLast : program.lastReport tracepoint with
  | none => exact UInt64.zero_le
  | some last => exact ahead last (lastReport_mem isLast).1

theorem spaced_fire (spaced : Spaced minUs program)
    (ahead : ∀ earlier ∈ program.reported, earlier.ts ≤ firing.ts) :
    Spaced minUs (fire minUs firing program) := by
  by_cases dropped : Dropped minUs program firing
  · rw [fire_dropped dropped]
    exact spaced
  · obtain ⟨reports, statics⟩ := fire_reported dropped
    refine ⟨?_, ?_, ?_⟩
    · intro tracepoint
      rw [statics, Program.lastReport, reports, List.find?_cons]
      by_cases same : tracepoint = firing.tracepoint
      · simp [same]
      · rw [if_neg same, spaced.statics tracepoint]
        simp [Ne.symm same, Program.lastReport]
    · rw [reports]
      exact spaced.ordered.cons ahead
    · intro positive
      rw [reports]
      refine List.Pairwise.cons ?_ (spaced.apart positive)
      intro earlier member sameTracepoint within
      -- `earlier` is no later than the last report, which is too old to drop this firing.
      obtain ⟨last, isLast, order⟩ := spaced.before_last member
      have notLater : earlier.ts ≤ last.ts := by
        rcases order with rfl | ⟨before, _⟩
        · exact UInt64.le_refl _
        · exact before
      rw [sameTracepoint] at isLast
      have recent : Within minUs (program.statics firing.tracepoint).prevTs firing.ts := by
        rw [spaced.statics, isLast]
        exact within.of_le notLater
      exact dropped ((dropped_iff (prevTs_le spaced ahead _)).mpr ⟨positive, recent⟩)

/-- A drop is justified exactly when a last report of this CPU justifies it: an older
report of the same tracepoint is too far from the last one to be recent. -/
theorem justified_iff (spaced : Spaced minUs program)
    (ahead : ∀ earlier ∈ program.reported, earlier.ts ≤ firing.ts) (positive : minUs ≠ 0) :
    Justified minUs program firing ↔
      ∃ tracepoint last, program.lastReport tracepoint = some last ∧
        last.cpu = firing.cpu ∧ Within minUs last.ts firing.ts := by
  constructor
  · intro justified
    obtain ⟨earlier, member, sameCpu, recent⟩ := justified
    obtain ⟨last, isLast, order⟩ := spaced.before_last member
    rcases order with rfl | ⟨_, apart⟩
    · exact ⟨_, _, isLast, sameCpu, recent⟩
    · exact absurd (recent.mono (ahead last (lastReport_mem isLast).1)) (apart positive)
  · intro given
    obtain ⟨tracepoint, last, isLast, sameCpu, recent⟩ := given
    exact ⟨last, (lastReport_mem isLast).1, sameCpu, recent⟩

/-- One firing, in a state the run can be in. -/
theorem spacedOnCpu_step (spaced : Spaced minUs program)
    (ahead : ∀ earlier ∈ program.reported, earlier.ts ≤ firing.ts) :
    (Dropped minUs program firing → minUs ≠ 0 ∧ Justified minUs program firing) ↔
      SpacedOnCpu minUs program firing := by
  rw [dropped_iff (prevTs_le spaced ahead _), SpacedOnCpu]
  constructor
  · intro property positive recent
    exact (justified_iff spaced ahead positive).mp (property ⟨positive, recent⟩).2
  · intro condition dropped
    exact ⟨dropped.1, (justified_iff spaced ahead dropped.1).mpr (condition dropped.1 dropped.2)⟩

theorem spacedOnCpu_run (minUs : UInt64) :
    ∀ (firings : List Firing) (program : Program), Spaced minUs program →
      firings.Pairwise (fun earlier later => earlier.ts ≤ later.ts) →
      (∀ firing ∈ firings, ∀ earlier ∈ program.reported, earlier.ts ≤ firing.ts) →
      (Admits (fire minUs)
          (fun state firing => Dropped minUs state firing →
            minUs ≠ 0 ∧ Justified minUs state firing) firings program ↔
        Admits (fire minUs) (SpacedOnCpu minUs) firings program)
  | [], _, _, _, _ => Iff.rfl
  | firing :: rest, program, spaced, ordered, ahead => by
      have here := ahead firing (by simp)
      have reportedAhead : ∀ next ∈ rest, ∀ earlier ∈ (fire minUs firing program).reported,
          earlier.ts ≤ next.ts := by
        intro next member earlier reported
        simp only [fire] at reported
        split at reported
        · rcases List.mem_cons.mp reported with rfl | old
          · exact (List.pairwise_cons.mp ordered).1 next member
          · exact ahead next (by simp [member]) earlier old
        · exact ahead next (by simp [member]) earlier reported
      exact and_congr (spacedOnCpu_step spaced here)
        (spacedOnCpu_run minUs rest _ (spaced_fire spaced here)
          (List.pairwise_cons.mp ordered).2 reportedAhead)

end Run

/-- Over every sequence of firings with a clock that does not go back, the program
drops only what follows a recent report on the same CPU, and nothing when the interval
is zero, exactly when no firing falls into the interval of another CPU's report. -/
theorem spacedOnCpu_iff (minUs : UInt64) (firings : List Firing)
    (ordered : firings.Pairwise fun earlier later => earlier.ts ≤ later.ts) :
    Admits (fire minUs)
        (fun program firing => Dropped minUs program firing →
          minUs ≠ 0 ∧ Justified minUs program firing) firings .loaded ↔
      Admits (fire minUs) (SpacedOnCpu minUs) firings .loaded :=
  spacedOnCpu_run minUs firings .loaded (spaced_loaded minUs) ordered (by simp [Program.loaded])

def execOn (cpu : Nat) (ts : UInt64) (pid : Int32) : Firing :=
  ⟨.exec, cpu, ts, pid, 0, "sh"⟩

/-- Two execs of one CPU five microseconds apart: the second is dropped for the first. -/
theorem spacedOnCpu_sameCpu :
    Dropped 1000 (fire 1000 (execOn 0 10000000000 7) .loaded) (execOn 0 10000005000 8) ∧
      Admits (fire 1000)
        (fun program firing => Dropped 1000 program firing →
          (1000 : UInt64) ≠ 0 ∧ Justified 1000 program firing)
        [execOn 0 10000000000 7, execOn 0 10000005000 8] .loaded := by
  refine ⟨by unfold Dropped; decide, (spacedOnCpu_iff 1000 _ (by decide)).mpr ⟨?_, ?_, trivial⟩⟩
  · intro _ recent
    exact absurd recent (by unfold Within; decide)
  · intro _ _
    exact ⟨.exec, execOn 0 10000000000 7, by decide, rfl, by unfold Within; decide⟩

/-- An exec on CPU 1, which has reported nothing, is dropped for one on CPU 0. -/
theorem dropped_for_other_cpu :
    ¬ Admits (fire 1000)
      (fun program firing => Dropped 1000 program firing →
        (1000 : UInt64) ≠ 0 ∧ Justified 1000 program firing)
      [execOn 0 10000000000 7, execOn 1 10000005000 8] .loaded := by
  intro property
  obtain ⟨_, earlier, reported, sameCpu, _⟩ := property.2.1 (by unfold Dropped; decide)
  have onlyFirst : (fire 1000 (execOn 0 10000000000 7) .loaded).reported =
      [execOn 0 10000000000 7] := by decide
  rw [onlyFirst, List.mem_singleton] at reported
  subst reported
  exact absurd sameCpu (by decide)

end AnanicyRs.Bpf
