import AnanicyRs.Platform.ThreadSweep

/-!
Contract: the per-thread setters of `crates/ananicy-platform/src/priority.rs`.

Owns the system calls of that file, `set_priority`, `set_latency_nice` and `set_sched`,
and how the answers of the threads become one answer for the process: `first_real_error`
picks the error, `test_errno` classifies it. The kernel is a server with a state of its
own, so that its answers may depend on everything it was asked before.

`AnswersForProcess` says in its own terms what the answer of a process should be.
`threadSetters_answer_iff` shows that it is met on every list of threads but the empty one.

The log lines are left out, and with them the pid, which only they name.
-/

set_option autoImplicit false

namespace AnanicyRs.Platform.Priority

open AnanicyRs.Core AnanicyRs.Lib.CallLog

/-! ## System calls -/

def schedNormal : UInt32 := 0

def schedFifo : UInt32 := 1

def schedRr : UInt32 := 2

def schedBatch : UInt32 := 3

def schedIdle : UInt32 := 5

def schedFlagKeepPolicy : UInt64 := 0x08

def schedFlagKeepParams : UInt64 := 0x10

def schedFlagLatencyNice : UInt64 := 0x80

/-- `sched_attr`; its size as `std::mem::size_of` gives it. -/
structure SchedAttr where
  size : UInt32 := 64
  schedPolicy : UInt32 := 0
  schedFlags : UInt64 := 0
  schedNice : Int32 := 0
  schedPriority : UInt32 := 0
  schedRuntime : UInt64 := 0
  schedDeadline : UInt64 := 0
  schedPeriod : UInt64 := 0
  schedUtilMin : UInt32 := 0
  schedUtilMax : UInt32 := 0
  schedLatencyNice : Int32 := 0
deriving DecidableEq, Repr

inductive Syscall where
  | setpriority (tid nice : Int32)
  | schedSetattr (tid : Int32) (attr : SchedAttr)
  | schedSetscheduler (tid policy priority : Int32)
  | ioprioSet (who ioprio : Int32)
deriving DecidableEq, Repr

/-! ## One answer for a process -/

section Setters

variable {σ : Type} (describe : Errno → String) (server : Server σ Syscall Errno)

/-- `test_errno`. `io::ErrorKind::NotFound` is the kind of `ENOENT`. -/
def testErrno (err : Errno) : Except PlatformError Unit :=
  if err.raw = 0 then .ok ()
  else if err = .noent ∨ err = .srch then .error .notFound
  else if err = .access ∨ err = .perm then .error .permissionDenied
  else .error (.io (err.toIoError describe))

/-- `first_real_error`, on what its loop remembers. -/
def firstRealError (sweep : Sweep) : Option Errno :=
  match sweep.firstReal with
  | some e => some e
  | none => if !sweep.applied && sweep.notFound then some .srch else none

/-- The common body of the setters. -/
def answerOf (sweep : Sweep) : Except PlatformError Unit :=
  match firstRealError sweep with
  | none => .ok ()
  | some e => testErrno describe e

def forThreads (request : Int32 → Syscall) (tids : List Int32) :
    StateM σ (Except PlatformError Unit) := do
  return answerOf describe (← collect Sweep.record server (tids.map request) .start)

def setPriority (tids : List Int32) (niceValue : Int32) : StateM σ (Except PlatformError Unit) :=
  forThreads describe server (fun tid => .setpriority tid niceValue) tids

def latencyNiceAttr (latencyNiceValue : Int32) : SchedAttr where
  schedPolicy := schedNormal
  schedFlags := schedFlagLatencyNice ||| schedFlagKeepParams ||| schedFlagKeepPolicy
  schedLatencyNice := latencyNiceValue

def setLatencyNice (tids : List Int32) (latencyNiceValue : Int32) :
    StateM σ (Except PlatformError Unit) :=
  forThreads describe server (fun tid => .schedSetattr tid (latencyNiceAttr latencyNiceValue)) tids

structure SchedChoice where
  policy : UInt32
  schedPriority : Int32
  report : Option String

/-- The policy a name stands for; `none` for a name that is not known. -/
def schedChoice (schedName : String) (rtPrio : UInt32) : Option SchedChoice :=
  match schedName with
  | "idle" => some ⟨schedIdle, 0, none⟩
  | "normal" => some ⟨schedNormal, 0, none⟩
  | "other" => some ⟨schedNormal, 0, none⟩
  | "rr" => some ⟨schedRr, rtPrio.toInt32, none⟩
  | "fifo" => some ⟨schedFifo, rtPrio.toInt32, none⟩
  | "deadline" => some ⟨schedNormal, 0, some "deadline scheduler is unavailable"⟩
  | "batch" => some ⟨schedBatch, 0, none⟩
  | _ => none

def reported (report : Option String) (outcome : Except PlatformError Unit) :
    Except PlatformError Unit :=
  match outcome, report with
  | .ok (), some reason => .error (.skipped reason)
  | .ok (), none => .ok ()
  | .error e, _ => .error e

def setSched (tids : List Int32) (schedName : String) (rtPrio : UInt32) :
    StateM σ (Except PlatformError Unit) :=
  match schedChoice schedName rtPrio with
  | none => pure (.error .unsupported)
  | some choice => do
      let outcome ← forThreads describe server
        (fun tid => .schedSetscheduler tid choice.policy.toInt32 choice.schedPriority) tids
      return reported choice.report outcome

/-! ## The setters as a family -/

inductive ThreadSetter where
  | priority (niceValue : Int32)
  | latencyNice (latencyNiceValue : Int32)
  | sched (schedName : String) (rtPrio : UInt32)

def ThreadSetter.perform (tids : List Int32) :
    ThreadSetter → StateM σ (Except PlatformError Unit)
  | .priority niceValue => setPriority describe server tids niceValue
  | .latencyNice latencyNiceValue => setLatencyNice describe server tids latencyNiceValue
  | .sched schedName rtPrio => setSched describe server tids schedName rtPrio

end Setters

/-- The call a setter makes for each thread, and what it reports in place of success;
`none` for a policy name that is not known. -/
def ThreadSetter.plan : ThreadSetter → Option ((Int32 → Syscall) × Option String)
  | .priority niceValue => some (fun tid => .setpriority tid niceValue, none)
  | .latencyNice latencyNiceValue =>
      some (fun tid => .schedSetattr tid (latencyNiceAttr latencyNiceValue), none)
  | .sched schedName rtPrio => (schedChoice schedName rtPrio).map fun choice =>
      (fun tid => .schedSetscheduler tid choice.policy.toInt32 choice.schedPriority, choice.report)

/-- What the answers of the threads should add up to. -/
structure AnswersForProcess (describe : Errno → String) (report : Option String)
    (answers : List (Except Errno Unit)) (result : Except PlatformError Unit) : Prop where
  applied_iff : result = reported report (.ok ()) ↔
    (∃ answer ∈ answers, accepted answer = true) ∧
      ∀ answer ∈ answers, accepted answer = true ∨ isGone answer = true
  gone : (∀ answer ∈ answers, isGone answer = true) → result = .error .notFound
  refused : ∀ e, answers.findSome? realError = some e → result = testErrno describe e

/-! ## The verdict -/

section Verdict

variable {describe : Errno → String}

/-- A classified error is an error, and never a skipped attribute. -/
theorem exists_testErrno (describe : Errno → String) (err : Errno) :
    ∃ error, testErrno describe err = .error error ∧ ∀ reason, error ≠ .skipped reason := by
  have failed : ¬ err.raw = 0 := Nat.ne_of_gt err.positive
  rw [testErrno, if_neg failed]
  split
  · exact ⟨.notFound, rfl, by simp⟩
  · split
    · exact ⟨.permissionDenied, rfl, by simp⟩
    · exact ⟨.io (err.toIoError describe), rfl, by simp⟩

theorem testErrno_ne_reported (describe : Errno → String) (err : Errno) (report : Option String) :
    testErrno describe err ≠ reported report (.ok ()) := by
  obtain ⟨error, classified, notSkipped⟩ := exists_testErrno describe err
  rw [classified]
  cases report with
  | none => simp [reported]
  | some reason => simpa [reported] using notSkipped reason

theorem reported_testErrno (describe : Errno → String) (err : Errno) (report : Option String) :
    reported report (testErrno describe err) = testErrno describe err := by
  obtain ⟨error, classified, _⟩ := exists_testErrno describe err
  rw [classified, reported]

theorem testErrno_srch : testErrno describe .srch = .error .notFound := by
  simp [testErrno, Errno.srch]

section Answers

variable {report : Option String} {answers : List (Except Errno Unit)}

theorem silent_of_no_error (silent : answers.findSome? realError = none) :
    ∀ answer ∈ answers, accepted answer = true ∨ isGone answer = true := by
  intro answer member
  rw [← realError_eq_none_iff]
  exact List.findSome?_eq_none_iff.mp silent answer member

theorem answersFor_error {e : Errno} (first : answers.findSome? realError = some e) :
    AnswersForProcess describe report answers (testErrno describe e) := by
  obtain ⟨refusal, member, isReal⟩ := List.exists_of_findSome?_eq_some first
  have notGone : ¬ (accepted refusal = true ∨ isGone refusal = true) := by
    rw [← realError_eq_none_iff, isReal]
    simp
  refine ⟨iff_of_false (testErrno_ne_reported describe e report) ?_, ?_, ?_⟩
  · intro everyOther
    exact notGone (everyOther.2 refusal member)
  · intro allGone
    exact absurd (.inr (allGone refusal member)) notGone
  · intro other found
    rw [first, Option.some.injEq] at found
    rw [found]

theorem answersFor_accepted (silent : answers.findSome? realError = none)
    (applied : answers.any accepted = true) :
    AnswersForProcess describe report answers (reported report (.ok ())) := by
  obtain ⟨answer, member, isAccepted⟩ := List.any_eq_true.mp applied
  refine ⟨iff_of_true rfl ⟨⟨answer, member, isAccepted⟩, silent_of_no_error silent⟩, ?_, ?_⟩
  · intro allGone
    rw [(not_accepted_of_isGone (allGone answer member)).2] at isAccepted
    exact absurd isAccepted (by decide)
  · intro other found
    simp [silent] at found

theorem answersFor_gone (silent : answers.findSome? realError = none)
    (applied : answers.any accepted = false) :
    AnswersForProcess describe report answers (.error .notFound) := by
  refine ⟨iff_of_false ?_ ?_, fun _ => rfl, ?_⟩
  · rw [← @testErrno_srch describe]
    exact testErrno_ne_reported describe .srch report
  · intro someAccepted
    rw [← List.any_eq_true, applied] at someAccepted
    exact absurd someAccepted.1 (by decide)
  · intro other found
    simp [silent] at found

/-- No success, no error and no thread that is gone: there was no thread. -/
theorem answers_eq_nil (silent : answers.findSome? realError = none)
    (applied : answers.any accepted = false) (gone : answers.any isGone = false) : answers = [] := by
  by_contra nonempty
  have silentSweep := @Sweep.notFound_of_silent answers nonempty
  rw [Sweep.of_eq] at silentSweep
  have found := silentSweep silent applied
  simp [gone] at found

theorem not_answersFor_nil : ¬ AnswersForProcess describe report [] (reported report (.ok ())) := by
  intro answersFor
  have notFound := answersFor.gone (by simp)
  cases report with
  | none => simp [reported] at notFound
  | some reason => simp [reported] at notFound

end Answers

/-- The setters answer for the process on every list of answers but the empty one, where
they report success although no thread accepted. -/
theorem answersForProcess_iff (report : Option String) (answers : List (Except Errno Unit)) :
    AnswersForProcess describe report answers
        (reported report (answerOf describe (Sweep.of answers))) ↔ answers ≠ [] := by
  rw [answerOf, firstRealError, Sweep.of_eq]
  cases first : answers.findSome? realError with
  | some e =>
      obtain ⟨refusal, member, _⟩ := List.exists_of_findSome?_eq_some first
      refine iff_of_true ?_ (List.ne_nil_of_mem member)
      simp only [reported_testErrno]
      exact answersFor_error first
  | none =>
      cases applied : answers.any accepted with
      | true =>
          obtain ⟨answer, member, _⟩ := List.any_eq_true.mp applied
          refine iff_of_true ?_ (List.ne_nil_of_mem member)
          exact answersFor_accepted first applied
      | false =>
          cases gone : answers.any isGone with
          | true =>
              obtain ⟨answer, member, _⟩ := List.any_eq_true.mp gone
              refine iff_of_true ?_ (List.ne_nil_of_mem member)
              have result : reported report (testErrno describe .srch) = .error .notFound := by
                rw [reported_testErrno, testErrno_srch]
              simp only [Bool.not_false, Bool.and_self, if_true, result]
              exact answersFor_gone first applied
          | false =>
              have empty := answers_eq_nil first applied gone
              refine iff_of_false ?_ (by simp [empty])
              rw [empty]
              exact not_answersFor_nil

/-- The verdict does not see the threads that are gone, where there is another. -/
theorem answerOf_insensitive {left right : List (Except Errno Unit)}
    (same : left.filter (fun answer => !isGone answer) = right.filter fun answer => !isGone answer)
    (someThere : left.filter (fun answer => !isGone answer) ≠ []) :
    answerOf describe (Sweep.of left) = answerOf describe (Sweep.of right) := by
  have onLeft := Sweep.of_filter left
  have onRight := Sweep.of_filter right
  rw [same] at onLeft
  have sameError := onLeft.1.symm.trans onRight.1
  have sameApplied := onLeft.2.symm.trans onRight.2
  rw [answerOf, answerOf, firstRealError, firstRealError, sameError, sameApplied]
  cases first : (Sweep.of right).firstReal with
  | some e => rfl
  | none =>
      cases applied : (Sweep.of right).applied with
      | true => rfl
      | false =>
          -- Neither a success nor an error is left: the filtered list would be empty.
          exfalso
          obtain ⟨answer, rest, parts⟩ := List.exists_cons_of_ne_nil someThere
          have member : answer ∈ left.filter fun answer => !isGone answer := by
            simp [parts]
          rw [same, List.mem_filter] at member
          rw [Sweep.of_eq] at first applied
          have noError := List.findSome?_eq_none_iff.mp first answer member.1
          have refused := List.any_eq_false.mp applied answer member.1
          rcases (realError_eq_none_iff answer).mp noError with isAccepted | gone
          · exact refused isAccepted
          · simp [gone] at member

end Verdict

/-! ## Whole runs -/

section Runs

variable {σ : Type} (describe : Errno → String)

theorem perform_eq {setter : ThreadSetter} {request : Int32 → Syscall} {report : Option String}
    (planned : setter.plan = some (request, report)) (server : Server σ Syscall Errno)
    (tids : List Int32) :
    setter.perform describe server tids = do
      return reported report (← forThreads describe server request tids) := by
  have unreported : ∀ run : StateM σ (Except PlatformError Unit),
      run = do return reported none (← run) := by
    intro run
    have same : ∀ outcome, reported none outcome = outcome := by
      intro outcome
      cases outcome with
      | ok => rfl
      | error => rfl
    simp [same]
  cases setter with
  | priority niceValue =>
      obtain ⟨rfl, rfl⟩ := Prod.mk.inj (Option.some.inj planned)
      exact unreported _
  | latencyNice latencyNiceValue =>
      obtain ⟨rfl, rfl⟩ := Prod.mk.inj (Option.some.inj planned)
      exact unreported _
  | sched schedName rtPrio =>
      obtain ⟨choice, chosen, same⟩ := Option.map_eq_some_iff.mp planned
      obtain ⟨rfl, rfl⟩ := Prod.mk.inj same
      rw [ThreadSetter.perform, setSched, chosen]

/-- Every thread is asked, and the result is read off the answers. -/
theorem perform_logged {setter : ThreadSetter} {request : Int32 → Syscall}
    {report : Option String} (planned : setter.plan = some (request, report))
    (server : Server σ Syscall Errno) (state : σ) (tids : List Int32) :
    let run := setter.perform describe (logged server) tids (state, [])
    run.2.2.map Prod.fst = tids.map request ∧
      run.1 = reported report (answerOf describe (Sweep.of (run.2.2.map Prod.snd))) := by
  obtain ⟨answers, next, sameLength, run⟩ :=
    collect_logged Sweep.record server (tids.map request) .start state []
  have performed : setter.perform describe (logged server) tids (state, []) =
      (reported report (answerOf describe (Sweep.of answers)),
        (next, (tids.map request).zip answers)) := by
    rw [perform_eq describe planned]
    change (reported report (answerOf describe (collect _ _ _ _ (state, [])).1),
      (collect _ _ _ _ (state, [])).2) = _
    rw [run, List.nil_append]
    rfl
  rw [performed]
  refine ⟨List.map_fst_zip (Nat.le_of_eq sameLength.symm), ?_⟩
  rw [List.map_snd_zip (Nat.le_of_eq sameLength)]

/-- Every setter asks every thread, does not see threads that are gone, and answers for
the process exactly where it was given a thread. -/
theorem threadSetters_answer_iff {setter : ThreadSetter} {request : Int32 → Syscall}
    {report : Option String} (planned : setter.plan = some (request, report))
    (server : Server σ Syscall Errno) (state : σ) (tids : List Int32) :
    let run := setter.perform describe (logged server) tids (state, [])
    run.2.2.map Prod.fst = tids.map request ∧
    (∀ (τ : Type) (otherServer : Server τ Syscall Errno) (otherState : τ) (others : List Int32),
      let other := setter.perform describe (logged otherServer) others (otherState, [])
      (run.2.2.map Prod.snd).filter (fun answer => !isGone answer) =
          (other.2.2.map Prod.snd).filter (fun answer => !isGone answer) →
        (run.2.2.map Prod.snd).filter (fun answer => !isGone answer) ≠ [] → run.1 = other.1) ∧
    (AnswersForProcess describe report (run.2.2.map Prod.snd) run.1 ↔ tids ≠ []) := by
  intro run
  obtain ⟨attempted, result⟩ := perform_logged describe planned server state tids
  refine ⟨attempted, ?_, ?_⟩
  · intro τ otherServer otherState others other same someThere
    obtain ⟨_, otherResult⟩ := perform_logged describe planned otherServer otherState others
    rw [result, otherResult, answerOf_insensitive same someThere]
  · have asked : run.2.2.map Prod.snd = [] ↔ tids = [] := by
      have lengths := congrArg List.length attempted
      simp only [List.length_map] at lengths
      rw [← List.length_eq_zero_iff, ← List.length_eq_zero_iff, List.length_map, lengths]
    rw [result, answersForProcess_iff]
    exact not_congr asked

end Runs

/-- The kernel of a process whose thread 7 is gone. -/
def withoutSeven (call : Syscall) : Except Errno Unit :=
  match call with
  | .schedSetscheduler 7 _ _ => .error .srch
  | _ => .ok ()

theorem deadline_answers_for_process :
    AnswersForProcess (fun _ => "") (some "deadline scheduler is unavailable")
      [.error .srch, .ok ()] (.error (.skipped "deadline scheduler is unavailable")) := by
  have planned : (ThreadSetter.sched "deadline" 1).plan =
      some (fun tid => .schedSetscheduler tid 0 0, some "deadline scheduler is unavailable") := rfl
  exact (threadSetters_answer_iff (fun _ => "") planned (answering withoutSeven) () [7, 8]).2.2.mpr
    (by decide)

/-- Without a thread, `set_priority` reports success and nobody was asked. -/
theorem setPriority_of_no_thread :
    let run := setPriority (fun _ => "") (logged (answering withoutSeven)) [] 19 ((), [])
    run.1 = .ok () ∧ run.2.2 = [] ∧
      ¬ AnswersForProcess (fun _ => "") none (run.2.2.map Prod.snd) run.1 := by
  refine ⟨rfl, rfl, fun answersFor => ?_⟩
  have notFound : (Except.ok () : Except PlatformError Unit) = .error .notFound :=
    answersFor.gone fun _ member => absurd member List.not_mem_nil
  simp at notFound

end AnanicyRs.Platform.Priority
