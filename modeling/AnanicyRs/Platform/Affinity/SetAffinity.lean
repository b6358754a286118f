import AnanicyRs.Platform.Affinity.Mask
import AnanicyRs.Platform.ThreadSweep

/-!
Contract: `set_affinity` of `crates/ananicy-platform/src/abi/affinity.rs`.

Owns the pass over the threads of a process (`apply_to_tids`), the retry with a narrower
mask after `EINVAL` (`narrow_and_retry`) with the CPU lists it reads, and what is reported
in every case. `sched_setaffinity(2)` is a server of its own, so that the calls of a run
can be read off its log; the files are arguments.

The main result compares two runs on thread lists that differ only in threads that are
gone. The retry asks the first thread of the list for its allowed CPUs, whether or not
that thread is still there, and `setAffinity_insensitive_iff` says exactly when this
shows.
-/

set_option autoImplicit false

namespace AnanicyRs.Platform.Affinity

open AnanicyRs.Core AnanicyRs.Lib AnanicyRs.Lib.ByteMask AnanicyRs.Lib.CallLog

/-! ## The CPU lists -/

/-- The files `narrow_and_retry` reads; `none` where one cannot be read. -/
structure CpuFiles where
  /-- `/proc/<tid>/status`. -/
  status : Int32 → Option String
  /-- `/sys/devices/system/cpu/possible`. -/
  possible : Option String
  /-- `/proc/cpuinfo`. -/
  cpuinfo : Option String

def currentAffinity (files : CpuFiles) (tid : Int32) (numBytes : Nat) : Option Mask :=
  (files.status tid).bind fun status =>
    ((Text.lines status).find? fun line => Text.startsWith line "Cpus_allowed_list:").bind
      fun line => (Text.splitOnce line ':').bind fun parts => maskFromCpuList parts.2 numBytes

/-- The CPU of a `processor : n` line. -/
def processorOf (line : String) : Option Nat :=
  (Text.stripPrefixChars "processor".toList line.toList).bind fun rest =>
    (Text.stripPrefixChars [':'] (Text.trimStartChars rest)).bind fun value =>
      Text.parseU32Chars (Text.trimChars value)

def onlineCpus (files : CpuFiles) (numBytes : Nat) : Option Mask :=
  files.cpuinfo.bind fun raw =>
    let reader := ((Text.lines raw).filterMap processorOf).foldl (MaskReader.addCpu numBytes)
      ⟨zeroes numBytes, false⟩
    if reader.any then some reader.mask else none

inductive MachineCpus where
  | possible (mask : Mask)
  | online (mask : Mask)

def MachineCpus.read (files : CpuFiles) (numBytes : Nat) : Option MachineCpus :=
  ((files.possible.bind fun raw => maskFromCpuList (Text.trim raw) numBytes).map .possible).or
    ((onlineCpus files numBytes).map .online)

def MachineCpus.mask : MachineCpus → Mask
  | .possible mask => mask
  | .online mask => mask

def MachineCpus.absent : MachineCpus → String
  | .possible _ => "no CPU a rule asked for exists on this machine"
  | .online _ => "no CPU a rule asked for is online on this machine"

/-! ## One pass -/

inductive AffinityFailure where
  | retryNarrower
  | settled (error : PlatformError)

section Run

variable {σ : Type} (describe : Errno → String) (server : Server σ (Int32 × Mask) Errno)

def classify (error : Errno) : PlatformError :=
  if error = .srch then .notFound
  else if error = .access ∨ error = .perm then .permissionDenied
  else .io (error.toIoError describe)

/-- What `apply_to_tids` concludes from the answers. -/
def passVerdict (sweep : Sweep) : Except AffinityFailure Unit :=
  if sweep.applied then .ok ()
  else
    match sweep.firstReal with
    | some e => .error (if e = .inval then .retryNarrower else .settled (classify describe e))
    | none => if sweep.notFound then .error (.settled .notFound) else .ok ()

def applyToTids (tids : List Int32) (mask : Mask) : StateM σ (Except AffinityFailure Unit) := do
  return passVerdict describe (← collect Sweep.record server (tids.map fun tid => (tid, mask)) .start)

/-! ## The retry -/

def refusedText (pid : Int32) : String :=
  "the kernel refused the cpuset for " ++ toString pid ++ " and its allowed CPUs could not be read"

/-- What the retry reports, for the outcome of its pass. -/
def retryVerdict (pid : Int32) : Except AffinityFailure Unit → Except PlatformError Unit
  | .ok () => .ok ()
  | .error (.settled e) => .error e
  | .error .retryNarrower =>
      .error (.skipped ("the narrowed cpuset was refused for " ++ toString pid ++ " as well"))

/-- `narrow_and_retry`, once the allowed CPUs of the first thread are known. -/
def retryWith (files : CpuFiles) (pid : Int32) (tids : List Int32) (mask : Mask) (numBytes : Nat)
    (allowed : Mask) : StateM σ (Except PlatformError Unit) :=
  let machine := MachineCpus.read files numBytes
  let narrowed := ByteMask.and mask allowed
  match machine.filter fun known => !anySet (ByteMask.and mask known.mask) with
  | some known => pure (.error (.invalidCpuset known.absent))
  | none =>
      if !anySet narrowed then
        pure (.error (match machine with
          | some _ => .skipped ("no CPU in the cpuset a rule asked for is available to " ++
              toString pid)
          | none => .io (Errno.inval.toIoError describe)))
      else if narrowed = mask then pure (.error (.io (Errno.inval.toIoError describe)))
      else do return retryVerdict pid (← applyToTids describe server tids narrowed)

def narrowAndRetry (files : CpuFiles) (pid : Int32) (tids : List Int32) (mask : Mask)
    (numBytes : Nat) : StateM σ (Except PlatformError Unit) :=
  match tids.head?.bind fun tid => currentAffinity files tid numBytes with
  | none => pure (.error (.invalidCpuset (refusedText pid)))
  | some allowed => retryWith describe server files pid tids mask numBytes allowed

/-- What `set_affinity` does with the outcome of its first pass. -/
def afterPass (files : CpuFiles) (pid : Int32) (tids : List Int32) (mask : Mask) (numBytes : Nat) :
    Except AffinityFailure Unit → StateM σ (Except PlatformError Unit)
  | .error .retryNarrower => narrowAndRetry describe server files pid tids mask numBytes
  | .error (.settled e) => pure (.error e)
  | .ok () => pure (.ok ())

/-- `set_affinity` on a machine with `numCpus` CPUs; `none` where building the mask
panics. -/
def setAffinity (files : CpuFiles) (numCpus : Nat) (pid : Int32) (tids : List Int32)
    (cpuset : CpuSet) : StateM σ (Option (Except PlatformError Unit)) :=
  if cpuset.isEmpty then pure (some (.ok ()))
  else
    match maskFrom cpuset numCpus with
    | none => pure none
    | some mask => do
        let pass ← applyToTids describe server tids mask
        return some (← afterPass describe server files pid tids mask (numCpus / 8) pass)

end Run

/-! ## Threads that are gone -/

section Gone

variable (describe : Errno → String) (answer : Int32 × Mask → Except Errno Unit)
  (files : CpuFiles) (live : Int32 → Bool)

/-- The kernel answers `ESRCH` for a thread that is gone, whatever the mask, and has no
status file for it. -/
def GoneThreads : Prop :=
  ∀ tid, live tid = false →
    (∀ mask, answer (tid, mask) = .error .srch) ∧ files.status tid = none

/-- The answers to one pass over the threads. -/
def answersTo (tids : List Int32) (mask : Mask) : List (Except Errno Unit) :=
  tids.map fun tid => answer (tid, mask)

/-- The calls of a log that were made on threads that are there. -/
def liveCalls (log : Log (Int32 × Mask) Errno) : Log (Int32 × Mask) Errno :=
  log.filter fun call => live call.1.1

variable {answer files live}

theorem applyToTids_answering (tids : List Int32) (mask : Mask)
    (log : Log (Int32 × Mask) Errno) :
    applyToTids describe (logged (answering answer)) tids mask ((), log) =
      (passVerdict describe (Sweep.of (answersTo answer tids mask)),
        ((), log ++ tids.map fun tid => ((tid, mask), answer (tid, mask)))) := by
  have pass := collect_answering Sweep.record answer (tids.map fun tid => (tid, mask)) .start log
  rw [List.map_map, List.map_map] at pass
  change (passVerdict describe (collect Sweep.record (logged (answering answer)) _ _ _).1,
    (collect Sweep.record (logged (answering answer)) _ _ _).2) = _
  rw [pass]
  rfl

theorem liveCalls_pass (tids : List Int32) (mask : Mask) (log : Log (Int32 × Mask) Errno) :
    liveCalls live (log ++ tids.map fun tid => ((tid, mask), answer (tid, mask))) =
      liveCalls live log ++
        (tids.filter live).map fun tid => ((tid, mask), answer (tid, mask)) := by
  rw [liveCalls, List.filter_append, List.filter_map]
  rfl

/-- The verdict of a pass is that of a pass over the threads that are there. -/
theorem passVerdict_live (gone : GoneThreads answer files live) {tids : List Int32}
    (someLive : tids.filter live ≠ []) (mask : Mask) :
    passVerdict describe (Sweep.of (answersTo answer tids mask)) =
      passVerdict describe (Sweep.of (answersTo answer (tids.filter live) mask)) := by
  have sameOthers : (answersTo answer tids mask).filter (fun reply => !isGone reply) =
      (answersTo answer (tids.filter live) mask).filter fun reply => !isGone reply := by
    rw [answersTo, answersTo, List.filter_map, List.filter_map, List.filter_filter]
    congr 1
    apply List.filter_congr
    intro tid _
    cases isLive : live tid with
    | true => simp
    | false => simp [(gone tid isLive).1 mask, isGone]
  have whole := Sweep.of_filter (answersTo answer tids mask)
  have onLive := Sweep.of_filter (answersTo answer (tids.filter live) mask)
  rw [sameOthers] at whole
  have sameError := whole.1.symm.trans onLive.1
  have sameApplied := whole.2.symm.trans onLive.2
  have asked : answersTo answer tids mask ≠ [] := by
    intro empty
    rw [answersTo, List.map_eq_nil_iff] at empty
    exact someLive (by rw [empty]; rfl)
  have askedLive : answersTo answer (tids.filter live) mask ≠ [] := by
    intro empty
    exact someLive (List.map_eq_nil_iff.mp empty)
  rw [passVerdict, passVerdict, sameError, sameApplied]
  cases applied : (Sweep.of (answersTo answer (tids.filter live) mask)).applied with
  | true => rfl
  | false =>
      cases first : (Sweep.of (answersTo answer (tids.filter live) mask)).firstReal with
      | some e => rfl
      | none =>
          -- Nobody accepted and nobody refused: everybody is gone, in both lists.
          rw [first] at sameError
          rw [applied] at sameApplied
          rw [Sweep.notFound_of_silent asked sameError sameApplied,
            Sweep.notFound_of_silent askedLive first applied]

theorem classify_ne_invalidCpuset (error : Errno) (text : String) :
    classify describe error ≠ .invalidCpuset text := by
  rw [classify]
  split
  · simp
  · split
    · simp
    · simp

theorem passVerdict_settled {sweep : Sweep} {error : PlatformError}
    (settled : passVerdict describe sweep = .error (.settled error)) (text : String) :
    error ≠ .invalidCpuset text := by
  rw [passVerdict] at settled
  split at settled
  · simp at settled
  · split at settled
    next e _ =>
      split at settled
      · simp at settled
      · have isClass : classify describe e = error := by
          simpa using settled
        rw [← isClass]
        exact classify_ne_invalidCpuset describe e text
    next =>
      split at settled
      · have isNotFound : PlatformError.notFound = error := by
          simpa using settled
        rw [← isNotFound]
        simp
      · simp at settled

variable {describe}

theorem head_refusedText (pid : Int32) : (refusedText pid).toList.head? = some 't' := by
  have start : "the kernel refused the cpuset for ".toList.head? = some 't' := by
    decide +kernel
  unfold refusedText
  rw [String.toList_append, String.toList_append, List.append_assoc, List.head?_append, start]
  exact Option.some_or

theorem head_absent (known : MachineCpus) : known.absent.toList.head? = some 'n' := by
  cases known with
  | possible =>
      change "no CPU a rule asked for exists on this machine".toList.head? = some 'n'
      decide +kernel
  | online =>
      change "no CPU a rule asked for is online on this machine".toList.head? = some 'n'
      decide +kernel

theorem absent_ne_refusedText (known : MachineCpus) (pid : Int32) :
    known.absent ≠ refusedText pid := by
  intro same
  have heads := head_absent known
  rw [same, head_refusedText] at heads
  exact absurd heads (by decide)

/-- Whatever the threads, a retry with the same allowed CPUs reports one error without a
call, and not in the words of a status that could not be read, or makes one more pass. -/
theorem retryWith_cases {σ : Type} (server : Server σ (Int32 × Mask) Errno) (files : CpuFiles)
    (pid : Int32) (mask : Mask) (numBytes : Nat) (allowed : Mask) :
    (∃ error, error ≠ PlatformError.invalidCpuset (refusedText pid) ∧
      ∀ tids, retryWith describe server files pid tids mask numBytes allowed =
        pure (.error error)) ∨
    ∀ tids, retryWith describe server files pid tids mask numBytes allowed = do
      return retryVerdict pid (← applyToTids describe server tids (ByteMask.and mask allowed)) := by
  simp only [retryWith]
  cases absent : (MachineCpus.read files numBytes).filter
      fun known => !anySet (ByteMask.and mask known.mask) with
  | some known =>
      left
      refine ⟨.invalidCpuset known.absent, ?_, fun _ => rfl⟩
      simpa using absent_ne_refusedText known pid
  | none =>
      cases narrowed : anySet (ByteMask.and mask allowed) with
      | false =>
          left
          cases MachineCpus.read files numBytes with
          | some _ => exact ⟨_, by simp, fun _ => rfl⟩
          | none => exact ⟨_, by simp, fun _ => rfl⟩
      | true =>
          by_cases same : ByteMask.and mask allowed = mask
          · left
            refine ⟨.io (Errno.inval.toIoError describe), by simp, fun _ => ?_⟩
            simp [same]
          · right
            intro tids
            simp [same]

/-- A retry is never reported in the words of a status that could not be read. -/
theorem retryWith_ne_refused (pid : Int32) (tids : List Int32) (mask : Mask) (numBytes : Nat)
    (allowed : Mask) (log : Log (Int32 × Mask) Errno) :
    (retryWith describe (logged (answering answer)) files pid tids mask numBytes allowed
      ((), log)).1 ≠ .error (.invalidCpuset (refusedText pid)) := by
  rcases @retryWith_cases describe _ (logged (answering answer)) files pid mask numBytes
    allowed with ⟨error, otherWords, reported⟩ | retried
  · rw [reported tids]
    change Except.error error ≠ _
    simpa using otherWords
  · rw [retried tids]
    change retryVerdict pid (applyToTids describe _ tids _ ((), log)).1 ≠ _
    rw [applyToTids_answering]
    cases verdict : passVerdict describe
        (Sweep.of (answersTo answer tids (ByteMask.and mask allowed))) with
    | ok => simp [retryVerdict]
    | error failure =>
        cases failure with
        | retryNarrower => simp [retryVerdict]
        | settled e =>
            have other := passVerdict_settled describe verdict (refusedText pid)
            simpa [retryVerdict] using other

/-- A retry with the same allowed CPUs does not see the threads that are gone. -/
theorem retryWith_live (gone : GoneThreads answer files live) {left right : List Int32}
    (sameLive : left.filter live = right.filter live) (someLive : left.filter live ≠ [])
    (pid : Int32) (mask : Mask) (numBytes : Nat) (allowed : Mask)
    {leftLog rightLog : Log (Int32 × Mask) Errno}
    (sameCalls : liveCalls live leftLog = liveCalls live rightLog) :
    let run := fun tids log => retryWith describe (logged (answering answer)) files pid tids mask
      numBytes allowed ((), log)
    (run left leftLog).1 = (run right rightLog).1 ∧
      liveCalls live (run left leftLog).2.2 = liveCalls live (run right rightLog).2.2 := by
  intro run
  rcases @retryWith_cases describe _ (logged (answering answer)) files pid mask numBytes
    allowed with ⟨error, _, reported⟩ | retried
  · have fixed : ∀ tids log, run tids log = (.error error, ((), log)) := by
      intro tids log
      change retryWith _ _ _ _ _ _ _ _ _ = _
      rw [reported tids]
      rfl
    rw [fixed, fixed]
    exact ⟨rfl, sameCalls⟩
  · have pass : ∀ tids log, run tids log =
        (retryVerdict pid (passVerdict describe
            (Sweep.of (answersTo answer tids (ByteMask.and mask allowed)))),
          ((), log ++ tids.map fun tid =>
            ((tid, ByteMask.and mask allowed), answer (tid, ByteMask.and mask allowed)))) := by
      intro tids log
      change retryWith _ _ _ _ _ _ _ _ _ = _
      rw [retried tids]
      change (retryVerdict pid (applyToTids describe _ tids _ ((), log)).1,
        (applyToTids describe _ tids _ ((), log)).2) = _
      rw [applyToTids_answering]
    have someRight : right.filter live ≠ [] := by
      rw [← sameLive]
      exact someLive
    rw [pass, pass, liveCalls_pass, liveCalls_pass, passVerdict_live describe gone someLive,
      passVerdict_live describe gone someRight, sameLive, sameCalls]
    exact ⟨rfl, rfl⟩

/-! ## Two runs -/

variable (describe answer files live)

/-- The result of `set_affinity`, and its calls on the threads that are there. -/
def observed (numCpus : Nat) (pid : Int32) (cpuset : CpuSet) (tids : List Int32) :
    Option (Except PlatformError Unit) × Log (Int32 × Mask) Errno :=
  let run := setAffinity describe (logged (answering answer)) files numCpus pid tids cpuset ((), [])
  (run.1, liveCalls live run.2.2)

/-- None of the threads accepts the mask, and the first error that is not `ESRCH` is
`EINVAL`. -/
def AsksForLess (threads : List Int32) (mask : Mask) : Prop :=
  (∀ tid ∈ threads, accepted (answer (tid, mask)) = false) ∧
    threads.findSome? (fun tid => realError (answer (tid, mask))) = some .inval

variable {describe answer files live}

theorem passVerdict_eq_retryNarrower_iff (threads : List Int32) (mask : Mask) :
    passVerdict describe (Sweep.of (answersTo answer threads mask)) = .error .retryNarrower ↔
      AsksForLess answer threads mask := by
  have refused : (Sweep.of (answersTo answer threads mask)).applied = false ↔
      ∀ tid ∈ threads, accepted (answer (tid, mask)) = false := by
    rw [Sweep.of_eq]
    simp [answersTo]
  have first : (Sweep.of (answersTo answer threads mask)).firstReal =
      threads.findSome? fun tid => realError (answer (tid, mask)) := by
    rw [Sweep.of_eq]
    simp [answersTo, List.findSome?_map, Function.comp_def]
  rw [AsksForLess, ← refused, ← first, passVerdict]
  cases (Sweep.of (answersTo answer threads mask)).applied with
  | true => simp
  | false =>
      cases (Sweep.of (answersTo answer threads mask)).firstReal with
      | none =>
          cases (Sweep.of (answersTo answer threads mask)).notFound with
          | true => simp
          | false => simp
      | some e =>
          by_cases isInval : e = .inval
          · simp [isInval]
          · simp [isInval]

/-- The allowed CPUs the retry goes by: those of the first thread that is there if it is
the first of the list, and unreadable otherwise. -/
theorem allowed_eq (gone : GoneThreads answer files live) {tids others : List Int32}
    {first : Int32} (liveTids : tids.filter live = first :: others) (numBytes : Nat) :
    (tids.head?.bind fun tid => currentAffinity files tid numBytes) =
      if tids.head?.any live then currentAffinity files first numBytes else none := by
  cases tids with
  | nil => simp at liveTids
  | cons tid rest =>
      cases isLive : live tid with
      | true =>
          rw [List.filter_cons_of_pos isLive] at liveTids
          obtain ⟨rfl, _⟩ := List.cons.inj liveTids
          simp [isLive]
      | false => simp [isLive, currentAffinity, (gone tid isLive).2]

theorem narrowAndRetry_of_unread {pid : Int32} {mask : Mask} {numBytes : Nat} {tids : List Int32}
    {log : Log (Int32 × Mask) Errno}
    (unread : (tids.head?.bind fun tid => currentAffinity files tid numBytes) = none) :
    narrowAndRetry describe (logged (answering answer)) files pid tids mask numBytes ((), log) =
      (.error (.invalidCpuset (refusedText pid)), ((), log)) := by
  rw [narrowAndRetry, unread]
  rfl

theorem narrowAndRetry_of_read {pid : Int32} {mask : Mask} {numBytes : Nat} {tids : List Int32}
    {log : Log (Int32 × Mask) Errno} {allowed : Mask}
    (read : (tids.head?.bind fun tid => currentAffinity files tid numBytes) = some allowed) :
    narrowAndRetry describe (logged (answering answer)) files pid tids mask numBytes ((), log) =
      retryWith describe (logged (answering answer)) files pid tids mask numBytes allowed
        ((), log) := by
  rw [narrowAndRetry, read]

/-- The retry depends on the threads that are gone only through the first of the list. -/
theorem narrowAndRetry_insensitive_iff (gone : GoneThreads answer files live) {pid : Int32}
    {mask : Mask} {numBytes : Nat} {left right others : List Int32} {first : Int32}
    (leftLive : left.filter live = first :: others)
    (rightLive : right.filter live = first :: others)
    {leftLog rightLog : Log (Int32 × Mask) Errno}
    (sameCalls : liveCalls live leftLog = liveCalls live rightLog) :
    let run := fun tids log => narrowAndRetry describe (logged (answering answer)) files pid tids
      mask numBytes ((), log)
    (some (run left leftLog).1, liveCalls live (run left leftLog).2.2) =
        (some (run right rightLog).1, liveCalls live (run right rightLog).2.2) ↔
      left.head?.any live = right.head?.any live ∨ currentAffinity files first numBytes = none := by
  simp only
  have sameLive : left.filter live = right.filter live := leftLive.trans rightLive.symm
  have someLive : left.filter live ≠ [] := by
    simp [leftLive]
  have leftAllowed := allowed_eq gone leftLive numBytes
  have rightAllowed := allowed_eq gone rightLive numBytes
  cases status : currentAffinity files first numBytes with
  | none =>
      rw [status, ite_self] at leftAllowed rightAllowed
      refine iff_of_true ?_ (.inr rfl)
      rw [narrowAndRetry_of_unread leftAllowed, narrowAndRetry_of_unread rightAllowed, sameCalls]
  | some allowed =>
      rw [status] at leftAllowed rightAllowed
      cases leftHead : left.head?.any live with
      | true =>
          rw [leftHead, if_pos rfl] at leftAllowed
          cases rightHead : right.head?.any live with
          | true =>
              rw [rightHead, if_pos rfl] at rightAllowed
              have same := @retryWith_live describe answer files live gone left right sameLive
                someLive pid mask numBytes allowed leftLog rightLog sameCalls
              refine iff_of_true ?_ (.inl rfl)
              rw [narrowAndRetry_of_read leftAllowed, narrowAndRetry_of_read rightAllowed,
                Prod.mk.injEq]
              exact ⟨congrArg some same.1, same.2⟩
          | false =>
              rw [rightHead, if_neg (by decide)] at rightAllowed
              refine iff_of_false ?_ (by simp)
              rw [narrowAndRetry_of_read leftAllowed, narrowAndRetry_of_unread rightAllowed,
                Prod.mk.injEq, Option.some.injEq]
              intro same
              exact retryWith_ne_refused pid left mask numBytes allowed leftLog same.1
      | false =>
          rw [leftHead, if_neg (by decide)] at leftAllowed
          cases rightHead : right.head?.any live with
          | true =>
              rw [rightHead, if_pos rfl] at rightAllowed
              refine iff_of_false ?_ (by simp)
              rw [narrowAndRetry_of_unread leftAllowed, narrowAndRetry_of_read rightAllowed,
                Prod.mk.injEq, Option.some.injEq]
              intro same
              exact retryWith_ne_refused pid right mask numBytes allowed rightLog same.1.symm
          | false =>
              rw [rightHead, if_neg (by decide)] at rightAllowed
              refine iff_of_true ?_ (.inl rfl)
              rw [narrowAndRetry_of_unread leftAllowed, narrowAndRetry_of_unread rightAllowed, sameCalls]

theorem observed_eq {numCpus : Nat} {cpuset : CpuSet} {mask : Mask}
    (nonempty : cpuset.isEmpty = false) (built : maskFrom cpuset numCpus = some mask)
    (pid : Int32) (tids : List Int32) :
    observed describe answer files live numCpus pid cpuset tids =
      let run := afterPass describe (logged (answering answer)) files pid tids mask (numCpus / 8)
        (passVerdict describe (Sweep.of (answersTo answer tids mask)))
        ((), tids.map fun tid => ((tid, mask), answer (tid, mask)))
      (some run.1, liveCalls live run.2.2) := by
  have pass := @applyToTids_answering describe answer tids mask []
  rw [List.nil_append] at pass
  have unfolded : observed describe answer files live numCpus pid cpuset tids =
      let first := applyToTids describe (logged (answering answer)) tids mask ((), [])
      let run := afterPass describe (logged (answering answer)) files pid tids mask (numCpus / 8)
        first.1 first.2
      (some run.1, liveCalls live run.2.2) := by
    rw [observed, setAffinity, nonempty, built]
    rfl
  rw [unfolded, pass]

/-- Two lists of threads that differ only in threads that are gone lead to the same result
and the same calls, unless the mask is refused as too wide, one of the lists starts with a
thread that is gone and the other with one whose allowed CPUs can be read. -/
theorem setAffinity_insensitive_iff (gone : GoneThreads answer files live) {numCpus : Nat}
    {pid : Int32} {cpuset : CpuSet} (nonempty : cpuset.isEmpty = false)
    {left right others : List Int32} {first : Int32} (leftLive : left.filter live = first :: others)
    (rightLive : right.filter live = first :: others) :
    observed describe answer files live numCpus pid cpuset left =
        observed describe answer files live numCpus pid cpuset right ↔
      ∀ mask, maskFrom cpuset numCpus = some mask → AsksForLess answer (first :: others) mask →
        left.head?.any live = right.head?.any live ∨
          currentAffinity files first (numCpus / 8) = none := by
  have sameLive : left.filter live = right.filter live := leftLive.trans rightLive.symm
  have someLeft : left.filter live ≠ [] := by
    simp [leftLive]
  have someRight : right.filter live ≠ [] := by
    simp [rightLive]
  cases built : maskFrom cpuset numCpus with
  | none =>
      have panics : ∀ tids, observed describe answer files live numCpus pid cpuset tids =
          (none, liveCalls live []) := by
        intro tids
        rw [observed, setAffinity, nonempty, built]
        rfl
      rw [panics, panics]
      simp
  | some mask =>
      have calls : ∀ {tids : List Int32}, tids.filter live = first :: others →
          liveCalls live (tids.map fun tid => ((tid, mask), answer (tid, mask))) =
            (first :: others).map fun tid => ((tid, mask), answer (tid, mask)) := by
        intro tids liveTids
        have here := @liveCalls_pass answer live tids mask []
        rwa [List.nil_append, liveTids] at here
      simp only [Option.some.injEq, forall_eq']
      rw [observed_eq nonempty built, observed_eq nonempty built,
        passVerdict_live describe gone someLeft, passVerdict_live describe gone someRight,
        leftLive, rightLive, ← @passVerdict_eq_retryNarrower_iff describe]
      have sameCalls := (calls leftLive).trans (calls rightLive).symm
      cases passVerdict describe (Sweep.of (answersTo answer (first :: others) mask)) with
      | ok done =>
          refine iff_of_true ?_ (by simp)
          exact Prod.ext rfl sameCalls
      | error failure =>
          cases failure with
          | settled e =>
              refine iff_of_true ?_ (by simp)
              exact Prod.ext rfl sameCalls
          | retryNarrower =>
              have retried := @narrowAndRetry_insensitive_iff describe answer files live gone pid
                mask (numCpus / 8) left right others first leftLive rightLive _ _ sameCalls
              exact retried.trans ⟨fun holds _ => holds, fun holds => holds rfl⟩

end Gone

/-! ## A thread that is gone in front of one that is confined -/

section Confined

/-- A process whose thread 11 was there a moment ago, and whose thread 12 may only run on
CPU 1: the kernel refuses CPU 0. -/
def confinedAnswer (call : Int32 × Mask) : Except Errno Unit :=
  if call.1 = 12 then .error .inval else .error .srch

def confinedFiles : CpuFiles where
  status tid := if tid = 12 then some "Name:\tgame\nCpus_allowed_list:\t1\n" else none
  possible := some "0-3\n"
  cpuinfo := none

def firstCpu : CpuSet := (CpuSet.new 1024).setCpu 0

def confinedLive (tid : Int32) : Bool := decide (tid = 12)

theorem confined_gone : GoneThreads confinedAnswer confinedFiles confinedLive := by
  intro tid isGone
  have other : tid ≠ 12 := by
    simpa [confinedLive] using isGone
  constructor
  · intro mask
    exact if_neg other
  · exact if_neg other

def confinedRun (tids : List Int32) :
    Option (Except PlatformError Unit) × Log (Int32 × Mask) Errno :=
  observed (fun _ => "") confinedAnswer confinedFiles confinedLive 1024 12 firstCpu tids

/-- With the thread that is gone at the end of the list nothing changes. -/
theorem setAffinity_gone_thread_last : confinedRun [12] = confinedRun [12, 11] := by
  have alone : [12].filter confinedLive = 12 :: [] := by decide
  have followed : [12, 11].filter confinedLive = 12 :: [] := by decide
  apply (setAffinity_insensitive_iff confined_gone (by decide +kernel) alone followed).mpr
  intro _ _ _
  exact .inl (by decide)

/-- With the thread that is gone in front, its unreadable status is reported instead of
what thread 12 was told. -/
theorem setAffinity_gone_thread_first :
    GoneThreads confinedAnswer confinedFiles confinedLive ∧ firstCpu.isEmpty = false ∧
    [12].filter confinedLive = [11, 12].filter confinedLive ∧
    (confinedRun [12]).1 =
      some (.error (.skipped "no CPU in the cpuset a rule asked for is available to 12")) ∧
    (confinedRun [11, 12]).1 = some (.error (.invalidCpuset (refusedText 12))) := by
  refine ⟨confined_gone, ?_⟩
  decide +kernel

end Confined

end AnanicyRs.Platform.Affinity
