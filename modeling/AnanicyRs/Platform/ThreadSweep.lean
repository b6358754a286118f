import AnanicyRs.Core.Worker

/-!
Contract: one system call for each thread of a process.

Owns the error numbers of the kernel, and what the loops of `first_real_error` in
`crates/ananicy-platform/src/priority.rs` and `apply_to_tids` in
`crates/ananicy-platform/src/abi/affinity.rs` remember of the answers: whether any thread
accepted, whether any was gone (`ESRCH`), and the first other error. Both loops ask every
thread.

What either of them concludes is not here.
-/

set_option autoImplicit false

namespace AnanicyRs.Platform

open AnanicyRs.Core AnanicyRs.Lib.CallLog

/-! ## Error numbers -/

/-- A failed system call never leaves zero behind. -/
structure Errno where
  raw : Nat
  positive : 0 < raw
deriving DecidableEq, Repr

namespace Errno

def perm : Errno := ⟨1, by decide⟩

def noent : Errno := ⟨2, by decide⟩

def srch : Errno := ⟨3, by decide⟩

def access : Errno := ⟨13, by decide⟩

def inval : Errno := ⟨22, by decide⟩

/-- `io::Error::from_raw_os_error`, with the text `strerror` has for the number. -/
def toIoError (describe : Errno → String) (errno : Errno) : IoError :=
  ⟨decide (errno = noent), describe errno⟩

end Errno

/-! ## What is remembered of the answers -/

structure Sweep where
  firstReal : Option Errno
  notFound : Bool
  applied : Bool
deriving DecidableEq, Repr

namespace Sweep

def start : Sweep := ⟨none, false, false⟩

def record (sweep : Sweep) : Except Errno Unit → Sweep
  | .ok () => { sweep with applied := true }
  | .error e =>
      if e = .srch then { sweep with notFound := true }
      else { sweep with firstReal := sweep.firstReal.or (some e) }

def of (answers : List (Except Errno Unit)) : Sweep := answers.foldl record start

end Sweep

def accepted (answer : Except Errno Unit) : Bool :=
  match answer with
  | .ok () => true
  | .error _ => false

/-- The answer of a thread that is gone. -/
def isGone (answer : Except Errno Unit) : Bool :=
  match answer with
  | .ok () => false
  | .error e => e = .srch

/-- An error that says something about a thread that is still there. -/
def realError (answer : Except Errno Unit) : Option Errno :=
  match answer with
  | .ok () => none
  | .error e => if e = .srch then none else some e

/-- An answer is a success, that of a thread that is gone, or another error. -/
theorem realError_eq_none_iff (answer : Except Errno Unit) :
    realError answer = none ↔ accepted answer = true ∨ isGone answer = true := by
  cases answer with
  | ok => simp [realError, accepted]
  | error e =>
      by_cases gone : e = .srch
      · simp [realError, isGone, gone]
      · simp [realError, accepted, isGone, gone]

theorem not_accepted_of_isGone {answer : Except Errno Unit} (gone : isGone answer = true) :
    realError answer = none ∧ accepted answer = false := by
  cases answer with
  | ok => simp [isGone] at gone
  | error e =>
      refine ⟨(realError_eq_none_iff _).mpr (.inr gone), rfl⟩

theorem Sweep.foldl_record (answers : List (Except Errno Unit)) :
    ∀ sweep : Sweep, answers.foldl Sweep.record sweep =
      { firstReal := sweep.firstReal.or (answers.findSome? realError)
        notFound := sweep.notFound || answers.any isGone
        applied := sweep.applied || answers.any accepted } := by
  induction answers with
  | nil => simp
  | cons answer rest inductionHypothesis =>
      intro sweep
      rw [List.foldl_cons, inductionHypothesis]
      cases answer with
      | ok => simp [Sweep.record, List.findSome?_cons, realError, isGone, accepted]
      | error e =>
          by_cases gone : e = .srch
          · simp [Sweep.record, realError, isGone, accepted, gone]
          · simp [Sweep.record, realError, isGone, accepted, gone]

theorem Sweep.of_eq (answers : List (Except Errno Unit)) :
    Sweep.of answers =
      { firstReal := answers.findSome? realError
        notFound := answers.any isGone
        applied := answers.any accepted } := by
  rw [Sweep.of, Sweep.foldl_record]
  simp [Sweep.start]

/-- Threads that are gone change neither of the flags that speak about the others. -/
theorem Sweep.of_filter (answers : List (Except Errno Unit)) :
    (Sweep.of (answers.filter fun answer => !isGone answer)).firstReal =
        (Sweep.of answers).firstReal ∧
      (Sweep.of (answers.filter fun answer => !isGone answer)).applied =
        (Sweep.of answers).applied := by
  simp only [Sweep.of_eq]
  induction answers with
  | nil => exact ⟨rfl, rfl⟩
  | cons answer rest inductionHypothesis =>
      cases here : isGone answer with
      | true =>
          obtain ⟨noError, refused⟩ := not_accepted_of_isGone here
          simpa [here, List.findSome?_cons, noError, refused] using inductionHypothesis
      | false =>
          obtain ⟨sameError, sameApplied⟩ := inductionHypothesis
          simp [here, List.findSome?_cons, sameError, sameApplied]

/-- Where nobody accepted and nobody refused, somebody is gone. -/
theorem Sweep.notFound_of_silent {answers : List (Except Errno Unit)} (nonempty : answers ≠ [])
    (noError : (Sweep.of answers).firstReal = none) (refused : (Sweep.of answers).applied = false) :
    (Sweep.of answers).notFound = true := by
  rw [Sweep.of_eq] at noError refused ⊢
  obtain ⟨answer, rest, rfl⟩ := List.exists_cons_of_ne_nil nonempty
  cases answer with
  | ok => simp [accepted] at refused
  | error e =>
      by_cases gone : e = .srch
      · simp [isGone, gone]
      · simp [realError, gone] at noError

end AnanicyRs.Platform
