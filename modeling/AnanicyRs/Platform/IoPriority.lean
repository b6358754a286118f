import AnanicyRs.Platform.Priority

/-!
Contract: I/O priorities, from `set_io_priority` in
`crates/ananicy-platform/src/priority.rs` and `crates/ananicy-platform/src/abi/ioprio.rs`.

Owns the encoding of a class and its data into the number `ioprio_set(2)` takes, the
decoding that `ProcessInfo::from_parts` reads it back with, and the setter. The encoder
does not mask its data, so bits of an `ionice` beyond the data field are added to the
class; `KeepsClass` says for which values that changes nothing.
-/

set_option autoImplicit false

namespace AnanicyRs.Platform.Priority

open AnanicyRs.Core AnanicyRs.Lib.CallLog

/-! ## The encoding -/

def ioprioClassShift : Int32 := 13

def ioprioPrioMask : Int32 := (1 <<< ioprioClassShift) - 1

def ioprioClassNone : Int32 := 0

def ioprioClassRt : Int32 := 1

def ioprioClassBe : Int32 := 2

def ioprioClassIdle : Int32 := 3

def ioprioPrioValue (ioClass data : Int32) : Int32 := (ioClass <<< ioprioClassShift) ||| data

def ioprioValid (ioClass : Int32) : Bool := ioClass != ioprioClassNone

/-- The `io_class` of `ProcessInfo::from_parts`. -/
def ioClassOf (ioPrioData : Int32) : Int32 := ioPrioData >>> ioprioClassShift

/-- The `io_nice` of `ProcessInfo::from_parts`. -/
def ioNiceOf (ioPrioData : Int32) : Int32 := ioPrioData &&& ioprioPrioMask

/-! ## The setter -/

def ioClassValue (ioClass : String) : Option Int32 :=
  match ioClass with
  | "best-effort" => some ioprioClassBe
  | "realtime" => some ioprioClassRt
  | "idle" => some ioprioClassIdle
  | "none" => some ioprioClassNone
  | _ => none

def ioprioResult (describe : Errno → String) : Except Errno Unit → Except PlatformError Unit
  | .error e => testErrno describe e
  | .ok () => .ok ()

def setIoPriority {σ : Type} (describe : Errno → String) (server : Server σ Syscall Errno)
    (pid : Int32) (ioClass : String) (value : Int32) : StateM σ (Except PlatformError Unit) :=
  match ioClassValue ioClass with
  | none => pure (.error (.skipped ("unknown io class " ++ ioClass)))
  | some ioClassValue =>
      -- Class `none` is what a task reads before anything was set, and is not written.
      if !ioprioValid ioClassValue then pure (.ok ())
      else do
        return ioprioResult describe
          (← server (.ioprioSet pid (ioprioPrioValue ioClassValue value)))

/-! ## What the class bits read back as -/

/-- The classes a task can hold. -/
inductive IoClass where
  | realtime
  | bestEffort
  | idle
deriving DecidableEq, Repr

def IoClass.text : IoClass → String
  | .realtime => "realtime"
  | .bestEffort => "best-effort"
  | .idle => "idle"

def IoClass.value : IoClass → Int32
  | .realtime => ioprioClassRt
  | .bestEffort => ioprioClassBe
  | .idle => ioprioClassIdle

/-- The `ionice` values whose bits beyond the data field are bits of the class. -/
def IoClass.KeepsClass : IoClass → Int → Prop
  | .realtime, ionice => 0 ≤ ionice ∧ ionice < 16384
  | .bestEffort, ionice => (0 ≤ ionice ∧ ionice < 8192) ∨ (16384 ≤ ionice ∧ ionice < 24576)
  | .idle, ionice => 0 ≤ ionice ∧ ionice < 32768

theorem toInt_shiftRight (value : Int32) : (value >>> ioprioClassShift).toInt = value.toInt / 8192 := by
  have amount : (ioprioClassShift.toBitVec.smod 32).toNat = 13 := by decide
  rw [← Int32.toInt_toBitVec, Int32.toBitVec_shiftRight, BitVec.toInt_sshiftRight', amount,
    Int.shiftRight_eq_div_pow, Int32.toInt_toBitVec]
  rfl

/-- Bits that are added to a class without effect are a number up to the class. -/
theorem small_of_or_eq {ioClass added : Int32} (small : ioClass.toBitVec.toNat < 4)
    (same : ioClass ||| added = ioClass) : added = 0 ∨ added = 1 ∨ added = 2 ∨ added = 3 := by
  have bits := congrArg (fun value => value.toBitVec.toNat) same
  simp only [Int32.toBitVec_or, BitVec.toNat_or] at bits
  have atMost : added.toBitVec.toNat ≤ ioClass.toBitVec.toNat := by
    calc added.toBitVec.toNat ≤ ioClass.toBitVec.toNat ||| added.toBitVec.toNat := Nat.right_le_or
      _ = ioClass.toBitVec.toNat := bits
  have isSmall : added.toBitVec.toNat = 0 ∨ added.toBitVec.toNat = 1 ∨
      added.toBitVec.toNat = 2 ∨ added.toBitVec.toNat = 3 := by
    omega
  have number : ∀ n : Int32, added.toBitVec.toNat = n.toBitVec.toNat → added = n :=
    fun n equal => Int32.toBitVec_inj.mp (BitVec.eq_of_toNat_eq equal)
  rcases isSmall with is0 | is1 | is2 | is3
  · exact .inl (number 0 is0)
  · exact .inr (.inl (number 1 is1))
  · exact .inr (.inr (.inl (number 2 is2)))
  · exact .inr (.inr (.inr (number 3 is3)))

/-- The numbers made of bits of the class. -/
def IoClass.Contains : IoClass → Int → Prop
  | .realtime, added => added = 0 ∨ added = 1
  | .bestEffort, added => added = 0 ∨ added = 2
  | .idle, added => added = 0 ∨ added = 1 ∨ added = 2 ∨ added = 3

theorem or_eq_iff (ioClass : IoClass) (added : Int32) :
    ioClass.value ||| added = ioClass.value ↔ ioClass.Contains added.toInt := by
  have small : ioClass.value.toBitVec.toNat < 4 := by
    cases ioClass with
    | realtime => decide
    | bestEffort => decide
    | idle => decide
  have number : ∀ n : Int32, added.toInt = n.toInt → added = n := fun n equal =>
    Int32.toInt_inj.mp equal
  constructor
  · intro same
    rcases small_of_or_eq small same with rfl | rfl | rfl | rfl
    · cases ioClass with
      | realtime => exact .inl rfl
      | bestEffort => exact .inl rfl
      | idle => exact .inl rfl
    · cases ioClass with
      | realtime => exact .inr rfl
      | bestEffort => exact absurd same (by decide)
      | idle => exact .inr (.inl rfl)
    · cases ioClass with
      | realtime => exact absurd same (by decide)
      | bestEffort => exact .inr rfl
      | idle => exact .inr (.inr (.inl rfl))
    · cases ioClass with
      | realtime => exact absurd same (by decide)
      | bestEffort => exact absurd same (by decide)
      | idle => exact .inr (.inr (.inr rfl))
  · intro contained
    cases ioClass with
    | realtime =>
        rcases contained with is0 | is1
        · rw [number 0 is0]
          decide
        · rw [number 1 is1]
          decide
    | bestEffort =>
        rcases contained with is0 | is2
        · rw [number 0 is0]
          decide
        · rw [number 2 is2]
          decide
    | idle =>
        rcases contained with is0 | is1 | is2 | is3
        · rw [number 0 is0]
          decide
        · rw [number 1 is1]
          decide
        · rw [number 2 is2]
          decide
        · rw [number 3 is3]
          decide

theorem ioClassOf_eq_iff (ioClass : IoClass) (ionice : Int32) :
    ioClassOf (ioprioPrioValue ioClass.value ionice) = ioClass.value ↔
      ioClass.KeepsClass ionice.toInt := by
  have high : (ioClass.value <<< ioprioClassShift) >>> ioprioClassShift = ioClass.value := by
    cases ioClass with
    | realtime => decide
    | bestEffort => decide
    | idle => decide
  rw [ioClassOf, ioprioPrioValue, Int32.shiftRight_or, high, or_eq_iff, toInt_shiftRight]
  cases ioClass with
  | realtime =>
      simp only [IoClass.Contains, IoClass.KeepsClass]
      omega
  | bestEffort =>
      simp only [IoClass.Contains, IoClass.KeepsClass]
      omega
  | idle =>
      simp only [IoClass.Contains, IoClass.KeepsClass]
      omega

theorem ioNiceOf_eq (ioClass : IoClass) {ionice : Int32} (atLeast : 0 ≤ ionice.toInt)
    (atMost : ionice.toInt ≤ 7) : ioNiceOf (ioprioPrioValue ioClass.value ionice) = ionice := by
  have all : ∀ (value : IoClass) (n : Fin 8),
      ioNiceOf (ioprioPrioValue value.value (Int32.ofNat n.val)) = Int32.ofNat n.val := by
    intro value
    cases value with
    | realtime => decide
    | bestEffort => decide
    | idle => decide
  obtain ⟨n, isNumber⟩ := Int.eq_ofNat_of_zero_le atLeast
  have small : n < 8 := by
    omega
  have same : ionice = Int32.ofNat n := by
    apply Int32.toInt_inj.mp
    rw [isNumber, Int32.toInt_ofNat_of_lt (by omega)]
  rw [same]
  exact all ioClass ⟨n, small⟩

/-! ## The calls of the setter -/

theorem setIoPriority_calls {σ : Type} (describe : Errno → String) (server : Server σ Syscall Errno)
    (state : σ) (pid : Int32) (ioClass : IoClass) (ionice : Int32) :
    (setIoPriority describe (logged server) pid ioClass.text ionice (state, [])).2.2.map Prod.fst =
      [.ioprioSet pid (ioprioPrioValue ioClass.value ionice)] := by
  cases ioClass with
  | realtime => rfl
  | bestEffort => rfl
  | idle => rfl

/-- Every number that is handed to `ioprio_set` for a class reads back as that class, and
as the `ionice` of the rule where that is a valid one, exactly if the bits of the
`ionice` beyond the data field are bits of the class. -/
theorem setIoPriority_reads_back_iff {σ : Type} (describe : Errno → String)
    (server : Server σ Syscall Errno) (state : σ) (pid : Int32) (ioClass : IoClass)
    (ionice : Int32) :
    (∀ call ∈ (setIoPriority describe (logged server) pid ioClass.text ionice (state, [])).2.2,
      ∃ value, call.1 = .ioprioSet pid value ∧ ioClassOf value = ioClass.value ∧
        (0 ≤ ionice.toInt → ionice.toInt ≤ 7 → ioNiceOf value = ionice)) ↔
      ioClass.KeepsClass ionice.toInt := by
  have calls := setIoPriority_calls describe server state pid ioClass ionice
  have onCalls := @List.forall_mem_map _ _ Prod.fst
    (setIoPriority describe (logged server) pid ioClass.text ionice (state, [])).2.2
    fun call => ∃ value, call = Syscall.ioprioSet pid value ∧ ioClassOf value = ioClass.value ∧
      (0 ≤ ionice.toInt → ionice.toInt ≤ 7 → ioNiceOf value = ionice)
  rw [← onCalls, calls, ← ioClassOf_eq_iff]
  simp only [List.mem_singleton, forall_eq, Syscall.ioprioSet.injEq, true_and]
  constructor
  · intro readBack
    obtain ⟨value, rfl, sameClass, _⟩ := readBack
    exact sameClass
  · intro sameClass
    exact ⟨_, rfl, sameClass, ioNiceOf_eq ioClass⟩

/-- A best-effort rule with an `ionice` of 8192 asks the kernel for the idle class. -/
theorem bestEffort_becomes_idle :
    (setIoPriority (fun _ => "") (logged (answering fun _ => .ok ())) 1 "best-effort" 8192
      ((), [])).2.2 = [(.ioprioSet 1 24576, .ok ())] ∧
    ioClassOf 24576 = ioprioClassIdle ∧ ioprioClassIdle ≠ ioprioClassBe := by
  refine ⟨rfl, ?_⟩
  decide

end AnanicyRs.Platform.Priority
