import AnanicyRs.Core.Config
import AnanicyRs.Core.CpuSet
import AnanicyRs.Lib.CallLog

/-!
Contract: the worker of `crates/ananicy-core/src/worker.rs`.

Owns the model of `Worker::work_loop` for one received process (which name is looked
up, which rule it finds, what is applied) and of `Worker::apply_rule`. The platform is
an argument with a state of its own, so that its answers may depend on everything it
was asked before; every setter is one request to it (`Setter`).

The channel, the benchmark counter and the log lines are left out. The power of the
`cpu.weight` mirror is floating point and is an argument (`Worker.scaledWeight`).
-/

set_option autoImplicit false

namespace AnanicyRs.Core

open AnanicyRs.Lib
open AnanicyRs.Lib.CallLog

/-! ## Data -/

inductive PlatformError where
  | notFound
  | permissionDenied
  | skipped (reason : String)
  | unsupported
  | invalidCpuset (text : String)
  | io (error : IoError)
deriving DecidableEq, Repr

/-- The setters of `PlatformActions`, with their arguments. -/
inductive Setter where
  | setPriority (pid : Int32) (tids : List Int32) (nice : Int32)
  | setCpuWeight (pid : Int32) (weight : UInt32)
  | setLatencyNice (pid : Int32) (tids : List Int32) (latNice : Int32)
  | setSched (pid : Int32) (tids : List Int32) (sched : String) (rtprio : UInt32)
  | setIoPriority (pid : Int32) (ioclass : String) (ionice : Int32)
  | setOomScoreAdj (pid : Int32) (oomScoreAdj : Int32)
  | addPidToCgroup (pid : Int32) (cgroup : String)
  | setAffinity (pid : Int32) (tids : List Int32) (cpuset : CpuSet)
deriving DecidableEq, Repr

/-- `PlatformActions`. -/
structure Platform (σ : Type) where
  isRealtime : Int32 → StateM σ Bool
  getProcessName : Int32 → StateM σ String
  getTids : Int32 → StateM σ (Except PlatformError (List Int32))
  isCgroupV2 : Bool
  getMaxCores : Nat
  perform : Server σ Setter PlatformError

inductive RuleApplication where
  | applied
  | noApplicable
  | partially (error : PlatformError)
deriving DecidableEq, Repr

structure Process where
  pid : Int32
  name : String
  nameIsAuthoritative : Bool
deriving DecidableEq, Repr

structure Worker where
  cpusetAliases : AList fun _ : String => String
  /-- `(100.0 * 1.25f64.powf(-(nice as f64))) as u32`. -/
  scaledWeight : Int32 → UInt32

/-! ## The name that is looked up -/

def wrappedSuffix : List Char := "-wrapped".toList

/-- Whether a name of the kernel's length ends in the beginning of the suffix. -/
def isTruncatedWrapped (name : List Char) : Option Bool :=
  if Text.byteLen name = 15 then
    match Text.rfind '-' name with
    | some index => (Text.sliceFrom name index).map fun tail => tail.isPrefixOf wrappedSuffix
    | none => some false
  else some false

/-- The `lookup_name` of `work_loop`; `none` where a slice would panic. -/
def lookupSlice (name : List Char) : Option (List Char) :=
  -- A wrapped executable is `.name-wrapped`, or as much of it as the kernel keeps.
  if name.head? = some '.' then
    (isTruncatedWrapped name).bind fun truncated =>
      if wrappedSuffix.isSuffixOf name || truncated then
        match Text.rfind '-' name with
        | some endIdx => if 1 < endIdx then Text.slice name 1 endIdx else some name
        | none => some name
      else some name
  else some name

theorem slice_dot {name : List Char} {endIdx : Nat} (dot : name.head? = some '.')
    (dash : Text.rfind '-' name = some endIdx) (inside : 1 < endIdx) :
    ∃ base tail, name = '.' :: base ++ '-' :: tail ∧ '-' ∉ tail ∧ base ≠ [] ∧
      Text.slice name 1 endIdx = some base := by
  obtain ⟨left, tail, split, lastDash, offset⟩ := Text.rfind_eq_some dash
  have dotSize : Text.byteLen ['.'] = 1 := by decide
  cases left with
  | nil => simp [offset] at inside
  | cons first base =>
      have isDot : first = '.' := by simpa [split] using dot
      subst isDot
      refine ⟨base, tail, split, lastDash, ?_, ?_⟩
      · rintro rfl
        rw [offset, dotSize] at inside
        omega
      · rw [split, offset, ← dotSize]
        exact Text.slice_append ['.'] base ('-' :: tail)

/-- The suffix without its dash. -/
def wrappedTail : List Char := "wrapped".toList

theorem wrappedSuffix_eq : wrappedSuffix = '-' :: wrappedTail := by
  decide

/-- `name` is `.base-wrapped`, or the kernel's 15 bytes of it, cut after the dash. -/
def Wraps (name base : List Char) : Prop :=
  ∃ tail, name = '.' :: base ++ '-' :: tail ∧ base ≠ [] ∧
    (tail = wrappedTail ∨ tail <+: wrappedTail ∧ Text.byteLen name = 15)

theorem dash_notMem_of_prefix {tail : List Char} (cut : tail <+: wrappedTail) : '-' ∉ tail := by
  have fresh : '-' ∉ wrappedTail := by
    decide
  exact fun member => fresh (cut.subset member)

theorem isTruncatedWrapped_eq {base tail : List Char} (lastDash : '-' ∉ tail) :
    isTruncatedWrapped ('.' :: base ++ '-' :: tail) =
      some (decide (Text.byteLen ('.' :: base ++ '-' :: tail) = 15 ∧ tail <+: wrappedTail)) := by
  unfold isTruncatedWrapped
  by_cases kernelLength : Text.byteLen ('.' :: base ++ '-' :: tail) = 15
  · have begins : ('-' :: tail).isPrefixOf wrappedSuffix = decide (tail <+: wrappedTail) := by
      rw [Bool.eq_iff_iff, List.isPrefixOf_iff_prefix, decide_eq_true_eq, wrappedSuffix_eq]
      exact List.prefix_cons_inj '-'
    rw [if_pos kernelLength, Text.rfind_append lastDash]
    simp only [Text.sliceFrom_append, Option.map_some, begins, kernelLength, true_and]
  · rw [if_neg kernelLength, decide_eq_false fun both => kernelLength both.1]

theorem isTruncatedWrapped_isSome (name : List Char) : (isTruncatedWrapped name).isSome := by
  unfold isTruncatedWrapped
  split
  · cases dash : Text.rfind '-' name with
    | none => rfl
    | some index =>
        obtain ⟨left, tail, split, _, offset⟩ := Text.rfind_eq_some dash
        simp only [split, offset, Text.sliceFrom_append, Option.map_some, Option.isSome_some]
  · rfl

/-- No slice panics, and a name is either looked up as it is or without its wrapping. -/
theorem lookupSlice_cases (name : List Char) :
    lookupSlice name = some name ∨ ∃ base, Wraps name base ∧ lookupSlice name = some base := by
  unfold lookupSlice
  split
  next dot =>
    obtain ⟨truncated, isTruncated⟩ := Option.isSome_iff_exists.mp (isTruncatedWrapped_isSome name)
    rw [isTruncated, Option.bind_some]
    split
    next marked =>
      cases dash : Text.rfind '-' name with
      | none => exact .inl rfl
      | some endIdx =>
          simp only
          split
          next inside =>
            obtain ⟨base, tail, shape, lastDash, nonempty, sliced⟩ := slice_dot dot dash inside
            refine .inr ⟨base, ⟨tail, shape, nonempty, ?_⟩, sliced⟩
            rcases Bool.or_eq_true_iff.mp marked with whole | cut
            · obtain ⟨front, parts⟩ := List.isSuffixOf_iff_suffix.mp whole
              have fresh : '-' ∉ wrappedTail := by
                decide
              rw [shape, wrappedSuffix_eq] at parts
              exact .inl (Text.split_last_unique lastDash fresh parts.symm).2
            · rw [shape, isTruncatedWrapped_eq lastDash, Option.some.injEq] at isTruncated
              rw [← isTruncated, decide_eq_true_eq] at cut
              rw [shape]
              exact .inr cut.symm
          next => exact .inl rfl
    next => exact .inl rfl
  next => exact .inl rfl

theorem lookupSlice_of_wraps {name base : List Char} (wraps : Wraps name base) :
    lookupSlice name = some base := by
  obtain ⟨tail, rfl, nonempty, isTail⟩ := wraps
  have lastDash : '-' ∉ tail := by
    rcases isTail with rfl | ⟨cut, _⟩
    · decide
    · exact dash_notMem_of_prefix cut
  have dash := Text.rfind_append lastDash ('.' :: base)
  have inside : 1 < Text.byteLen ('.' :: base) := by
    cases base with
    | nil => exact absurd rfl nonempty
    | cons first rest =>
        have dotSize : '.'.utf8Size = 1 := by
          decide
        have positive : 0 < first.utf8Size := first.utf8Size_pos
        rw [Text.byteLen_cons, Text.byteLen_cons, dotSize]
        omega
  have marked : (wrappedSuffix.isSuffixOf ('.' :: base ++ '-' :: tail) ||
      decide (Text.byteLen ('.' :: base ++ '-' :: tail) = 15 ∧ tail <+: wrappedTail)) = true := by
    rw [Bool.or_eq_true, List.isSuffixOf_iff_suffix, decide_eq_true_eq, wrappedSuffix_eq]
    rcases isTail with rfl | ⟨cut, kernelLength⟩
    · exact .inl (List.suffix_append ('.' :: base) ('-' :: wrappedTail))
    · exact .inr ⟨kernelLength, cut⟩
  have sliced := Text.slice_append ['.'] base ('-' :: tail)
  have dotSize : Text.byteLen ['.'] = 1 := by
    decide
  rw [dotSize] at sliced
  have dot : ('.' :: base ++ '-' :: tail).head? = some '.' := rfl
  unfold lookupSlice
  rw [if_pos dot, isTruncatedWrapped_eq lastDash, Option.bind_some, if_pos marked, dash]
  simp only [if_pos inside]
  exact sliced

theorem lookupSlice_isSome (name : List Char) : (lookupSlice name).isSome := by
  rcases lookupSlice_cases name with whole | ⟨_, _, stripped⟩
  · rw [whole]
    rfl
  · rw [stripped]
    rfl

theorem wraps_of_lookupSlice {name base : List Char} (looked : lookupSlice name = some base)
    (differs : base ≠ name) : Wraps name base := by
  rcases lookupSlice_cases name with whole | ⟨other, wraps, stripped⟩
  · rw [whole, Option.some.injEq] at looked
    exact absurd looked.symm differs
  · rw [stripped, Option.some.injEq] at looked
    exact looked ▸ wraps

/-- The name `work_loop` looks a process up under. -/
def lookupName (name : String) : String :=
  String.ofList ((lookupSlice name.toList).get (lookupSlice_isSome name.toList))

example : lookupName ".firefox-wrapped" = "firefox" ∧ lookupName ".postgres-wrapp" = "postgres" ∧
    lookupName ".-wrapped" = ".-wrapped" := by
  decide +kernel

theorem toList_lookupName (name : String) :
    lookupSlice name.toList = some (lookupName name).toList := by
  rw [lookupName, String.toList_ofList, Option.some_get]

theorem lookupName_of_wraps {name base : String} (wraps : Wraps name.toList base.toList) :
    lookupName name = base := by
  have looked := toList_lookupName name
  rw [lookupSlice_of_wraps wraps, Option.some.injEq] at looked
  exact (String.toList_inj.mp looked).symm

theorem toList_wrapping (base tail : String) :
    ("." ++ base ++ "-" ++ tail).toList = '.' :: base.toList ++ '-' :: tail.toList := by
  have dotText : ".".toList = ['.'] := by
    decide
  have dashText : "-".toList = ['-'] := by
    decide
  simp only [String.toList_append, dotText, dashText, List.append_assoc, List.cons_append,
    List.nil_append]

theorem toList_wrapped (base : String) :
    ("." ++ base ++ "-wrapped").toList = '.' :: base.toList ++ '-' :: wrappedTail := by
  have suffixText : "-wrapped" = "-" ++ "wrapped" := by
    decide
  rw [suffixText, ← String.append_assoc, toList_wrapping]
  rfl

theorem lookupName_wrapped {base : String} (notEmpty : base ≠ "") :
    lookupName ("." ++ base ++ "-wrapped") = base := by
  apply lookupName_of_wraps
  have nonempty : base.toList ≠ [] := fun isNil => notEmpty (String.toList_eq_nil_iff.mp isNil)
  exact ⟨wrappedTail, toList_wrapped base, nonempty, .inl rfl⟩

/-- What the kernel's 15 bytes leave of a wrapped name, as far as its dash. -/
theorem lookupName_truncated {base name : String} (notEmpty : base ≠ "")
    (cut : name.toList <+: ("." ++ base ++ "-wrapped").toList)
    (kernelLength : Text.byteLen name.toList = 15)
    (reaches : ("." ++ base ++ "-").toList <+: name.toList) : lookupName name = base := by
  apply lookupName_of_wraps
  have nonempty : base.toList ≠ [] := fun isNil => notEmpty (String.toList_eq_nil_iff.mp isNil)
  obtain ⟨tail, parts⟩ := reaches
  have dashed : ("." ++ base ++ "-").toList = '.' :: base.toList ++ ['-'] := by
    have bare := toList_wrapping base ""
    rwa [String.append_empty] at bare
  have shape : name.toList = '.' :: base.toList ++ '-' :: tail := by
    rw [← parts, dashed, List.append_assoc]
    rfl
  rw [shape, toList_wrapped, List.prefix_append_right_inj, List.prefix_cons_inj] at cut
  exact ⟨tail, shape, nonempty, .inr ⟨cut, kernelLength⟩⟩

theorem wraps_of_lookupName {name : String} (differs : lookupName name ≠ name) :
    Wraps name.toList (lookupName name).toList := by
  apply wraps_of_lookupSlice (toList_lookupName name)
  intro same
  exact differs (String.toList_inj.mp same)

/-- The lookup name takes exactly the wrapping off: the whole one, and one that the kernel
cut to 15 bytes behind the dash. -/
theorem lookupName_unwraps_exactly :
    (∀ base : String, base ≠ "" → lookupName ("." ++ base ++ "-wrapped") = base) ∧
    (∀ base name : String, base ≠ "" →
      name.toList <+: ("." ++ base ++ "-wrapped").toList → Text.byteLen name.toList = 15 →
      ("." ++ base ++ "-").toList <+: name.toList → lookupName name = base) ∧
    (∀ name : String, lookupName name ≠ name →
      lookupName name ≠ "" ∧ ∃ tail : String, name = "." ++ lookupName name ++ "-" ++ tail ∧
        (tail = "wrapped" ∨ tail.toList <+: "wrapped".toList ∧ tail ≠ "wrapped" ∧
          Text.byteLen name.toList = 15)) ∧
    ∀ name : String, (isTruncatedWrapped name.toList).isSome ∧ (lookupSlice name.toList).isSome := by
  refine ⟨fun _ => lookupName_wrapped, fun _ _ => lookupName_truncated, ?_, ?_⟩
  · intro name differs
    obtain ⟨tail, shape, notNil, isTail⟩ := wraps_of_lookupName differs
    refine ⟨?_, String.ofList tail, ?_, ?_⟩
    · intro isEmpty
      rw [isEmpty] at notNil
      exact notNil rfl
    · rw [← String.toList_inj, shape, toList_wrapping, String.toList_ofList]
    · by_cases whole : tail = wrappedTail
      · rw [whole]
        exact .inl String.ofList_toList
      · obtain ⟨cut, kernelLength⟩ := isTail.resolve_left whole
        refine .inr ⟨?_, ?_, kernelLength⟩
        · rw [String.toList_ofList]
          exact cut
        · intro isWhole
          apply whole
          rw [← String.toList_ofList (l := tail), isWhole]
          rfl
  · intro name
    exact ⟨isTruncatedWrapped_isSome name.toList, lookupSlice_isSome name.toList⟩

/-! ## Applying a rule -/

def clampWeight (weight : UInt32) : UInt32 :=
  if weight < 1 then 1 else if 10000 < weight then 10000 else weight

namespace Worker

variable {σ : Type}

def attempt (platform : Platform σ) (setter : Setter) (tally : Tally PlatformError) :
    StateM σ (Tally PlatformError) := do
  return tally.record (← platform.perform setter)

/-- The `cpu.weight` mirror: its failure is only logged. -/
def attemptMirror (platform : Platform σ) (setter : Setter) (tally : Tally PlatformError) :
    StateM σ (Tally PlatformError) := do
  return tally.recordOptional (← platform.perform setter)

/-- The shape of most attributes: a flag, a value of the rule, and one setter. -/
def attemptAttribute {α : Type} (platform : Platform σ) (enabled : Bool) (value : Option α)
    (make : α → Setter) (tally : Tally PlatformError) : StateM σ (Tally PlatformError) :=
  if enabled then
    match value with
    | some held => attempt platform (make held) tally
    | none => pure tally
  else pure tally

def applyNice (worker : Worker) (platform : Platform σ) (p : Process) (tids : List Int32)
    (rule : Rule.Accessors) (cfg : ConfigSnapshot) (tally : Tally PlatformError) :
    StateM σ (Tally PlatformError) :=
  if cfg.applyNice then
    match rule.nice with
    | some nice => do
        let counted ← attempt platform (.setPriority p.pid tids nice) tally
        if cfg.applyCpuWeight && platform.isCgroupV2 then
          attemptMirror platform (.setCpuWeight p.pid (clampWeight (worker.scaledWeight nice)))
            counted
        else pure counted
    | none => pure tally
  else pure tally

def applyLatnice (platform : Platform σ) (p : Process) (tids : List Int32)
    (rule : Rule.Accessors) (cfg : ConfigSnapshot) :
    Tally PlatformError → StateM σ (Tally PlatformError) :=
  attemptAttribute platform cfg.applyLatnice rule.effectiveLatencyNice
    (.setLatencyNice p.pid tids)

def applySched (platform : Platform σ) (p : Process) (tids : List Int32)
    (rule : Rule.Accessors) (cfg : ConfigSnapshot) :
    Tally PlatformError → StateM σ (Tally PlatformError) :=
  attemptAttribute platform cfg.applySched rule.sched
    fun sched => .setSched p.pid tids sched (rule.rtprio.getD 1)

def applyIonice (platform : Platform σ) (p : Process) (rule : Rule.Accessors)
    (cfg : ConfigSnapshot) : Tally PlatformError → StateM σ (Tally PlatformError) :=
  attemptAttribute platform cfg.applyIonice rule.ioclass
    fun ioclass => .setIoPriority p.pid ioclass (rule.ionice.getD 0)

def applyOomScoreAdj (platform : Platform σ) (p : Process) (rule : Rule.Accessors)
    (cfg : ConfigSnapshot) : Tally PlatformError → StateM σ (Tally PlatformError) :=
  attemptAttribute platform cfg.applyOomScoreAdj rule.oomScoreAdj (.setOomScoreAdj p.pid)

/-- A realtime process is left in its cgroup where the workaround asks for it. -/
def applyCgroup (platform : Platform σ) (p : Process)
    (rule : Rule.Accessors) (cfg : ConfigSnapshot) (isRealtime isAffectedByCgroupBug : Bool)
    (tally : Tally PlatformError) : StateM σ (Tally PlatformError) :=
  if isRealtime && cfg.cgroupRealtimeWorkaround && isAffectedByCgroupBug then pure tally
  else attemptAttribute platform cfg.applyCgroups rule.cgroup (.addPidToCgroup p.pid) tally

/-- The CPU list a cpuset stands for; `none` for an alias that resolves to nothing. -/
def resolveCpuset (worker : Worker) (rawCpuset : String) : Option String :=
  match worker.cpusetAliases.lookup rawCpuset with
  | some resolved => if resolved.isEmpty then none else some resolved
  | none => some rawCpuset

def applyCpuset (worker : Worker) (platform : Platform σ) (p : Process) (tids : List Int32)
    (rule : Rule.Accessors) (cfg : ConfigSnapshot) (tally : Tally PlatformError) :
    StateM σ (Tally PlatformError) :=
  if cfg.applyCpuset then
    match rule.cpuset with
    | some rawCpuset =>
        match worker.resolveCpuset rawCpuset with
        | some cpusetStr =>
            match CpuSet.parse cpusetStr platform.getMaxCores with
            | some parsedSet => attempt platform (.setAffinity p.pid tids parsedSet) tally
            | none => pure (tally.fail (.invalidCpuset cpusetStr))
        | none => pure tally
    | none => pure tally
  else pure tally

def outcome (tally : Tally PlatformError) : Except PlatformError RuleApplication :=
  match tally.anySuccess, tally.firstFailure with
  | false, some e => .error e
  | _, some e => .ok (.partially e)
  | true, none => .ok .applied
  | false, none => .ok .noApplicable

/-- `Worker::apply_rule`, on the values of the rule's accessors. -/
def applyRule (worker : Worker) (platform : Platform σ) (p : Process) (tids : List Int32)
    (rule : Rule.Accessors) (cfg : ConfigSnapshot) (isRealtime isAffectedByCgroupBug : Bool) :
    StateM σ (Except PlatformError RuleApplication) := do
  let tally ← worker.applyNice platform p tids rule cfg .start
  let tally ← applyLatnice platform p tids rule cfg tally
  let tally ← applySched platform p tids rule cfg tally
  let tally ← applyIonice platform p rule cfg tally
  let tally ← applyOomScoreAdj platform p rule cfg tally
  let tally ← applyCgroup platform p rule cfg isRealtime isAffectedByCgroupBug tally
  let tally ← worker.applyCpuset platform p tids rule cfg tally
  return outcome tally

/-! ## One received process -/

/-- The name of a process, asked for again where its event source only guessed it. -/
def resolveName (platform : Platform σ) (p : Process) : StateM σ Process := do
  if p.nameIsAuthoritative then pure p
  else
    let fullName ← platform.getProcessName p.pid
    if !fullName.isEmpty && fullName != "<unknown>" then
      pure { p with name := fullName, nameIsAuthoritative := true }
    else pure p

/-- The threads a rule is applied to: the process itself if they cannot be listed. -/
def threadsOf (platform : Platform σ) (p : Process) : StateM σ (List Int32) := do
  match ← platform.getTids p.pid with
  | .ok [] => pure [p.pid]
  | .ok tids => pure tids
  | .error _ => pure [p.pid]

structure Handled where
  ruleName : String
  result : Except PlatformError RuleApplication

variable {ρ κ : Type}

/-- One pass of `Worker::work_loop`: `none` if there is nothing to apply. -/
def handle (worker : Worker) (crates : Crates ρ κ) (platform : Platform σ) (cfg : ConfigSnapshot)
    (received : Process) : StateM (σ × Rules ρ κ) (Option Handled) := fun held =>
  if received.pid = 0 then (none, held)
  else
    let (p, state) := resolveName platform received held.1
    let (found, rules) := Rules.getRule crates (lookupName p.name) held.2
    let (isRealtime, state) := platform.isRealtime p.pid state
    match found with
    | none => (none, (state, rules))
    | some (ruleName, rule) =>
        let (tids, state) := threadsOf platform p state
        let (result, state) := worker.applyRule platform p tids (rule.accessors rules.names) cfg
          isRealtime platform.isCgroupV2 state
        (some ⟨ruleName, result⟩, (state, rules))

end Worker

end AnanicyRs.Core
