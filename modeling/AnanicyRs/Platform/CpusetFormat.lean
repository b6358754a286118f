import Mathlib.Order.Fin.Basic
import AnanicyRs.Core.CpuList
import AnanicyRs.Lib.SortedMap

/-!
Contract: the text of a set of CPU ids, as `format_cpuset` writes it.

`crates/ananicy-platform/src/topology.rs` and `x3d.rs` have the same function, each its
own copy; the loop is here once. Its addition is a `u32` one, so it is modelled with the
overflow check (`checked`), and `checked_eq` says that the check never fires.

The other printer of CPU sets is `CpuSet::fmt`, over a mask with a bound. Both write the
canonical ranges of the set, and a set has one list of those.
-/

set_option autoImplicit false

namespace AnanicyRs.Platform

open AnanicyRs.Core AnanicyRs.Lib AnanicyRs.Lib.NumberRanges AnanicyRs.Lib.Sorted

/-- `u32`. -/
abbrev CpuId := Fin (2 ^ 32)

/-- `BTreeSet<u32>`. -/
abbrev CpuIds := SortedSet CpuId

namespace CpusetFormat

/-- The `for` loop and what follows it; `none` where `prev + 1` has no room in 32 bits. -/
def formatLoop (start prev : CpuId) (result : String) : List CpuId → Option String
  | [] => some (result ++ rangeText start prev)
  | cpu :: rest =>
      if 2 ^ 32 ≤ prev.val + 1 then none
      else if cpu.val = prev.val + 1 then formatLoop start cpu result rest
      else formatLoop cpu cpu (result ++ (rangeText start prev ++ ",")) rest

/-- `format_cpuset`. The ids of a `BTreeSet` ascend, so sorting them again changes nothing. -/
def checked (cores : CpuIds) : Option String :=
  match cores.elems with
  | [] => some ""
  | first :: rest => formatLoop first first "" rest

/-! ## The ranges the loop writes -/

def mergeRanges (start prev : CpuId) : List CpuId → List (Nat × Nat)
  | [] => [(start.val, prev.val)]
  | cpu :: rest =>
      if cpu.val = prev.val + 1 then mergeRanges start cpu rest
      else (start.val, prev.val) :: mergeRanges cpu cpu rest

theorem mergeRanges_ne_nil (rest : List CpuId) :
    ∀ start prev : CpuId, mergeRanges start prev rest ≠ [] := by
  induction rest with
  | nil => simp [mergeRanges]
  | cons cpu others inductionHypothesis =>
      intro start prev
      rw [mergeRanges]
      split
      · exact inductionHypothesis start cpu
      · simp

def textOf (ranges : List (Nat × Nat)) : String :=
  ",".intercalate (ranges.map fun range => rangeText range.1 range.2)

/-- No id follows the largest `u32`, so the loop never adds to it. -/
theorem formatLoop_eq (rest : List CpuId) :
    ∀ (start prev : CpuId) (result : String), (prev :: rest).Pairwise (· < ·) →
      formatLoop start prev result rest = some (result ++ textOf (mergeRanges start prev rest)) := by
  induction rest with
  | nil =>
      intro start prev result _
      simp [formatLoop, mergeRanges, textOf]
  | cons cpu others inductionHypothesis =>
      intro start prev result ascending
      obtain ⟨above, later⟩ := List.pairwise_cons.mp ascending
      have before : prev.val < cpu.val := above cpu List.mem_cons_self
      have room : ¬ 2 ^ 32 ≤ prev.val + 1 := by
        have small := cpu.isLt
        omega
      rw [formatLoop, if_neg room, mergeRanges]
      split
      · exact inductionHypothesis start cpu result later
      · have nonempty : (mergeRanges cpu cpu others).map (fun range => rangeText range.1 range.2) ≠ [] := by
          simp [mergeRanges_ne_nil]
        rw [inductionHypothesis cpu cpu _ later, textOf, textOf, List.map_cons,
          String.intercalate_cons_of_ne_nil nonempty]
        simp only [String.append_assoc]

theorem covers_mergeRanges (rest : List CpuId) :
    ∀ start prev : CpuId, start ≤ prev → ∀ k,
      Covers (mergeRanges start prev rest) k ↔
        (start.val ≤ k ∧ k ≤ prev.val) ∨ ∃ cpu ∈ rest, cpu.val = k := by
  induction rest with
  | nil => simp [mergeRanges, Covers]
  | cons cpu others inductionHypothesis =>
      intro start prev ordered k
      have orderedVal : start.val ≤ prev.val := ordered
      rw [mergeRanges]
      split
      next follows =>
        have stillOrdered : start ≤ cpu := by
          change start.val ≤ cpu.val
          omega
        rw [inductionHypothesis start cpu stillOrdered]
        simp only [List.mem_cons, exists_eq_or_imp]
        rw [← or_assoc]
        exact or_congr_left (by omega)
      next =>
        rw [covers_cons, inductionHypothesis cpu cpu (Nat.le_refl _)]
        simp only [List.mem_cons, exists_eq_or_imp]
        exact or_congr_right (or_congr_left (by omega))

/-- Where the merged ranges begin. -/
theorem start_le_mergeRanges (rest : List CpuId) :
    ∀ start prev : CpuId, start ≤ prev → (prev :: rest).Pairwise (· < ·) →
      ∀ range ∈ mergeRanges start prev rest, start.val ≤ range.1 := by
  induction rest with
  | nil =>
      intro start prev _ _ range member
      rw [mergeRanges, List.mem_singleton] at member
      rw [member]
  | cons cpu others inductionHypothesis =>
      intro start prev ordered ascending range member
      obtain ⟨above, later⟩ := List.pairwise_cons.mp ascending
      have before : prev < cpu := above cpu List.mem_cons_self
      rw [mergeRanges] at member
      split at member
      · exact inductionHypothesis start cpu (ordered.trans before.le) later range member
      · rcases List.mem_cons.mp member with rfl | inRest
        · exact Nat.le_refl _
        · have fromCpu := inductionHypothesis cpu cpu (Nat.le_refl _) later range inRest
          exact Nat.le_trans (ordered.trans before.le) fromCpu

theorem mergeRanges_canonical (rest : List CpuId) :
    ∀ start prev : CpuId, start ≤ prev → (prev :: rest).Pairwise (· < ·) →
      Canonical (mergeRanges start prev rest) := by
  induction rest with
  | nil =>
      intro start prev ordered _
      refine ⟨?_, List.pairwise_singleton _ _⟩
      intro range member
      rw [mergeRanges, List.mem_singleton] at member
      rw [member]
      exact ordered
  | cons cpu others inductionHypothesis =>
      intro start prev ordered ascending
      obtain ⟨above, later⟩ := List.pairwise_cons.mp ascending
      have before : prev < cpu := above cpu List.mem_cons_self
      rw [mergeRanges]
      split
      · exact inductionHypothesis start cpu (ordered.trans before.le) later
      next apart =>
        have tail := inductionHypothesis cpu cpu (Nat.le_refl _) later
        constructor
        · intro range member
          rcases List.mem_cons.mp member with rfl | inRest
          · exact ordered
          · exact tail.nonempty range inRest
        · refine List.pairwise_cons.mpr ⟨fun range inRest => ?_, tail.apart⟩
          have fromCpu := start_le_mergeRanges others cpu cpu (Nat.le_refl _) later range inRest
          have beforeVal : prev.val < cpu.val := before
          change prev.val + 1 < range.1
          omega

/-- The canonical ranges of a set of ids. -/
def ranges (cores : CpuIds) : List (Nat × Nat) :=
  match cores.elems with
  | [] => []
  | first :: rest => mergeRanges first first rest

theorem checked_eq (cores : CpuIds) : checked cores = some (textOf (ranges cores)) := by
  have ascending := cores.ascending_elems
  rw [checked, ranges]
  cases listed : cores.elems with
  | nil => rfl
  | cons first rest =>
      rw [listed] at ascending
      exact (formatLoop_eq rest first first "" ascending).trans (by rw [String.empty_append])

theorem checked_isSome (cores : CpuIds) : (checked cores).isSome = true := by
  rw [checked_eq]
  rfl

/-- `format_cpuset`, as the function that never overflows. -/
def format (cores : CpuIds) : String := (checked cores).get (checked_isSome cores)

theorem format_eq (cores : CpuIds) : format cores = textOf (ranges cores) := by
  unfold format
  simp only [checked_eq, Option.get_some]

theorem covers_ranges (cores : CpuIds) (k : Nat) :
    Covers (ranges cores) k ↔ ∃ cpu ∈ cores, cpu.val = k := by
  have asList : (∃ cpu ∈ cores, cpu.val = k) ↔ ∃ cpu ∈ cores.elems, cpu.val = k := Iff.rfl
  rw [asList, ranges]
  cases cores.elems with
  | nil => simp [Covers]
  | cons first rest =>
      rw [covers_mergeRanges rest first first (Nat.le_refl _)]
      simp only [List.mem_cons, exists_eq_or_imp]
      exact or_congr_left (by omega)

theorem ranges_canonical (cores : CpuIds) : Canonical (ranges cores) := by
  have ascending := cores.ascending_elems
  rw [ranges]
  cases listed : cores.elems with
  | nil => exact ⟨by simp, .nil⟩
  | cons first rest =>
      rw [listed] at ascending
      exact mergeRanges_canonical rest first first (Nat.le_refl _) ascending

/-! ## The mask with a bound -/

/-- The `CpuSet` with bound `maxCores` that holds the ids. -/
def cpuSetOf (maxCores : Nat) (cores : CpuIds) : CpuSet :=
  (cores.elems.map Fin.val).foldl CpuSet.setCpu (CpuSet.new maxCores)

theorem maxCores_cpuSetOf (maxCores : Nat) (cores : CpuIds) :
    (cpuSetOf maxCores cores).maxCores = maxCores :=
  CpuSet.maxCores_setCpus _ _

theorem hasCpu_cpuSetOf {maxCores : Nat} {cores : CpuIds}
    (below : ∀ cpu ∈ cores, cpu.val < maxCores) (k : Nat) :
    (cpuSetOf maxCores cores).hasCpu k = true ↔ ∃ cpu ∈ cores, cpu.val = k := by
  rw [cpuSetOf, CpuSet.hasCpu_setCpus, CpuSet.hasCpu_new, List.mem_map]
  simp only [Bool.false_eq_true, false_or]
  constructor
  · rintro ⟨⟨cpu, member, isCpu⟩, _⟩
    exact ⟨cpu, member, isCpu⟩
  · rintro ⟨cpu, member, rfl⟩
    exact ⟨⟨cpu, member, rfl⟩, below cpu member⟩

/-- Both printers write the canonical ranges of one set. -/
theorem toText_cpuSetOf {maxCores : Nat} {cores : CpuIds}
    (below : ∀ cpu ∈ cores, cpu.val < maxCores) :
    (cpuSetOf maxCores cores).toText = format cores := by
  have sameRanges : (cpuSetOf maxCores cores).ranges = ranges cores := by
    refine (CpuSet.ranges_canonical _).eq_of_covers (ranges_canonical cores) fun k => ?_
    rw [CpuSet.covers_ranges, hasCpu_cpuSetOf below, covers_ranges]
  rw [CpuSet.toText_eq, sameRanges, format_eq, textOf]

theorem parse_format {maxCores : Nat} {cores : CpuIds}
    (below : ∀ cpu ∈ cores, cpu.val < maxCores) (nonempty : cores.isEmpty = false) :
    CpuSet.parse (format cores) maxCores = some (cpuSetOf maxCores cores) := by
  have has := hasCpu_cpuSetOf below
  have small : ∀ cpu, (cpuSetOf maxCores cores).hasCpu cpu = true → cpu < 2 ^ 32 := by
    intro cpu held
    obtain ⟨id, _, rfl⟩ := (has cpu).mp held
    exact id.isLt
  have some : (cpuSetOf maxCores cores).isEmpty = false := by
    obtain ⟨cpu, member⟩ := cores.isEmpty_eq_false_iff.mp nonempty
    exact (CpuSet.isEmpty_eq_false_iff _).mpr ⟨cpu.val, (has cpu.val).mpr ⟨cpu, member, rfl⟩⟩
  have parsed := CpuSet.parse_toText small some
  rw [toText_cpuSetOf below, maxCores_cpuSetOf] at parsed
  exact parsed

/-- Only the empty set has an empty text. -/
theorem format_eq_empty_iff (cores : CpuIds) : format cores = "" ↔ cores.isEmpty = true := by
  constructor
  · intro blank
    by_contra nonempty
    have small : ∀ cpu ∈ cores, cpu.val < 2 ^ 32 := fun cpu _ => cpu.isLt
    have parsed := parse_format small (Bool.not_eq_true _ ▸ nonempty)
    have unread : ∀ maxCores, CpuSet.parse "" maxCores = none := fun _ => rfl
    rw [blank, unread] at parsed
    exact Option.some_ne_none _ parsed.symm
  · intro empty
    have none : cores = .empty := by
      apply SortedSet.ext_mem
      intro cpu
      simp [cores.isEmpty_iff.mp empty cpu]
    rw [none]
    decide +kernel

/-- A set has a text of its own. -/
theorem format_injective : Function.Injective format := by
  intro left right same
  have small : ∀ cores : CpuIds, ∀ cpu ∈ cores, cpu.val < 2 ^ 32 := fun _ cpu _ => cpu.isLt
  have sameSets : cpuSetOf (2 ^ 32) left = cpuSetOf (2 ^ 32) right := by
    cases empty : left.isEmpty with
    | true =>
        have blank := (format_eq_empty_iff left).mpr empty
        have bothEmpty : left = right := by
          rw [same] at blank
          have none := right.isEmpty_iff.mp ((format_eq_empty_iff right).mp blank)
          exact SortedSet.ext_mem fun cpu => iff_of_false (left.isEmpty_iff.mp empty cpu) (none cpu)
        rw [bothEmpty]
    | false =>
        have some : right.isEmpty = false := by
          rw [Bool.eq_false_iff, Ne, ← format_eq_empty_iff, ← same, format_eq_empty_iff, empty]
          exact Bool.false_ne_true
        have parsed := parse_format (small left) empty
        rw [same, parse_format (small right) some] at parsed
        exact (Option.some.inj parsed).symm
  apply SortedSet.ext_mem
  intro cpu
  have inLeft := hasCpu_cpuSetOf (small left) cpu.val
  have inRight := hasCpu_cpuSetOf (small right) cpu.val
  rw [sameSets, inRight] at inLeft
  simp only [Fin.val_inj, exists_eq_right] at inLeft
  exact inLeft.symm

end CpusetFormat

/-- `topology.rs`. -/
def Topology.formatCpuset (cores : CpuIds) : String := CpusetFormat.format cores

/-- `x3d.rs`. -/
def X3d.formatCpuset (cores : CpuIds) : String := CpusetFormat.format cores

/-- The three printers agree on every set of ids and none of them overflows; what they
write reads back as the set. -/
theorem cpuset_formatters_agree (cores : CpuIds) :
    CpusetFormat.checked cores = some (Topology.formatCpuset cores) ∧
    X3d.formatCpuset cores = Topology.formatCpuset cores ∧
    ∀ maxCores : Nat, (∀ cpu ∈ cores, cpu.val < maxCores) →
      ∃ set : CpuSet, set.maxCores = maxCores ∧
        (∀ k, set.hasCpu k = true ↔ ∃ cpu ∈ cores, cpu.val = k) ∧
        set.toText = Topology.formatCpuset cores ∧
        (cores.isEmpty = false →
          CpuSet.parse (Topology.formatCpuset cores) maxCores = some set) := by
  refine ⟨?_, rfl, fun maxCores below => ?_⟩
  · rw [Topology.formatCpuset, CpusetFormat.format_eq, CpusetFormat.checked_eq]
  · exact ⟨CpusetFormat.cpuSetOf maxCores cores, CpusetFormat.maxCores_cpuSetOf maxCores cores,
      CpusetFormat.hasCpu_cpuSetOf below, CpusetFormat.toText_cpuSetOf below,
      fun nonempty => CpusetFormat.parse_format below nonempty⟩

example : Topology.formatCpuset (SortedSet.ofList [⟨9, by decide⟩, ⟨4, by decide⟩,
    ⟨2 ^ 32 - 1, by decide⟩, ⟨3, by decide⟩]) = "3-4,9,4294967295" := by
  decide +kernel

end AnanicyRs.Platform
