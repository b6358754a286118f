import Mathlib.Algebra.Group.Action.Defs
import Mathlib.Algebra.Order.Field.Rat
import Mathlib.Algebra.Order.BigOperators.Group.List
import Mathlib.Tactic.Linarith
import Mathlib.Tactic.Positivity
import Mathlib.Tactic.Ring
import AnanicyRs.Platform.Topology.Capacity

/-!
Contract: the core types and their aliases.

Owns what `classify` makes of the readings of the chosen source: the tiers below and above
their mean (`tiers_of_split`), and what the aliases of the core types name (`core_tiers`).
-/

set_option autoImplicit false

namespace AnanicyRs.Platform.Topology

open AnanicyRs.Lib AnanicyRs.Lib.Sorted AnanicyRs.Lib.Grouping AnanicyRs.Core

/-! ## The mean -/

section Mean

variable (capacity : CpuId → Option Nat) (cpus : CpuIds)

/-- The readings, CPU by CPU. -/
def readings : List Nat := cpus.elems.filterMap capacity

theorem mem_readings (value : Nat) :
    value ∈ readings capacity cpus ↔ ∃ cpu ∈ cpus, capacity cpu = some value :=
  List.mem_filterMap

theorem perm_readings :
    ((metricToCores capacity cpus).entries.flatMap fun tier =>
      List.replicate tier.2.elems.length tier.1).Perm (readings capacity cpus) :=
  perm_keys cpus.nodup_keys (lookup_metricToCores capacity cpus)

def meanReading : Rat := ((readings capacity cpus).sum : Rat) / ((readings capacity cpus).length : Rat)

theorem foldl_sum (entries : List (Nat × CpuIds)) : ∀ start : Rat,
    entries.foldl (fun sum tier => sum + (tier.1 : Rat) * (tier.2.elems.length : Rat)) start =
      start + ((entries.flatMap fun tier =>
        List.replicate tier.2.elems.length tier.1 : List Nat).sum : Rat) := by
  induction entries with
  | nil => simp
  | cons head rest inductionHypothesis =>
      intro start
      rw [List.foldl_cons, inductionHypothesis, List.flatMap_cons, List.sum_append,
        List.sum_replicate, smul_eq_mul]
      push_cast
      ring

theorem foldl_count (entries : List (Nat × CpuIds)) : ∀ start : Nat,
    entries.foldl (fun count tier => count + tier.2.elems.length) start =
      start + (entries.flatMap fun tier => List.replicate tier.2.elems.length tier.1).length := by
  induction entries with
  | nil => simp
  | cons head rest inductionHypothesis =>
      intro start
      rw [List.foldl_cons, inductionHypothesis, List.flatMap_cons, List.length_append,
        List.length_replicate]
      omega

theorem meanOf_metricToCores :
    meanOf (metricToCores capacity cpus) = meanReading capacity cpus := by
  have perm := perm_readings capacity cpus
  unfold meanOf meanReading
  dsimp only
  rw [foldl_sum, foldl_count, perm.sum_eq, perm.length_eq, zero_add, Nat.zero_add]

end Mean

theorem length_mul_lt_sum {values : List Nat} {low high : Nat} (below : ∀ value ∈ values, low ≤ value)
    (isHigh : high ∈ values) (different : low < high) : values.length * low < values.sum := by
  obtain ⟨before, after, rfl⟩ := List.append_of_mem isHigh
  have beforeSum := List.card_nsmul_le_sum before low fun value listed => below value (by simp [listed])
  have afterSum := List.card_nsmul_le_sum after low fun value listed => below value (by simp [listed])
  rw [smul_eq_mul] at beforeSum afterSum
  rw [List.length_append, List.length_cons, List.sum_append, List.sum_cons, Nat.add_mul, Nat.add_mul]
  omega

section Bounds

variable {capacity : CpuId → Option Nat} {cpus : CpuIds} {low high : Nat}

theorem low_lt_mean (below : ∀ value ∈ readings capacity cpus, low ≤ value)
    (isHigh : high ∈ readings capacity cpus) (different : low < high) :
    (low : Rat) < meanReading capacity cpus := by
  have count : 0 < (readings capacity cpus).length := List.length_pos_of_mem isHigh
  have sum := length_mul_lt_sum below isHigh different
  have positive : (0 : Rat) < (readings capacity cpus).length := by exact_mod_cast count
  rw [meanReading, lt_div_iff₀ positive, mul_comm]
  exact_mod_cast sum

theorem mean_le_high (above : ∀ value ∈ readings capacity cpus, value ≤ high)
    (isHigh : high ∈ readings capacity cpus) : meanReading capacity cpus ≤ (high : Rat) := by
  have count : 0 < (readings capacity cpus).length := List.length_pos_of_mem isHigh
  have sum := List.sum_le_card_nsmul _ high above
  have positive : (0 : Rat) < (readings capacity cpus).length := by exact_mod_cast count
  rw [smul_eq_mul] at sum
  rw [meanReading, div_le_iff₀ positive, mul_comm]
  exact_mod_cast sum

end Bounds

/-! ## The split -/

theorem mem_foldl_splitTier (threshold : Rat) (entries : List (Nat × CpuIds)) (cpu : CpuId) :
    ∀ cores : CpuIds × CpuIds,
      (cpu ∈ (entries.foldl (splitTier threshold) cores).1 ↔
        cpu ∈ cores.1 ∨ ∃ tier ∈ entries, (tier.1 : Rat) < threshold ∧ cpu ∈ tier.2) ∧
      (cpu ∈ (entries.foldl (splitTier threshold) cores).2 ↔
        cpu ∈ cores.2 ∨ ∃ tier ∈ entries, threshold ≤ (tier.1 : Rat) ∧ cpu ∈ tier.2) := by
  induction entries with
  | nil => simp
  | cons head rest inductionHypothesis =>
      intro cores
      have headElems : cpu ∈ head.2.elems ↔ cpu ∈ head.2 := head.2.mem_elems cpu
      obtain ⟨little, big⟩ := inductionHypothesis (splitTier threshold cores head)
      rw [List.foldl_cons, little, big, splitTier]
      by_cases isLittle : (head.1 : Rat) < threshold
      · simp [isLittle, not_le.mpr isLittle, headElems, or_assoc]
      · simp [isLittle, not_lt.mp isLittle, headElems, or_assoc]

/-- The CPUs of the tiers that `select` takes. -/
theorem exists_tier_iff (capacity : CpuId → Option Nat) (cpus : CpuIds) (select : Nat → Prop)
    (cpu : CpuId) :
    (∃ tier ∈ (metricToCores capacity cpus).entries, select tier.1 ∧ cpu ∈ tier.2) ↔
      cpu ∈ cpus ∧ ∃ value, capacity cpu = some value ∧ select value := by
  constructor
  · intro ⟨tier, listed, selected, inTier⟩
    have found := ((metricToCores capacity cpus).mem_entries_iff tier.1 tier.2).mp listed
    rw [lookup_metricToCores] at found
    rw [← found.2, mem_members] at inTier
    obtain ⟨item, isCpu, read, rfl⟩ := inTier
    exact ⟨isCpu, tier.1, read, selected⟩
  · intro ⟨isCpu, value, read, selected⟩
    have found := (lookup_metricToCores capacity cpus value _).mpr ⟨⟨cpu, isCpu, read⟩, rfl⟩
    refine ⟨(value, members capacity id cpus.elems value), ?_, selected, ?_⟩
    · exact ((metricToCores capacity cpus).mem_entries_iff _ _).mpr found
    · exact (mem_members capacity id cpus.elems value cpu).mpr ⟨cpu, isCpu, read, rfl⟩

/-- Two readings differ, and the largest is at least 1.3 times the smallest. -/
def Heterogeneous (capacity : CpuId → Option Nat) (cpus : CpuIds) : Prop :=
  ∃ low ∈ readings capacity cpus, ∃ high ∈ readings capacity cpus, low ≠ high ∧
    (∀ value ∈ readings capacity cpus, low ≤ value ∧ value ≤ high) ∧ 13 * low ≤ 10 * high

/-- The tiers of a heterogeneous machine. -/
structure Tiers (capacity : CpuId → Option Nat) (cpus little big turbo : CpuIds) : Prop where
  little_iff : ∀ cpu, cpu ∈ little ↔ cpu ∈ cpus ∧
    ∃ value, capacity cpu = some value ∧ (value : Rat) < meanReading capacity cpus
  big_iff : ∀ cpu, cpu ∈ big ↔ cpu ∈ cpus ∧
    ∃ value, capacity cpu = some value ∧ meanReading capacity cpus ≤ (value : Rat)
  turbo_iff : ∀ cpu, cpu ∈ turbo ↔ cpu ∈ cpus ∧
    ∃ value, capacity cpu = some value ∧ ∀ other ∈ readings capacity cpus, other ≤ value
  someLittle : ∃ cpu, cpu ∈ little
  someTurbo : ∃ cpu, cpu ∈ turbo
  turbo_big : ∀ cpu ∈ turbo, cpu ∈ big

theorem Tiers.disjoint {capacity : CpuId → Option Nat} {cpus little big turbo : CpuIds}
    (tiers : Tiers capacity cpus little big turbo) : ∀ cpu ∈ little, cpu ∉ big := by
  intro cpu isLittle isBig
  obtain ⟨_, value, read, below⟩ := (tiers.little_iff cpu).mp isLittle
  obtain ⟨_, other, otherRead, above⟩ := (tiers.big_iff cpu).mp isBig
  rw [read, Option.some.injEq] at otherRead
  rw [← otherRead] at above
  exact absurd below (not_lt.mpr above)

theorem Tiers.together {capacity : CpuId → Option Nat} {cpus little big turbo : CpuIds}
    (tiers : Tiers capacity cpus little big turbo) (cpu : CpuId) :
    cpu ∈ little ∨ cpu ∈ big ↔ cpu ∈ cpus ∧ (capacity cpu).isSome = true := by
  rw [tiers.little_iff, tiers.big_iff, Option.isSome_iff_exists, ← and_or_left, ← exists_or]
  simp only [← and_or_left, lt_or_ge, and_true]

theorem mem_readings_iff_key (capacity : CpuId → Option Nat) (cpus : CpuIds) (value : Nat) :
    value ∈ readings capacity cpus ↔ value ∈ (metricToCores capacity cpus).keys := by
  rw [mem_keys_metricToCores, mem_readings]

section Classify

variable {capacity : CpuId → Option Nat} {cpus : CpuIds} {low high : Nat}

/-- The first and the last key of `metric_to_cores` are the least and the greatest reading. -/
theorem readings_bounds (lowest : (metricToCores capacity cpus).keys.head? = some low)
    (highest : (metricToCores capacity cpus).keys.getLast? = some high) :
    low ∈ readings capacity cpus ∧ high ∈ readings capacity cpus ∧
      ∀ value ∈ readings capacity cpus, low ≤ value ∧ value ≤ high := by
  have ends := (metricToCores capacity cpus).le_of_ends lowest highest
  simp only [← mem_readings_iff_key] at ends
  have isLow : low ∈ readings capacity cpus :=
    (mem_readings_iff_key capacity cpus low).mpr (List.mem_of_head? lowest)
  have isHigh : high ∈ readings capacity cpus :=
    (mem_readings_iff_key capacity cpus high).mpr (List.mem_of_getLast? highest)
  exact ⟨isLow, isHigh, ends⟩

/-- The first and the last key of `metric_to_cores` decide whether the machine is split. -/
theorem heterogeneous_iff (lowest : (metricToCores capacity cpus).keys.head? = some low)
    (highest : (metricToCores capacity cpus).keys.getLast? = some high) :
    Heterogeneous capacity cpus ↔ low ≠ high ∧ 13 * low ≤ 10 * high := by
  have ⟨isLow, isHigh, ends⟩ := readings_bounds lowest highest
  constructor
  · intro ⟨least, isLeast, greatest, isGreatest, different, bounds, ratio⟩
    have sameLow : least = low := Nat.le_antisymm (bounds low isLow).1 (ends least isLeast).1
    have sameHigh : greatest = high := Nat.le_antisymm (ends greatest isGreatest).2 (bounds high isHigh).2
    rw [← sameLow, ← sameHigh]
    exact ⟨different, ratio⟩
  · intro ⟨different, ratio⟩
    exact ⟨low, isLow, high, isHigh, different, ends, ratio⟩

theorem tiers_of_split (lowest : (metricToCores capacity cpus).keys.head? = some low)
    (highest : (metricToCores capacity cpus).keys.getLast? = some high) (different : low ≠ high)
    {turbo : CpuIds} (found : (metricToCores capacity cpus).lookup high = some turbo) :
    Tiers capacity cpus
      (splitTiers (meanReading capacity cpus) (metricToCores capacity cpus)).1
      (splitTiers (meanReading capacity cpus) (metricToCores capacity cpus)).2 turbo := by
  have ⟨isLow, isHigh, ends⟩ := readings_bounds lowest highest
  have before : low < high := lt_of_le_of_ne (ends low isLow).2 different
  have lowMean := low_lt_mean (fun value listed => (ends value listed).1) isHigh before
  have highMean := mean_le_high (fun value listed => (ends value listed).2) isHigh
  have little : ∀ cpu, cpu ∈ (splitTiers (meanReading capacity cpus) (metricToCores capacity cpus)).1 ↔
      cpu ∈ cpus ∧ ∃ value, capacity cpu = some value ∧ (value : Rat) < meanReading capacity cpus := by
    intro cpu
    rw [splitTiers, (mem_foldl_splitTier _ _ cpu _).1, exists_tier_iff capacity cpus
      fun value => (value : Rat) < meanReading capacity cpus]
    simp
  have big : ∀ cpu, cpu ∈ (splitTiers (meanReading capacity cpus) (metricToCores capacity cpus)).2 ↔
      cpu ∈ cpus ∧ ∃ value, capacity cpu = some value ∧ meanReading capacity cpus ≤ (value : Rat) := by
    intro cpu
    rw [splitTiers, (mem_foldl_splitTier _ _ cpu _).2, exists_tier_iff capacity cpus
      fun value => meanReading capacity cpus ≤ (value : Rat)]
    simp
  have inTurbo : ∀ cpu, cpu ∈ turbo ↔ cpu ∈ cpus ∧ capacity cpu = some high := by
    intro cpu
    rw [← ((lookup_metricToCores capacity cpus high turbo).mp found).2, mem_members]
    constructor
    · intro ⟨item, isCpu, read, same⟩
      rw [← same]
      exact ⟨isCpu, read⟩
    · exact fun ⟨isCpu, read⟩ => ⟨cpu, isCpu, read, rfl⟩
  obtain ⟨lowCpu, isLowCpu, lowRead⟩ := (mem_readings capacity cpus low).mp isLow
  obtain ⟨highCpu, isHighCpu, highRead⟩ := (mem_readings capacity cpus high).mp isHigh
  refine ⟨little, big, fun cpu => ?_, ⟨lowCpu, ?_⟩, ⟨highCpu, ?_⟩, fun cpu isTurbo => ?_⟩
  · rw [inTurbo]
    constructor
    · exact fun ⟨isCpu, read⟩ => ⟨isCpu, high, read, fun other listed => (ends other listed).2⟩
    · intro ⟨isCpu, value, read, greatest⟩
      have isReading : value ∈ readings capacity cpus :=
        (mem_readings capacity cpus value).mpr ⟨cpu, isCpu, read⟩
      rw [Nat.le_antisymm (greatest high isHigh) (ends value isReading).2]
      exact ⟨isCpu, read⟩
  · exact (little lowCpu).mpr ⟨isLowCpu, low, lowRead, lowMean⟩
  · exact (inTurbo highCpu).mpr ⟨isHighCpu, highRead⟩
  · obtain ⟨isCpu, read⟩ := (inTurbo cpu).mp isTurbo
    exact (big cpu).mpr ⟨isCpu, high, read, highMean⟩

theorem ratio_iff : (high : Rat) < (low : Rat) * (13 / 10) ↔ 10 * high < 13 * low := by
  have inRat : 10 * high < 13 * low ↔ ((10 * high : Nat) : Rat) < ((13 * low : Nat) : Rat) :=
    Nat.cast_lt.symm
  rw [inRat]
  push_cast
  constructor
  · intro small
    linarith
  · intro small
    linarith

/-- What `classify` adds to a topology. -/
theorem classify_cases (capacity : CpuId → Option Nat) (cpus : CpuIds) (top : CpuTopology) :
    (∃ little big turbo : CpuIds, Heterogeneous capacity cpus ∧
      Tiers capacity cpus little big turbo ∧
      classify (metricToCores capacity cpus) top = { top with
        hasBigLittle := true
        littleCoresStr := formatCpuset little
        bigCoresStr := formatCpuset big
        turboCoresStr := formatCpuset turbo }) ∨
    ¬ Heterogeneous capacity cpus ∧
      classify (metricToCores capacity cpus) top = markHomogeneous top := by
  unfold classify
  by_cases few : (metricToCores capacity cpus).entries.length ≤ 1
  · refine .inr ⟨?_, if_pos few⟩
    intro ⟨low, isLow, high, isHigh, different, _⟩
    refine absurd ((metricToCores capacity cpus).one_lt_length_iff.mpr ?_) (not_lt.mpr few)
    exact ⟨low, (mem_readings_iff_key capacity cpus low).mp isLow, high,
      (mem_readings_iff_key capacity cpus high).mp isHigh, different⟩
  · have many := (metricToCores capacity cpus).one_lt_length_iff.mp (not_le.mp few)
    obtain ⟨left, isLeft, right, isRight, apart⟩ := many
    obtain ⟨low, lowest⟩ : ∃ low, (metricToCores capacity cpus).keys.head? = some low :=
      ⟨_, List.head?_eq_some_head (List.ne_nil_of_mem isLeft)⟩
    obtain ⟨high, highest⟩ : ∃ high, (metricToCores capacity cpus).keys.getLast? = some high :=
      ⟨_, List.getLast?_eq_some_getLast (List.ne_nil_of_mem isLeft)⟩
    obtain ⟨turbo, found⟩ := Option.isSome_iff_exists.mp
      (((metricToCores capacity cpus).lookup_isSome_iff high).mpr (List.mem_of_getLast? highest))
    have different : low ≠ high := by
      have ends := (metricToCores capacity cpus).le_of_ends lowest highest
      have leftEnds := ends left isLeft
      have rightEnds := ends right isRight
      omega
    have split := heterogeneous_iff lowest highest
    rw [if_neg few, lowest, highest]
    dsimp only
    by_cases small : (high : Rat) < (low : Rat) * (13 / 10)
    · refine .inr ⟨fun heterogeneous => ?_, if_pos small⟩
      exact absurd (ratio_iff.mp small) (not_lt.mpr (split.mp heterogeneous).2)
    · have ratio : 13 * low ≤ 10 * high := not_lt.mp (mt ratio_iff.mpr small)
      refine .inl ⟨_, _, turbo, split.mpr ⟨different, ratio⟩,
        tiers_of_split lowest highest different found, ?_⟩
      rw [if_neg small, found, meanOf_metricToCores]

end Classify

/-! ## The aliases -/

theorem ne_of_startsWith {name start : String} (other : Text.startsWith name start = false)
    (rest : String) : start ++ rest ≠ name := by
  rintro rfl
  rw [Text.startsWith, String.toList_append, Bool.eq_false_iff] at other
  exact other (List.isPrefixOf_iff_prefix.mpr (List.prefix_append _ _))

/-- No LLC and no node takes the name of another alias. -/
theorem lookup_generateCpusetAliases (top : CpuTopology) {name : String}
    (notLlc : Text.startsWith name "llc-" = false) (notNode : Text.startsWith name "node-" = false) :
    top.generateCpusetAliases.lookup name =
      if name = "x3d-cache" ∧ top.biggestLlcCoresStr ≠ "" then some top.biggestLlcCoresStr
      else LastWins.lastOf top.tierAliases name := by
  have llcs : LastWins.lastOf
      (top.llcs.map fun llc => ("llc-" ++ toString llc.id.toInt, llc.cpusetStr)) name = none := by
    rw [LastWins.lastOf_eq_none_iff, List.map_map, List.mem_map]
    exact fun ⟨llc, _, same⟩ => ne_of_startsWith notLlc _ same
  have nodes : LastWins.lastOf
      (top.nodes.map fun node => ("node-" ++ toString node.id.toInt, node.cpusetStr)) name = none := by
    rw [LastWins.lastOf_eq_none_iff, List.map_map, List.mem_map]
    exact fun ⟨node, _, same⟩ => ne_of_startsWith notNode _ same
  have tiers : (LastWins.insertAll top.tierAliases ∅).lookup name =
      LastWins.lastOf top.tierAliases name := by
    rw [LastWins.lookup_insertAll]
    exact Option.or_none
  unfold CpuTopology.generateCpusetAliases
  dsimp only
  rw [LastWins.lookup_insertAll, nodes, Option.none_or, LastWins.lookup_insertAll, llcs, Option.none_or]
  by_cases known : top.biggestLlcCoresStr = ""
  · rw [known, if_neg (by decide), if_neg (fun given => given.2 rfl), tiers]
  · rw [if_pos (by simpa using known)]
    by_cases isCache : name = "x3d-cache"
    · rw [if_pos ⟨isCache, known⟩, isCache, AList.lookup_insert]
    · rw [if_neg (fun given => isCache given.1), AList.lookup_insert_ne isCache, tiers]

/-- The alias `name` of a machine with the given CPUs is the text of `set`: it is empty as the
set is, or it is read back as the set. -/
def Names (top : CpuTopology) (cpus : CpuIds) (name : String) (set : CpuIds) : Prop :=
  top.generateCpusetAliases.lookup name = some (formatCpuset set) ∧
    ((formatCpuset set = "" ∧ ∀ cpu, cpu ∉ set) ∨
      ∀ maxCores, (∀ cpu ∈ cpus, cpu.val < maxCores) →
        ∃ read, CpuSet.parse (formatCpuset set) maxCores = some read ∧
          ∀ k, read.hasCpu k = true ↔ ∃ cpu ∈ set, cpu.val = k)

theorem names_of_format {top : CpuTopology} {cpus set : CpuIds} {name : String}
    (notLlc : Text.startsWith name "llc-" = false) (notNode : Text.startsWith name "node-" = false)
    (notCache : name ≠ "x3d-cache")
    (text : LastWins.lastOf top.tierAliases name = some (formatCpuset set))
    (online : ∀ cpu ∈ set, cpu ∈ cpus) : Names top cpus name set := by
  have found := lookup_generateCpusetAliases top notLlc notNode
  rw [if_neg (fun given => notCache given.1)] at found
  refine ⟨found.trans text, ?_⟩
  cases empty : set.isEmpty with
  | true =>
      exact .inl ⟨(CpusetFormat.format_eq_empty_iff set).mpr empty, set.isEmpty_iff.mp empty⟩
  | false =>
      refine .inr fun maxCores below => ?_
      have inRange : ∀ cpu ∈ set, cpu.val < maxCores := fun cpu listed => below cpu (online cpu listed)
      exact ⟨_, CpusetFormat.parse_format inRange empty, CpusetFormat.hasCpu_cpuSetOf inRange⟩

/-- The sets the aliases of the core types stand for. -/
def tierSets (cpus little big turbo performance : CpuIds) : List (String × CpuIds) :=
  [("all", cpus), ("all-cores", cpus), ("big-cores", big), ("little-cores", little),
    ("performance-cores", performance), ("efficiency-cores", little), ("turbo-cores", turbo)]

theorem names_tierSets {top : CpuTopology} {cpus little big turbo performance : CpuIds}
    (all : top.allCoresStr = formatCpuset cpus) (isBig : top.bigCoresStr = formatCpuset big)
    (isLittle : top.littleCoresStr = formatCpuset little)
    (isTurbo : top.turboCoresStr = formatCpuset turbo)
    (isPerf : top.perfCores = formatCpuset performance)
    (online : ∀ set ∈ [little, big, turbo, performance], ∀ cpu ∈ set, cpu ∈ cpus) :
    ∀ entry ∈ tierSets cpus little big turbo performance, Names top cpus entry.1 entry.2 := by
  have aliases : top.tierAliases =
      (tierSets cpus little big turbo performance).map fun entry => (entry.1, formatCpuset entry.2) := by
    rw [CpuTopology.tierAliases, all, isBig, isLittle, isTurbo, isPerf]
    rfl
  have keys : top.tierAliases.map Prod.fst = ["all", "all-cores", "big-cores", "little-cores",
      "performance-cores", "efficiency-cores", "turbo-cores"] := rfl
  have distinct : (top.tierAliases.map Prod.fst).Nodup := by
    rw [keys]
    decide +kernel
  have plain : ∀ name ∈ top.tierAliases.map Prod.fst, Text.startsWith name "llc-" = false ∧
      Text.startsWith name "node-" = false ∧ name ≠ "x3d-cache" := by
    rw [keys]
    decide +kernel
  intro entry listed
  have isAlias : (entry.1, formatCpuset entry.2) ∈ top.tierAliases := by
    rw [aliases]
    exact List.mem_map_of_mem listed
  obtain ⟨notLlc, notNode, notCache⟩ := plain entry.1 (List.mem_map_of_mem isAlias)
  refine names_of_format notLlc notNode notCache (LastWins.lastOf_of_mem distinct isAlias) ?_
  have isSet : entry.2 ∈ [cpus, cpus, big, little, performance, little, turbo] :=
    List.mem_map_of_mem (f := Prod.snd) listed
  simp only [List.mem_cons, List.not_mem_nil, or_false] at isSet online
  rcases isSet with same | same | same | same | same | same | same
  · exact fun cpu isCpu => same ▸ isCpu
  · exact fun cpu isCpu => same ▸ isCpu
  · exact online _ (.inr (.inl same))
  · exact online _ (.inl same)
  · exact online _ (.inr (.inr (.inr same)))
  · exact online _ (.inl same)
  · exact online _ (.inr (.inr (.inl same)))

/-- The performance cores of a split machine are its turbo cores or its big ones. -/
theorem perfCores_cases {top : CpuTopology} {big turbo : CpuIds}
    (isBig : top.bigCoresStr = formatCpuset big) (isTurbo : top.turboCoresStr = formatCpuset turbo) :
    top.perfCores = formatCpuset turbo ∨ top.perfCores = formatCpuset big := by
  rw [CpuTopology.perfCores]
  split
  · exact .inl isTurbo
  · exact .inr isBig

/-- On every machine with a CPU that is online: the core types are split exactly if the
capacities are heterogeneous, and then they are the tiers around the mean; each alias of a core
type stands for its set, and `performance-cores` for some of the big cores. -/
theorem core_tiers (nodeOrder llcOrder : HashOrder) (sys : SysRoot)
    (nonempty : sys.onlineCpus.isEmpty = false) :
    ∃ little big turbo performance : CpuIds,
      (Heterogeneous (sys.capacity sys.source) sys.onlineCpus →
        (detectTopologyImpl nodeOrder llcOrder sys).hasBigLittle = true ∧
          Tiers (sys.capacity sys.source) sys.onlineCpus little big turbo ∧
          (∃ cpu, cpu ∈ big) ∧ (∀ cpu ∈ little, cpu ∉ big) ∧
          ∀ cpu, cpu ∈ little ∨ cpu ∈ big ↔
            cpu ∈ sys.onlineCpus ∧ (sys.capacity sys.source cpu).isSome = true) ∧
      (¬ Heterogeneous (sys.capacity sys.source) sys.onlineCpus →
        (detectTopologyImpl nodeOrder llcOrder sys).hasBigLittle = false ∧
          big = sys.onlineCpus ∧ little = .empty ∧ turbo = .empty) ∧
      (∃ cpu, cpu ∈ performance) ∧ (∀ cpu ∈ performance, cpu ∈ big) ∧
      ∀ entry ∈ tierSets sys.onlineCpus little big turbo performance,
        Names (detectTopologyImpl nodeOrder llcOrder sys) sys.onlineCpus entry.1 entry.2 := by
  rw [detectTopologyImpl_eq nodeOrder llcOrder nonempty]
  have all : (describe nodeOrder llcOrder sys).allCoresStr = formatCpuset sys.onlineCpus := rfl
  generalize describe nodeOrder llcOrder sys = described at all ⊢
  rcases classify_cases (sys.capacity sys.source) sys.onlineCpus described with
    ⟨little, big, turbo, heterogeneous, tiers, classified⟩ | ⟨homogeneous, classified⟩
  · obtain ⟨cpu, isTurbo⟩ := tiers.someTurbo
    obtain ⟨performance, isPerf, nonemptyPerf, perfBig⟩ : ∃ performance : CpuIds,
        (classify (metricToCores (sys.capacity sys.source) sys.onlineCpus) described).perfCores =
          formatCpuset performance ∧ (∃ cpu, cpu ∈ performance) ∧ ∀ cpu ∈ performance, cpu ∈ big := by
      have bigText : (classify (metricToCores (sys.capacity sys.source) sys.onlineCpus)
          described).bigCoresStr = formatCpuset big := by rw [classified]
      have turboText : (classify (metricToCores (sys.capacity sys.source) sys.onlineCpus)
          described).turboCoresStr = formatCpuset turbo := by rw [classified]
      rcases perfCores_cases bigText turboText with isPerf | isPerf
      · exact ⟨turbo, isPerf, ⟨cpu, isTurbo⟩, tiers.turbo_big⟩
      · exact ⟨big, isPerf, ⟨cpu, tiers.turbo_big cpu isTurbo⟩, fun _ listed => listed⟩
    have littleOnline : ∀ cpu ∈ little, cpu ∈ sys.onlineCpus := fun cpu isLittle =>
      ((tiers.little_iff cpu).mp isLittle).1
    have bigOnline : ∀ cpu ∈ big, cpu ∈ sys.onlineCpus := fun cpu isBig =>
      ((tiers.big_iff cpu).mp isBig).1
    have someBig : ∃ cpu, cpu ∈ big := ⟨cpu, tiers.turbo_big cpu isTurbo⟩
    refine ⟨little, big, turbo, performance,
      fun _ => ⟨?_, tiers, someBig, tiers.disjoint, tiers.together⟩,
      fun homogeneous => absurd heterogeneous homogeneous, nonemptyPerf, perfBig, ?_⟩
    · rw [classified]
    · rw [classified] at isPerf ⊢
      refine names_tierSets all rfl rfl rfl isPerf ?_
      simp only [List.forall_mem_cons]
      exact ⟨littleOnline, bigOnline, fun cpu isTurbo => bigOnline cpu (tiers.turbo_big cpu isTurbo),
        fun cpu isPerf => bigOnline cpu (perfBig cpu isPerf), by simp⟩
  · obtain ⟨cpu, isCpu⟩ := sys.onlineCpus.isEmpty_eq_false_iff.mp nonempty
    have isEmptyText : "" = formatCpuset .empty := by
      decide +kernel
    rw [classified]
    have isPerf : (markHomogeneous described).perfCores = formatCpuset sys.onlineCpus := all
    refine ⟨.empty, sys.onlineCpus, .empty, sys.onlineCpus, fun split => absurd split homogeneous,
      fun _ => ⟨rfl, rfl, rfl, rfl⟩, ⟨cpu, isCpu⟩, fun _ listed => listed, ?_⟩
    refine names_tierSets all all isEmptyText isEmptyText isPerf ?_
    simp

/-- Two CPUs rated 166 and 231 are a little core and a big one. -/
theorem core_tiers_rated :
    (detectTopologyImpl plainOrder plainOrder ratedMachine).hasBigLittle = true := by
  have isLow : 166 ∈ readings (ratedMachine.capacity ratedMachine.source) ratedMachine.onlineCpus := by
    decide +kernel
  have isHigh : 231 ∈ readings (ratedMachine.capacity ratedMachine.source) ratedMachine.onlineCpus := by
    decide +kernel
  obtain ⟨_, _, _, _, split, _⟩ := core_tiers plainOrder plainOrder ratedMachine (by decide +kernel)
  exact (split ⟨166, isLow, 231, isHigh, by decide, by decide +kernel, by decide⟩).1

end AnanicyRs.Platform.Topology
