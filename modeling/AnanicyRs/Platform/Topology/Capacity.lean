import AnanicyRs.Platform.Topology.Detect

/-!
Contract: which capacity source the whole machine is measured with.

Owns what the tiers of `metric_to_cores` hold (`lookup_metricToCores`) and when the source
`pick_capacity_source` answers is the first one that tells two CPUs apart
(`capacity_source_is_first_iff`). The loop compares with the lowest CPU alone and passes over
a source that has no reading for it, so a source that tells two other CPUs apart can be
missed.
-/

set_option autoImplicit false

namespace AnanicyRs.Platform.Topology

open AnanicyRs.Lib AnanicyRs.Lib.Sorted AnanicyRs.Lib.Grouping

/-! ## The CPUs of each capacity -/

section Metrics

variable (capacity : CpuId → Option Nat) (cpus : CpuIds)

theorem adds_metricToCores : Adds SortedMap.lookup
    (fun (metrics : SortedMap Nat CpuIds) (cpu : CpuId) =>
      match capacity cpu with
      | some value => addTo metrics value cpu
      | none => metrics) capacity id where
  lookup_step metrics cpu value := by
    cases capacity cpu with
    | none => rfl
    | some own =>
        simp only [lookup_addTo, Option.some.injEq]
        by_cases same : value = own
        · rw [if_pos same, if_pos same.symm]
          rfl
        · rw [if_neg same, if_neg (Ne.symm same)]

theorem lookup_metricToCores (value : Nat) (tier : CpuIds) :
    (metricToCores capacity cpus).lookup value = some tier ↔
      (∃ cpu ∈ cpus, capacity cpu = some value) ∧
        members capacity id cpus.elems value = tier :=
  (adds_metricToCores capacity).lookup_foldl_eq_some_iff (fun _ => rfl) cpus.elems value tier

theorem mem_keys_metricToCores (value : Nat) :
    value ∈ (metricToCores capacity cpus).keys ↔ ∃ cpu ∈ cpus, capacity cpu = some value := by
  rw [← SortedMap.lookup_isSome_iff, Option.isSome_iff_exists]
  constructor
  · intro ⟨tier, found⟩
    exact ((lookup_metricToCores capacity cpus value tier).mp found).1
  · intro given
    exact ⟨_, (lookup_metricToCores capacity cpus value _).mpr ⟨given, rfl⟩⟩

/-- Two CPUs have different capacities. -/
def Discriminates : Prop :=
  ∃ left ∈ cpus, ∃ right ∈ cpus, ∃ leftValue rightValue,
    capacity left = some leftValue ∧ capacity right = some rightValue ∧ leftValue ≠ rightValue

theorem discriminates_iff :
    Discriminates capacity cpus ↔ 1 < (metricToCores capacity cpus).entries.length := by
  rw [SortedMap.one_lt_length_iff]
  simp only [mem_keys_metricToCores]
  constructor
  · intro ⟨left, isLeft, right, isRight, leftValue, rightValue, leftRead, rightRead, different⟩
    exact ⟨leftValue, ⟨left, isLeft, leftRead⟩, rightValue, ⟨right, isRight, rightRead⟩, different⟩
  · intro ⟨leftValue, ⟨left, isLeft, leftRead⟩, rightValue, ⟨right, isRight, rightRead⟩, different⟩
    exact ⟨left, isLeft, right, isRight, leftValue, rightValue, leftRead, rightRead, different⟩

end Metrics

/-! ## What the loop picks -/

section Loop

variable {capacity : String → CpuId → Option Nat} {first : CpuId} {cpus : CpuIds}

/-- The loop stops at a source. -/
def stopsAt (capacity : String → CpuId → Option Nat) (first : CpuId) (cpus : CpuIds)
    (source : String) : Bool :=
  (capacity source first).any fun reference =>
    cpus.elems.any fun cpu => (capacity source cpu).any (· != reference)

def isRead (capacity : String → CpuId → Option Nat) (cpu : CpuId) (source : String) : Bool :=
  (capacity source cpu).isSome

/-- The first source the loop stops at, else the last one with a reading for the lowest CPU. -/
theorem pickFrom_eq (sources : List String) : ∀ chosen,
    pickFrom capacity first cpus chosen sources =
      ((sources.find? (stopsAt capacity first cpus)).or
        (sources.filter (isRead capacity first)).getLast?).or chosen := by
  induction sources with
  | nil => exact fun _ => rfl
  | cons source rest inductionHypothesis =>
      intro chosen
      rw [pickFrom, List.find?_cons, List.filter_cons]
      cases read : capacity source first with
      | none =>
          have passed : stopsAt capacity first cpus source = false := by
            rw [stopsAt, read]
            rfl
          have unread : isRead capacity first source = false := by
            rw [isRead, read]
            rfl
          rw [passed, unread]
          exact inductionHypothesis chosen
      | some reference =>
          have stops : stopsAt capacity first cpus source =
              cpus.elems.any fun cpu => (capacity source cpu).any (· != reference) := by
            rw [stopsAt, read]
            rfl
          have hasReading : isRead capacity first source = true := by
            rw [isRead, read]
            rfl
          dsimp only
          rw [← stops, hasReading, if_pos rfl, List.getLast?_cons, inductionHypothesis]
          cases stopsAt capacity first cpus source with
          | true => rfl
          | false =>
              generalize (rest.filter (isRead capacity first)).getLast? = later
              cases rest.find? (stopsAt capacity first cpus) <;> cases later <;> rfl

theorem stopsAt_iff (listed : first ∈ cpus) (source : String) :
    stopsAt capacity first cpus source = true ↔
      isRead capacity first source = true ∧ Discriminates (capacity source) cpus := by
  rw [stopsAt, Option.any_eq_true]
  constructor
  · intro ⟨reference, read, differing⟩
    obtain ⟨cpu, isCpu, differs⟩ := List.any_eq_true.mp differing
    obtain ⟨value, cpuRead, different⟩ := (Option.any_eq_true _ _).mp differs
    refine ⟨?_, cpu, isCpu, first, listed, value, reference, cpuRead, read, bne_iff_ne.mp different⟩
    rw [isRead, read]
    rfl
  · intro ⟨hasReading, left, isLeft, right, isRight, leftValue, rightValue, leftRead, rightRead, different⟩
    obtain ⟨reference, read⟩ := Option.isSome_iff_exists.mp hasReading
    refine ⟨reference, read, List.any_eq_true.mpr ?_⟩
    by_cases same : leftValue = reference
    · refine ⟨right, isRight, ?_⟩
      rw [rightRead, Option.any_some, bne_iff_ne, ← same]
      exact different.symm
    · refine ⟨left, isLeft, ?_⟩
      rw [leftRead, Option.any_some, bne_iff_ne]
      exact same

end Loop

/-! ## The first source that discriminates -/

def SysRoot.onlineCpus (sys : SysRoot) : CpuIds := sys.scan.allCores

/-- What a source says of a CPU that is online. -/
def SysRoot.capacity (sys : SysRoot) : String → CpuId → Option Nat := readCapacity sys.scan.bases

/-- The source the machine is measured with. -/
def SysRoot.source (sys : SysRoot) : String := pickCapacitySource sys.scan.bases sys.scan.allCores

/-- The first source of the list that tells two CPUs apart. -/
def IsFirst (capacity : String → CpuId → Option Nat) (cpus : CpuIds) (source : String) : Prop :=
  ∃ before after, capacitySources = before ++ source :: after ∧
    Discriminates (capacity source) cpus ∧ ∀ other ∈ before, ¬ Discriminates (capacity other) cpus

def IsLowest (cpus : CpuIds) (first : CpuId) : Prop := first ∈ cpus ∧ ∀ cpu ∈ cpus, first ≤ cpu

/-- Every CPU counts as a big one. -/
structure Homogeneous (top : CpuTopology) : Prop where
  noSplit : top.hasBigLittle = false
  big : top.bigCoresStr = top.allCoresStr
  little : top.littleCoresStr = ""
  turbo : top.turboCoresStr = ""

theorem elems_of_isLowest {cpus : CpuIds} {first : CpuId} (lowest : IsLowest cpus first) :
    ∃ rest, cpus.elems = first :: rest := by
  obtain ⟨isCpu, below⟩ := lowest
  have ascending := cpus.ascending_elems
  have listed : first ∈ cpus.elems := isCpu
  cases elems : cpus.elems with
  | nil =>
      rw [elems] at listed
      exact absurd listed List.not_mem_nil
  | cons head rest =>
      rw [elems] at listed ascending
      have isHead : head ∈ cpus := by
        rw [← SortedSet.mem_elems, elems]
        exact List.mem_cons_self
      rcases List.mem_cons.mp listed with same | later
      · exact ⟨rest, by rw [same]⟩
      · have before := (List.pairwise_cons.mp ascending).1 first later
        exact absurd (below head isHead) (not_le.mpr before)

theorem source_eq {sys : SysRoot} {first : CpuId} (lowest : IsLowest sys.onlineCpus first) :
    sys.source = ((capacitySources.find? (stopsAt sys.capacity first sys.onlineCpus)).or
      (capacitySources.filter (isRead sys.capacity first)).getLast?).getD leastPreciseSource := by
  obtain ⟨rest, elems⟩ := elems_of_isLowest lowest
  have scanned : sys.scan.allCores.elems = first :: rest := elems
  rw [SysRoot.source, pickCapacitySource, scanned]
  show (pickFrom sys.capacity first sys.onlineCpus none capacitySources).getD leastPreciseSource = _
  rw [pickFrom_eq, Option.or_none]

theorem leastPreciseSource_mem : leastPreciseSource ∈ capacitySources := by
  decide +kernel

theorem source_mem {sys : SysRoot} {first : CpuId} (lowest : IsLowest sys.onlineCpus first) :
    sys.source ∈ capacitySources := by
  rw [source_eq lowest]
  cases stopped : capacitySources.find? (stopsAt sys.capacity first sys.onlineCpus) with
  | some source => exact List.mem_of_find?_eq_some stopped
  | none =>
      cases last : (capacitySources.filter (isRead sys.capacity first)).getLast? with
      | some source => exact (List.mem_filter.mp (List.mem_of_getLast? last)).1
      | none => exact leastPreciseSource_mem

/-- Of the first source that discriminates: it is picked if the lowest CPU has a reading
there, or by default if that CPU has none anywhere. -/
theorem source_eq_iff {sys : SysRoot} {first : CpuId} (lowest : IsLowest sys.onlineCpus first)
    {precise : String} (isFirst : IsFirst sys.capacity sys.onlineCpus precise) :
    sys.source = precise ↔ isRead sys.capacity first precise = true ∨
      (precise = leastPreciseSource ∧
        ∀ source ∈ capacitySources, isRead sys.capacity first source = false) := by
  have stops : ∀ source, stopsAt sys.capacity first sys.onlineCpus source = true ↔
      isRead sys.capacity first source = true ∧
        Discriminates (sys.capacity source) sys.onlineCpus := stopsAt_iff lowest.1
  rw [source_eq lowest]
  obtain ⟨before, after, sources, discriminates, none⟩ := isFirst
  constructor
  · intro picked
    by_contra missed
    obtain ⟨unread, others⟩ := not_or.mp missed
    cases stopped : capacitySources.find? (stopsAt sys.capacity first sys.onlineCpus) with
    | some source =>
        rw [stopped, Option.some_or, Option.getD_some] at picked
        have hasReading := ((stops source).mp (List.find?_some stopped)).1
        rw [picked] at hasReading
        exact unread hasReading
    | none =>
        rw [stopped, Option.none_or] at picked
        cases last : (capacitySources.filter (isRead sys.capacity first)).getLast? with
        | some source =>
            rw [last, Option.getD_some] at picked
            have hasReading := (List.mem_filter.mp (List.mem_of_getLast? last)).2
            rw [picked] at hasReading
            exact unread hasReading
        | none =>
            rw [last, Option.getD_none] at picked
            apply others
            refine ⟨picked.symm, fun source listed => ?_⟩
            rw [List.getLast?_eq_none_iff, List.filter_eq_nil_iff] at last
            exact Bool.eq_false_of_not_eq_true (last source listed)
  · rintro (hasReading | ⟨isLeast, unread⟩)
    · have found : capacitySources.find? (stopsAt sys.capacity first sys.onlineCpus) =
          some precise := by
        rw [List.find?_eq_some_iff_append]
        refine ⟨(stops precise).mpr ⟨hasReading, discriminates⟩, before, after, sources, ?_⟩
        intro other earlier
        rw [Bool.not_eq_true']
        apply Bool.eq_false_of_not_eq_true
        intro isStop
        exact none other earlier ((stops other).mp isStop).2
      rw [found, Option.some_or, Option.getD_some]
    · have noStop : capacitySources.find? (stopsAt sys.capacity first sys.onlineCpus) = .none := by
        rw [List.find?_eq_none]
        intro source listed isStop
        exact absurd ((stops source).mp isStop).1 (Bool.eq_false_iff.mp (unread source listed))
      have noReading : capacitySources.filter (isRead sys.capacity first) = [] := by
        rw [List.filter_eq_nil_iff]
        intro source listed
        exact Bool.eq_false_iff.mp (unread source listed)
      rw [noStop, noReading, isLeast]
      rfl

theorem detectTopologyImpl_of_isEmpty (nodeOrder llcOrder : HashOrder) {sys : SysRoot}
    (empty : sys.onlineCpus.isEmpty = true) : detectTopologyImpl nodeOrder llcOrder sys =
      { CpuTopology.default with smtEnabled := detectSmt sys } :=
  if_pos empty

theorem detectTopologyImpl_eq (nodeOrder llcOrder : HashOrder) {sys : SysRoot}
    (some : sys.onlineCpus.isEmpty = false) : detectTopologyImpl nodeOrder llcOrder sys =
      classify (metricToCores (sys.capacity sys.source) sys.onlineCpus)
        (describe nodeOrder llcOrder sys) :=
  if_neg (Bool.eq_false_iff.mp some)

theorem homogeneous_of_not_discriminates (nodeOrder llcOrder : HashOrder) {sys : SysRoot}
    (noSplit : ¬ Discriminates (sys.capacity sys.source) sys.onlineCpus) :
    Homogeneous (detectTopologyImpl nodeOrder llcOrder sys) := by
  rw [discriminates_iff, not_lt] at noSplit
  cases empty : sys.onlineCpus.isEmpty with
  | true =>
      rw [detectTopologyImpl_of_isEmpty nodeOrder llcOrder empty]
      exact ⟨rfl, rfl, rfl, rfl⟩
  | false =>
      rw [detectTopologyImpl_eq nodeOrder llcOrder empty, classify, if_pos noSplit]
      exact ⟨rfl, rfl, rfl, rfl⟩

/-- If some source tells two CPUs apart, the first one that does is picked exactly in the
cases of `source_eq_iff`; and if none does, neither does the one that is picked, and the
machine counts as homogeneous. -/
theorem capacity_source_is_first_iff (nodeOrder llcOrder : HashOrder) (sys : SysRoot)
    (first : CpuId) (lowest : IsLowest sys.onlineCpus first) :
    ((∀ precise, IsFirst sys.capacity sys.onlineCpus precise → sys.source = precise) ∧
      ((∀ source ∈ capacitySources, ¬ Discriminates (sys.capacity source) sys.onlineCpus) →
        ¬ Discriminates (sys.capacity sys.source) sys.onlineCpus ∧
          Homogeneous (detectTopologyImpl nodeOrder llcOrder sys))) ↔
      ∀ precise, IsFirst sys.capacity sys.onlineCpus precise →
        (sys.capacity precise first).isSome = true ∨
          (precise = leastPreciseSource ∧
            ∀ source ∈ capacitySources, (sys.capacity source first).isSome = false) := by
  constructor
  · intro ⟨picked, _⟩ precise isFirst
    exact (source_eq_iff lowest isFirst).mp (picked precise isFirst)
  · intro seen
    refine ⟨fun precise isFirst => (source_eq_iff lowest isFirst).mpr (seen precise isFirst), ?_⟩
    intro none
    have noSplit := none sys.source (source_mem lowest)
    exact ⟨noSplit, homogeneous_of_not_discriminates nodeOrder llcOrder noSplit⟩

def plainOrder : HashOrder := ⟨id, List.Perm.refl⟩

/-- A CPU that every source says the same of. -/
def ratedCpu (rating : String) : SysDir :=
  ⟨none, fun path => if path ∈ capacitySources then some rating else none⟩

def ratedMachine : SysRoot where
  cpus := some [("cpu0", ratedCpu "166\n"), ("cpu1", ratedCpu "231\n")]
  smtActive := none
  distinct := by decide +kernel

theorem ratedMachine_source : ratedMachine.source = "cpufreq/amd_pstate_prefcore_ranking" := by
  have seen : ∀ source ∈ capacitySources, (ratedMachine.capacity source 0).isSome = true := by
    decide +kernel
  have first : Discriminates (ratedMachine.capacity "cpufreq/amd_pstate_prefcore_ranking")
      ratedMachine.onlineCpus :=
    ⟨0, by decide +kernel, 1, by decide +kernel, 166, 231, by decide +kernel, by decide +kernel,
      by decide⟩
  refine ((capacity_source_is_first_iff plainOrder plainOrder ratedMachine 0
    ⟨by decide +kernel, fun cpu _ => Fin.zero_le cpu⟩).mpr ?_).1 _ ⟨[], _, rfl, first, by simp⟩
  intro precise ⟨before, after, sources, _, _⟩
  refine .inl (seen precise ?_)
  rw [sources]
  exact List.mem_append_right before List.mem_cons_self

/-- The ranking tells CPUs 1 and 2 apart, and CPU 0 has none. -/
def unrankedCpu : SysRoot where
  cpus := some
    [("cpu0", .ofFiles [("cpufreq/cpuinfo_max_freq", "5000000\n")]),
      ("cpu1", .ofFiles [("cpufreq/amd_pstate_prefcore_ranking", "166\n"),
        ("cpufreq/cpuinfo_max_freq", "5000000\n")]),
      ("cpu2", .ofFiles [("cpufreq/amd_pstate_prefcore_ranking", "231\n"),
        ("cpufreq/cpuinfo_max_freq", "5000000\n")])]
  smtActive := none
  distinct := by decide +kernel

/-- The one source that tells CPUs apart is passed over for one that does not. -/
theorem discriminating_source_is_missed :
    ∃ precise, IsFirst unrankedCpu.capacity unrankedCpu.onlineCpus precise ∧
      unrankedCpu.source ≠ precise := by
  refine ⟨"cpufreq/amd_pstate_prefcore_ranking", ⟨[], _, rfl, ?_, by simp⟩, by decide +kernel⟩
  exact ⟨1, by decide +kernel, 2, by decide +kernel, 166, 231, by decide +kernel,
    by decide +kernel, by decide⟩

end AnanicyRs.Platform.Topology
