import AnanicyRs.Platform.Topology.Domains
import AnanicyRs.Platform.Topology.Tiers

/-!
Contract: the grouping of a machine, whichever way its CPU directory is listed.

Owns when the groups are the nodes and the cache domains of the CPUs that are online, and the
largest cache is the one that is read as the largest (`llc_grouping_iff`): on every machine whose
CPUs agree on whether they report a last cache level, and whose L3 sizes, of which each CPU
overwrites the one before it in its group, still single out that cache. The order in which the
CPUs are listed only decides the order of the groups (`detectTopologyImpl_sameUpToOrder`).
-/

set_option autoImplicit false

namespace AnanicyRs.Platform.Topology

open AnanicyRs.Lib AnanicyRs.Lib.Sorted

/-! ## Another order of the directory -/

/-- The same CPU directory, listed in another order. -/
structure SameMachine (sys other : SysRoot) : Prop where
  cpus : (other.cpus.getD []).Perm (sys.cpus.getD [])
  smtActive : other.smtActive = sys.smtActive

/-- Equal, but for the order of the groups. -/
structure SameUpToOrder (top other : CpuTopology) : Prop where
  nodes : other.nodes.Perm top.nodes
  llcs : other.llcs.Perm top.llcs
  rest : { other with nodes := top.nodes, llcs := top.llcs } = top

theorem SameMachine.scan {sys other : SysRoot} (same : SameMachine sys other) : other.scan = sys.scan := by
  have listed : other.listed.Perm sys.listed := same.cpus.filterMap _
  have sorted : other.sorted = sys.sorted := by
    apply List.Perm.eq_of_pairwise _ other.ascending_sorted sys.ascending_sorted
    · exact (other.sorted_perm.trans listed).trans sys.sorted_perm.symm
    · intro left right _ _ before after
      exact absurd after before.asymm
  rw [SysRoot.scan, SysRoot.scan, sorted]

theorem SameMachine.detectSmt {sys other : SysRoot} (same : SameMachine sys other) :
    Topology.detectSmt other = Topology.detectSmt sys := by
  rw [Topology.detectSmt, Topology.detectSmt, same.smtActive]

theorem maxL3Of_perm {left right : List LlcInfo} (perm : left.Perm right) :
    maxL3Of left = maxL3Of right := by
  rw [maxL3Of, maxL3Of, foldl_maxL3, foldl_maxL3]
  exact (perm.map LlcInfo.l3Size).foldl_eq 0

theorem biggestLlcCores_perm {left right : List LlcInfo} (perm : left.Perm right) :
    biggestLlcCores left = biggestLlcCores right := by
  apply SortedSet.ext_mem
  intro cpu
  rw [biggestLlcCores, biggestLlcCores, mem_foldl_extend, mem_foldl_extend, maxL3Of_perm perm]
  simp only [perm.mem_iff]

theorem classify_with (metrics : SortedMap Nat CpuIds) (top : CpuTopology) (nodes : List NodeInfo)
    (llcs : List LlcInfo) : classify metrics { top with nodes, llcs } =
      { classify metrics top with nodes, llcs } := by
  unfold classify
  split
  · rfl
  · split
    · split
      · rfl
      · dsimp only
        split
        · rfl
        · rfl
    · rfl

section Orders

variable (nodeOrder llcOrder otherNode otherLlc : HashOrder)

theorem describe_with {sys other : SysRoot} (same : SameMachine sys other) :
    describe otherNode otherLlc other = { describe nodeOrder llcOrder sys with
      nodes := nodesOf otherNode sys.scan
      llcs := llcsOf otherLlc sys.scan } := by
  have llcs : (llcsOf otherLlc sys.scan).Perm (llcsOf llcOrder sys.scan) :=
    ((otherLlc.perm _).trans (llcOrder.perm _).symm).map (llcInfo sys.scan)
  unfold describe
  dsimp only
  rw [same.scan, same.detectSmt, maxL3Of_perm llcs, biggestLlcCores_perm llcs]

theorem detectTopologyImpl_sameUpToOrder {sys other : SysRoot} (same : SameMachine sys other) :
    SameUpToOrder (detectTopologyImpl nodeOrder llcOrder sys)
      (detectTopologyImpl otherNode otherLlc other) := by
  obtain ⟨llcs, nodes, _⟩ := detectTopologyImpl_parts nodeOrder llcOrder sys
  obtain ⟨otherLlcs, otherNodes, _⟩ := detectTopologyImpl_parts otherNode otherLlc other
  constructor
  · rw [nodes, otherNodes, same.scan]
    exact ((otherNode.perm _).trans (nodeOrder.perm _).symm).map _
  · rw [llcs, otherLlcs, same.scan]
    exact ((otherLlc.perm _).trans (llcOrder.perm _).symm).map _
  · have cpus : other.onlineCpus = sys.onlineCpus := congrArg Scan.allCores same.scan
    cases empty : sys.onlineCpus.isEmpty with
    | true =>
        rw [detectTopologyImpl_of_isEmpty nodeOrder llcOrder empty,
          detectTopologyImpl_of_isEmpty otherNode otherLlc (cpus ▸ empty), same.detectSmt]
    | false =>
        have capacity : other.capacity = sys.capacity := by
          rw [SysRoot.capacity, SysRoot.capacity, same.scan]
        have source : other.source = sys.source := by
          rw [SysRoot.source, SysRoot.source, same.scan]
        rw [nodes, llcs, detectTopologyImpl_eq nodeOrder llcOrder empty,
          detectTopologyImpl_eq otherNode otherLlc (cpus ▸ empty), cpus, capacity, source,
          describe_with nodeOrder llcOrder otherNode otherLlc same, classify_with, ← classify_with]
        rfl

end Orders

/-! ## The grouping -/

/-- The CPU reads an L3 size that no other reads a larger one than. -/
def SysRoot.ReadsLargest (sys : SysRoot) (reader : CpuId × SysDir) : Prop :=
  ∃ size, l3SizeOf reader.2 = some size ∧
    ∀ other ∈ sys.online, ∀ otherSize, l3SizeOf other.2 = some otherSize → otherSize ≤ size

/-- The CPUs of the LLCs with the largest L3 cache: those in which it is read. -/
def IsCache (sys : SysRoot) (llcs : List LlcInfo) (cores : CpuIds) : Prop :=
  ∀ cpu, cpu ∈ cores ↔ ∃ llc ∈ llcs, cpu ∈ llc.cpuIds ∧
    ∃ reader ∈ sys.online, reader.1 ∈ llc.cpuIds ∧ sys.ReadsLargest reader

/-- What a topology says of the CPUs of its machine that are online: which share a node, which
share an LLC, and which have the largest L3 cache. -/
structure Grouped (sys : SysRoot) (top : CpuTopology) : Prop where
  nodes : Partitions NodeInfo.id NodeInfo.cpuIds sys.onlineCpus top.nodes
  llcs : Partitions LlcInfo.id LlcInfo.cpuIds sys.onlineCpus top.llcs
  sameLlc : ∀ left ∈ sys.online, ∀ right ∈ sys.online,
    SharesLlc top.llcs left.1 right.1 ↔ lastLevelList left.2 = lastLevelList right.2
  consecutive : Consecutive top.llcs
  cache : ∃ cores, IsCache sys top.llcs cores ∧ top.biggestLlcCoresStr = formatCpuset cores ∧
    top.generateCpusetAliases.lookup "x3d-cache" =
      if cores.isEmpty then none else some (formatCpuset cores)

/-! ## The largest cache -/

/-- The size that the last CPU with these shared CPUs reads, in the order of the CPUs; 0 if none
can read it, or not as a size. -/
def SysRoot.lastSize (sys : SysRoot) (list : Option String) : Nat :=
  (LastWins.lastOf (sys.online.filterMap fun cpu =>
    (cpu.2.read "cache/index3/size").map fun l3Str =>
      (lastLevelList cpu.2, parseSizeString l3Str)) list).getD 0

/-- The largest size is read by the CPUs that share a list with some CPU exactly if what the last
of them reads is not less than what the last CPUs of other lists do. -/
def SysRoot.SizesSettled (sys : SysRoot) : Prop := ∀ cpu ∈ sys.online,
  (∃ reader ∈ sys.online, lastLevelList reader.2 = lastLevelList cpu.2 ∧
    sys.ReadsLargest reader) ↔
  0 < sys.lastSize (lastLevelList cpu.2) ∧ ∀ other ∈ sys.online,
    sys.lastSize (lastLevelList other.2) ≤ sys.lastSize (lastLevelList cpu.2)

section Sizes

variable {sys : SysRoot}

theorem l3Size_llc (uniform : sys.Uniform) (few : sys.Few) {cpu : CpuId × SysDir}
    (isOnline : cpu ∈ sys.online) :
    (sys.llc (sys.llcId cpu)).l3Size = sys.lastSize (lastLevelList cpu.2) := by
  have read : sys.scan.llcL3Size.lookup (sys.llcId cpu) =
      LastWins.lastOf (sys.online.filterMap fun other =>
        (other.2.read "cache/index3/size").map fun l3Str =>
          (sys.llcId other, parseSizeString l3Str)) (sys.llcId cpu) := by
    rw [sys.scan_eq, llcL3Size_foldl]
    rfl
  have rekeyed := LastWins.lastOf_rekey sys.online sys.llcId (fun other => lastLevelList other.2)
    (fun other => (other.2.read "cache/index3/size").map parseSizeString) cpu
    fun other listed => SysRoot.llcId_eq_iff uniform few isOnline listed
  simp only [Option.map_map, Function.comp_def] at rekeyed
  rw [SysRoot.llc, llcInfo, read, SysRoot.lastSize, rekeyed]

/-- What `detect_topology_impl` takes for the CPUs of the largest cache. -/
theorem exists_biggest (llcs : List LlcInfo) : ∃ cores : CpuIds,
    (∀ cpu, cpu ∈ cores ↔ ∃ llc ∈ llcs, 0 < llc.l3Size ∧
      (∀ other ∈ llcs, other.l3Size ≤ llc.l3Size) ∧ cpu ∈ llc.cpuIds) ∧
    (if 0 < maxL3Of llcs then formatCpuset (biggestLlcCores llcs) else "") = formatCpuset cores := by
  by_cases positive : 0 < maxL3Of llcs
  · refine ⟨biggestLlcCores llcs, fun cpu => ?_, if_pos positive⟩
    rw [mem_biggestLlcCores positive]
    constructor
    · intro ⟨llc, listed, largest, inLlc⟩
      obtain ⟨top, isTop, isMax⟩ := exists_of_maxL3Of positive
      have above := largest top isTop
      exact ⟨llc, listed, by omega, largest, inLlc⟩
    · exact fun ⟨llc, listed, _, largest, inLlc⟩ => ⟨llc, listed, largest, inLlc⟩
  · refine ⟨.empty, fun cpu => ?_, ?_⟩
    · have fresh : cpu ∉ (SortedMap.empty : CpuIds) := SortedSet.notMem_empty cpu
      apply iff_of_false fresh
      intro ⟨llc, listed, sized, _⟩
      have below := le_maxL3Of listed
      omega
    · rw [if_neg positive]
      decide +kernel

variable (llcOrder : HashOrder)

/-- An online CPU among those, by the sizes read last. -/
theorem mem_biggest_iff (uniform : sys.Uniform) (few : sys.Few) {cores : CpuIds}
    (biggest : ∀ cpu, cpu ∈ cores ↔ ∃ llc ∈ llcsOf llcOrder sys.scan, 0 < llc.l3Size ∧
      (∀ other ∈ llcsOf llcOrder sys.scan, other.l3Size ≤ llc.l3Size) ∧ cpu ∈ llc.cpuIds)
    {cpu : CpuId × SysDir} (isOnline : cpu ∈ sys.online) :
    cpu.1 ∈ cores ↔ 0 < sys.lastSize (lastLevelList cpu.2) ∧ ∀ other ∈ sys.online,
      sys.lastSize (lastLevelList other.2) ≤ sys.lastSize (lastLevelList cpu.2) := by
  rw [biggest]
  have ofAll : ∀ size, (∀ other ∈ llcsOf llcOrder sys.scan, other.l3Size ≤ size) ↔
      ∀ other ∈ sys.online, sys.lastSize (lastLevelList other.2) ≤ size := by
    intro size
    constructor
    · intro bound other listed
      have here := bound _ ((mem_llcs llcOrder _).mpr ⟨other, listed, rfl⟩)
      rwa [l3Size_llc uniform few listed] at here
    · intro bound other listed
      obtain ⟨owner, isOwner, rfl⟩ := (mem_llcs llcOrder other).mp listed
      rw [l3Size_llc uniform few isOwner]
      exact bound owner isOwner
  constructor
  · intro ⟨llc, listed, sized, largest, inLlc⟩
    obtain ⟨owner, isOwner, rfl⟩ := (mem_llcs llcOrder llc).mp listed
    have sameId := (mem_cpuIds_llc _ isOnline).mp inLlc
    have sameList := (SysRoot.llcId_eq_iff uniform few isOnline isOwner).mp sameId
    rw [l3Size_llc uniform few isOwner, ← sameList] at sized largest
    exact ⟨sized, (ofAll _).mp largest⟩
  · intro ⟨sized, largest⟩
    refine ⟨_, (mem_llcs llcOrder _).mpr ⟨cpu, isOnline, rfl⟩, ?_, ?_,
      (mem_cpuIds_llc _ isOnline).mpr rfl⟩
    · rwa [l3Size_llc uniform few isOnline]
    · rw [l3Size_llc uniform few isOnline]
      exact (ofAll _).mpr largest

theorem mem_isCache_iff (uniform : sys.Uniform) (few : sys.Few) {cores : CpuIds}
    (isCache : IsCache sys (llcsOf llcOrder sys.scan) cores) {cpu : CpuId × SysDir}
    (isOnline : cpu ∈ sys.online) :
    cpu.1 ∈ cores ↔ ∃ reader ∈ sys.online, lastLevelList reader.2 = lastLevelList cpu.2 ∧
      sys.ReadsLargest reader := by
  rw [isCache]
  constructor
  · intro ⟨llc, listed, inLlc, reader, isReader, hasReader, reads⟩
    obtain ⟨owner, isOwner, rfl⟩ := (mem_llcs llcOrder llc).mp listed
    have sameId := (mem_cpuIds_llc _ isReader).mp hasReader
    rw [← (mem_cpuIds_llc _ isOnline).mp inLlc] at sameId
    exact ⟨reader, isReader, (SysRoot.llcId_eq_iff uniform few isReader isOnline).mp sameId, reads⟩
  · intro ⟨reader, isReader, sameList, reads⟩
    have sameId := (SysRoot.llcId_eq_iff uniform few isReader isOnline).mpr sameList
    exact ⟨_, (mem_llcs llcOrder _).mpr ⟨cpu, isOnline, rfl⟩, (mem_cpuIds_llc _ isOnline).mpr rfl,
      reader, isReader, (mem_cpuIds_llc _ isReader).mpr sameId, reads⟩

/-- The CPUs of the largest cache are found exactly if the sizes read last single them out. -/
theorem isCache_iff_settled (uniform : sys.Uniform) (few : sys.Few) {cores : CpuIds}
    (biggest : ∀ cpu, cpu ∈ cores ↔ ∃ llc ∈ llcsOf llcOrder sys.scan, 0 < llc.l3Size ∧
      (∀ other ∈ llcsOf llcOrder sys.scan, other.l3Size ≤ llc.l3Size) ∧ cpu ∈ llc.cpuIds) :
    IsCache sys (llcsOf llcOrder sys.scan) cores ↔ sys.SizesSettled := by
  constructor
  · intro isCache cpu isOnline
    rw [← mem_isCache_iff llcOrder uniform few isCache isOnline,
      mem_biggest_iff llcOrder uniform few biggest isOnline]
  · intro settled cpu
    rw [biggest]
    constructor
    · intro ⟨llc, listed, sized, largest, inLlc⟩
      obtain ⟨entry, isOnline, rfl⟩ := (sys.mem_onlineCpus cpu).mp
        ((partitions_llcs llcOrder).within llc listed cpu inLlc)
      have inCores := (biggest entry.1).mpr ⟨llc, listed, sized, largest, inLlc⟩
      obtain ⟨reader, isReader, sameList, reads⟩ := (settled entry isOnline).mpr
        ((mem_biggest_iff llcOrder uniform few biggest isOnline).mp inCores)
      have sameId := (SysRoot.llcId_eq_iff uniform few isReader isOnline).mpr sameList
      obtain ⟨owner, isOwner, rfl⟩ := (mem_llcs llcOrder llc).mp listed
      refine ⟨_, listed, inLlc, reader, isReader, (mem_cpuIds_llc _ isReader).mpr ?_, reads⟩
      rw [sameId]
      exact (mem_cpuIds_llc _ isOnline).mp inLlc
    · intro ⟨llc, listed, inLlc, reader, isReader, hasReader, reads⟩
      obtain ⟨entry, isOnline, rfl⟩ := (sys.mem_onlineCpus cpu).mp
        ((partitions_llcs llcOrder).within llc listed cpu inLlc)
      obtain ⟨owner, isOwner, rfl⟩ := (mem_llcs llcOrder llc).mp listed
      have sameId := (mem_cpuIds_llc _ isReader).mp hasReader
      rw [← (mem_cpuIds_llc _ isOnline).mp inLlc] at sameId
      have sameList := (SysRoot.llcId_eq_iff uniform few isReader isOnline).mp sameId
      exact (biggest entry.1).mp ((mem_biggest_iff llcOrder uniform few biggest isOnline).mpr
        ((settled entry isOnline).mp ⟨reader, isReader, sameList, reads⟩))

end Sizes

section Grouping

variable (nodeOrder llcOrder : HashOrder) (sys : SysRoot)

theorem lookup_x3dCache {top : CpuTopology} {cores : CpuIds}
    (text : top.biggestLlcCoresStr = formatCpuset cores) :
    top.generateCpusetAliases.lookup "x3d-cache" =
      if cores.isEmpty then none else some (formatCpuset cores) := by
  have isText := CpusetFormat.format_eq_empty_iff cores
  have noTier : "x3d-cache" ∉ top.tierAliases.map Prod.fst := by
    show "x3d-cache" ∉ ["all", "all-cores", "big-cores", "little-cores", "performance-cores",
      "efficiency-cores", "turbo-cores"]
    decide +kernel
  rw [lookup_generateCpusetAliases top (by decide +kernel) (by decide +kernel), text,
    (LastWins.lastOf_eq_none_iff _ _).mpr noTier]
  cases empty : cores.isEmpty with
  | true =>
      have blank : formatCpuset cores = "" := isText.mpr empty
      rw [if_neg (fun given => given.2 blank)]
      rfl
  | false =>
      have written : formatCpuset cores ≠ "" := by
        intro blank
        rw [isText.mp blank] at empty
        exact Bool.noConfusion empty
      rw [if_pos ⟨rfl, written⟩]
      rfl

theorem grouped_of_uniform (uniform : sys.Uniform) (few : sys.Few) (settled : sys.SizesSettled) :
    Grouped sys (detectTopologyImpl nodeOrder llcOrder sys) := by
  obtain ⟨llcs, nodes, biggest⟩ := detectTopologyImpl_parts nodeOrder llcOrder sys
  obtain ⟨cores, isBiggest, text⟩ := exists_biggest (llcsOf llcOrder sys.scan)
  rw [text] at biggest
  refine ⟨?_, ?_, ?_, ?_, cores, ?_, biggest, lookup_x3dCache biggest⟩
  · rw [nodes]
    exact partitions_nodes nodeOrder
  · rw [llcs]
    exact partitions_llcs llcOrder
  · intro left isLeft right isRight
    rw [llcs, sharesLlc_iff llcOrder isLeft isRight]
    exact SysRoot.llcId_eq_iff uniform few isLeft isRight
  · rw [llcs]
    exact consecutive_llcs llcOrder uniform few
  · rw [llcs]
    exact (isCache_iff_settled llcOrder uniform few isBiggest).mpr settled

theorem settled_of_grouped (uniform : sys.Uniform) (few : sys.Few)
    (grouped : Grouped sys (detectTopologyImpl nodeOrder llcOrder sys)) : sys.SizesSettled := by
  obtain ⟨cores, isCache, isText, -⟩ := grouped.cache
  obtain ⟨llcs, -, biggest⟩ := detectTopologyImpl_parts nodeOrder llcOrder sys
  obtain ⟨found, isBiggest, text⟩ := exists_biggest (llcsOf llcOrder sys.scan)
  rw [text, isText] at biggest
  rw [llcs, CpusetFormat.format_injective biggest] at isCache
  exact (isCache_iff_settled llcOrder uniform few isBiggest).mp isCache

/-- On a machine, in whatever order its directory is listed: the groups are the nodes and the
cache domains of its CPUs, and the largest cache is the largest that is read, if and only if the
CPUs agree on whether they report a last cache level, do not report more lists than an `i32` can
number, and the sizes read last single out the largest cache. -/
theorem llc_grouping_iff :
    (Grouped sys (detectTopologyImpl nodeOrder llcOrder sys) ∧
      ∀ other otherNode otherLlc, SameMachine sys other →
        SameUpToOrder (detectTopologyImpl nodeOrder llcOrder sys)
          (detectTopologyImpl otherNode otherLlc other)) ↔
      sys.Uniform ∧ sys.Few ∧ sys.SizesSettled := by
  constructor
  · intro ⟨grouped, _⟩
    have sameLlc := grouped.sameLlc
    have consecutive := grouped.consecutive
    rw [(detectTopologyImpl_parts nodeOrder llcOrder sys).1] at sameLlc consecutive
    have uniform := uniform_of_sharesLlc llcOrder sameLlc
    have few := few_of_consecutive llcOrder uniform consecutive
    exact ⟨uniform, few, settled_of_grouped nodeOrder llcOrder sys uniform few grouped⟩
  · intro ⟨uniform, few, settled⟩
    constructor
    · exact grouped_of_uniform nodeOrder llcOrder sys uniform few settled
    · exact fun other otherNode otherLlc same =>
        detectTopologyImpl_sameUpToOrder nodeOrder llcOrder otherNode otherLlc same

end Grouping

/-- A CPU whose last cache level is its own. -/
def cachedCpu (list : String) : SysDir := .ofFiles [("cache/index3/shared_cpu_list", list)]

/-- CPU 1 reports no cache. -/
def silentCpu : SysRoot where
  cpus := some [("cpu0", cachedCpu "0\n"), ("cpu1", .ofFiles []), ("cpu2", cachedCpu "2\n")]
  smtActive := none
  distinct := by decide +kernel

/-- CPUs 0 and 1 are in LLC 0, and only one of them reports its list. -/
theorem silent_cpu_joins_llc :
    ¬ Grouped silentCpu (detectTopologyImpl plainOrder plainOrder silentCpu) := by
  intro grouped
  have listed : ∀ name dir id, (name, dir) ∈ silentCpu.cpus.getD [] → cpuIdOf name = some id →
      isOnline (id, dir) = true → (id, dir) ∈ silentCpu.online := by
    intro name dir id isEntry isId isOn
    refine (silentCpu.mem_online _).mpr ⟨List.mem_filterMap.mpr ⟨_, isEntry, ?_⟩, isOn⟩
    rw [isId]
    rfl
  have isLeft := listed "cpu0" (cachedCpu "0\n") 0 (by simp [silentCpu]) (by decide +kernel)
    (by decide +kernel)
  have isRight := listed "cpu1" (.ofFiles []) 1 (by simp [silentCpu]) (by decide +kernel)
    (by decide +kernel)
  have together : SharesLlc (detectTopologyImpl plainOrder plainOrder silentCpu).llcs 0 1 := by
    unfold SharesLlc
    decide +kernel
  have sameList := (grouped.sameLlc _ isLeft _ isRight).mp together
  exact absurd sameList (by decide +kernel)

end AnanicyRs.Platform.Topology
