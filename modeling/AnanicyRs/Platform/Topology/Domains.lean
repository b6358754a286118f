import AnanicyRs.Platform.Topology.Scan

/-!
Contract: the LLC and node groups of a machine.

Owns what is in the groups: each CPU that is online is in one (`partitions_llcs`,
`partitions_nodes`), and two CPUs are in one LLC if they have one id (`sharesLlc_iff`). Where the
CPUs agree on whether they report a last cache level, the ids are the numbers of their answers
(`llcId_eq`), counted from 0 in the order of the lowest CPUs (`consecutive_llcs`); where they do
not agree, LLC 0 holds CPUs with different answers (`uniform_of_sharesLlc`).
-/

set_option autoImplicit false

namespace AnanicyRs.Platform.Topology

open AnanicyRs.Lib AnanicyRs.Lib.Sorted AnanicyRs.Lib.Grouping AnanicyRs.Lib.LastWins

/-! ## The parts of a topology -/

theorem classify_frame (metrics : SortedMap Nat CpuIds) (top : CpuTopology) :
    (classify metrics top).llcs = top.llcs ∧ (classify metrics top).nodes = top.nodes ∧
      (classify metrics top).biggestLlcCoresStr = top.biggestLlcCoresStr := by
  unfold classify
  split
  · exact ⟨rfl, rfl, rfl⟩
  · split
    · split
      · exact ⟨rfl, rfl, rfl⟩
      · dsimp only
        split
        · exact ⟨rfl, rfl, rfl⟩
        · exact ⟨rfl, rfl, rfl⟩
    · exact ⟨rfl, rfl, rfl⟩

theorem visit_nil (order : HashOrder) : order.visit [] = [] := List.perm_nil.mp (order.perm [])

section Parts

variable (nodeOrder llcOrder : HashOrder) (sys : SysRoot)

theorem online_of_isEmpty {sys : SysRoot} (empty : sys.onlineCpus.isEmpty = true) : sys.online = [] := by
  rw [List.eq_nil_iff_forall_not_mem]
  intro cpu listed
  exact sys.onlineCpus.isEmpty_iff.mp empty cpu.1 ((sys.mem_onlineCpus cpu.1).mpr ⟨cpu, listed, rfl⟩)

/-- A machine without a CPU that is online has no groups either. -/
theorem detectTopologyImpl_parts :
    (detectTopologyImpl nodeOrder llcOrder sys).llcs = llcsOf llcOrder sys.scan ∧
      (detectTopologyImpl nodeOrder llcOrder sys).nodes = nodesOf nodeOrder sys.scan ∧
      (detectTopologyImpl nodeOrder llcOrder sys).biggestLlcCoresStr =
        if 0 < maxL3Of (llcsOf llcOrder sys.scan) then
          formatCpuset (biggestLlcCores (llcsOf llcOrder sys.scan))
        else "" := by
  cases empty : sys.onlineCpus.isEmpty with
  | false =>
      rw [detectTopologyImpl_eq nodeOrder llcOrder empty]
      exact classify_frame _ _
  | true =>
      have blank : sys.scan = .empty := by
        rw [sys.scan_eq, online_of_isEmpty empty]
        rfl
      have noLlcs : llcsOf llcOrder .empty = [] := congrArg _ (visit_nil llcOrder)
      have noNodes : nodesOf nodeOrder .empty = [] := congrArg _ (visit_nil nodeOrder)
      rw [detectTopologyImpl_of_isEmpty nodeOrder llcOrder empty, blank, noLlcs, noNodes]
      exact ⟨rfl, rfl, rfl⟩

end Parts

/-! ## The biggest LLCs -/

theorem foldl_maxL3 (llcs : List LlcInfo) : ∀ start : Nat,
    llcs.foldl (fun maxL3 llc => if maxL3 < llc.l3Size then llc.l3Size else maxL3) start =
      (llcs.map LlcInfo.l3Size).foldl max start := by
  induction llcs with
  | nil => exact fun _ => rfl
  | cons head rest inductionHypothesis =>
      intro start
      rw [List.foldl_cons, inductionHypothesis, List.map_cons, List.foldl_cons]
      congr 1
      split <;> omega

theorem le_foldl_max (sizes : List Nat) : ∀ start,
    start ≤ sizes.foldl max start ∧ ∀ size ∈ sizes, size ≤ sizes.foldl max start := by
  induction sizes with
  | nil => simp
  | cons head rest inductionHypothesis =>
      intro start
      obtain ⟨below, bounds⟩ := inductionHypothesis (max start head)
      rw [List.foldl_cons, List.forall_mem_cons]
      exact ⟨by omega, by omega, bounds⟩

theorem foldl_max_mem (sizes : List Nat) : ∀ start,
    sizes.foldl max start = start ∨ sizes.foldl max start ∈ sizes := by
  induction sizes with
  | nil => simp
  | cons head rest inductionHypothesis =>
      intro start
      rw [List.foldl_cons, List.mem_cons]
      rcases inductionHypothesis (max start head) with isStart | later
      · rw [isStart]
        omega
      · exact .inr (.inr later)

theorem le_maxL3Of {llcs : List LlcInfo} {llc : LlcInfo} (member : llc ∈ llcs) :
    llc.l3Size ≤ maxL3Of llcs := by
  rw [maxL3Of, foldl_maxL3]
  exact (le_foldl_max _ 0).2 _ (List.mem_map_of_mem member)

/-- If some LLC has a size, the largest size is that of an LLC. -/
theorem exists_of_maxL3Of {llcs : List LlcInfo} (positive : 0 < maxL3Of llcs) :
    ∃ llc ∈ llcs, llc.l3Size = maxL3Of llcs := by
  rw [maxL3Of, foldl_maxL3] at positive ⊢
  rcases foldl_max_mem (llcs.map LlcInfo.l3Size) 0 with isZero | member
  · omega
  · exact List.mem_map.mp member

theorem mem_foldl_extend (size : Nat) (llcs : List LlcInfo) (cpu : CpuId) : ∀ cores : CpuIds,
    cpu ∈ llcs.foldl (fun cores llc =>
        if llc.l3Size = size then cores.extend llc.cpuIds else cores) cores ↔
      cpu ∈ cores ∨ ∃ llc ∈ llcs, llc.l3Size = size ∧ cpu ∈ llc.cpuIds := by
  induction llcs with
  | nil => simp
  | cons head rest inductionHypothesis =>
      intro cores
      rw [List.foldl_cons, inductionHypothesis]
      by_cases isLargest : head.l3Size = size
      · simp [isLargest, or_assoc]
      · simp [isLargest]

/-- `x3d-cache` is every CPU of an LLC that no other is larger than. -/
theorem mem_biggestLlcCores {llcs : List LlcInfo} (positive : 0 < maxL3Of llcs) (cpu : CpuId) :
    cpu ∈ biggestLlcCores llcs ↔
      ∃ llc ∈ llcs, (∀ other ∈ llcs, other.l3Size ≤ llc.l3Size) ∧ cpu ∈ llc.cpuIds := by
  have isMax : ∀ llc ∈ llcs, llc.l3Size = maxL3Of llcs ↔ ∀ other ∈ llcs, other.l3Size ≤ llc.l3Size := by
    intro llc member
    constructor
    · intro isLargest other listed
      rw [isLargest]
      exact le_maxL3Of listed
    · intro largest
      obtain ⟨top, listed, isTop⟩ := exists_of_maxL3Of positive
      have below := largest top listed
      have above := le_maxL3Of member
      omega
  rw [biggestLlcCores, mem_foldl_extend]
  have fresh : cpu ∉ (SortedMap.empty : CpuIds) := SortedSet.notMem_empty cpu
  simp only [fresh, false_or]
  constructor
  · intro ⟨llc, member, isLargest, listed⟩
    exact ⟨llc, member, (isMax llc member).mp isLargest, listed⟩
  · intro ⟨llc, member, largest, listed⟩
    exact ⟨llc, member, (isMax llc member).mpr largest, listed⟩

/-! ## One group for each CPU -/

/-- Each CPU that is online is in one group, and no other CPU is in any. -/
structure Partitions {Info : Type} (id : Info → Int32) (cpuIds : Info → List CpuId) (online : CpuIds)
    (infos : List Info) : Prop where
  distinct : (infos.map id).Nodup
  one : ∀ cpu ∈ online, ∃ info ∈ infos, cpu ∈ cpuIds info ∧
    ∀ other ∈ infos, cpu ∈ cpuIds other → other = info
  within : ∀ info ∈ infos, ∀ cpu ∈ cpuIds info, cpu ∈ online

/-- Two entries of one CPU are the same entry. -/
theorem SysRoot.eq_of_online {sys : SysRoot} {left right : CpuId × SysDir} (isLeft : left ∈ sys.online)
    (isRight : right ∈ sys.online) (same : left.1 = right.1) : left = right :=
  List.inj_on_of_nodup_map sys.nodup_online isLeft isRight same

theorem SysRoot.mem_groupOf_iff {sys : SysRoot} (idOf : CpuId × SysDir → Int32) (id : Int32)
    {cpu : CpuId × SysDir} (isOnline : cpu ∈ sys.online) :
    cpu.1 ∈ groupOf idOf sys.online id ↔ idOf cpu = id := by
  rw [mem_groupOf]
  constructor
  · intro ⟨entry, listed, isId, same⟩
    rw [← SysRoot.eq_of_online listed isOnline same]
    exact isId
  · exact fun isId => ⟨cpu, isOnline, isId, rfl⟩

section Infos

variable {Info : Type} {id : Info → Int32} {cpuIds : Info → List CpuId} {sys : SysRoot}
  {idOf : CpuId × SysDir → Int32} {groups : List (Sigma fun _ : Int32 => CpuIds)}
  {make : (Sigma fun _ : Int32 => CpuIds) → Info}

/-- The infos made of the groups are those of the ids that some CPU has. -/
theorem mem_infos (grouped : GroupedBy idOf sys.online groups) (info : Info) :
    info ∈ groups.map make ↔
      ∃ cpu ∈ sys.online, info = make ⟨idOf cpu, groupOf idOf sys.online (idOf cpu)⟩ := by
  rw [List.mem_map]
  constructor
  · intro ⟨group, listed, isInfo⟩
    obtain ⟨groupId, set⟩ := group
    obtain ⟨⟨cpu, isCpu, hasId⟩, isSet⟩ := (grouped.mem_iff groupId set).mp listed
    refine ⟨cpu, isCpu, ?_⟩
    rw [hasId, isSet, isInfo]
  · intro ⟨cpu, isCpu, isInfo⟩
    exact ⟨_, (grouped.mem_iff _ _).mpr ⟨⟨cpu, isCpu, rfl⟩, rfl⟩, isInfo.symm⟩

theorem partitions_infos (grouped : GroupedBy idOf sys.online groups) (isId : ∀ group, id (make group) = group.1)
    (isCpus : ∀ group, cpuIds (make group) = group.2.elems) :
    Partitions id cpuIds sys.onlineCpus (groups.map make) where
  distinct := by
    have ids : (groups.map make).map id = groups.map Sigma.fst := by
      rw [List.map_map]
      exact List.map_congr_left fun group _ => isId group
    rw [ids]
    exact grouped.distinct
  one cpu isOnline := by
    obtain ⟨entry, listed, rfl⟩ := (sys.mem_onlineCpus cpu).mp isOnline
    refine ⟨_, (mem_infos grouped _).mpr ⟨entry, listed, rfl⟩, ?_, fun other isOther inOther => ?_⟩
    · rw [isCpus]
      exact (SysRoot.mem_groupOf_iff idOf _ listed).mpr rfl
    · obtain ⟨owner, _, rfl⟩ := (mem_infos grouped other).mp isOther
      rw [isCpus] at inOther
      rw [(SysRoot.mem_groupOf_iff idOf _ listed).mp inOther]
  within info isInfo cpu inInfo := by
    obtain ⟨owner, _, rfl⟩ := (mem_infos grouped info).mp isInfo
    rw [isCpus] at inInfo
    obtain ⟨entry, listed, _, same⟩ := (mem_groupOf idOf sys.online _ cpu).mp inInfo
    exact (sys.mem_onlineCpus cpu).mpr ⟨entry, listed, same⟩

end Infos

/-! ## The numbers of the LLCs -/

namespace SysRoot

variable (sys : SysRoot)

/-- What the CPUs say their last cache level is shared with, each answer once. -/
def answers : List (Option String) := declared (sys.online.map fun cpu => lastLevelList cpu.2)

/-- All CPUs report their last cache level, or none does. -/
def Uniform : Prop := ∀ left ∈ sys.online, ∀ right ∈ sys.online,
  (lastLevelList left.2).isSome = (lastLevelList right.2).isSome

theorem mem_answers (answer : Option String) :
    answer ∈ sys.answers ↔ ∃ cpu ∈ sys.online, lastLevelList cpu.2 = answer := by
  rw [answers, mem_declared, List.mem_map]

variable {sys}

theorem answer_mem {cpu : CpuId × SysDir} (isOnline : cpu ∈ sys.online) :
    lastLevelList cpu.2 ∈ sys.answers := (sys.mem_answers _).mpr ⟨cpu, isOnline, rfl⟩

/-- If every CPU reports, the answers are the lists. -/
theorem answers_of_reports (reports : ∀ cpu ∈ sys.online, (lastLevelList cpu.2).isSome = true) :
    sys.answers = (domains sys.online).map some := by
  have lists : (sys.online.map fun cpu => lastLevelList cpu.2) =
      (sys.online.filterMap fun cpu => lastLevelList cpu.2).map some := by
    rw [List.map_filterMap_some_eq_filter_map_isSome, eq_comm, List.filter_eq_self]
    intro answer listed
    obtain ⟨cpu, isOnline, rfl⟩ := List.mem_map.mp listed
    exact reports cpu isOnline
  rw [answers, lists, declared_map (Option.some_injective _)]
  rfl

theorem idxOf_map_some (keys : List String) (key : String) :
    (keys.map some).idxOf (some key) = keys.idxOf key := by
  induction keys with
  | nil => rfl
  | cons head rest inductionHypothesis =>
      rw [List.map_cons, List.idxOf_cons, List.idxOf_cons, inductionHypothesis]
      congr 1

/-- If no CPU reports, they all answer the same. -/
theorem idxOf_none_of_silent (silent : ∀ cpu ∈ sys.online, lastLevelList cpu.2 = none) :
    sys.answers.idxOf none = 0 := by
  have same : ∀ answer ∈ sys.answers, answer = none := by
    intro answer given
    obtain ⟨cpu, isOnline, rfl⟩ := (sys.mem_answers answer).mp given
    exact silent cpu isOnline
  cases given : sys.answers with
  | nil => rfl
  | cons head rest =>
      rw [given] at same
      rw [same head List.mem_cons_self, List.idxOf_cons_self]

theorem llcId_eq (uniform : sys.Uniform) {cpu : CpuId × SysDir} (isOnline : cpu ∈ sys.online) :
    sys.llcId cpu = Int32.ofNat (sys.answers.idxOf (lastLevelList cpu.2)) := by
  rw [llcId, llcIdOf]
  cases own : lastLevelList cpu.2 with
  | some key =>
      have reports : ∀ other ∈ sys.online, (lastLevelList other.2).isSome = true := by
        intro other listed
        rw [uniform other listed cpu isOnline, own, Option.isSome_some]
      rw [answers_of_reports reports, idxOf_map_some]
  | none =>
      have silent : ∀ other ∈ sys.online, lastLevelList other.2 = none := by
        intro other listed
        have unread := uniform other listed cpu isOnline
        rw [own] at unread
        exact Option.isNone_iff_eq_none.mp (Option.isSome_eq_false_iff.mp unread)
      rw [idxOf_none_of_silent silent]
      rfl

/-- The answers are few enough to be numbered in an `i32`. -/
def Few (sys : SysRoot) : Prop := sys.answers.length ≤ 2 ^ 31

theorem toInt_idxOf (few : sys.Few) {answer : Option String} (given : answer ∈ sys.answers) :
    (Int32.ofNat (sys.answers.idxOf answer)).toInt = sys.answers.idxOf answer := by
  apply Int32.toInt_ofNat_of_lt
  have inside := List.idxOf_lt_length_iff.mpr given
  unfold Few at few
  omega

theorem ofNat_idxOf_inj (few : sys.Few) {left right : Option String} (isLeft : left ∈ sys.answers)
    (isRight : right ∈ sys.answers) :
    Int32.ofNat (sys.answers.idxOf left) = Int32.ofNat (sys.answers.idxOf right) ↔ left = right := by
  constructor
  · intro same
    have numbers := congrArg Int32.toInt same
    rw [toInt_idxOf few isLeft, toInt_idxOf few isRight, Int.natCast_inj] at numbers
    exact (List.idxOf_inj isLeft).mp numbers
  · rintro rfl
    rfl

theorem llcId_eq_iff (uniform : sys.Uniform) (few : sys.Few) {left right : CpuId × SysDir}
    (isLeft : left ∈ sys.online) (isRight : right ∈ sys.online) :
    sys.llcId left = sys.llcId right ↔ lastLevelList left.2 = lastLevelList right.2 := by
  rw [llcId_eq uniform isLeft, llcId_eq uniform isRight]
  exact ofNat_idxOf_inj few (answer_mem isLeft) (answer_mem isRight)

end SysRoot

/-! ## The LLCs of a machine -/

/-- The LLC made of one group. -/
def llcInfo (scan : Scan) (group : Sigma fun _ : Int32 => CpuIds) : LlcInfo where
  id := group.1
  cpuIds := group.2.elems
  cpusetStr := formatCpuset group.2
  l3Size := (scan.llcL3Size.lookup group.1).getD 0

/-- The LLC under an id. -/
def SysRoot.llc (sys : SysRoot) (id : Int32) : LlcInfo :=
  llcInfo sys.scan ⟨id, groupOf sys.llcId sys.online id⟩

section Llcs

variable {sys : SysRoot}

theorem mem_llcs (llcOrder : HashOrder) (llc : LlcInfo) :
    llc ∈ llcsOf llcOrder sys.scan ↔ ∃ cpu ∈ sys.online, llc = sys.llc (sys.llcId cpu) := by
  show llc ∈ (llcOrder.visit sys.scan.llcGroups.entries).map (llcInfo sys.scan) ↔ _
  exact mem_infos (sys.groupedBy_llcs llcOrder) llc

theorem partitions_llcs (llcOrder : HashOrder) :
    Partitions LlcInfo.id LlcInfo.cpuIds sys.onlineCpus (llcsOf llcOrder sys.scan) :=
  partitions_infos (sys.groupedBy_llcs llcOrder) (fun _ => rfl) fun _ => rfl

theorem partitions_nodes (nodeOrder : HashOrder) :
    Partitions NodeInfo.id NodeInfo.cpuIds sys.onlineCpus (nodesOf nodeOrder sys.scan) :=
  partitions_infos (sys.groupedBy_nodes nodeOrder) (fun _ => rfl) fun _ => rfl

theorem mem_cpuIds_llc (id : Int32) {cpu : CpuId × SysDir} (isOnline : cpu ∈ sys.online) :
    cpu.1 ∈ (sys.llc id).cpuIds ↔ sys.llcId cpu = id := SysRoot.mem_groupOf_iff sys.llcId id isOnline

/-- The CPUs `left` and `right` are in one LLC. -/
def SharesLlc (llcs : List LlcInfo) (left right : CpuId) : Prop :=
  ∃ llc ∈ llcs, left ∈ llc.cpuIds ∧ right ∈ llc.cpuIds

theorem sharesLlc_iff (llcOrder : HashOrder) {left right : CpuId × SysDir} (isLeft : left ∈ sys.online)
    (isRight : right ∈ sys.online) :
    SharesLlc (llcsOf llcOrder sys.scan) left.1 right.1 ↔ sys.llcId left = sys.llcId right := by
  constructor
  · intro ⟨llc, listed, hasLeft, hasRight⟩
    obtain ⟨cpu, _, rfl⟩ := (mem_llcs llcOrder llc).mp listed
    rw [(mem_cpuIds_llc _ isLeft).mp hasLeft, (mem_cpuIds_llc _ isRight).mp hasRight]
  · intro same
    have listed := (mem_llcs llcOrder _).mpr ⟨left, isLeft, rfl⟩
    exact ⟨_, listed, (mem_cpuIds_llc _ isLeft).mpr rfl, (mem_cpuIds_llc _ isRight).mpr same.symm⟩

/-- The lowest CPU of one LLC is below every CPU of another. -/
def Below (left right : LlcInfo) : Prop := ∃ low ∈ left.cpuIds, ∀ cpu ∈ right.cpuIds, low < cpu

/-- The ids are 0, 1 and so on, in the order of the lowest CPUs. -/
def Consecutive (llcs : List LlcInfo) : Prop :=
  ∃ ordered : List LlcInfo, ordered.Perm llcs ∧ ordered.Pairwise Below ∧
    ordered.map (fun llc => llc.id.toInt) = (List.range ordered.length).map Int.ofNat

/-- The LLCs in the order of their answers. -/
def SysRoot.orderedLlcs (sys : SysRoot) : List LlcInfo :=
  sys.answers.map fun answer => sys.llc (Int32.ofNat (sys.answers.idxOf answer))

theorem ids_orderedLlcs (few : sys.Few) :
    sys.orderedLlcs.map (fun llc => llc.id.toInt) =
      (List.range sys.orderedLlcs.length).map Int.ofNat := by
  have ids : sys.orderedLlcs.map (fun llc => llc.id.toInt) =
      (sys.answers.map fun answer => sys.answers.idxOf answer).map Int.ofNat := by
    rw [SysRoot.orderedLlcs, List.map_map, List.map_map]
    exact List.map_congr_left fun answer given => SysRoot.toInt_idxOf few given
  have positions : (sys.answers.map fun answer => sys.answers.idxOf answer) =
      List.range sys.answers.length := by
    apply List.ext_getElem
    · rw [List.length_map, List.length_range]
    · intro position inside _
      rw [List.getElem_map, List.getElem_range]
      exact (declared_nodup _).idxOf_getElem position _
  rw [ids, positions, SysRoot.orderedLlcs, List.length_map]

theorem perm_orderedLlcs (llcOrder : HashOrder) (uniform : sys.Uniform) (few : sys.Few) :
    sys.orderedLlcs.Perm (llcsOf llcOrder sys.scan) := by
  have distinct : (llcsOf llcOrder sys.scan).Nodup :=
    List.Nodup.of_map _ (partitions_llcs llcOrder).distinct
  apply (List.perm_ext_iff_of_nodup _ distinct).mpr
  · intro llc
    rw [mem_llcs, SysRoot.orderedLlcs, List.mem_map]
    constructor
    · intro ⟨answer, given, isLlc⟩
      obtain ⟨cpu, isOnline, rfl⟩ := (sys.mem_answers answer).mp given
      exact ⟨cpu, isOnline, by rw [SysRoot.llcId_eq uniform isOnline, isLlc]⟩
    · intro ⟨cpu, isOnline, isLlc⟩
      refine ⟨lastLevelList cpu.2, SysRoot.answer_mem isOnline, ?_⟩
      rw [isLlc, SysRoot.llcId_eq uniform isOnline]
  · have ids : (sys.orderedLlcs.map fun llc => llc.id.toInt).Nodup := by
      rw [ids_orderedLlcs few]
      exact List.nodup_range.map fun _ _ => Int.ofNat.inj
    exact List.Nodup.of_map _ ids

/-- The first CPU that gives an answer is below all that give a later one. -/
theorem below_of_split (uniform : sys.Uniform) (few : sys.Few) {left right : Option String}
    {before after : List (Option String)} (isRight : right ∈ sys.answers) (different : left ≠ right)
    (split : (sys.online.map fun cpu => lastLevelList cpu.2) = before ++ left :: after)
    (later : right ∉ before) :
    Below (sys.llc (Int32.ofNat (sys.answers.idxOf left)))
      (sys.llc (Int32.ofNat (sys.answers.idxOf right))) := by
  obtain ⟨earlier, rest, online, rfl, isRest⟩ := List.map_eq_append_iff.mp split
  obtain ⟨first, others, rfl, rfl, _⟩ := List.map_eq_cons_iff.mp isRest
  have isFirst : first ∈ sys.online := by
    rw [online]
    exact List.mem_append_right _ List.mem_cons_self
  refine ⟨first.1, ?_, ?_⟩
  · rw [mem_cpuIds_llc _ isFirst]
    exact SysRoot.llcId_eq uniform isFirst
  · intro cpu inRight
    obtain ⟨entry, isEntry, hasId, rfl⟩ := (mem_groupOf sys.llcId sys.online _ cpu).mp inRight
    rw [SysRoot.llcId_eq uniform isEntry,
      SysRoot.ofNat_idxOf_inj few (SysRoot.answer_mem isEntry) isRight] at hasId
    subst hasId
    have ascending := sys.ascending_online
    rw [online] at ascending isEntry
    rcases List.mem_append.mp isEntry with inEarlier | inRest
    · exact absurd (List.mem_map_of_mem inEarlier) later
    · rcases List.mem_cons.mp inRest with rfl | inOthers
      · exact absurd rfl different
      · exact (List.pairwise_cons.mp (List.pairwise_append.mp ascending).2.1).1 entry inOthers

theorem below_orderedLlcs (uniform : sys.Uniform) (few : sys.Few) :
    sys.orderedLlcs.Pairwise Below := by
  have splits := declared_pairwise (sys.online.map fun cpu => lastLevelList cpu.2)
  have distinct : sys.answers.Pairwise (· ≠ ·) := declared_nodup _
  apply List.pairwise_map.mpr
  apply (splits.and distinct).imp_of_mem
  intro left right _ isRight both
  obtain ⟨⟨before, after, split, later⟩, different⟩ := both
  exact below_of_split uniform few isRight different split later

theorem consecutive_llcs (llcOrder : HashOrder) (uniform : sys.Uniform) (few : sys.Few) :
    Consecutive (llcsOf llcOrder sys.scan) :=
  ⟨sys.orderedLlcs, perm_orderedLlcs llcOrder uniform few, below_orderedLlcs uniform few,
    ids_orderedLlcs few⟩

/-- If every pair of CPUs shares an LLC as it shares a list, all CPUs report or none does: one
that does not is in LLC 0, with the CPUs of the first list. -/
theorem uniform_of_sharesLlc (llcOrder : HashOrder) (sameLlc : ∀ left ∈ sys.online,
    ∀ right ∈ sys.online, SharesLlc (llcsOf llcOrder sys.scan) left.1 right.1 ↔
      lastLevelList left.2 = lastLevelList right.2) : sys.Uniform := by
  have silentAlone : ∀ silent ∈ sys.online, lastLevelList silent.2 = none →
      ∀ cpu ∈ sys.online, lastLevelList cpu.2 = none := by
    intro silent isSilent unread cpu isOnline
    cases own : lastLevelList cpu.2 with
    | none => rfl
    | some key =>
        have listed : key ∈ domains sys.online := (mem_domains _ key).mpr ⟨cpu, isOnline, own⟩
        obtain ⟨first, others, isFirst⟩ := List.exists_cons_of_ne_nil (List.ne_nil_of_mem listed)
        have isKey : first ∈ domains sys.online := by
          rw [isFirst]
          exact List.mem_cons_self
        obtain ⟨leader, isLeader, leads⟩ := (mem_domains _ first).mp isKey
        have silentId : sys.llcId silent = 0 := by
          rw [SysRoot.llcId, llcIdOf, unread]
        have leaderId : sys.llcId leader = 0 := by
          rw [SysRoot.llcId, llcIdOf, leads, isFirst]
          dsimp only
          rw [List.idxOf_cons_self]
          rfl
        have together := (sharesLlc_iff llcOrder isSilent isLeader).mpr (silentId.trans leaderId.symm)
        have same := (sameLlc silent isSilent leader isLeader).mp together
        rw [unread, leads] at same
        exact absurd same.symm (Option.some_ne_none _)
  intro left isLeft right isRight
  cases ofLeft : lastLevelList left.2 with
  | none => rw [silentAlone left isLeft ofLeft right isRight]
  | some key =>
      cases ofRight : lastLevelList right.2 with
      | none =>
          have silent := silentAlone right isRight ofRight left isLeft
          rw [ofLeft] at silent
          exact absurd silent (Option.some_ne_none _)
      | some other => rfl

/-- The number after the largest `i32` is negative. -/
theorem few_of_consecutive (llcOrder : HashOrder) (uniform : sys.Uniform)
    (consecutive : Consecutive (llcsOf llcOrder sys.scan)) : sys.Few := by
  by_contra many
  have inside : 2 ^ 31 < sys.answers.length := by
    unfold SysRoot.Few at many
    omega
  have given : sys.answers[2 ^ 31] ∈ sys.answers := List.getElem_mem inside
  obtain ⟨cpu, isOnline, answers⟩ := (sys.mem_answers _).mp given
  have position : sys.answers.idxOf (lastLevelList cpu.2) = 2 ^ 31 := by
    rw [answers]
    exact (declared_nodup _).idxOf_getElem _ inside
  have wrapped : (sys.llcId cpu).toInt = -2 ^ 31 := by
    rw [SysRoot.llcId_eq uniform isOnline, position]
    decide +kernel
  obtain ⟨ordered, perm, _, ids⟩ := consecutive
  have listed := perm.mem_iff.mpr ((mem_llcs llcOrder _).mpr ⟨cpu, isOnline, rfl⟩)
  have isId : (sys.llcId cpu).toInt ∈ ordered.map fun llc => llc.id.toInt := List.mem_map_of_mem listed
  rw [ids] at isId
  obtain ⟨number, _, isNumber⟩ := List.mem_map.mp isId
  have natural : (number : Int) = (sys.llcId cpu).toInt := isNumber
  omega

end Llcs

end AnanicyRs.Platform.Topology
