import AnanicyRs.Daemon.OnLinux
import AnanicyRs.Platform.Topology.Domains
import AnanicyRs.Platform.Topology.Tiers
import AnanicyRs.Platform.X3d

/-!
Contract: the cpuset aliases of a daemon (`load_topology_aliases` of `src/startup.rs`), and
what becomes of a rule that names one.

Owns the aliases of the detected topology with those of the X3D detection put over them, and
the way of an alias through `set_cpuset` of the worker to the mask of a system call.

The two detections walk `/sys` on their own: one keeps the CPUs that are online, the other
every CPU that is listed. `Known` is what either may name. The log lines are left out.
-/

set_option autoImplicit false

namespace AnanicyRs.Daemon.TopologyAliases

open AnanicyRs.Core
open AnanicyRs.Lib
open AnanicyRs.Lib.ByteMask
open AnanicyRs.Lib.CallLog
open AnanicyRs.Lib.Sorted
open AnanicyRs.Lib.StateInvariant
open AnanicyRs.Platform
open AnanicyRs.Platform.Linux
open AnanicyRs.Platform.Topology (CpuTopology HashOrder SysRoot classify_cases describe
  detectTopologyImpl getNodeId groupOf llcsOf maxL3Of nodesOf)

/-! ## The aliases -/

def loadTopologyAliases (nodeOrder llcOrder : HashOrder) (sys : SysRoot) (machine : X3d.Machine) :
    AList fun _ : String => String :=
  let aliases := (detectTopologyImpl nodeOrder llcOrder sys).generateCpusetAliases
  match X3d.detectX3dTopologyImpl machine with
  | some x3dTop =>
      (aliases.insert "x3d-cache" x3dTop.cacheCoresStr).insert "x3d-frequency"
        x3dTop.frequencyCoresStr
  | none => aliases

/-- A CPU that one of the detections has seen. -/
def Known (sys : SysRoot) (machine : X3d.Machine) (cpu : CpuId) : Prop :=
  cpu ∈ sys.onlineCpus ∨ ∃ entry ∈ machine.listed, entry.1 = cpu

/-- The text of a set of CPUs that all are known. -/
def IsText (known : CpuId → Prop) (text : String) : Prop :=
  ∃ set : CpuIds, (∀ cpu ∈ set, known cpu) ∧ text = CpusetFormat.format set

theorem isText_empty (known : CpuId → Prop) : IsText known "" :=
  ⟨.empty, fun cpu listed => absurd listed (SortedSet.notMem_empty cpu),
    ((CpusetFormat.format_eq_empty_iff _).mpr rfl).symm⟩

theorem IsText.mono {known wider : CpuId → Prop} {text : String} (isText : IsText known text)
    (wide : ∀ cpu, known cpu → wider cpu) : IsText wider text := by
  obtain ⟨set, within, isSet⟩ := isText
  exact ⟨set, fun cpu listed => wide cpu (within cpu listed), isSet⟩

/-! ## What the topology names -/

section Topology

variable (nodeOrder llcOrder : HashOrder) (sys : SysRoot)

/-- The texts of the core types are those of CPUs that are online. -/
structure TierTexts (top : CpuTopology) : Prop where
  all : IsText (· ∈ sys.onlineCpus) top.allCoresStr
  big : IsText (· ∈ sys.onlineCpus) top.bigCoresStr
  little : IsText (· ∈ sys.onlineCpus) top.littleCoresStr
  turbo : IsText (· ∈ sys.onlineCpus) top.turboCoresStr

theorem tierTexts_detected : TierTexts sys (detectTopologyImpl nodeOrder llcOrder sys) := by
  have blank := isText_empty (· ∈ sys.onlineCpus)
  cases empty : sys.onlineCpus.isEmpty with
  | true =>
      rw [Topology.detectTopologyImpl_of_isEmpty nodeOrder llcOrder empty]
      exact ⟨blank, blank, blank, blank⟩
  | false =>
      have online : IsText (· ∈ sys.onlineCpus) (Topology.formatCpuset sys.onlineCpus) :=
        ⟨sys.onlineCpus, fun _ listed => listed, rfl⟩
      rw [Topology.detectTopologyImpl_eq nodeOrder llcOrder empty]
      cases classify_cases (sys.capacity sys.source) sys.onlineCpus
        (describe nodeOrder llcOrder sys) with
      | inl split =>
          obtain ⟨little, big, turbo, _, tiers, isSplit⟩ := split
          rw [isSplit]
          exact ⟨online, ⟨big, fun cpu listed => ((tiers.big_iff cpu).mp listed).1, rfl⟩,
            ⟨little, fun cpu listed => ((tiers.little_iff cpu).mp listed).1, rfl⟩,
            ⟨turbo, fun cpu listed => ((tiers.turbo_iff cpu).mp listed).1, rfl⟩⟩
      | inr homogeneous =>
          rw [homogeneous.2]
          exact ⟨online, online, blank, blank⟩

theorem TierTexts.aliases {sys : SysRoot} {top : CpuTopology} (texts : TierTexts sys top) :
    ∀ entry ∈ top.tierAliases, IsText (· ∈ sys.onlineCpus) entry.2 := by
  have performance : IsText (· ∈ sys.onlineCpus) top.perfCores := by
    unfold CpuTopology.perfCores
    split
    · exact texts.turbo
    · exact texts.big
  unfold CpuTopology.tierAliases
  simp only [List.forall_mem_cons, List.not_mem_nil, false_implies, implies_true, and_true]
  exact ⟨texts.all, texts.all, texts.big, texts.little, performance, texts.little, texts.turbo⟩

/-- The text of the CPUs that are online and have an id. -/
theorem isText_groupOf (idOf : CpuId × Topology.SysDir → Int32) (id : Int32) :
    IsText (· ∈ sys.onlineCpus) (Topology.formatCpuset (groupOf idOf sys.online id)) := by
  refine ⟨_, fun cpu listed => ?_, rfl⟩
  obtain ⟨entry, isOnline, _, isCpu⟩ := (Topology.mem_groupOf idOf sys.online id cpu).mp listed
  exact (sys.mem_onlineCpus cpu).mpr ⟨entry, isOnline, isCpu⟩

theorem mem_nodesOf (info : Topology.NodeInfo) :
    info ∈ nodesOf nodeOrder sys.scan ↔ ∃ cpu ∈ sys.online, info =
      { id := getNodeId cpu.2
        cpuIds := (groupOf (fun cpu => getNodeId cpu.2) sys.online (getNodeId cpu.2)).elems
        cpusetStr := Topology.formatCpuset
          (groupOf (fun cpu => getNodeId cpu.2) sys.online (getNodeId cpu.2)) } :=
  Topology.mem_infos (sys.groupedBy_nodes nodeOrder) info

theorem isText_node {node : Topology.NodeInfo}
    (listed : node ∈ (detectTopologyImpl nodeOrder llcOrder sys).nodes) :
    IsText (· ∈ sys.onlineCpus) node.cpusetStr := by
  rw [(Topology.detectTopologyImpl_parts nodeOrder llcOrder sys).2.1, mem_nodesOf] at listed
  obtain ⟨cpu, _, rfl⟩ := listed
  exact isText_groupOf sys _ _

theorem isText_llc {llc : Topology.LlcInfo}
    (listed : llc ∈ (detectTopologyImpl nodeOrder llcOrder sys).llcs) :
    IsText (· ∈ sys.onlineCpus) llc.cpusetStr := by
  rw [(Topology.detectTopologyImpl_parts nodeOrder llcOrder sys).1, Topology.mem_llcs] at listed
  obtain ⟨cpu, _, rfl⟩ := listed
  exact isText_groupOf sys _ _

theorem isText_biggestLlc :
    IsText (· ∈ sys.onlineCpus)
      (detectTopologyImpl nodeOrder llcOrder sys).biggestLlcCoresStr := by
  rw [(Topology.detectTopologyImpl_parts nodeOrder llcOrder sys).2.2]
  split
  next sized =>
    refine ⟨_, fun cpu listed => ?_, rfl⟩
    obtain ⟨llc, isLlc, _, inLlc⟩ := (Topology.mem_biggestLlcCores sized cpu).mp listed
    exact (Topology.partitions_llcs llcOrder).within llc isLlc cpu inLlc
  next => exact isText_empty _

theorem isText_generated {name text : String}
    (found : (detectTopologyImpl nodeOrder llcOrder sys).generateCpusetAliases.lookup name =
      some text) :
    IsText (· ∈ sys.onlineCpus) text := by
  unfold CpuTopology.generateCpusetAliases at found
  dsimp only at found
  have byTier : ∀ key value,
      (LastWins.insertAll (detectTopologyImpl nodeOrder llcOrder sys).tierAliases ∅).lookup key =
        some value → IsText (· ∈ sys.onlineCpus) value := by
    intro key value found
    cases LastWins.mem_of_lookup_insertAll found with
    | inl listed => exact (tierTexts_detected nodeOrder llcOrder sys).aliases (key, value) listed
    | inr before => simp at before
  cases LastWins.mem_of_lookup_insertAll found with
  | inl isNode =>
      obtain ⟨node, listed, same⟩ := List.mem_map.mp isNode
      rw [← (Prod.mk.inj same).2]
      exact isText_node nodeOrder llcOrder sys listed
  | inr found =>
      cases LastWins.mem_of_lookup_insertAll found with
      | inl isLlc =>
          obtain ⟨llc, listed, same⟩ := List.mem_map.mp isLlc
          rw [← (Prod.mk.inj same).2]
          exact isText_llc nodeOrder llcOrder sys listed
      | inr found =>
          split at found
          · by_cases isCache : name = "x3d-cache"
            · rw [isCache, AList.lookup_insert, Option.some.injEq] at found
              rw [← found]
              exact isText_biggestLlc nodeOrder llcOrder sys
            · rw [AList.lookup_insert_ne isCache] at found
              exact byTier name text found
          · exact byTier name text found

end Topology

/-! ## What the X3D detection names -/

theorem isText_x3d {machine : X3d.Machine} {x3dTop : X3d.X3DTopology}
    (detected : X3d.detectX3dTopologyImpl machine = some x3dTop) :
    IsText (fun cpu => ∃ entry ∈ machine.listed, entry.1 = cpu) x3dTop.cacheCoresStr ∧
      IsText (fun cpu => ∃ entry ∈ machine.listed, entry.1 = cpu) x3dTop.frequencyCoresStr := by
  have ofDies : ∀ keep : X3d.DieId → Bool,
      IsText (fun cpu => ∃ entry ∈ machine.listed, entry.1 = cpu)
        (X3d.formatCpuset (X3d.coresOf keep machine.listed)) := by
    intro keep
    refine ⟨_, fun cpu listed => ?_, rfl⟩
    obtain ⟨entry, isListed, _, isCpu⟩ := (X3d.mem_coresOf keep machine.listed cpu).mp listed
    exact ⟨entry, isListed, isCpu⟩
  by_cases isX3d : X3d.IsX3d machine
  · by_cases two : X3d.TwoDies machine.listed
    · by_cases unread : X3d.readings machine.listed = []
      · rw [X3d.detect_of_no_readings isX3d two unread] at detected
        exact absurd detected (by simp)
      · rw [X3d.detect_of_wins isX3d two (X3d.wins_largest machine unread)] at detected
        rw [← Option.some.inj detected]
        exact ⟨ofDies _, ofDies _⟩
    · rw [X3d.detect_of_not_twoDies isX3d two] at detected
      split at detected
      · exact absurd detected (by simp)
      · rw [← Option.some.inj detected]
        exact ⟨ofDies _, ofDies _⟩
  · rw [X3d.detect_of_not_isX3d isX3d] at detected
    exact absurd detected (by simp)

/-- An alias is the text of CPUs that are known. -/
theorem isText_alias {nodeOrder llcOrder : HashOrder} {sys : SysRoot} {machine : X3d.Machine}
    {name text : String}
    (found : (loadTopologyAliases nodeOrder llcOrder sys machine).lookup name = some text) :
    IsText (Known sys machine) text := by
  have generated : ∀ {value : String},
      (detectTopologyImpl nodeOrder llcOrder sys).generateCpusetAliases.lookup name = some value →
        IsText (Known sys machine) value :=
    fun held => (isText_generated nodeOrder llcOrder sys held).mono fun _ => .inl
  unfold loadTopologyAliases at found
  dsimp only at found
  cases detected : X3d.detectX3dTopologyImpl machine with
  | none =>
      rw [detected] at found
      exact generated found
  | some x3dTop =>
      rw [detected] at found
      dsimp only at found
      have x3dTexts := isText_x3d detected
      by_cases isFrequency : name = "x3d-frequency"
      · rw [isFrequency, AList.lookup_insert, Option.some.injEq] at found
        rw [← found]
        exact x3dTexts.2.mono fun _ => .inr
      · rw [AList.lookup_insert_ne isFrequency] at found
        by_cases isCache : name = "x3d-cache"
        · rw [isCache, AList.lookup_insert, Option.some.injEq] at found
          rw [← found]
          exact x3dTexts.1.mono fun _ => .inr
        · rw [AList.lookup_insert_ne isCache] at found
          exact generated found

/-! ## The order of the hash maps -/

section Orders

variable (nodeOrder llcOrder otherNodeOrder otherLlcOrder : HashOrder) (sys : SysRoot)

theorem visit_perm (order other : HashOrder) (entries : List (Sigma fun _ : Int32 => CpuIds)) :
    (order.visit entries).Perm (other.visit entries) :=
  (order.perm entries).trans (other.perm entries).symm

theorem classify_with (metrics : SortedMap Nat CpuIds) (top : CpuTopology)
    (nodes : List Topology.NodeInfo) (llcs : List Topology.LlcInfo) (biggest : String) :
    Topology.classify metrics { top with nodes, llcs, biggestLlcCoresStr := biggest } =
      { Topology.classify metrics top with nodes, llcs, biggestLlcCoresStr := biggest } := by
  unfold Topology.classify
  split
  · rfl
  · split
    · split
      · rfl
      · dsimp only
        split <;> rfl
    · rfl

/-- The core types do not look at the groups. -/
theorem tierAliases_of_any_order :
    (detectTopologyImpl nodeOrder llcOrder sys).tierAliases =
      (detectTopologyImpl otherNodeOrder otherLlcOrder sys).tierAliases := by
  cases empty : sys.onlineCpus.isEmpty with
  | true =>
      rw [Topology.detectTopologyImpl_of_isEmpty nodeOrder llcOrder empty,
        Topology.detectTopologyImpl_of_isEmpty otherNodeOrder otherLlcOrder empty]
  | false =>
      have regrouped : describe nodeOrder llcOrder sys =
          { describe otherNodeOrder otherLlcOrder sys with
            nodes := (describe nodeOrder llcOrder sys).nodes
            llcs := (describe nodeOrder llcOrder sys).llcs
            biggestLlcCoresStr := (describe nodeOrder llcOrder sys).biggestLlcCoresStr } := rfl
      rw [Topology.detectTopologyImpl_eq nodeOrder llcOrder empty,
        Topology.detectTopologyImpl_eq otherNodeOrder otherLlcOrder empty, regrouped, classify_with]
      rfl

theorem maxL3Of_perm {left right : List Topology.LlcInfo} (reordered : left.Perm right) :
    maxL3Of left = maxL3Of right := by
  have within : ∀ {first second : List Topology.LlcInfo}, first.Perm second →
      maxL3Of first ≤ maxL3Of second := by
    intro first second reordered
    cases sized : maxL3Of first with
    | zero => exact Nat.zero_le _
    | succ size =>
        have positive : 0 < maxL3Of first := by omega
        obtain ⟨llc, listed, isLargest⟩ := Topology.exists_of_maxL3Of positive
        rw [← sized, ← isLargest]
        exact Topology.le_maxL3Of (reordered.mem_iff.mp listed)
  exact Nat.le_antisymm (within reordered) (within reordered.symm)

theorem biggestLlcCores_perm {left right : List Topology.LlcInfo} (reordered : left.Perm right) :
    Topology.biggestLlcCores left = Topology.biggestLlcCores right := by
  apply SortedSet.ext_mem
  intro cpu
  unfold Topology.biggestLlcCores
  rw [Topology.mem_foldl_extend, Topology.mem_foldl_extend, maxL3Of_perm reordered]
  simp only [reordered.mem_iff]

theorem biggestLlc_of_any_order :
    (detectTopologyImpl nodeOrder llcOrder sys).biggestLlcCoresStr =
      (detectTopologyImpl otherNodeOrder otherLlcOrder sys).biggestLlcCoresStr := by
  have reordered : (llcsOf llcOrder sys.scan).Perm (llcsOf otherLlcOrder sys.scan) :=
    (visit_perm llcOrder otherLlcOrder _).map _
  rw [(Topology.detectTopologyImpl_parts nodeOrder llcOrder sys).2.2,
    (Topology.detectTopologyImpl_parts otherNodeOrder otherLlcOrder sys).2.2,
    maxL3Of_perm reordered, biggestLlcCores_perm reordered]

/-- Groups with ids of their own have names of their own. -/
theorem nodup_names (start : String) {Info : Type} {id : Info → Int32} {infos : List Info}
    (distinct : (infos.map id).Nodup) :
    (infos.map fun info => start ++ toString (id info).toInt).Nodup := by
  have injective : Function.Injective fun number : Int32 => start ++ toString number.toInt := by
    intro left right same
    have sameDigits : toString left.toInt = toString right.toInt := by
      have sameLists := congrArg String.toList same
      rw [String.toList_append, String.toList_append] at sameLists
      exact String.toList_injective (List.append_cancel_left sameLists)
    have parsed := Text.parseI32_toString left
    rw [sameDigits, Text.parseI32_toString] at parsed
    exact (Option.some.inj parsed).symm
  have named := List.Nodup.map injective distinct
  rw [List.map_map] at named
  exact named

theorem lookup_generated_of_any_order (name : String) :
    (detectTopologyImpl nodeOrder llcOrder sys).generateCpusetAliases.lookup name =
      (detectTopologyImpl otherNodeOrder otherLlcOrder sys).generateCpusetAliases.lookup name := by
  have byNode : LastWins.lastOf ((detectTopologyImpl nodeOrder llcOrder sys).nodes.map fun node =>
        ("node-" ++ toString node.id.toInt, node.cpusetStr)) name =
      LastWins.lastOf ((detectTopologyImpl otherNodeOrder otherLlcOrder sys).nodes.map fun node =>
        ("node-" ++ toString node.id.toInt, node.cpusetStr)) name := by
    rw [(Topology.detectTopologyImpl_parts nodeOrder llcOrder sys).2.1,
      (Topology.detectTopologyImpl_parts otherNodeOrder otherLlcOrder sys).2.1]
    apply LastWins.lastOf_perm (((visit_perm nodeOrder otherNodeOrder _).map _).map _)
    rw [List.map_map]
    exact nodup_names "node-" (Topology.partitions_nodes nodeOrder).distinct
  have byLlc : LastWins.lastOf ((detectTopologyImpl nodeOrder llcOrder sys).llcs.map fun llc =>
        ("llc-" ++ toString llc.id.toInt, llc.cpusetStr)) name =
      LastWins.lastOf ((detectTopologyImpl otherNodeOrder otherLlcOrder sys).llcs.map fun llc =>
        ("llc-" ++ toString llc.id.toInt, llc.cpusetStr)) name := by
    rw [(Topology.detectTopologyImpl_parts nodeOrder llcOrder sys).1,
      (Topology.detectTopologyImpl_parts otherNodeOrder otherLlcOrder sys).1]
    apply LastWins.lastOf_perm (((visit_perm llcOrder otherLlcOrder _).map _).map _)
    rw [List.map_map]
    exact nodup_names "llc-" (Topology.partitions_llcs llcOrder).distinct
  unfold CpuTopology.generateCpusetAliases
  dsimp only
  rw [LastWins.lookup_insertAll, LastWins.lookup_insertAll, LastWins.lookup_insertAll,
    LastWins.lookup_insertAll, byNode, byLlc,
    tierAliases_of_any_order nodeOrder llcOrder otherNodeOrder otherLlcOrder,
    biggestLlc_of_any_order nodeOrder llcOrder otherNodeOrder otherLlcOrder]

/-- Two starts of the daemon on one machine resolve an alias alike, whatever order their hash
maps have. -/
theorem aliases_of_any_order (machine : X3d.Machine) (name : String) :
    (loadTopologyAliases nodeOrder llcOrder sys machine).lookup name =
      (loadTopologyAliases otherNodeOrder otherLlcOrder sys machine).lookup name := by
  have generated := fun key => lookup_generated_of_any_order nodeOrder llcOrder otherNodeOrder
    otherLlcOrder sys key
  unfold loadTopologyAliases
  dsimp only
  split
  next x3dTop _ =>
    by_cases isFrequency : name = "x3d-frequency"
    · rw [isFrequency, AList.lookup_insert, AList.lookup_insert]
    · rw [AList.lookup_insert_ne isFrequency, AList.lookup_insert_ne isFrequency]
      by_cases isCache : name = "x3d-cache"
      · rw [isCache, AList.lookup_insert, AList.lookup_insert]
      · rw [AList.lookup_insert_ne isCache, AList.lookup_insert_ne isCache]
        exact generated name
  next => exact generated name

end Orders

/-! ## What becomes of an alias -/

section Worker

variable {σ : Type} {worker : Worker} {rule : Rule.Accessors} {cfg : ConfigSnapshot} {name : String}
  {set : CpuIds}

/-- A set without a CPU is no reason to ask for anything, and no failure either. -/
theorem applyCpuset_blank
    (isAlias : worker.cpusetAliases.lookup name = some (CpusetFormat.format set))
    (isRule : rule.cpuset = some name) (empty : set.isEmpty = true) (platform : Platform σ)
    (received : Process) (tids : List Int32) (tally : Tally PlatformError) :
    worker.applyCpuset platform received tids rule cfg tally = pure tally := by
  have blank : CpusetFormat.format set = "" := (CpusetFormat.format_eq_empty_iff set).mpr empty
  have noText : worker.resolveCpuset name = none := by
    unfold Worker.resolveCpuset
    rw [isAlias, blank]
    rfl
  unfold Worker.applyCpuset
  simp only [isRule, noText]
  split <;> rfl

theorem applyCpuset_alias
    (isAlias : worker.cpusetAliases.lookup name = some (CpusetFormat.format set))
    (isRule : rule.cpuset = some name) (applies : cfg.applyCpuset = true)
    (nonempty : set.isEmpty = false) (platform : Platform σ)
    (below : ∀ cpu ∈ set, cpu.val < platform.getMaxCores) (received : Process) (tids : List Int32)
    (tally : Tally PlatformError) :
    worker.applyCpuset platform received tids rule cfg tally =
      Worker.attempt platform (.setAffinity received.pid tids
        (CpusetFormat.cpuSetOf platform.getMaxCores set)) tally := by
  have written : (CpusetFormat.format set).isEmpty = false := by
    rw [Bool.eq_false_iff, Ne, String.isEmpty_iff, CpusetFormat.format_eq_empty_iff, nonempty]
    exact Bool.false_ne_true
  have isText : worker.resolveCpuset name = some (CpusetFormat.format set) := by
    unfold Worker.resolveCpuset
    rw [isAlias]
    exact if_neg (Bool.eq_false_iff.mp written)
  unfold Worker.applyCpuset
  simp only [applies, if_true, isRule, isText, CpusetFormat.parse_format below nonempty]

end Worker

/-! ## Masks -/

/-- One of the threads is asked to run on CPUs of the mask. -/
def StaysWithin (tids : List Int32) (mask : Mask) (deed : Deed) : Prop :=
  ∃ tid ∈ tids, ∃ narrowed, deed = .schedSetaffinity tid narrowed ∧
    ∀ cpu, testBit narrowed cpu = true → testBit mask cpu = true

/-- Each thread is asked to run on exactly the CPUs of the set; what follows, if anything, asks
the same threads for fewer. -/
def Pins (tids : List Int32) (set : CpuIds) (before after : Log Deed Errno) : Prop :=
  ∃ mask answers retried, (∀ cpu, testBit mask cpu = true ↔ ∃ id ∈ set, id.val = cpu) ∧
    answers.length = tids.length ∧
    after = before ++ (tids.map fun tid => .schedSetaffinity tid mask).zip answers ++ retried ∧
    ∀ entry ∈ retried, StaysWithin tids mask entry.1

section Kernel

variable {τ : Type} (describe : Errno → String) (calls : Calls τ)

/-- The log goes on from `before` with entries that are allowed. -/
def Extends (before : Log Deed Errno) (allowed : Deed → Prop) (held : τ × Log Deed Errno) : Prop :=
  ∃ rest, held.2 = before ++ rest ∧ ∀ entry ∈ rest, allowed entry.1

theorem deed_extends {before : Log Deed Errno} {allowed : Deed → Prop} {deed : Deed}
    (isAllowed : allowed deed) :
    Maintains (Extends before allowed) (calls.logged.deed deed) := by
  intro held extended
  obtain ⟨rest, isLog, areAllowed⟩ := extended
  refine ⟨rest ++ [(deed, (calls.deed deed held.1).1)], ?_, ?_⟩
  · show held.2 ++ [(deed, (calls.deed deed held.1).1)] = _
    rw [isLog, List.append_assoc]
  · intro entry listed
    cases List.mem_append.mp listed with
    | inl earlier => exact areAllowed entry earlier
    | inr last =>
        rw [List.mem_singleton.mp last]
        exact isAllowed

theorem applyToTids_log (tids : List Int32) (mask : Mask) (held : τ × Log Deed Errno) :
    ∃ answers, answers.length = tids.length ∧
      (Affinity.applyToTids describe
        (fun call => calls.logged.deed (.schedSetaffinity call.1 call.2)) tids mask held).2.2 =
        held.2 ++ (tids.map fun tid => Deed.schedSetaffinity tid mask).zip answers := by
  have sameDeeds : (tids.map fun tid => (tid, mask)).map
      (fun call => Deed.schedSetaffinity call.1 call.2) =
        tids.map fun tid => Deed.schedSetaffinity tid mask := List.map_map
  obtain ⟨answers, next, sameLength, run⟩ := collect_logged Sweep.record calls.deed
    (tids.map fun tid => Deed.schedSetaffinity tid mask) .start held.1 held.2
  refine ⟨answers, by rw [sameLength, List.length_map], ?_⟩
  show (collect Sweep.record (fun call : Int32 × Mask =>
    calls.logged.deed (.schedSetaffinity call.1 call.2)) _ .start held).2.2 = _
  rw [collect_map, sameDeeds]
  show (collect Sweep.record (logged calls.deed) _ .start (held.1, held.2)).2.2 = _
  rw [run]

/-- A set whose CPUs all lie in full bytes of the mask is asked for as it is. -/
theorem setAffinity_pins {numCpus : Nat} {set : CpuIds} (nonempty : set.isEmpty = false)
    (inMask : ∀ cpu ∈ set, cpu.val < 8 * (numCpus / 8)) (files : Affinity.CpuFiles) (pid : Int32)
    (tids : List Int32) (held : τ × Log Deed Errno) :
    let run := Affinity.setAffinity describe
      (fun call => calls.logged.deed (.schedSetaffinity call.1 call.2)) files numCpus pid tids
      (CpusetFormat.cpuSetOf numCpus set) held
    run.1.isSome = true ∧ Pins tids set held.2 run.2.2 := by
  have below : ∀ cpu ∈ set, cpu.val < numCpus := fun cpu listed => by
    have inside := inMask cpu listed
    omega
  have has := CpusetFormat.hasCpu_cpuSetOf below
  have isSet : (CpusetFormat.cpuSetOf numCpus set).isEmpty = false := by
    obtain ⟨cpu, listed⟩ := set.isEmpty_eq_false_iff.mp nonempty
    exact (CpuSet.isEmpty_eq_false_iff _).mpr ⟨cpu.val, (has cpu.val).mpr ⟨cpu, listed, rfl⟩⟩
  have isBuilt : (Affinity.maskFrom (CpusetFormat.cpuSetOf numCpus set) numCpus).isSome := by
    rw [Affinity.maskFrom_isSome_iff]
    intro cpu held _
    obtain ⟨id, listed, rfl⟩ := (has cpu).mp held
    exact inMask id listed
  obtain ⟨mask, built⟩ := Option.isSome_iff_exists.mp isBuilt
  have bits : ∀ cpu, testBit mask cpu = true ↔ ∃ id ∈ set, id.val = cpu := by
    intro cpu
    rw [Affinity.testBit_maskFrom built, has cpu]
    constructor
    · exact fun given => given.1
    · intro listed
      obtain ⟨id, isId, rfl⟩ := listed
      exact ⟨⟨id, isId, rfl⟩, below id isId⟩
  unfold Affinity.setAffinity
  rw [isSet, built]
  refine ⟨rfl, ?_⟩
  obtain ⟨answers, sameLength, passLog⟩ := applyToTids_log describe calls tids mask held
  let passed := Affinity.applyToTids describe
    (fun call => calls.logged.deed (.schedSetaffinity call.1 call.2)) tids mask held
  have retry : Maintains (Extends passed.2.2 (StaysWithin tids mask))
      (Affinity.afterPass describe
        (fun call => calls.logged.deed (.schedSetaffinity call.1 call.2)) files pid tids mask
        (numCpus / 8) passed.1) := by
    refine afterPass_maintains describe _ tids files pid mask (numCpus / 8) passed.1
      fun tid isTid narrowed fewer => ?_
    exact deed_extends calls ⟨tid, isTid, narrowed, rfl, fewer⟩
  obtain ⟨retried, isLog, fewer⟩ := retry passed.2
    ⟨[], (List.append_nil _).symm, fun _ listed => absurd listed List.not_mem_nil⟩
  rw [passLog] at isLog
  exact ⟨mask, answers, retried, bits, sameLength, isLog, fewer⟩

theorem perform_pins (setup : Setup) {set : CpuIds} (nonempty : set.isEmpty = false)
    (inMask : ∀ cpu ∈ set, cpu.val < 8 * (maxCores setup / 8)) (pid : Int32) (tids : List Int32)
    {state : Linux.State (τ × Log Deed Errno)} (alive : state.aborted = false) :
    let run := perform setup calls.logged
      (.setAffinity pid tids (CpusetFormat.cpuSetOf (maxCores setup) set)) state
    run.2.aborted = false ∧ run.2.world = state.world ∧
      Pins tids set state.kernel.2 run.2.kernel.2 := by
  let read := calls.logged.cpuFiles state.kernel
  obtain ⟨answered, pins⟩ := setAffinity_pins setup.describe calls nonempty inMask read.1 pid tids
    read.2
  obtain ⟨outcome, isOutcome⟩ := Option.isSome_iff_exists.mp answered
  unfold perform
  rw [if_neg (Bool.eq_false_iff.mp alive)]
  show let run := Linux.setAffinity setup calls.logged pid tids _ state
    run.2.aborted = false ∧ run.2.world = state.world ∧
      Pins tids set state.kernel.2 run.2.kernel.2
  unfold Linux.setAffinity
  simp only [bind, StateT.bind, onKernel, read] at isOutcome ⊢
  rw [isOutcome]
  exact ⟨alive, rfl, pins⟩

end Kernel

/-- From the alias to the system call. On a machine whose known CPUs all lie in full bytes of
the mask, an alias is the text of a set of known CPUs. A rule that names it leaves the machine
alone if the set is empty, and else asks for each thread exactly the set. -/
theorem alias_pins {τ : Type} {nodeOrder llcOrder : HashOrder} {sys : SysRoot}
    {machine : X3d.Machine} {setup : Setup} {worker : Worker} {rule : Rule.Accessors}
    {cfg : ConfigSnapshot} {name text : String} {state : Linux.State (τ × Log Deed Errno)}
    (inMask : ∀ cpu, Known sys machine cpu → cpu.val < 8 * (maxCores setup / 8))
    (loaded : worker.cpusetAliases = loadTopologyAliases nodeOrder llcOrder sys machine)
    (isAlias : worker.cpusetAliases.lookup name = some text) (isRule : rule.cpuset = some name)
    (applies : cfg.applyCpuset = true) (alive : state.aborted = false) (calls : Calls τ)
    (received : Process) (tids : List Int32) (tally : Tally PlatformError) :
    ∃ set : CpuIds, (∀ cpu ∈ set, Known sys machine cpu) ∧ text = CpusetFormat.format set ∧
      let run := worker.applyCpuset (Linux.platform setup calls.logged) received tids rule cfg tally
        state
      (set.isEmpty = true → run = (tally, state)) ∧
        (set.isEmpty = false → run.2.aborted = false ∧ run.2.world = state.world ∧
          Pins tids set state.kernel.2 run.2.kernel.2) := by
  have found := isAlias
  rw [loaded] at found
  obtain ⟨set, known, isText⟩ := isText_alias found
  rw [isText] at isAlias
  refine ⟨set, known, isText, fun empty => ?_, fun nonempty => ?_⟩
  · rw [applyCpuset_blank isAlias isRule empty]
    rfl
  · have inside : ∀ cpu ∈ set, cpu.val < 8 * (maxCores setup / 8) :=
      fun cpu listed => inMask cpu (known cpu listed)
    have below : ∀ cpu ∈ set, cpu.val < (Linux.platform setup calls.logged).getMaxCores := by
      intro cpu listed
      have within := inside cpu listed
      show cpu.val < maxCores setup
      omega
    rw [applyCpuset_alias isAlias isRule applies nonempty _ below]
    exact perform_pins calls setup nonempty inside received.pid tids alive

/-! A machine whose X3D dies are found, and a rule for the die with the cache. -/

def x3dWorker : Worker :=
  ⟨loadTopologyAliases Topology.plainOrder Topology.plainOrder Topology.ratedMachine
    X3d.ascendingDies, fun _ => 100⟩

def cacheRule : Rule.Accessors :=
  ⟨none, none, none, none, none, none, none, none, some "x3d-cache"⟩

theorem x3dWorker_cache : x3dWorker.cpusetAliases.lookup "x3d-cache" = some "0,2" := by
  decide +kernel

theorem alias_pins_cache :
    ∃ set : CpuIds, (∀ cpu ∈ set, Known Topology.ratedMachine X3d.ascendingDies cpu) ∧
      "0,2" = CpusetFormat.format set ∧
      let run := x3dWorker.applyCpuset
        (Linux.platform OnLinux.serviceDaemon.setup OnLinux.silentCalls.logged) ⟨7, "game", true⟩
        [7, 8] cacheRule ConfigSnapshot.default .start
        ⟨((), []), ⟨Cgroup.serviceTree, []⟩, false⟩
      (set.isEmpty = true → run = (.start, ⟨((), []), ⟨Cgroup.serviceTree, []⟩, false⟩)) ∧
        (set.isEmpty = false → run.2.aborted = false ∧ run.2.world = ⟨Cgroup.serviceTree, []⟩ ∧
          Pins [7, 8] set [] run.2.kernel.2) := by
  have inMask : ∀ cpu, Known Topology.ratedMachine X3d.ascendingDies cpu →
      cpu.val < 8 * (maxCores OnLinux.serviceDaemon.setup / 8) := by
    have online : Topology.ratedMachine.onlineCpus.elems = [0, 1] := by
      decide +kernel
    have listed : X3d.ascendingDies.listed.map Prod.fst = [0, 1, 2] := by
      decide +kernel
    have small : ∀ cpu ∈ ([0, 1, 2] : List CpuId), cpu.val < 1024 := by
      simp
    have bytes : 8 * (maxCores OnLinux.serviceDaemon.setup / 8) = 1024 := by
      decide +kernel
    intro cpu known
    rw [bytes]
    cases known with
    | inl isOnline =>
        have member : cpu ∈ Topology.ratedMachine.onlineCpus.elems := isOnline
        rw [online] at member
        exact small cpu (List.mem_append_left [2] member)
    | inr isListed =>
        obtain ⟨entry, member, rfl⟩ := isListed
        apply small
        rw [← listed]
        exact List.mem_map_of_mem member
  exact alias_pins inMask rfl x3dWorker_cache rfl rfl rfl _ _ _ _

end AnanicyRs.Daemon.TopologyAliases
