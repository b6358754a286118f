import AnanicyRs.Lib.ListIndex
import AnanicyRs.Platform.Topology.Capacity

/-!
Contract: what the walk over the CPU directory leaves.

Owns the order of the walk (`ascending_online`), the numbers `get_llc_id` hands out
(`numbers_scan`, `getLlcId_eq`) and the groups: `lookup_llcGroups` and `lookup_nodeGroups` say
which CPUs are under which id. A CPU without a list of its last cache level is put under id 0
(`llcIdOf`).
-/

set_option autoImplicit false

namespace AnanicyRs.Platform.Topology

open AnanicyRs.Lib AnanicyRs.Lib.Sorted AnanicyRs.Lib.Grouping AnanicyRs.Lib.LastWins
open AnanicyRs.Lib.ListIndex

/-! ## The order of the walk -/

namespace SysRoot

variable (sys : SysRoot)

theorem nodup_listed : (sys.listed.map Prod.fst).Nodup := by
  have ids : sys.listed.map Prod.fst =
      (sys.cpus.getD []).filterMap fun entry => cpuIdOf entry.1 := by
    rw [listed, List.map_filterMap]
    congr 1
    funext entry
    cases cpuIdOf entry.1 <;> rfl
  rw [ids]
  exact sys.distinct

theorem sorted_perm : sys.sorted.Perm sys.listed := List.perm_insertionSort _ _

instance : Std.Total fun left right : CpuId × SysDir => left.1 ≤ right.1 :=
  ⟨fun left right => le_total left.1 right.1⟩

instance : IsTrans (CpuId × SysDir) fun left right => left.1 ≤ right.1 :=
  ⟨fun _ _ _ first second => first.trans second⟩

theorem ascending_sorted : sys.sorted.Pairwise fun left right => left.1 < right.1 := by
  have weak : sys.sorted.Pairwise fun left right => left.1 ≤ right.1 :=
    List.pairwise_insertionSort _ _
  have distinct : (sys.sorted.map Prod.fst).Nodup :=
    (sys.sorted_perm.map Prod.fst).nodup_iff.mpr sys.nodup_listed
  have apart : sys.sorted.Pairwise fun left right => left.1 ≠ right.1 := List.pairwise_map.mp distinct
  exact weak.imp₂ (fun _ _ below different => lt_of_le_of_ne below different) apart

/-- The CPUs that are online, in the order they are scanned. -/
def online : List (CpuId × SysDir) := sys.sorted.filter isOnline

theorem mem_online (cpu : CpuId × SysDir) :
    cpu ∈ sys.online ↔ cpu ∈ sys.listed ∧ isOnline cpu = true := by
  rw [online, List.mem_filter, sys.sorted_perm.mem_iff]

theorem ascending_online : sys.online.Pairwise fun left right => left.1 < right.1 :=
  sys.ascending_sorted.filter isOnline

theorem nodup_online : (sys.online.map Prod.fst).Nodup :=
  List.pairwise_map.mpr (sys.ascending_online.imp fun before => before.ne)

theorem scan_eq : sys.scan = sys.online.foldl Scan.addOnline .empty := by
  rw [scan, online, List.foldl_filter]
  rfl

theorem mem_onlineCpus (cpu : CpuId) : cpu ∈ sys.onlineCpus ↔ ∃ entry ∈ sys.online, entry.1 = cpu := by
  have walked : ∀ (entries : List (CpuId × SysDir)) (scan : Scan),
      (entries.foldl Scan.addOnline scan).allCores = scan.allCores.extend (entries.map Prod.fst) := by
    intro entries
    induction entries with
    | nil => exact fun _ => rfl
    | cons head rest inductionHypothesis => exact fun scan => inductionHypothesis (scan.addOnline head)
  rw [onlineCpus, scan_eq, walked, SortedSet.mem_extend, List.mem_map]
  have fresh : cpu ∉ Scan.empty.allCores := SortedSet.notMem_empty cpu
  simp only [fresh, false_or]

end SysRoot

/-! ## The list of the last cache level -/

/-- What `shared_cpu_list` says at one level, if it says something. -/
def sharedList (base : SysDir) (level : Nat) : Option String :=
  (base.read s!"cache/index{level}/shared_cpu_list").bind fun content =>
    if (Text.trim content).isEmpty then none else some (Text.trim content)

/-- The list of the last cache level: of level 3, or else of level 2. -/
def lastLevelList (base : SysDir) : Option String := (sharedList base 3).or (sharedList base 2)

/-- The number of a list: the one it has, or the next one. -/
def numberList (llcMap : AList fun _ : String => Int32) (key : String) :
    Int32 × AList fun _ : String => Int32 :=
  match llcMap.lookup key with
  | some id => (id, llcMap)
  | none => (Int32.ofNat llcMap.entries.length, llcMap.insert key (Int32.ofNat llcMap.entries.length))

theorem getLlcIdFrom_cons (base : SysDir) (level : Nat) (rest : List Nat)
    (llcMap : AList fun _ : String => Int32) :
    getLlcIdFrom base (level :: rest) llcMap =
      ((sharedList base level).map (numberList llcMap)).getD (getLlcIdFrom base rest llcMap) := by
  rw [getLlcIdFrom, sharedList]
  cases base.read s!"cache/index{level}/shared_cpu_list" with
  | none => rfl
  | some content =>
      dsimp only
      rw [Option.bind_some]
      split
      · rfl
      · rfl

theorem getLlcId_eq (base : SysDir) (llcMap : AList fun _ : String => Int32) :
    getLlcId base llcMap = ((lastLevelList base).map (numberList llcMap)).getD (0, llcMap) := by
  rw [getLlcId, getLlcIdFrom_cons, getLlcIdFrom_cons, getLlcIdFrom, lastLevelList]
  cases sharedList base 3 with
  | none => rfl
  | some key => rfl

/-- The lists of some CPUs, without repetitions and in the order of the CPUs. -/
def domains (entries : List (CpuId × SysDir)) : List String :=
  declared (entries.filterMap fun cpu => lastLevelList cpu.2)

/-- The id of a CPU when the lists are numbered as `keys` has them. -/
def llcIdOf (keys : List String) (base : SysDir) : Int32 :=
  match lastLevelList base with
  | some key => Int32.ofNat (keys.idxOf key)
  | none => 0

theorem domains_concat (entries : List (CpuId × SysDir)) (cpu : CpuId × SysDir) :
    domains (entries ++ [cpu]) =
      match lastLevelList cpu.2 with
      | some key => if key ∈ domains entries then domains entries else domains entries ++ [key]
      | none => domains entries := by
  rw [domains, List.filterMap_append]
  cases own : lastLevelList cpu.2 with
  | none =>
      have none : [cpu].filterMap (fun cpu => lastLevelList cpu.2) = [] := by simp [own]
      rw [none, List.append_nil]
      rfl
  | some key =>
      have one : [cpu].filterMap (fun cpu => lastLevelList cpu.2) = [key] := by simp [own]
      rw [one, declared_concat]
      rfl

theorem mem_domains (entries : List (CpuId × SysDir)) (key : String) :
    key ∈ domains entries ↔ ∃ cpu ∈ entries, lastLevelList cpu.2 = some key := by
  rw [domains, mem_declared, List.mem_filterMap]

/-- What one CPU does to the numbering. -/
theorem getLlcId_spec {llcMap : AList fun _ : String => Int32} {entries : List (CpuId × SysDir)}
    (numbers : Numbers Int32.ofNat llcMap (domains entries)) (cpu : CpuId × SysDir) :
    (getLlcId cpu.2 llcMap).1 = llcIdOf (domains (entries ++ [cpu])) cpu.2 ∧
      Numbers Int32.ofNat (getLlcId cpu.2 llcMap).2 (domains (entries ++ [cpu])) := by
  rw [getLlcId_eq, domains_concat, llcIdOf]
  cases lastLevelList cpu.2 with
  | none => exact ⟨rfl, numbers⟩
  | some key =>
      dsimp only
      rw [Option.map_some, Option.getD_some, numberList, numbers.lookup]
      by_cases known : key ∈ domains entries
      · rw [if_pos known, if_pos known]
        exact ⟨rfl, numbers⟩
      · rw [if_neg known, if_neg known]
        refine ⟨?_, numbers.append known⟩
        rw [List.idxOf_append_of_notMem known, List.idxOf_cons_self, Nat.add_zero, numbers.size]

theorem numbers_scan (entries : List (CpuId × SysDir)) :
    Numbers Int32.ofNat (entries.foldl Scan.addOnline .empty).llcMap (domains entries) := by
  induction entries using List.reverseRecOn with
  | nil => exact numbers_empty _
  | append_singleton entries cpu inductionHypothesis =>
      rw [List.foldl_append]
      exact (getLlcId_spec inductionHypothesis cpu).2

/-! ## The groups -/

/-- A later CPU does not change the number of a list. -/
theorem llcIdOf_concat {entries : List (CpuId × SysDir)} {cpu : CpuId × SysDir} (member : cpu ∈ entries)
    (later : CpuId × SysDir) :
    llcIdOf (domains (entries ++ [later])) cpu.2 = llcIdOf (domains entries) cpu.2 := by
  rw [llcIdOf, llcIdOf]
  cases own : lastLevelList cpu.2 with
  | none => rfl
  | some key =>
      have known : key ∈ domains entries := (mem_domains entries key).mpr ⟨cpu, member, own⟩
      dsimp only
      rw [domains_concat]
      split
      · split
        · rfl
        · rw [List.idxOf_append_of_mem known]
      · rfl

theorem llcGroups_foldl (entries : List (CpuId × SysDir)) :
    (entries.foldl Scan.addOnline .empty).llcGroups =
      entries.foldl (fun groups cpu => addToHash groups (llcIdOf (domains entries) cpu.2) cpu.1) ∅ := by
  induction entries using List.reverseRecOn with
  | nil => rfl
  | append_singleton entries cpu inductionHypothesis =>
      have own := (getLlcId_spec (numbers_scan entries) cpu).1
      have before : entries.foldl (fun groups other =>
            addToHash groups (llcIdOf (domains (entries ++ [cpu])) other.2) other.1) ∅ =
          (entries.foldl Scan.addOnline .empty).llcGroups := by
        rw [inductionHypothesis]
        apply List.foldl_ext
        intro groups other member
        rw [llcIdOf_concat member cpu]
      rw [List.foldl_append, List.foldl_append, List.foldl_cons, List.foldl_nil, List.foldl_cons,
        List.foldl_nil, ← own, before]
      rfl

/-- The L3 size of an LLC is the last one that is read in it. -/
theorem llcL3Size_foldl (entries : List (CpuId × SysDir)) (id : Int32) :
    (entries.foldl Scan.addOnline .empty).llcL3Size.lookup id =
      lastOf (entries.filterMap fun cpu =>
        (cpu.2.read "cache/index3/size").map fun l3Str =>
          (llcIdOf (domains entries) cpu.2, parseSizeString l3Str)) id := by
  induction entries using List.reverseRecOn with
  | nil => exact AList.lookup_empty id
  | append_singleton entries cpu inductionHypothesis =>
      have own := (getLlcId_spec (numbers_scan entries) cpu).1
      have before : (entries.filterMap fun other =>
          (other.2.read "cache/index3/size").map fun l3Str =>
            (llcIdOf (domains (entries ++ [cpu])) other.2, parseSizeString l3Str)) =
          entries.filterMap fun other =>
            (other.2.read "cache/index3/size").map fun l3Str =>
              (llcIdOf (domains entries) other.2, parseSizeString l3Str) := by
        apply List.filterMap_congr
        intro other member
        rw [llcIdOf_concat member cpu]
      rw [List.foldl_append, List.foldl_cons, List.foldl_nil, Scan.addOnline,
        List.filterMap_append, before]
      dsimp only
      rw [own]
      cases read : cpu.2.read "cache/index3/size" with
      | none => simpa [read] using inductionHypothesis
      | some l3Str =>
          have one : [cpu].filterMap (fun other =>
              (other.2.read "cache/index3/size").map fun l3Str =>
                (llcIdOf (domains (entries ++ [cpu])) other.2, parseSizeString l3Str)) =
              [(llcIdOf (domains (entries ++ [cpu])) cpu.2, parseSizeString l3Str)] := by
            simp [read]
          rw [one, lastOf_concat, ← inductionHypothesis]
          dsimp only
          by_cases same : id = llcIdOf (domains (entries ++ [cpu])) cpu.2
          · rw [if_pos same, same, AList.lookup_insert]
          · rw [if_neg same, AList.lookup_insert_ne same]

theorem nodeGroups_foldl (entries : List (CpuId × SysDir)) : ∀ scan : Scan,
    (entries.foldl Scan.addOnline scan).nodeGroups =
      entries.foldl (fun groups cpu => addToHash groups (getNodeId cpu.2) cpu.1) scan.nodeGroups := by
  induction entries with
  | nil => exact fun _ => rfl
  | cons head rest inductionHypothesis => exact fun scan => inductionHypothesis (scan.addOnline head)

theorem adds_groups (idOf : CpuId × SysDir → Int32) : Adds
    (fun (groups : AList fun _ : Int32 => CpuIds) id => groups.lookup id)
    (fun groups cpu => addToHash groups (idOf cpu) cpu.1) (fun cpu => some (idOf cpu)) Prod.fst where
  lookup_step groups cpu id := by
    rw [lookup_addToHash]
    by_cases same : id = idOf cpu
    · rw [if_pos same, if_pos (congrArg some same.symm)]
    · rw [if_neg same, if_neg (fun other => same (Option.some.inj other).symm)]

/-- The ids of the CPUs with an id. -/
def groupOf (idOf : CpuId × SysDir → Int32) (entries : List (CpuId × SysDir)) (id : Int32) : CpuIds :=
  members (fun cpu => some (idOf cpu)) Prod.fst entries id

theorem mem_groupOf (idOf : CpuId × SysDir → Int32) (entries : List (CpuId × SysDir)) (id : Int32)
    (cpu : CpuId) : cpu ∈ groupOf idOf entries id ↔ ∃ entry ∈ entries, idOf entry = id ∧ entry.1 = cpu := by
  rw [groupOf, mem_members]
  simp only [Option.some.injEq]

/-- The groups of some CPUs by an id, as the iteration over a hash map meets them. -/
structure GroupedBy (idOf : CpuId × SysDir → Int32) (entries : List (CpuId × SysDir))
    (groups : List (Sigma fun _ : Int32 => CpuIds)) : Prop where
  distinct : (groups.map Sigma.fst).Nodup
  mem_iff : ∀ id set, ⟨id, set⟩ ∈ groups ↔
    (∃ cpu ∈ entries, idOf cpu = id) ∧ groupOf idOf entries id = set

theorem groupedBy_visit (order : HashOrder) {idOf : CpuId × SysDir → Int32}
    {entries : List (CpuId × SysDir)} {groups : AList fun _ : Int32 => CpuIds}
    (walked : groups = entries.foldl (fun groups cpu => addToHash groups (idOf cpu) cpu.1) ∅) :
    GroupedBy idOf entries (order.visit groups.entries) where
  distinct := by
    have keys : (groups.entries.map Sigma.fst).Nodup := groups.nodupKeys
    exact ((order.perm groups.entries).map Sigma.fst).nodup_iff.mpr keys
  mem_iff id set := by
    rw [(order.perm groups.entries).mem_iff, ← AList.mem_lookup_iff, Option.mem_def, walked]
    have found := (adds_groups idOf).lookup_foldl_eq_some_iff (fun _ => AList.lookup_empty _) entries id set
    rw [found]
    simp only [Option.some.injEq]
    rfl

namespace SysRoot

variable (sys : SysRoot)

/-- The LLC a CPU is put in. -/
def llcId (cpu : CpuId × SysDir) : Int32 := llcIdOf (domains sys.online) cpu.2

theorem groupedBy_llcs (order : HashOrder) :
    GroupedBy sys.llcId sys.online (order.visit sys.scan.llcGroups.entries) := by
  apply groupedBy_visit
  rw [scan_eq, llcGroups_foldl]
  rfl

theorem groupedBy_nodes (order : HashOrder) :
    GroupedBy (fun cpu => getNodeId cpu.2) sys.online (order.visit sys.scan.nodeGroups.entries) := by
  apply groupedBy_visit
  rw [scan_eq, nodeGroups_foldl]
  rfl

end SysRoot

end AnanicyRs.Platform.Topology
