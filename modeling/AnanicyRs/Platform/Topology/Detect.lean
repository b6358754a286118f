import Mathlib.Data.List.Sort
import Mathlib.Data.Rat.Defs
import AnanicyRs.Lib.Grouping
import AnanicyRs.Platform.CpusetFormat

/-!
Contract: `crates/ananicy-platform/src/topology.rs`.

A machine is what sysfs says about it (`SysRoot`): the entries of the CPU directory in the
order `read_dir` yields them, and for each CPU what its own directory lists and what its files
read as. The hash maps of the scan are walked in an order of their own (`HashOrder`).

The tests that are made in `f64`, the ratio of the extreme capacities and the mean, are made
on exact rationals here. `get_cache_size`, which nothing calls, and the log lines are left out.
-/

set_option autoImplicit false

namespace AnanicyRs.Platform

open AnanicyRs.Lib AnanicyRs.Lib.Sorted AnanicyRs.Lib.Grouping

/-- `str::parse::<u32>`, as the id it names. -/
def CpuId.parse (digits : List Char) : Option CpuId :=
  match literal : Text.parseU32Chars digits with
  | some value => some ⟨value, Text.lt_of_parseU32Chars literal⟩
  | none => none

namespace Topology

/-! ## The machine -/

/-- A directory of sysfs: what `read_dir` lists, and what the files below it read as. -/
structure SysDir where
  listing : Option (List String)
  read : String → Option String

/-- A directory with the given files and nothing that is listed. -/
def SysDir.ofFiles (files : List (String × String)) : SysDir := ⟨none, fun path => files.lookup path⟩

/-- The id in the name of a CPU directory. -/
def cpuIdOf (name : String) : Option CpuId :=
  (Text.stripPrefixChars "cpu".toList name.toList).bind CpuId.parse

/-- The root of a sysfs, as far as the detection reads it. The kernel lists each CPU once. -/
structure SysRoot where
  cpus : Option (List (String × SysDir))
  smtActive : Option String
  distinct : ((cpus.getD []).filterMap fun entry => cpuIdOf entry.1).Nodup

/-- The entries of a hash map in the order an iteration meets them. -/
structure HashOrder where
  visit : List (Sigma fun _ : Int32 => CpuIds) → List (Sigma fun _ : Int32 => CpuIds)
  perm : ∀ entries, (visit entries).Perm entries

/-! ## The result -/

structure NodeInfo where
  id : Int32
  cpuIds : List CpuId
  cpusetStr : String
deriving DecidableEq

structure LlcInfo where
  id : Int32
  cpuIds : List CpuId
  cpusetStr : String
  l3Size : Nat
deriving DecidableEq

structure CpuTopology where
  hasBigLittle : Bool
  bigCoresStr : String
  littleCoresStr : String
  turboCoresStr : String
  allCoresStr : String
  cpuCount : Nat
  smtEnabled : Bool
  nodes : List NodeInfo
  llcs : List LlcInfo
  biggestLlcCoresStr : String
deriving DecidableEq

/-- `CpuTopology::default`. -/
def CpuTopology.default : CpuTopology where
  hasBigLittle := false
  bigCoresStr := ""
  littleCoresStr := ""
  turboCoresStr := ""
  allCoresStr := ""
  cpuCount := 0
  smtEnabled := false
  nodes := []
  llcs := []
  biggestLlcCoresStr := ""

/-- `perf_cores`. -/
def CpuTopology.perfCores (top : CpuTopology) : String :=
  if !top.turboCoresStr.isEmpty && top.turboCoresStr != top.allCoresStr then top.turboCoresStr
  else top.bigCoresStr

/-- The aliases that every machine has. -/
def CpuTopology.tierAliases (top : CpuTopology) : List (String × String) :=
  [("all", top.allCoresStr), ("all-cores", top.allCoresStr), ("big-cores", top.bigCoresStr),
    ("little-cores", top.littleCoresStr), ("performance-cores", top.perfCores),
    ("efficiency-cores", top.littleCoresStr), ("turbo-cores", top.turboCoresStr)]

def CpuTopology.generateCpusetAliases (top : CpuTopology) : AList fun _ : String => String :=
  let aliases := LastWins.insertAll top.tierAliases ∅
  let aliases :=
    if !top.biggestLlcCoresStr.isEmpty then aliases.insert "x3d-cache" top.biggestLlcCoresStr
    else aliases
  let aliases := LastWins.insertAll
    (top.llcs.map fun llc => ("llc-" ++ toString llc.id.toInt, llc.cpusetStr)) aliases
  LastWins.insertAll
    (top.nodes.map fun node => ("node-" ++ toString node.id.toInt, node.cpusetStr)) aliases

/-! ## Reading one CPU -/

def detectSmt (sys : SysRoot) : Bool :=
  match sys.smtActive with
  | some content => Text.trim content == "1"
  | none => false

/-- The number of a `nodeN` entry. -/
def nodeIdOf (name : String) : Option Int32 :=
  if Text.startsWith name "node" && decide (4 < Text.byteLen name.toList) then
    (Text.sliceFrom name.toList 4).bind Text.parseI32Chars
  else none

def getNodeId (base : SysDir) : Int32 :=
  match base.listing with
  | some names => (names.findSome? nodeIdOf).getD 0
  | none => 0

/-- `get_llc_id`, over the levels that are left. -/
def getLlcIdFrom (base : SysDir) : List Nat → (AList fun _ : String => Int32) →
    Int32 × AList fun _ : String => Int32
  | [], llcMap => (0, llcMap)
  | level :: rest, llcMap =>
      match base.read s!"cache/index{level}/shared_cpu_list" with
      | none => getLlcIdFrom base rest llcMap
      | some content =>
          let key := Text.trim content
          if key.isEmpty then getLlcIdFrom base rest llcMap
          else
            match llcMap.lookup key with
            | some id => (id, llcMap)
            | none =>
                let newId := Int32.ofNat llcMap.entries.length
                (newId, llcMap.insert key newId)

def getLlcId (base : SysDir) (llcMap : AList fun _ : String => Int32) :
    Int32 × AList fun _ : String => Int32 :=
  getLlcIdFrom base [3, 2] llcMap

def u64Max : Nat := 2 ^ 64 - 1

def parseSizeString (s : String) : Nat :=
  let trimmed := Text.trimChars s.toList
  let (digits, multiplier) :=
    match trimmed.getLast? with
    | some 'K' | some 'k' => (trimmed.dropLast, 1024)
    | some 'M' | some 'm' => (trimmed.dropLast, 1024 * 1024)
    | some 'G' | some 'g' => (trimmed.dropLast, 1024 * 1024 * 1024)
    | _ => (trimmed, 1)
  min ((Text.parseU64Chars digits).getD 0 * multiplier) u64Max

/-- The L3 size a CPU reads, if it is one. -/
def l3SizeOf (base : SysDir) : Option Nat :=
  (base.read "cache/index3/size").bind fun cacheStr =>
    if 0 < parseSizeString cacheStr then some (parseSizeString cacheStr) else none

/-! ## Capacities -/

def capacitySources : List String :=
  ["cpufreq/amd_pstate_prefcore_ranking", "cpufreq/amd_pstate_highest_perf",
    "acpi_cppc/highest_perf", "cpu_capacity", "cpufreq/cpuinfo_max_freq"]

/-- `CAPACITY_SOURCES[CAPACITY_SOURCES.len() - 1]`. -/
def leastPreciseSource : String := "cpufreq/cpuinfo_max_freq"

def readCapacity (bases : SortedMap CpuId SysDir) (source : String) (cpu : CpuId) : Option Nat := do
  let base ← bases.lookup cpu
  let raw ← base.read source
  let value ← Text.parseU64Chars (Text.trimChars raw.toList)
  if 0 < value then some value else none

/-- The loop of `pick_capacity_source`: what is chosen so far, and the sources that are left.
`capacity` reads one source of one CPU. -/
def pickFrom (capacity : String → CpuId → Option Nat) (first : CpuId) (cpus : CpuIds) :
    Option String → List String → Option String
  | chosen, [] => chosen
  | chosen, source :: rest =>
      match capacity source first with
      | none => pickFrom capacity first cpus chosen rest
      | some reference =>
          if cpus.elems.any fun cpu => (capacity source cpu).any (· != reference) then some source
          else pickFrom capacity first cpus (some source) rest

def pickCapacitySource (bases : SortedMap CpuId SysDir) (cpus : CpuIds) : String :=
  match cpus.elems with
  | [] => leastPreciseSource
  | first :: _ =>
      (pickFrom (readCapacity bases) first cpus none capacitySources).getD leastPreciseSource

/-! ## The scan -/

def isOnline (cpu : CpuId × SysDir) : Bool :=
  if cpu.1.val = 0 then true
  else
    match cpu.2.read "online" with
    | some content => Text.trim content == "1"
    | none => true

/-- What the walk over the CPUs carries. -/
structure Scan where
  allCores : CpuIds
  bases : SortedMap CpuId SysDir
  llcMap : AList fun _ : String => Int32
  llcGroups : AList fun _ : Int32 => CpuIds
  nodeGroups : AList fun _ : Int32 => CpuIds
  llcL3Size : AList fun _ : Int32 => Nat

def Scan.empty : Scan where
  allCores := .empty
  bases := .empty
  llcMap := ∅
  llcGroups := ∅
  nodeGroups := ∅
  llcL3Size := ∅

/-- The body of the walk, for a CPU that is online. -/
def Scan.addOnline (scan : Scan) (cpu : CpuId × SysDir) : Scan :=
  let nodeId := getNodeId cpu.2
  let (llcId, llcMap) := getLlcId cpu.2 scan.llcMap
  { allCores := scan.allCores.insert cpu.1
    bases := scan.bases.insert cpu.1 cpu.2
    llcMap
    llcGroups := addToHash scan.llcGroups llcId cpu.1
    nodeGroups := addToHash scan.nodeGroups nodeId cpu.1
    llcL3Size :=
      match cpu.2.read "cache/index3/size" with
      | some l3Str => scan.llcL3Size.insert llcId (parseSizeString l3Str)
      | none => scan.llcL3Size }

def Scan.addCpu (scan : Scan) (cpu : CpuId × SysDir) : Scan :=
  if isOnline cpu then scan.addOnline cpu else scan

/-- The CPUs in the order `read_dir` yields them. -/
def SysRoot.listed (sys : SysRoot) : List (CpuId × SysDir) :=
  (sys.cpus.getD []).filterMap fun entry => (cpuIdOf entry.1).map fun id => (id, entry.2)

/-- The CPUs in the order they are scanned. -/
def SysRoot.sorted (sys : SysRoot) : List (CpuId × SysDir) :=
  sys.listed.insertionSort fun left right => left.1 ≤ right.1

def SysRoot.scan (sys : SysRoot) : Scan := sys.sorted.foldl Scan.addCpu .empty

/-! ## Core types -/

def markHomogeneous (top : CpuTopology) : CpuTopology :=
  { top with
    hasBigLittle := false
    bigCoresStr := top.allCoresStr
    littleCoresStr := ""
    turboCoresStr := "" }

/-- `metric_to_cores`: the CPUs of each capacity. -/
def metricToCores (capacity : CpuId → Option Nat) (cpus : CpuIds) : SortedMap Nat CpuIds :=
  cpus.elems.foldl (fun metrics cpu =>
    match capacity cpu with
    | some value => addTo metrics value cpu
    | none => metrics) .empty

/-- The mean capacity. -/
def meanOf (metrics : SortedMap Nat CpuIds) : Rat :=
  let sum : Rat := metrics.entries.foldl (fun sum tier => sum + (tier.1 : Rat) * (tier.2.elems.length : Rat)) 0
  let count : Nat := metrics.entries.foldl (fun count tier => count + tier.2.elems.length) 0
  sum / count

/-- One tier goes to `little_cores` or to `big_cores`. -/
def splitTier (threshold : Rat) (cores : CpuIds × CpuIds) (tier : Nat × CpuIds) : CpuIds × CpuIds :=
  if (tier.1 : Rat) < threshold then (cores.1.extend tier.2.elems, cores.2)
  else (cores.1, cores.2.extend tier.2.elems)

def splitTiers (threshold : Rat) (metrics : SortedMap Nat CpuIds) : CpuIds × CpuIds :=
  metrics.entries.foldl (splitTier threshold) (.empty, .empty)

/-- The end of `detect_topology_impl`, once everything but the core types is known. -/
def classify (metrics : SortedMap Nat CpuIds) (top : CpuTopology) : CpuTopology :=
  if metrics.entries.length ≤ 1 then markHomogeneous top
  else
    match metrics.keys.head?, metrics.keys.getLast? with
    | some lowest, some highest =>
        if (highest : Rat) < lowest * (13 / 10) then markHomogeneous top
        else
          let cores := splitTiers (meanOf metrics) metrics
          let split := { top with
            littleCoresStr := formatCpuset cores.1
            bigCoresStr := formatCpuset cores.2
            hasBigLittle := true }
          match metrics.lookup highest with
          | none => split
          | some turbo => { split with turboCoresStr := formatCpuset turbo }
    | _, _ => top

/-! ## The detection -/

def nodesOf (order : HashOrder) (scan : Scan) : List NodeInfo :=
  (order.visit scan.nodeGroups.entries).map fun group =>
    { id := group.1, cpuIds := group.2.elems, cpusetStr := formatCpuset group.2 }

def llcsOf (order : HashOrder) (scan : Scan) : List LlcInfo :=
  (order.visit scan.llcGroups.entries).map fun group =>
    { id := group.1
      cpuIds := group.2.elems
      cpusetStr := formatCpuset group.2
      l3Size := (scan.llcL3Size.lookup group.1).getD 0 }

/-- `max_l3`. -/
def maxL3Of (llcs : List LlcInfo) : Nat :=
  llcs.foldl (fun maxL3 llc => if maxL3 < llc.l3Size then llc.l3Size else maxL3) 0

def biggestLlcCores (llcs : List LlcInfo) : CpuIds :=
  llcs.foldl (fun cores llc => if llc.l3Size = maxL3Of llcs then cores.extend llc.cpuIds else cores)
    .empty

/-- All of the topology but the core types. -/
def describe (nodeOrder llcOrder : HashOrder) (sys : SysRoot) : CpuTopology :=
  let llcs := llcsOf llcOrder sys.scan
  { CpuTopology.default with
    smtEnabled := detectSmt sys
    allCoresStr := formatCpuset sys.scan.allCores
    cpuCount := sys.scan.allCores.elems.length
    nodes := nodesOf nodeOrder sys.scan
    llcs
    biggestLlcCoresStr := if 0 < maxL3Of llcs then formatCpuset (biggestLlcCores llcs) else "" }

def detectTopologyImpl (nodeOrder llcOrder : HashOrder) (sys : SysRoot) : CpuTopology :=
  let scan := sys.scan
  if scan.allCores.isEmpty then { CpuTopology.default with smtEnabled := detectSmt sys }
  else
    let source := pickCapacitySource scan.bases scan.allCores
    classify (metricToCores (readCapacity scan.bases source) scan.allCores)
      (describe nodeOrder llcOrder sys)

end Topology

end AnanicyRs.Platform
