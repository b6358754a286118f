import Mathlib.Data.List.MinMax
import AnanicyRs.Platform.Topology.Detect

/-!
Contract: `crates/ananicy-platform/src/x3d.rs`, the split of the CPUs into the die with the
larger cache and the rest.

Owns when the split does not depend on the order in which the CPUs are listed
(`x3d_split_iff`). The size of a die is the last one that is read on it, so a die whose CPUs read
different sizes may win in one order and lose in another.

Of the driver only the presence of its mode file matters here; what is done with the file is in
`Daemon/Exit.lean`. The log lines are left out.
-/

set_option autoImplicit false

namespace AnanicyRs.Platform.X3d

open AnanicyRs.Lib AnanicyRs.Lib.Sorted AnanicyRs.Lib.Grouping
open AnanicyRs.Platform.Topology (SysDir parseSizeString l3SizeOf)

/-! ## The detection -/

/-- `u32`, the type a die id is cast to. -/
abbrev DieId := Fin UInt32.size

/-- The id in the name of a CPU directory. -/
def cpuIdOf (name : String) : Option CpuId :=
  if Text.startsWith name "cpu" && decide (3 < Text.byteLen name.toList) then
    (Text.sliceFrom name.toList 3).bind CpuId.parse
  else none

/-- What the detection looks at: the entries below the driver, each with whether it has a mode
file, what `cpuinfo` reads as, and the CPU directory. The kernel lists each CPU once. -/
structure Machine where
  driver : Option (List (String × Bool))
  cpuinfo : Option String
  cpus : Option (List (String × SysDir))
  distinct : ((cpus.getD []).filterMap fun entry => cpuIdOf entry.1).Nodup

structure X3DTopology where
  cacheCoresStr : String
  frequencyCoresStr : String
deriving DecidableEq

def getX3dModePathInSysfs (machine : Machine) : Option String :=
  machine.driver.bind fun entries =>
    (entries.find? fun entry => entry.2).map fun entry => entry.1 ++ "/amd_x3d_mode"

def isX3dFromCpuinfo (machine : Machine) : Bool :=
  machine.cpuinfo.any fun content =>
    Text.contains content "X3D" || Text.contains content "x3d" || Text.contains content "3D V-Cache"

/-- The die of a CPU: `cluster_id` stands in for a `die_id` that is missing, malformed or -1. -/
def dieOf (base : SysDir) : DieId :=
  let dieId :=
    match base.read "topology/die_id" with
    | some dieStr => Text.parseI32Chars (Text.trimChars dieStr.toList)
    | none => none
  let dieId :=
    if dieId.all (· == -1) then
      match base.read "topology/cluster_id" with
      | some clusterStr => Text.parseI32Chars (Text.trimChars clusterStr.toList)
      | none => dieId
    else dieId
  (dieId.getD 0).toUInt32.toFin

/-- What the walk over the CPUs carries. -/
structure Scan where
  dieToCores : SortedMap DieId CpuIds
  dieToCache : SortedMap DieId Nat

def Scan.empty : Scan := ⟨.empty, .empty⟩

def Scan.addCpu (scan : Scan) (cpu : CpuId × SysDir) : Scan where
  dieToCores := addTo scan.dieToCores (dieOf cpu.2) cpu.1
  dieToCache :=
    match cpu.2.read "cache/index3/size" with
    | some cacheStr =>
        if 0 < parseSizeString cacheStr then
          scan.dieToCache.insert (dieOf cpu.2) (parseSizeString cacheStr)
        else scan.dieToCache
    | none => scan.dieToCache

/-- The CPUs in the order `read_dir` yields them. -/
def Machine.listed (machine : Machine) : List (CpuId × SysDir) :=
  (machine.cpus.getD []).filterMap fun entry => (cpuIdOf entry.1).map fun id => (id, entry.2)

def Machine.scan (machine : Machine) : Scan := machine.listed.foldl Scan.addCpu .empty

/-- One die against the largest so far, as its size and its id. -/
def larger (best : Nat × DieId) (die : DieId × Nat) : Nat × DieId :=
  if best.1 < die.2 then (die.2, die.1) else best

/-- `max_cache` and `cache_die`. -/
def largest (dieToCache : SortedMap DieId Nat) : Nat × DieId :=
  dieToCache.entries.foldl larger (0, 0)

/-- One die goes to `cache_cores` or to `freq_cores`. -/
def splitDie (cacheDie : DieId) (cores : CpuIds × CpuIds) (die : DieId × CpuIds) : CpuIds × CpuIds :=
  if die.1 = cacheDie then (cores.1.extend die.2.elems, cores.2)
  else (cores.1, cores.2.extend die.2.elems)

def splitDies (cacheDie : DieId) (dieToCores : SortedMap DieId CpuIds) : CpuIds × CpuIds :=
  dieToCores.entries.foldl (splitDie cacheDie) (.empty, .empty)

def detectX3dTopologyImpl (machine : Machine) : Option X3DTopology :=
  if (getX3dModePathInSysfs machine).isNone && !isX3dFromCpuinfo machine then none
  else
    let scan := machine.scan
    if scan.dieToCores.entries.length < 2 then
      let allCores : CpuIds := .ofList (scan.dieToCores.values.flatMap SortedSet.elems)
      if allCores.isEmpty then none else some ⟨formatCpuset allCores, formatCpuset allCores⟩
    else if scan.dieToCache.entries.isEmpty then none
    else
      let cores := splitDies (largest scan.dieToCache).2 scan.dieToCores
      some ⟨formatCpuset cores.1, formatCpuset cores.2⟩

/-! ## What the walk leaves -/

/-- The sizes that are read, each with its die. -/
def readings (cpus : List (CpuId × SysDir)) : List (DieId × Nat) :=
  cpus.filterMap fun cpu => (l3SizeOf cpu.2).map fun size => (dieOf cpu.2, size)

theorem mem_readings (cpus : List (CpuId × SysDir)) (die : DieId) (size : Nat) :
    (die, size) ∈ readings cpus ↔ ∃ cpu ∈ cpus, dieOf cpu.2 = die ∧ l3SizeOf cpu.2 = some size := by
  simp only [readings, List.mem_filterMap, Option.map_eq_some_iff, Prod.mk.injEq]
  constructor
  · intro ⟨cpu, listed, other, isSize, isDie, same⟩
    exact ⟨cpu, listed, isDie, same ▸ isSize⟩
  · intro ⟨cpu, listed, isDie, isSize⟩
    exact ⟨cpu, listed, size, isSize, isDie, rfl⟩

theorem pos_of_mem_readings {cpus : List (CpuId × SysDir)} {reading : DieId × Nat}
    (isReading : reading ∈ readings cpus) : 0 < reading.2 := by
  obtain ⟨cpu, _, _, isSize⟩ := (mem_readings cpus reading.1 reading.2).mp isReading
  obtain ⟨cacheStr, _, kept⟩ := Option.bind_eq_some_iff.mp isSize
  obtain ⟨positive, same⟩ := Option.ite_none_right_eq_some.mp kept
  rw [← Option.some.inj same]
  exact positive

theorem dieToCache_addCpu (scan : Scan) (cpu : CpuId × SysDir) :
    (scan.addCpu cpu).dieToCache = SortedMap.insertAll (readings [cpu]) scan.dieToCache := by
  have one : readings [cpu] = ((l3SizeOf cpu.2).map fun size => (dieOf cpu.2, size)).toList := by
    rw [readings, List.filterMap_cons, List.filterMap_nil]
    cases l3SizeOf cpu.2 <;> rfl
  rw [one, Scan.addCpu, l3SizeOf]
  cases cpu.2.read "cache/index3/size" with
  | none => rfl
  | some cacheStr =>
      dsimp only
      rw [Option.bind_some]
      split
      · rfl
      · rfl

theorem dieToCache_foldl (cpus : List (CpuId × SysDir)) : ∀ scan : Scan,
    (cpus.foldl Scan.addCpu scan).dieToCache =
      SortedMap.insertAll (readings cpus) scan.dieToCache := by
  induction cpus with
  | nil => exact fun _ => rfl
  | cons head rest inductionHypothesis =>
      intro scan
      have parts : readings (head :: rest) = readings [head] ++ readings rest := by
        rw [readings, readings, readings, ← List.filterMap_append]
        rfl
      rw [List.foldl_cons, inductionHypothesis, dieToCache_addCpu, parts, SortedMap.insertAll,
        SortedMap.insertAll, SortedMap.insertAll, List.foldl_append]

/-- The size of a die is the last one read on it. -/
theorem lookup_dieToCache (machine : Machine) (die : DieId) :
    machine.scan.dieToCache.lookup die = LastWins.lastOf (readings machine.listed) die := by
  rw [Machine.scan, dieToCache_foldl, SortedMap.lookup_insertAll]
  exact Option.or_none

theorem isEmpty_dieToCache (machine : Machine) :
    machine.scan.dieToCache.entries.isEmpty = true ↔ readings machine.listed = [] := by
  have keys : machine.scan.dieToCache.entries = [] ↔
      ∀ die, machine.scan.dieToCache.lookup die = none := by
    constructor
    · intro empty die
      rw [SortedMap.lookup, empty]
      rfl
    · intro absent
      apply List.eq_nil_iff_forall_not_mem.mpr
      intro entry listed
      have found := (machine.scan.dieToCache.mem_entries_iff entry.1 entry.2).mp listed
      rw [absent] at found
      exact Option.some_ne_none _ found.symm
  rw [List.isEmpty_iff, keys]
  simp only [lookup_dieToCache, LastWins.lastOf_eq_none_iff]
  constructor
  · intro absent
    apply List.eq_nil_iff_forall_not_mem.mpr
    exact fun reading isReading => absent reading.1 (List.mem_map_of_mem isReading)
  · intro none die
    rw [none]
    exact List.not_mem_nil

theorem adds_dieToCores : Adds (fun (scan : Scan) die => scan.dieToCores.lookup die) Scan.addCpu
    (fun cpu => some (dieOf cpu.2)) Prod.fst where
  lookup_step scan cpu die := by
    show (addTo scan.dieToCores (dieOf cpu.2) cpu.1).lookup die = _
    rw [lookup_addTo]
    by_cases same : die = dieOf cpu.2
    · rw [if_pos same, if_pos (congrArg some same.symm)]
    · rw [if_neg same, if_neg (fun other => same (Option.some.inj other).symm)]

/-- The CPUs of the dies that `keep` holds of. -/
def coresOf (keep : DieId → Bool) (cpus : List (CpuId × SysDir)) : CpuIds :=
  .ofList ((cpus.filter fun cpu => keep (dieOf cpu.2)).map Prod.fst)

theorem mem_coresOf (keep : DieId → Bool) (cpus : List (CpuId × SysDir)) (id : CpuId) :
    id ∈ coresOf keep cpus ↔ ∃ cpu ∈ cpus, keep (dieOf cpu.2) = true ∧ cpu.1 = id := by
  simp only [coresOf, SortedSet.mem_ofList, List.mem_map, List.mem_filter, and_assoc]

theorem mem_dieToCores (machine : Machine) (die : DieId) (set : CpuIds) :
    (die, set) ∈ machine.scan.dieToCores.entries ↔
      (∃ cpu ∈ machine.listed, dieOf cpu.2 = die) ∧
        members (fun cpu => some (dieOf cpu.2)) Prod.fst machine.listed die = set := by
  have fresh : ∀ other, Scan.empty.dieToCores.lookup other = none := fun _ => rfl
  rw [SortedMap.mem_entries_iff, Machine.scan,
    adds_dieToCores.lookup_foldl_eq_some_iff fresh machine.listed die set]
  simp only [Option.some.injEq]

/-- Under some die that `keep` holds of are the CPUs of these dies. -/
theorem exists_dieToCores (machine : Machine) (keep : DieId → Bool) (id : CpuId) :
    (∃ group ∈ machine.scan.dieToCores.entries, keep group.1 = true ∧ id ∈ group.2) ↔
      id ∈ coresOf keep machine.listed := by
  rw [mem_coresOf]
  constructor
  · intro ⟨group, listed, kept, inGroup⟩
    obtain ⟨die, set⟩ := group
    obtain ⟨_, rfl⟩ := (mem_dieToCores machine die set).mp listed
    obtain ⟨cpu, isCpu, isDie, isId⟩ := (mem_members _ _ _ die id).mp inGroup
    refine ⟨cpu, isCpu, ?_, isId⟩
    rw [Option.some.inj isDie]
    exact kept
  · intro ⟨cpu, isCpu, kept, isId⟩
    refine ⟨_, (mem_dieToCores machine (dieOf cpu.2) _).mpr ⟨⟨cpu, isCpu, rfl⟩, rfl⟩, kept, ?_⟩
    exact (mem_members _ _ _ _ id).mpr ⟨cpu, isCpu, rfl, isId⟩

/-! ## The split -/

theorem splitDies_eq (machine : Machine) (cacheDie : DieId) :
    splitDies cacheDie machine.scan.dieToCores =
      (coresOf (· = cacheDie) machine.listed, coresOf (· ≠ cacheDie) machine.listed) := by
  have walked : ∀ (groups : List (DieId × CpuIds)) (cores : CpuIds × CpuIds) (id : CpuId),
      (id ∈ (groups.foldl (splitDie cacheDie) cores).1 ↔
          id ∈ cores.1 ∨ ∃ group ∈ groups, decide (group.1 = cacheDie) = true ∧ id ∈ group.2) ∧
        (id ∈ (groups.foldl (splitDie cacheDie) cores).2 ↔
          id ∈ cores.2 ∨ ∃ group ∈ groups, decide (group.1 ≠ cacheDie) = true ∧ id ∈ group.2) := by
    intro groups
    induction groups with
    | nil => simp
    | cons head rest inductionHypothesis =>
        intro cores id
        rw [List.foldl_cons, (inductionHypothesis _ id).1, (inductionHypothesis _ id).2, splitDie]
        by_cases isCache : head.1 = cacheDie
        · simp [isCache, or_assoc, SortedSet.mem_elems]
        · simp [isCache, or_assoc, SortedSet.mem_elems]
  have fresh : ∀ id, id ∉ (SortedMap.empty : CpuIds) := SortedSet.notMem_empty
  apply Prod.ext
  · apply SortedSet.ext_mem
    intro id
    rw [splitDies, (walked _ _ id).1, ← exists_dieToCores machine (· = cacheDie) id]
    simp only [fresh, false_or]
  · apply SortedSet.ext_mem
    intro id
    rw [splitDies, (walked _ _ id).2, ← exists_dieToCores machine (· ≠ cacheDie) id]
    simp only [fresh, false_or]

/-- CPUs of two dies are listed. -/
def TwoDies (cpus : List (CpuId × SysDir)) : Prop :=
  ∃ left ∈ cpus, ∃ right ∈ cpus, dieOf left.2 ≠ dieOf right.2

theorem twoDies_iff (machine : Machine) :
    TwoDies machine.listed ↔ ¬ machine.scan.dieToCores.entries.length < 2 := by
  have isKey : ∀ die, die ∈ machine.scan.dieToCores.keys ↔ ∃ cpu ∈ machine.listed, dieOf cpu.2 = die := by
    intro die
    rw [SortedMap.keys, List.mem_map]
    constructor
    · rintro ⟨group, listed, rfl⟩
      exact ((mem_dieToCores machine group.1 group.2).mp listed).1
    · exact fun given => ⟨_, (mem_dieToCores machine die _).mpr ⟨given, rfl⟩, rfl⟩
  rw [not_lt, ← Nat.lt_iff_add_one_le, SortedMap.one_lt_length_iff]
  constructor
  · rintro ⟨left, isLeft, right, isRight, different⟩
    exact ⟨_, (isKey _).mpr ⟨left, isLeft, rfl⟩, _, (isKey _).mpr ⟨right, isRight, rfl⟩, different⟩
  · rintro ⟨left, isLeft, right, isRight, different⟩
    obtain ⟨leftCpu, leftListed, rfl⟩ := (isKey left).mp isLeft
    obtain ⟨rightCpu, rightListed, rfl⟩ := (isKey right).mp isRight
    exact ⟨leftCpu, leftListed, rightCpu, rightListed, different⟩

/-- `die` is the first one that no other has a larger size than. -/
structure Wins (sizes : DieId → Option Nat) (die : DieId) (size : Nat) : Prop where
  own : sizes die = some size
  largest : ∀ other otherSize, sizes other = some otherSize →
    otherSize ≤ size ∧ (other < die → otherSize < size)

theorem Wins.unique {sizes : DieId → Option Nat} {left right : DieId} {leftSize rightSize : Nat}
    (leftWins : Wins sizes left leftSize) (rightWins : Wins sizes right rightSize) : left = right := by
  have ofLeft := rightWins.largest left leftSize leftWins.own
  have ofRight := leftWins.largest right rightSize rightWins.own
  rcases lt_trichotomy left right with before | same | after
  · have smaller := ofLeft.2 before
    omega
  · exact same
  · have smaller := ofRight.2 after
    omega

/-- The fold over ascending dies keeps the first of the largest. -/
theorem foldl_larger (dies : List (DieId × Nat)) (ascending : (dies.map Prod.fst).Pairwise (· < ·))
    (positive : ∀ die ∈ dies, 0 < die.2) :
    dies.foldl larger (0, 0) = (0, 0) ∧ dies = [] ∨
      ((dies.foldl larger (0, 0)).2, (dies.foldl larger (0, 0)).1) ∈ dies ∧
        ∀ die ∈ dies, die.2 ≤ (dies.foldl larger (0, 0)).1 ∧
          (die.1 < (dies.foldl larger (0, 0)).2 → die.2 < (dies.foldl larger (0, 0)).1) := by
  induction dies using List.reverseRecOn with
  | nil => exact .inl ⟨rfl, rfl⟩
  | append_singleton dies last inductionHypothesis =>
      rw [List.map_append, List.pairwise_append] at ascending
      have before := inductionHypothesis ascending.1 fun die listed =>
        positive die (List.mem_append_left _ listed)
      have sized : 0 < last.2 := positive last (List.mem_append_right _ List.mem_cons_self)
      have above : ∀ die ∈ dies, die.1 < last.1 := fun die listed =>
        ascending.2.2 die.1 (List.mem_map_of_mem listed) last.1 List.mem_cons_self
      right
      rw [List.foldl_append, List.foldl_cons, List.foldl_nil]
      generalize dies.foldl larger (0, 0) = best at before
      rw [larger]
      by_cases isLarger : best.1 < last.2
      · rw [if_pos isLarger]
        constructor
        · exact List.mem_append_right _ List.mem_cons_self
        · intro die listed
          rcases List.mem_append.mp listed with earlier | isLast
          · rcases before with ⟨_, none⟩ | ⟨_, largest⟩
            · rw [none] at earlier
              exact absurd earlier List.not_mem_nil
            · have below := (largest die earlier).1
              dsimp only
              omega
          · rw [List.mem_singleton.mp isLast]
            exact ⟨Nat.le_refl _, fun same => absurd same (lt_irrefl _)⟩
      · rw [if_neg isLarger]
        rcases before with ⟨start, _⟩ | ⟨isBest, largest⟩
        · rw [start] at isLarger
          exact absurd sized isLarger
        · constructor
          · exact List.mem_append_left _ isBest
          · intro die listed
            rcases List.mem_append.mp listed with earlier | isLast
            · exact largest die earlier
            · rw [List.mem_singleton.mp isLast]
              have after := above _ isBest
              exact ⟨by omega, fun same => absurd same after.asymm⟩

/-- With a size read somewhere, one die has the largest. -/
theorem wins_largest (machine : Machine) (some : readings machine.listed ≠ []) :
    Wins (LastWins.lastOf (readings machine.listed)) (largest machine.scan.dieToCache).2
      (largest machine.scan.dieToCache).1 := by
  have held : ∀ die size, (die, size) ∈ machine.scan.dieToCache.entries ↔
      LastWins.lastOf (readings machine.listed) die = Option.some size := by
    intro die size
    rw [SortedMap.mem_entries_iff, lookup_dieToCache]
  have positive : ∀ die ∈ machine.scan.dieToCache.entries, 0 < die.2 := by
    intro die listed
    exact pos_of_mem_readings (LastWins.mem_of_lastOf ((held die.1 die.2).mp listed))
  rcases foldl_larger _ machine.scan.dieToCache.ascending positive with ⟨_, none⟩ | ⟨isBest, largest⟩
  · exact absurd ((isEmpty_dieToCache machine).mp (List.isEmpty_iff.mpr none)) some
  · constructor
    · exact (held _ _).mp isBest
    · exact fun other otherSize isOther => largest (other, otherSize) ((held other otherSize).mpr isOther)

/-! ## The cases of the detection -/

/-- The driver is bound or `cpuinfo` names an X3D part. -/
def IsX3d (machine : Machine) : Prop :=
  (getX3dModePathInSysfs machine).isSome = true ∨ isX3dFromCpuinfo machine = true

theorem not_isX3d_iff (machine : Machine) : ¬ IsX3d machine ↔
    ((getX3dModePathInSysfs machine).isNone && !isX3dFromCpuinfo machine) = true := by
  unfold IsX3d
  simp

section Cases

variable {machine : Machine}

theorem detect_of_not_isX3d (other : ¬ IsX3d machine) : detectX3dTopologyImpl machine = none :=
  if_pos ((not_isX3d_iff machine).mp other)

/-- On one die both sets are all CPUs. -/
theorem detect_of_not_twoDies (isX3d : IsX3d machine) (one : ¬ TwoDies machine.listed) :
    detectX3dTopologyImpl machine =
      if (coresOf (fun _ => true) machine.listed).isEmpty then none
      else some ⟨formatCpuset (coresOf (fun _ => true) machine.listed),
        formatCpuset (coresOf (fun _ => true) machine.listed)⟩ := by
  have few : machine.scan.dieToCores.entries.length < 2 := not_not.mp (mt (twoDies_iff machine).mpr one)
  have all : (SortedSet.ofList (machine.scan.dieToCores.values.flatMap SortedSet.elems) : CpuIds) =
      coresOf (fun _ => true) machine.listed := by
    apply SortedSet.ext_mem
    intro id
    rw [← exists_dieToCores machine (fun _ => true) id, SortedSet.mem_ofList, List.mem_flatMap,
      SortedMap.values]
    constructor
    · intro ⟨set, isValue, inSet⟩
      obtain ⟨group, listed, rfl⟩ := List.mem_map.mp isValue
      exact ⟨group, listed, rfl, inSet⟩
    · intro ⟨group, listed, _, inGroup⟩
      exact ⟨group.2, List.mem_map_of_mem listed, inGroup⟩
  rw [detectX3dTopologyImpl, if_neg (fun other => (not_isX3d_iff machine).mpr other isX3d)]
  dsimp only
  rw [if_pos few, all]

theorem detect_of_no_readings (isX3d : IsX3d machine) (two : TwoDies machine.listed)
    (none : readings machine.listed = []) : detectX3dTopologyImpl machine = Option.none := by
  rw [detectX3dTopologyImpl, if_neg (fun other => (not_isX3d_iff machine).mpr other isX3d)]
  dsimp only
  rw [if_neg ((twoDies_iff machine).mp two), if_pos ((isEmpty_dieToCache machine).mpr none)]

theorem detect_of_wins (isX3d : IsX3d machine) (two : TwoDies machine.listed) {die : DieId} {size : Nat}
    (wins : Wins (LastWins.lastOf (readings machine.listed)) die size) :
    detectX3dTopologyImpl machine = some ⟨formatCpuset (coresOf (· = die) machine.listed),
      formatCpuset (coresOf (· ≠ die) machine.listed)⟩ := by
  have read : readings machine.listed ≠ [] := List.ne_nil_of_mem (LastWins.mem_of_lastOf wins.own)
  have isDie := wins.unique (wins_largest machine read)
  rw [detectX3dTopologyImpl, if_neg (fun other => (not_isX3d_iff machine).mpr other isX3d)]
  dsimp only
  rw [if_neg ((twoDies_iff machine).mp two), if_neg (mt (isEmpty_dieToCache machine).mp read),
    splitDies_eq, ← isDie]

end Cases

/-! ## Other orders -/

/-- The same machine, with its CPUs listed in another order. -/
structure Reorders (machine other : Machine) : Prop where
  cpus : (other.cpus.getD []).Perm (machine.cpus.getD [])
  driver : other.driver = machine.driver
  cpuinfo : other.cpuinfo = machine.cpuinfo

namespace Reorders

variable {machine other : Machine}

theorem listed (reorders : Reorders machine other) : other.listed.Perm machine.listed :=
  reorders.cpus.filterMap _

theorem readings (reorders : Reorders machine other) :
    (readings other.listed).Perm (X3d.readings machine.listed) := reorders.listed.filterMap _

theorem isX3d_iff (reorders : Reorders machine other) : IsX3d other ↔ IsX3d machine := by
  rw [IsX3d, IsX3d, getX3dModePathInSysfs, getX3dModePathInSysfs, isX3dFromCpuinfo, isX3dFromCpuinfo,
    reorders.driver, reorders.cpuinfo]

theorem twoDies_iff (reorders : Reorders machine other) :
    TwoDies other.listed ↔ TwoDies machine.listed := by
  simp only [TwoDies, reorders.listed.mem_iff]

theorem coresOf (reorders : Reorders machine other) (keep : DieId → Bool) :
    coresOf keep other.listed = X3d.coresOf keep machine.listed := by
  apply SortedSet.ext_mem
  intro id
  rw [mem_coresOf, mem_coresOf]
  simp only [reorders.listed.mem_iff]

end Reorders

/-- Whatever is read on `die` is larger than whatever is read elsewhere, or as large and on a
later die. -/
structure Dominates (sizes : List (DieId × Nat)) (die : DieId) : Prop where
  read : ∃ size, (die, size) ∈ sizes
  largest : ∀ size, (die, size) ∈ sizes → ∀ other otherSize, (other, otherSize) ∈ sizes →
    other ≠ die → otherSize ≤ size ∧ (other < die → otherSize < size)

theorem Dominates.wins {sizes reordered : List (DieId × Nat)} {die : DieId}
    (dominates : Dominates sizes die) (perm : reordered.Perm sizes) :
    ∃ size, Wins (LastWins.lastOf reordered) die size := by
  obtain ⟨some, isRead⟩ := dominates.read
  have defined : (LastWins.lastOf reordered die).isSome = true :=
    (LastWins.lastOf_isSome_iff _ _).mpr (List.mem_map_of_mem (perm.mem_iff.mpr isRead))
  obtain ⟨size, isLast⟩ := Option.isSome_iff_exists.mp defined
  refine ⟨size, isLast, fun other otherSize isOther => ?_⟩
  by_cases same : other = die
  · rw [same, isLast] at isOther
    have sameSize := Option.some.inj isOther
    exact ⟨by omega, fun before => absurd before (by rw [same]; exact lt_irrefl die)⟩
  · have ofDie := perm.mem_iff.mp (LastWins.mem_of_lastOf isLast)
    have ofOther := perm.mem_iff.mp (LastWins.mem_of_lastOf isOther)
    exact dominates.largest size ofDie other otherSize ofOther same

theorem exists_perm_concat {α : Type} {a : α} {items : List α} (member : a ∈ items) :
    ∃ rest, items.Perm (rest ++ [a]) := by
  obtain ⟨before, after, rfl⟩ := List.append_of_mem member
  refine ⟨before ++ after, ?_⟩
  exact List.perm_middle.trans (List.perm_append_singleton a (before ++ after)).symm

namespace Machine

variable (machine : Machine)

/-- The machine with its CPU directory in another order. -/
def reorder (cpus : List (String × SysDir)) (perm : (machine.cpus.getD []).Perm cpus) : Machine where
  driver := machine.driver
  cpuinfo := machine.cpuinfo
  cpus := some cpus
  distinct := (perm.filterMap _).nodup_iff.mp machine.distinct

theorem reorders_reorder (cpus : List (String × SysDir)) (perm : (machine.cpus.getD []).Perm cpus) :
    Reorders machine (machine.reorder cpus perm) := ⟨perm.symm, rfl, rfl⟩

theorem nodup_listed : (machine.listed.map Prod.fst).Nodup := by
  have ids : machine.listed.map Prod.fst =
      (machine.cpus.getD []).filterMap fun entry => cpuIdOf entry.1 := by
    rw [listed, List.map_filterMap]
    congr 1
    funext entry
    cases cpuIdOf entry.1 <;> rfl
  rw [ids]
  exact machine.distinct

variable {machine}

/-- Two CPUs of different dies can be listed last. -/
theorem exists_reorder {first second : CpuId × SysDir} (isFirst : first ∈ machine.listed)
    (isSecond : second ∈ machine.listed) (different : first ≠ second) :
    ∃ other, Reorders machine other ∧ ∃ rest, other.listed = rest ++ [first, second] := by
  obtain ⟨secondEntry, secondListed, ofSecond⟩ := List.mem_filterMap.mp isSecond
  obtain ⟨firstEntry, firstListed, ofFirst⟩ := List.mem_filterMap.mp isFirst
  obtain ⟨others, perm⟩ := exists_perm_concat secondListed
  have inOthers : firstEntry ∈ others := by
    rcases List.mem_append.mp (perm.mem_iff.mp firstListed) with earlier | isLast
    · exact earlier
    · rw [List.mem_singleton.mp isLast, ofSecond] at ofFirst
      exact absurd (Option.some.inj ofFirst).symm different
  obtain ⟨rest, othersPerm⟩ := exists_perm_concat inOthers
  have both := perm.trans (othersPerm.append_right [secondEntry])
  refine ⟨_, machine.reorders_reorder _ both,
    rest.filterMap fun entry => (cpuIdOf entry.1).map fun id => (id, entry.2), ?_⟩
  show List.filterMap _ (rest ++ [firstEntry] ++ [secondEntry]) = _
  rw [List.filterMap_append, List.filterMap_append, List.append_assoc]
  congr 1
  simp [ofFirst, ofSecond]

/-- Two entries of one CPU are the same entry. -/
theorem eq_of_listed {left right : CpuId × SysDir} (isLeft : left ∈ machine.listed)
    (isRight : right ∈ machine.listed) (same : left.1 = right.1) : left = right :=
  List.inj_on_of_nodup_map machine.nodup_listed isLeft isRight same

end Machine

/-! ## Order independence -/

/-- The two sets of a machine with CPUs of two dies. -/
structure Splits (machine : Machine) (cache frequency : CpuIds) : Prop where
  disjoint : ∀ cpu, ¬ (cpu ∈ cache ∧ cpu ∈ frequency)
  someCache : ∃ cpu, cpu ∈ cache
  someFrequency : ∃ cpu, cpu ∈ frequency
  all : ∀ id, id ∈ cache ∨ id ∈ frequency ↔ ∃ cpu ∈ machine.listed, cpu.1 = id
  largest : ∃ die, (∀ id, id ∈ cache ↔ ∃ cpu ∈ machine.listed, dieOf cpu.2 = die ∧ cpu.1 = id) ∧
    ∃ cpu ∈ machine.listed, dieOf cpu.2 = die ∧ ∃ size, l3SizeOf cpu.2 = some size ∧
      ∀ other ∈ machine.listed, ∀ otherSize, l3SizeOf other.2 = some otherSize → otherSize ≤ size

/-- A die that dominates reads the largest size anywhere. -/
theorem Dominates.exists_largest {sizes : List (DieId × Nat)} {die : DieId}
    (dominates : Dominates sizes die) :
    ∃ size, (die, size) ∈ sizes ∧ ∀ reading ∈ sizes, reading.2 ≤ size := by
  obtain ⟨some, isRead⟩ := dominates.read
  cases top : sizes.argmax Prod.snd with
  | none =>
      rw [List.argmax_eq_none.mp top] at isRead
      exact absurd isRead List.not_mem_nil
  | some best =>
      have isBest : best ∈ sizes := List.argmax_mem top
      have largest : ∀ reading ∈ sizes, reading.2 ≤ best.2 := fun reading given =>
        List.le_of_mem_argmax given top
      by_cases same : best.1 = die
      · exact ⟨best.2, same ▸ isBest, largest⟩
      · have below := (dominates.largest some isRead best.1 best.2 isBest same).1
        refine ⟨some, isRead, fun reading given => ?_⟩
        have bound := largest reading given
        omega

theorem splits_of_dominates {machine : Machine} (two : TwoDies machine.listed) {die : DieId}
    (dominates : Dominates (readings machine.listed) die) :
    Splits machine (coresOf (· = die) machine.listed) (coresOf (· ≠ die) machine.listed) := by
  obtain ⟨size, isRead, isLargest⟩ := dominates.exists_largest
  obtain ⟨reader, isReader, onDie, ofSize⟩ := (mem_readings _ die size).mp isRead
  have inCache : ∀ id, id ∈ coresOf (· = die) machine.listed ↔
      ∃ cpu ∈ machine.listed, dieOf cpu.2 = die ∧ cpu.1 = id := by
    intro id
    rw [mem_coresOf]
    simp only [decide_eq_true_eq]
  have inFrequency : ∀ id, id ∈ coresOf (· ≠ die) machine.listed ↔
      ∃ cpu ∈ machine.listed, dieOf cpu.2 ≠ die ∧ cpu.1 = id := by
    intro id
    rw [mem_coresOf]
    simp only [decide_eq_true_eq]
  constructor
  · intro id both
    obtain ⟨left, isLeft, ofLeft, leftId⟩ := (inCache id).mp both.1
    obtain ⟨right, isRight, ofRight, rightId⟩ := (inFrequency id).mp both.2
    have same := Machine.eq_of_listed isLeft isRight (leftId.trans rightId.symm)
    rw [same] at ofLeft
    exact ofRight ofLeft
  · exact ⟨reader.1, (inCache _).mpr ⟨reader, isReader, onDie, rfl⟩⟩
  · obtain ⟨left, isLeft, right, isRight, different⟩ := two
    by_cases ofLeft : dieOf left.2 = die
    · have ofRight : dieOf right.2 ≠ die := fun same => different (ofLeft.trans same.symm)
      exact ⟨right.1, (inFrequency _).mpr ⟨right, isRight, ofRight, rfl⟩⟩
    · exact ⟨left.1, (inFrequency _).mpr ⟨left, isLeft, ofLeft, rfl⟩⟩
  · intro id
    rw [inCache, inFrequency]
    constructor
    · rintro (⟨cpu, listed, _, isId⟩ | ⟨cpu, listed, _, isId⟩)
      · exact ⟨cpu, listed, isId⟩
      · exact ⟨cpu, listed, isId⟩
    · intro ⟨cpu, listed, isId⟩
      by_cases onDie : dieOf cpu.2 = die
      · exact .inl ⟨cpu, listed, onDie, isId⟩
      · exact .inr ⟨cpu, listed, onDie, isId⟩
  · refine ⟨die, inCache, reader, isReader, onDie, size, ofSize, fun other listed otherSize isSize => ?_⟩
    exact isLargest (dieOf other.2, otherSize) ((mem_readings _ _ _).mpr ⟨other, listed, rfl, isSize⟩)

/-- The split of a machine is the same in every order. -/
def OrderIndependent (machine : Machine) : Prop :=
  ∀ first second, Reorders machine first → Reorders machine second →
    detectX3dTopologyImpl first = detectX3dTopologyImpl second

/-- If the order does not matter, the die that wins dominates: list the CPU of one of its sizes
last, and the CPU of another die's size before it. -/
theorem dominates_of_orderIndependent {machine : Machine} (isX3d : IsX3d machine)
    (two : TwoDies machine.listed) (some : readings machine.listed ≠ [])
    (independent : OrderIndependent machine) :
    ∃ die, Dominates (readings machine.listed) die := by
  have wins := wins_largest machine some
  generalize (largest machine.scan.dieToCache).2 = die at wins
  refine ⟨die, ⟨_, LastWins.mem_of_lastOf wins.own⟩, fun size isRead other otherSize isOther apart => ?_⟩
  obtain ⟨winner, isWinner, onDie, ofWinner⟩ := (mem_readings _ die size).mp isRead
  obtain ⟨rival, isRival, onOther, ofRival⟩ := (mem_readings _ other otherSize).mp isOther
  have different : rival ≠ winner := by
    rintro rfl
    exact apart (onOther.symm.trans onDie)
  obtain ⟨reordered, reorders, rest, order⟩ := Machine.exists_reorder isRival isWinner different
  have sizes : readings reordered.listed = readings rest ++ [(other, otherSize)] ++ [(die, size)] := by
    rw [order, readings, List.filterMap_append, List.append_assoc]
    congr 1
    simp [ofWinner, ofRival, onDie, onOther]
  have ownSize : LastWins.lastOf (readings reordered.listed) die = Option.some size := by
    rw [sizes, LastWins.lastOf_concat, if_pos rfl]
  have rivalSize : LastWins.lastOf (readings reordered.listed) other = Option.some otherSize := by
    rw [sizes, LastWins.lastOf_concat, if_neg apart, LastWins.lastOf_concat, if_pos rfl]
  have stillSome : readings reordered.listed ≠ [] := by
    rw [sizes]
    simp
  have otherWins := wins_largest reordered stillSome
  have sameText := independent machine reordered ⟨.refl _, rfl, rfl⟩ reorders
  rw [detect_of_wins isX3d two wins,
    detect_of_wins (reorders.isX3d_iff.mpr isX3d) (reorders.twoDies_iff.mpr two) otherWins,
    reorders.coresOf, reorders.coresOf] at sameText
  have sameCache := CpusetFormat.format_injective (X3DTopology.mk.inj (Option.some.inj sameText)).1
  have inCache : winner.1 ∈ coresOf (· = die) machine.listed :=
    (mem_coresOf _ _ _).mpr ⟨winner, isWinner, decide_eq_true onDie, rfl⟩
  rw [sameCache, mem_coresOf] at inCache
  obtain ⟨cpu, listed, onWinner, same⟩ := inCache
  rw [Machine.eq_of_listed listed isWinner same, decide_eq_true_eq, onDie] at onWinner
  rw [← onWinner] at otherWins
  have ofSize := Option.some.inj (otherWins.own.symm.trans ownSize)
  rw [ofSize] at otherWins
  exact otherWins.largest other otherSize rivalSize

/-- On an X3D part with two dies and a readable size, some die dominates. -/
def Decided (machine : Machine) : Prop :=
  IsX3d machine → TwoDies machine.listed → readings machine.listed ≠ [] →
    ∃ die, Dominates (readings machine.listed) die

theorem detect_reordered {machine other : Machine} (decided : Decided machine)
    (reorders : Reorders machine other) :
    detectX3dTopologyImpl other = detectX3dTopologyImpl machine := by
  by_cases isX3d : IsX3d machine
  · have otherX3d := reorders.isX3d_iff.mpr isX3d
    by_cases two : TwoDies machine.listed
    · have otherTwo := reorders.twoDies_iff.mpr two
      by_cases none : readings machine.listed = []
      · have otherNone : readings other.listed = [] := List.perm_nil.mp (none ▸ reorders.readings)
        rw [detect_of_no_readings isX3d two none, detect_of_no_readings otherX3d otherTwo otherNone]
      · obtain ⟨die, dominates⟩ := decided isX3d two none
        obtain ⟨_, wins⟩ := dominates.wins (.refl _)
        obtain ⟨_, otherWins⟩ := dominates.wins reorders.readings
        rw [detect_of_wins isX3d two wins, detect_of_wins otherX3d otherTwo otherWins,
          reorders.coresOf, reorders.coresOf]
    · have otherOne := mt reorders.twoDies_iff.mp two
      rw [detect_of_not_twoDies isX3d two, detect_of_not_twoDies otherX3d otherOne, reorders.coresOf]
  · rw [detect_of_not_isX3d isX3d, detect_of_not_isX3d (mt reorders.isX3d_iff.mp isX3d)]

theorem splits_of_decided {machine : Machine} (decided : Decided machine) {top : X3DTopology}
    (detected : detectX3dTopologyImpl machine = some top) (two : TwoDies machine.listed) :
    ∃ cache frequency, top = ⟨formatCpuset cache, formatCpuset frequency⟩ ∧
      Splits machine cache frequency := by
  have isX3d : IsX3d machine := by
    by_contra other
    rw [detect_of_not_isX3d other] at detected
    exact Option.some_ne_none _ detected.symm
  have some : readings machine.listed ≠ [] := by
    intro none
    rw [detect_of_no_readings isX3d two none] at detected
    exact Option.some_ne_none _ detected.symm
  obtain ⟨die, dominates⟩ := decided isX3d two some
  obtain ⟨_, wins⟩ := dominates.wins (.refl _)
  rw [detect_of_wins isX3d two wins] at detected
  exact ⟨_, _, (Option.some.inj detected).symm, splits_of_dominates two dominates⟩

/-- In every order: the split is the same, and with two dies it is that of a die with the largest
size, if and only if on an X3D part with two dies and a readable size, some die dominates. -/
theorem x3d_split_iff (machine : Machine) :
    (OrderIndependent machine ∧
      ∀ other, Reorders machine other → ∀ top, detectX3dTopologyImpl other = some top →
        TwoDies machine.listed →
          ∃ cache frequency, top = ⟨formatCpuset cache, formatCpuset frequency⟩ ∧
            Splits machine cache frequency) ↔
      Decided machine := by
  constructor
  · intro ⟨independent, _⟩ isX3d two some
    exact dominates_of_orderIndependent isX3d two some independent
  · intro decided
    constructor
    · intro first second ofFirst ofSecond
      rw [detect_reordered decided ofFirst, detect_reordered decided ofSecond]
    · intro other reorders top detected two
      rw [detect_reordered decided reorders] at detected
      exact splits_of_decided decided detected two

/-- A CPU with a die and an L3 size. -/
def ratedCpu (die size : String) : SysDir :=
  .ofFiles [("topology/die_id", die), ("cache/index3/size", size)]

/-- CPU 2 names no die, so that die 0 reads two sizes; the CPUs are listed in the order given. -/
def twoSizes (cpus : List (String × SysDir))
    (distinct : (cpus.filterMap fun entry => cpuIdOf entry.1).Nodup) : Machine where
  driver := some [("AMDI0101:00", true)]
  cpuinfo := none
  cpus := some cpus
  distinct

def ascendingDies : Machine := twoSizes [("cpu0", ratedCpu "0\n" "32768K\n"),
  ("cpu1", ratedCpu "1\n" "98304K\n"), ("cpu2", .ofFiles [("cache/index3/size", "98304K\n")])]
  (by decide +kernel)

def rotatedDies : Machine := twoSizes [("cpu2", .ofFiles [("cache/index3/size", "98304K\n")]),
  ("cpu0", ratedCpu "0\n" "32768K\n"), ("cpu1", ratedCpu "1\n" "98304K\n")] (by decide +kernel)

/-- Die 0 has the cache if its CPU 2 is listed last, and die 1 if it is listed first. -/
theorem order_decides_cache_die : ¬ OrderIndependent ascendingDies := by
  intro independent
  have rotated : Reorders ascendingDies rotatedDies := by
    refine ⟨?_, rfl, rfl⟩
    show List.Perm ([_] ++ [_, _]) ([_, _] ++ [_])
    exact List.perm_append_comm
  have cacheOnZero : detectX3dTopologyImpl ascendingDies = some ⟨"0,2", "1"⟩ := by decide +kernel
  have cacheOnOne : detectX3dTopologyImpl rotatedDies = some ⟨"1", "0,2"⟩ := by decide +kernel
  have same := independent ascendingDies rotatedDies ⟨.refl _, rfl, rfl⟩ rotated
  rw [cacheOnZero, cacheOnOne] at same
  exact absurd same (by decide +kernel)

end AnanicyRs.Platform.X3d
