import AnanicyRs.Core.CpuList
import AnanicyRs.Lib.ByteMask

/-!
Contract: the affinity masks of `crates/ananicy-platform/src/abi/affinity.rs`.

Owns the number of CPUs a mask is built for, `mask_from`, which turns the set of a rule
into a mask, and `mask_from_cpu_list`, which reads the kernel's lists. Bit `k` of a mask
stands for CPU `k`. Where the source would index a mask out of range, `maskFrom` has no
answer.

Does not own the calls the masks are handed to.
-/

set_option autoImplicit false

namespace AnanicyRs.Platform.Affinity

open AnanicyRs.Core AnanicyRs.Lib AnanicyRs.Lib.NumberRanges AnanicyRs.Lib.ByteMask

/-- `get_max_number_of_cpus`, for what `sysconf(_SC_NPROCESSORS_CONF)` answered. -/
def getMaxNumberOfCpus (sysconf : Int64) : UInt32 := max sysconf.toUInt64.toUInt32 1024

/-- `mask_from`; `none` where an index is out of range. -/
def maskFrom (cpuset : CpuSet) (numCpus : Nat) : Option Mask :=
  cpuset.getCores.foldlM (fun mask cpu => if cpu < numCpus then setBit mask cpu else some mask)
    (zeroes (numCpus / 8))

/-! ## Kernel CPU lists -/

/-- What the loops of `mask_from_cpu_list` and `online_cpus` carry. -/
structure MaskReader where
  mask : Mask
  any : Bool

/-- One CPU of the list: one that the mask has no bit for is passed over. The guard keeps
the index inside the mask (`addCpu_inRange`). -/
def MaskReader.addCpu (numBytes : Nat) (reader : MaskReader) (cpu : Nat) : MaskReader :=
  if cpu < (numBytes * 8) % 2 ^ 32 then ⟨(setBit reader.mask cpu).getD reader.mask, true⟩
  else reader

def MaskReader.addPart (numBytes : Nat) (reader : MaskReader) (part : List Char) :
    Option MaskReader :=
  let trimmed := Text.trimChars part
  if trimmed.isEmpty then some reader
  else
    (readRange trimmed).map fun range =>
      (List.range' range.1 (range.2 + 1 - range.1)).foldl (addCpu numBytes) reader

def maskFromCpuList (list : String) (numBytes : Nat) : Option Mask :=
  ((list.toList.splitOn ',').foldlM (MaskReader.addPart numBytes) ⟨zeroes numBytes, false⟩).bind
    fun reader => if reader.any then some reader.mask else none

/-! ## `mask_from` -/

theorem mem_getCores (set : CpuSet) (cpu : Nat) : cpu ∈ set.getCores ↔ set.hasCpu cpu = true := by
  rw [CpuSet.getCores, List.mem_filterMap, CpuSet.hasCpu_iff]
  constructor
  · intro listed
    obtain ⟨⟨flag, index⟩, member, kept⟩ := listed
    have found := List.mem_zipIdx_iff_getElem?.mp member
    cases flag with
    | false => simp at kept
    | true =>
        have same : index = cpu := by
          simpa using kept
        rw [← same]
        exact found
  · intro found
    exact ⟨(true, cpu), List.mem_zipIdx_iff_getElem?.mpr found, rfl⟩

theorem foldlM_guarded (numCpus : Nat) (cpus : List Nat) :
    ∀ mask : Mask,
      cpus.foldlM (fun mask cpu => if cpu < numCpus then setBit mask cpu else some mask) mask =
        setBits mask (cpus.filter (· < numCpus)) := by
  induction cpus with
  | nil => exact fun _ => rfl
  | cons cpu rest inductionHypothesis =>
      intro mask
      rw [List.foldlM_cons]
      by_cases below : cpu < numCpus
      · have kept : (cpu :: rest).filter (· < numCpus) = cpu :: rest.filter (· < numCpus) := by
          simp [below]
        rw [if_pos below, kept, setBits_cons]
        cases setBit mask cpu with
        | none => rfl
        | some changed => exact inductionHypothesis changed
      · have dropped : (cpu :: rest).filter (· < numCpus) = rest.filter (· < numCpus) := by
          simp [below]
        rw [if_neg below, dropped]
        exact inductionHypothesis mask

theorem maskFrom_eq (set : CpuSet) (numCpus : Nat) :
    maskFrom set numCpus =
      setBits (zeroes (numCpus / 8)) (set.getCores.filter (· < numCpus)) :=
  foldlM_guarded numCpus set.getCores _

theorem maskFrom_isSome_iff (set : CpuSet) (numCpus : Nat) :
    (maskFrom set numCpus).isSome ↔
      ∀ cpu, set.hasCpu cpu = true → cpu < numCpus → cpu < 8 * (numCpus / 8) := by
  rw [maskFrom_eq, setBits_isSome_iff, zeroes, List.length_replicate]
  simp only [List.mem_filter, mem_getCores, decide_eq_true_eq, and_imp]

theorem length_maskFrom {set : CpuSet} {numCpus : Nat} {mask : Mask}
    (built : maskFrom set numCpus = some mask) : mask.length = numCpus / 8 := by
  rw [maskFrom_eq] at built
  rw [length_setBits _ built, zeroes, List.length_replicate]

theorem testBit_maskFrom {set : CpuSet} {numCpus : Nat} {mask : Mask}
    (built : maskFrom set numCpus = some mask) (cpu : Nat) :
    testBit mask cpu = true ↔ set.hasCpu cpu = true ∧ cpu < numCpus := by
  rw [maskFrom_eq] at built
  rw [testBit_setBits _ built, testBit_zeroes]
  simp [mem_getCores]

/-- The mask has a bit for each CPU of the set, and no other, exactly where no CPU lies
beyond the last full byte. -/
theorem maskFrom_exact_iff {sysconf : Int64} {s : String} {set : CpuSet}
    (parsed : CpuSet.parse s (getMaxNumberOfCpus sysconf).toNat = some set) :
    ((∃ mask, maskFrom set (getMaxNumberOfCpus sysconf).toNat = some mask ∧
        ∀ cpu < (getMaxNumberOfCpus sysconf).toNat, testBit mask cpu = set.hasCpu cpu) ↔
      ∀ cpu, set.hasCpu cpu = true → cpu < 8 * ((getMaxNumberOfCpus sysconf).toNat / 8)) ∧
    ∀ mask, maskFrom set (getMaxNumberOfCpus sysconf).toNat = some mask →
      ∀ cpu, (getMaxNumberOfCpus sysconf).toNat ≤ cpu → testBit mask cpu = false := by
  generalize (getMaxNumberOfCpus sysconf).toNat = numCpus at parsed ⊢
  have bound : set.maxCores = numCpus := by
    obtain ⟨ranges, _, rfl⟩ := (CpuSet.parse_eq_some_iff _ _ _).mp parsed
    exact CpuSet.maxCores_setRanges ranges _
  have below : ∀ cpu, set.hasCpu cpu = true → cpu < numCpus := by
    intro cpu has
    rw [← bound]
    exact CpuSet.lt_of_hasCpu has
  refine ⟨⟨?_, ?_⟩, ?_⟩
  · intro exactMask cpu has
    obtain ⟨mask, built, _⟩ := exactMask
    have isSome : (maskFrom set numCpus).isSome := by
      rw [built]
      rfl
    exact (maskFrom_isSome_iff set numCpus).mp isSome cpu has (below cpu has)
  · intro inside
    have isSome := (maskFrom_isSome_iff set numCpus).mpr fun cpu has _ => inside cpu has
    obtain ⟨mask, built⟩ := Option.isSome_iff_exists.mp isSome
    refine ⟨mask, built, fun cpu small => ?_⟩
    have bit := testBit_maskFrom built cpu
    rw [and_iff_left small] at bit
    exact Bool.eq_iff_iff.mpr bit
  · intro mask built cpu large
    have outside : ¬ testBit mask cpu = true := by
      rw [testBit_maskFrom built]
      intro given
      omega
    simpa using outside

/-- On a machine with eight CPUs the mask is exact. -/
theorem maskFrom_exact_of_eight_cpus :
    ∃ set, CpuSet.parse "3" (getMaxNumberOfCpus 8).toNat = some set ∧
      ∃ mask, maskFrom set (getMaxNumberOfCpus 8).toNat = some mask ∧
        ∀ cpu < (getMaxNumberOfCpus 8).toNat, testBit mask cpu = set.hasCpu cpu := by
  have below : 3 < (getMaxNumberOfCpus 8).toNat := by decide
  have parsed := CpuSet.parse_number (s := "3") (by decide) below
  refine ⟨_, parsed, (maskFrom_exact_iff parsed).1.mpr fun cpu has => ?_⟩
  rw [(CpuSet.hasCpu_setRanges_single _ _ cpu below).mp has]
  decide

/-- With 1030 configured CPUs the mask has 128 bytes, and a rule for CPU 1029 indexes
the byte after the last. -/
theorem maskFrom_out_of_range :
    ∃ set, CpuSet.parse "1029" (getMaxNumberOfCpus 1030).toNat = some set ∧
      ¬ ∃ mask, maskFrom set (getMaxNumberOfCpus 1030).toNat = some mask ∧
        ∀ cpu < (getMaxNumberOfCpus 1030).toNat, testBit mask cpu = set.hasCpu cpu := by
  have below : 1029 < (getMaxNumberOfCpus 1030).toNat := by decide
  have parsed := CpuSet.parse_number (s := "1029") (by decide) below
  refine ⟨_, parsed, fun built => ?_⟩
  obtain ⟨mask, built, _⟩ := built
  have inside := (maskFrom_isSome_iff _ _).mp (Option.isSome_of_eq_some built) 1029
    ((CpuSet.hasCpu_setRanges_single _ _ 1029 below).mpr rfl) below
  exact absurd inside (by decide)

/-! ## `mask_from_cpu_list` -/

/-- What a part of the loop does to the mask and to `any`: it sets the bits of the CPUs
that are named and that the mask has room for. -/
structure Reads (numBytes : Nat) (reader final : MaskReader) (named : Nat → Prop) : Prop where
  sized : final.mask.length = numBytes
  bits : ∀ k, testBit final.mask k = true ↔
    testBit reader.mask k = true ∨ (named k ∧ k < 8 * numBytes)
  any : final.any = true ↔ reader.any = true ∨ ∃ k, named k ∧ k < 8 * numBytes

theorem Reads.trans {numBytes : Nat} {reader middle final : MaskReader} {first second : Nat → Prop}
    (left : Reads numBytes reader middle first) (right : Reads numBytes middle final second) :
    Reads numBytes reader final fun k => first k ∨ second k where
  sized := right.sized
  bits k := by
    rw [right.bits, left.bits, or_assoc, ← or_and_right]
  any := by
    rw [right.any, left.any, or_assoc, ← exists_or]
    simp only [← or_and_right]

theorem Reads.congr {numBytes : Nat} {reader final : MaskReader} {named other : Nat → Prop}
    (reads : Reads numBytes reader final named) (same : ∀ k, named k ↔ other k) :
    Reads numBytes reader final other where
  sized := reads.sized
  bits k := by
    rw [reads.bits, same]
  any := by
    rw [reads.any]
    simp only [same]

theorem reads_nothing {numBytes : Nat} {reader : MaskReader}
    (sized : reader.mask.length = numBytes) : Reads numBytes reader reader fun _ => False :=
  ⟨sized, by simp, by simp⟩

/-- The CPUs a trimmed token names. -/
def Names (token : List Char) (cpu : Nat) : Prop :=
  ∃ first last, Spells token first last ∧ first ≤ cpu ∧ cpu ≤ last

section Reader

variable {numBytes : Nat} (small : numBytes * 8 < 2 ^ 32)

include small

/-- The guard of the loop is the bound of the index. -/
theorem addCpu_inRange {reader : MaskReader} (sized : reader.mask.length = numBytes) {cpu : Nat}
    (below : cpu < (numBytes * 8) % 2 ^ 32) : (setBit reader.mask cpu).isSome := by
  rw [Nat.mod_eq_of_lt small] at below
  rw [setBit_isSome_iff, sized]
  omega

theorem reads_addCpu {reader : MaskReader} (sized : reader.mask.length = numBytes) (cpu : Nat) :
    Reads numBytes reader (reader.addCpu numBytes cpu) fun k => k = cpu := by
  rw [MaskReader.addCpu]
  split
  next below =>
    obtain ⟨changed, set⟩ := Option.isSome_iff_exists.mp (addCpu_inRange small sized below)
    rw [Nat.mod_eq_of_lt small] at below
    rw [set, Option.getD_some]
    refine ⟨(length_setBit set).trans sized, fun k => ?_, ?_⟩
    · rw [testBit_setBit set, Bool.or_eq_true, decide_eq_true_iff]
      apply or_congr_right
      omega
    · refine iff_of_true rfl (.inr ⟨cpu, rfl, ?_⟩)
      omega
  next above =>
    rw [Nat.mod_eq_of_lt small] at above
    refine ⟨sized, fun k => ?_, ?_⟩
    · rw [iff_self_or]
      intro given
      omega
    · rw [iff_self_or]
      intro given
      obtain ⟨k, isCpu, below⟩ := given
      omega

theorem reads_addCpus (cpus : List Nat) :
    ∀ {reader : MaskReader}, reader.mask.length = numBytes →
      Reads numBytes reader (cpus.foldl (MaskReader.addCpu numBytes) reader) (· ∈ cpus) := by
  induction cpus with
  | nil =>
      intro reader sized
      exact (reads_nothing sized).congr (by simp)
  | cons cpu rest inductionHypothesis =>
      intro reader sized
      have first := reads_addCpu small sized cpu
      exact (first.trans (inductionHypothesis first.sized)).congr (by simp)

theorem reads_addPart {reader final : MaskReader} {part : List Char}
    (sized : reader.mask.length = numBytes) (added : reader.addPart numBytes part = some final) :
    Reads numBytes reader final (Names (Text.trimChars part)) := by
  rw [MaskReader.addPart] at added
  split at added
  next blank =>
    rw [← Option.some.inj added]
    refine (reads_nothing sized).congr fun k => ?_
    rw [false_iff]
    intro named
    obtain ⟨first, last, spells, _⟩ := named
    exact spells.ne_nil (List.isEmpty_iff.mp blank)
  next =>
    obtain ⟨range, read, rfl⟩ := Option.map_eq_some_iff.mp added
    have spells := (readRange_eq_some_iff _ _ _).mp read
    refine (reads_addCpus small _ sized).congr fun k => ?_
    rw [List.mem_range'_1]
    constructor
    · intro inside
      exact ⟨range.1, range.2, spells, by omega, by omega⟩
    · intro named
      obtain ⟨first, last, others, atLeast, atMost⟩ := named
      obtain ⟨firstEq, lastEq⟩ := spells.unique others
      omega

theorem reads_addParts (parts : List (List Char)) :
    ∀ {reader final : MaskReader}, reader.mask.length = numBytes →
      parts.foldlM (MaskReader.addPart numBytes) reader = some final →
      Reads numBytes reader final fun k => ∃ token ∈ parts.map Text.trimChars, Names token k := by
  induction parts with
  | nil =>
      intro reader final sized added
      rw [← Option.some.inj added]
      exact (reads_nothing sized).congr (by simp)
  | cons part rest inductionHypothesis =>
      intro reader final sized added
      rw [List.foldlM_cons] at added
      obtain ⟨middle, first, others⟩ := Option.bind_eq_some_iff.mp added
      have head := reads_addPart small sized first
      exact (head.trans (inductionHypothesis head.sized others)).congr (by simp)

end Reader

/-- The list is read where every token is blank, a number or a range. -/
theorem addParts_isSome_iff (numBytes : Nat) (parts : List (List Char)) :
    ∀ reader : MaskReader, (parts.foldlM (MaskReader.addPart numBytes) reader).isSome ↔
      ∀ token ∈ parts.map Text.trimChars, token = [] ∨ ∃ first last, Spells token first last := by
  induction parts with
  | nil => simp
  | cons part rest inductionHypothesis =>
      intro reader
      have head : (reader.addPart numBytes part).isSome ↔
          Text.trimChars part = [] ∨ ∃ first last, Spells (Text.trimChars part) first last := by
        rw [MaskReader.addPart]
        by_cases blank : Text.trimChars part = []
        · simp [blank]
        · simp [blank, Option.isSome_iff_exists, readRange_eq_some_iff]
      rw [List.foldlM_cons, List.map_cons, List.forall_mem_cons, ← head]
      cases reader.addPart numBytes part with
      | none => simp
      | some middle =>
          simpa using inductionHypothesis middle

/-! ## The two readers -/

/-- The tokens of a text that `CpuSet::parse` accepts, seen before the text is trimmed. -/
theorem tokens_of_parse {s : String} {maxCores : Nat} {set : CpuSet}
    (parsed : CpuSet.parse s maxCores = some set) :
    (∀ token ∈ (s.toList.splitOn ',').map Text.trimChars,
      token = [] ∨ ∃ first last, Spells token first last) ∧
    ∀ cpu, set.hasCpu cpu = true ↔
      ∃ token ∈ (s.toList.splitOn ',').map Text.trimChars, Names token cpu := by
  obtain ⟨ranges, lists, rfl⟩ := (CpuSet.parse_eq_some_iff _ _ _).mp parsed
  obtain ⟨listed, parts, taken⟩ := (CpuSet.splitOn_iff_listsCpus lists.ne_nil).mpr lists
  rw [← @trimmedTokens_trim ',' (by decide) s.toList]
  have tokens : ∀ token, token ∈ ((Text.trimChars s.toList).splitOn ',').map Text.trimChars →
      token = [] ∨ token ∈ listed.map Text.trimChars := by
    intro token member
    rcases parts with parts | ⟨last, parts, blank⟩
    · rw [parts] at member
      exact .inr member
    · rw [parts, List.map_append, List.mem_append] at member
      rcases member with inListed | isLast
      · exact .inr inListed
      · left
        simpa [blank] using isLast
  have isToken : ∀ token ∈ listed,
      Text.trimChars token ∈ ((Text.trimChars s.toList).splitOn ',').map Text.trimChars := by
    intro token member
    rcases parts with parts | ⟨last, parts, _⟩
    · rw [parts]
      exact List.mem_map_of_mem member
    · rw [parts]
      exact List.mem_map_of_mem (List.mem_append_left _ member)
  have ranged : ∀ token ∈ listed.map Text.trimChars, ∃ range ∈ ranges, Spells token range.1 range.2 := by
    intro token member
    obtain ⟨part, inListed, rfl⟩ := List.mem_map.mp member
    obtain ⟨range, inRanges, lists⟩ := CpuSet.exists_of_mem_forall₂ taken inListed
    exact ⟨range, inRanges, lists.spells⟩
  constructor
  · intro token member
    rcases tokens token member with blank | inListed
    · exact .inl blank
    · obtain ⟨range, _, spells⟩ := ranged token inListed
      exact .inr ⟨range.1, range.2, spells⟩
  · intro cpu
    rw [CpuSet.hasCpu_of_listsCpus lists]
    constructor
    · intro covered
      obtain ⟨range, inRanges, inside⟩ := covered
      obtain ⟨part, inListed, lists⟩ := CpuSet.exists_of_mem_forall₂ taken.flip inRanges
      exact ⟨_, isToken part inListed, range.1, range.2, lists.spells, inside⟩
    · intro named
      obtain ⟨token, member, first, last, spells, inside⟩ := named
      rcases tokens token member with blank | inListed
      · exact absurd blank spells.ne_nil
      · obtain ⟨range, inRanges, others⟩ := ranged token inListed
        obtain ⟨rfl, rfl⟩ := spells.unique others
        exact ⟨range, inRanges, inside⟩

/-- The reader of rules and the reader of kernel lists agree on every list the first one
accepts, and the second sets the bits of exactly the CPUs its tokens name. -/
theorem cpu_list_readers_agree (list : String) (numBytes : Nat) (small : 8 * numBytes < 2 ^ 32) :
    (∀ set, CpuSet.parse list (8 * numBytes) = some set →
      ∃ mask, maskFrom set (8 * numBytes) = some mask ∧
        maskFromCpuList list numBytes = some mask) ∧
    ∀ mask, maskFromCpuList list numBytes = some mask → ∀ k < 8 * numBytes,
      (testBit mask k = true ↔
        ∃ token ∈ list.toList.splitOn ',', ∃ first last,
          Spells (Text.trimChars token) first last ∧ first ≤ k ∧ k ≤ last) := by
  have bytes : numBytes * 8 < 2 ^ 32 := by
    omega
  have sized : (zeroes numBytes).length = numBytes := List.length_replicate
  -- Both halves read the same loop.
  have reads : ∀ {final : MaskReader},
      (list.toList.splitOn ',').foldlM (MaskReader.addPart numBytes) ⟨zeroes numBytes, false⟩ =
        some final →
      Reads numBytes ⟨zeroes numBytes, false⟩ final fun k =>
        ∃ token ∈ (list.toList.splitOn ',').map Text.trimChars, Names token k :=
    fun read => reads_addParts bytes _ sized read
  constructor
  · intro set parsed
    obtain ⟨readable, cpus⟩ := tokens_of_parse parsed
    obtain ⟨final, read⟩ := Option.isSome_iff_exists.mp
      ((addParts_isSome_iff numBytes (list.toList.splitOn ',') ⟨zeroes numBytes, false⟩).mpr readable)
    have done := reads read
    obtain ⟨ranges, lists, rfl⟩ := (CpuSet.parse_eq_some_iff _ _ _).mp parsed
    have bound : ((CpuSet.new (8 * numBytes)).setRanges ranges).maxCores = 8 * numBytes :=
      CpuSet.maxCores_setRanges ranges _
    have full : 8 * numBytes / 8 = numBytes := by
      omega
    have isSome := (maskFrom_isSome_iff ((CpuSet.new (8 * numBytes)).setRanges ranges)
      (8 * numBytes)).mpr fun cpu _ below => by rwa [full]
    obtain ⟨mask, built⟩ := Option.isSome_iff_exists.mp isSome
    have sameMask : final.mask = mask := by
      apply ext_testBit
      · rw [done.sized, length_maskFrom built, full]
      · intro k
        rw [Bool.eq_iff_iff, done.bits, testBit_zeroes, testBit_maskFrom built, cpus]
        simp
    have found : final.any = true := by
      obtain ⟨cpu, covered⟩ := lists.covers
      have has := (CpuSet.hasCpu_of_listsCpus lists cpu).mpr covered
      refine done.any.mpr (.inr ⟨cpu, (cpus cpu).mp has, ?_⟩)
      rw [← bound]
      exact CpuSet.lt_of_hasCpu has
    refine ⟨mask, built, ?_⟩
    rw [maskFromCpuList, read, Option.bind_some, if_pos found, sameMask]
  · intro mask answered k below
    obtain ⟨final, read, kept⟩ := Option.bind_eq_some_iff.mp answered
    split at kept
    next =>
      rw [← Option.some.inj kept, (reads read).bits, testBit_zeroes]
      simp [below, Names]
    next => exact absurd kept (by simp)

theorem cpu_list_readers_agree_on_two_bytes :
    ∃ set mask, CpuSet.parse "0-1,9" (8 * 2) = some set ∧ maskFrom set (8 * 2) = some mask ∧
      maskFromCpuList "0-1,9" 2 = some mask := by
  obtain ⟨set, parsed⟩ : ∃ set, CpuSet.parse "0-1,9" (8 * 2) = some set :=
    Option.isSome_iff_exists.mp (by decide)
  obtain ⟨mask, built, read⟩ := (cpu_list_readers_agree "0-1,9" 2 (by decide)).1 set parsed
  exact ⟨set, mask, parsed, built, read⟩

end AnanicyRs.Platform.Affinity
