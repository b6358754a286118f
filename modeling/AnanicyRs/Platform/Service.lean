import AnanicyRs.Lib.UnixPath

/-!
Contract: the unit name of the daemon, `crates/ananicy-platform/src/service.rs`.

Owns `read_own_cgroup_path`, `unit_name_from_cgroup_path` and the heuristic made of both,
as functions of the text of `/proc/self/cgroup`.

Does not own `get_unit_name`: with systemd it asks a library first, and without it answers
a constant.
-/

set_option autoImplicit false

namespace AnanicyRs.Platform.Service

open AnanicyRs.Lib

/-! ## Readers -/

/-- The components of a cgroup path, the topmost one first. -/
def segments (cgroupPath : String) : List String :=
  ((cgroupPath.toList.splitOn '/').filter (· ≠ [])).map String.ofList

def isUnit (segment : String) : Bool :=
  !Text.endsWith segment ".slice" && !Text.endsWith segment ".scope"

def unitNameFromCgroupPath (cgroupPath : String) : Option String :=
  (segments cgroupPath).reverse.find? isUnit

/-- `read_own_cgroup_path`, on what reading `/proc/self/cgroup` gave. -/
def readOwnCgroupPath (selfCgroup : Option String) : Option String := do
  let content ← selfCgroup
  let firstLine ← (Text.linesChars content.toList).head?
  if firstLine.isEmpty then none
  else
    let idx ← Text.rfind ':' firstLine
    let path ← Text.sliceFrom firstLine (idx + 1)
    if path.isEmpty then none else some (String.ofList path)

def getUnitNameHeuristic (selfCgroup : Option String) : String :=
  match readOwnCgroupPath selfCgroup with
  | none => "<empty>"
  | some cgroupPath => (unitNameFromCgroupPath cgroupPath).getD "<empty>"

/-! ## The deepest unit -/

/-- The deepest component that is neither a slice nor a scope. -/
def DeepestUnit (cgroupPath unit : String) : Prop :=
  ∃ above below, segments cgroupPath = above ++ unit :: below ∧ isUnit unit = true ∧
    ∀ segment ∈ below, isUnit segment = false

theorem unitNameFromCgroupPath_eq_some_iff {cgroupPath unit : String} :
    unitNameFromCgroupPath cgroupPath = some unit ↔ DeepestUnit cgroupPath unit := by
  rw [unitNameFromCgroupPath, List.find?_eq_some_iff_append]
  constructor
  · rintro ⟨isUnit, below, above, split, skipped⟩
    refine ⟨above.reverse, below.reverse, ?_, isUnit, ?_⟩
    · rw [← List.reverse_reverse (segments cgroupPath), split]
      simp
    · intro segment member
      simpa using skipped segment (List.mem_reverse.mp member)
  · rintro ⟨above, below, split, isUnit, skipped⟩
    refine ⟨isUnit, below.reverse, above.reverse, ?_, ?_⟩
    · rw [split]
      simp
    · intro segment member
      simpa using skipped segment (List.mem_reverse.mp member)

theorem unitNameFromCgroupPath_eq_none {cgroupPath : String}
    (noUnit : ∀ unit, ¬ DeepestUnit cgroupPath unit) : unitNameFromCgroupPath cgroupPath = none := by
  cases found : unitNameFromCgroupPath cgroupPath with
  | none => rfl
  | some unit => exact absurd (unitNameFromCgroupPath_eq_some_iff.mp found) (noUnit unit)

/-! ## The path of a line -/

/-- What is read is what stands behind the last colon of the first line. -/
theorem readOwnCgroupPath_eq_some_iff {content path : String} {line : List Char}
    {others : List (List Char)} (split : Text.linesChars content.toList = line :: others) :
    readOwnCgroupPath (some content) = some path ↔
      ∃ front, line = front ++ ':' :: path.toList ∧ ':' ∉ path.toList ∧ path ≠ "" := by
  have colon : Text.byteLen [':'] = 1 := by
    decide
  have afterColon (front tail : List Char) :
      Text.sliceFrom (front ++ ':' :: tail) (Text.byteLen front + 1) = some tail := by
    have sliced := Text.sliceFrom_append (front ++ [':']) tail
    rw [Text.byteLen_append, colon, List.append_assoc, List.singleton_append] at sliced
    exact sliced
  simp only [readOwnCgroupPath, split, Option.bind_eq_bind, Option.bind_some, List.head?_cons]
  constructor
  · intro read
    split at read
    next => simp at read
    next =>
      obtain ⟨idx, last, afterIdx⟩ := Option.bind_eq_some_iff.mp read
      obtain ⟨front, tail, parts, fresh, rfl⟩ := Text.rfind_eq_some last
      subst parts
      rw [afterColon, Option.bind_some, Option.ite_none_left_eq_some] at afterIdx
      obtain ⟨notEmpty, isPath⟩ := afterIdx
      have sameTail : path.toList = tail := by
        rw [← Option.some.inj isPath, String.toList_ofList]
      rw [sameTail]
      refine ⟨front, rfl, fresh, ?_⟩
      rintro rfl
      rw [← sameTail] at notEmpty
      exact notEmpty rfl
  · rintro ⟨front, rfl, fresh, nonempty⟩
    have notEmpty : ¬ (path.toList.isEmpty = true) := by
      rw [List.isEmpty_iff, String.toList_eq_nil_iff]
      exact nonempty
    rw [if_neg (by simp), Text.rfind_append fresh, Option.bind_some, afterColon, Option.bind_some,
      if_neg notEmpty, String.ofList_toList]

end AnanicyRs.Platform.Service
