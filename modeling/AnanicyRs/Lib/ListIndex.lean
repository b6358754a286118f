import Mathlib.Data.List.AList
import Mathlib.Data.List.Basic

/-!
Contract: a map that knows where each value of a list stands.

`Indexes offset map values` says that `map` takes exactly the listed values to their
positions, counted from `offset`. It is the invariant of every structure that keeps
a list together with a hash map of indices into it. `Numbers` is the same for a map that
writes its positions in another type, such as a machine integer.
-/

set_option autoImplicit false

namespace AnanicyRs.Lib.ListIndex

variable {α : Type} [DecidableEq α]

/-- `map` answers with the position of each listed value, and with nothing else. -/
def Indexes (offset : Nat) (map : AList fun _ : α => Nat) (values : List α) : Prop :=
  ∀ value id, map.lookup value = some id ↔
    ∃ position : Nat, id = offset + position ∧ values[position]? = some value

theorem indexes_empty (offset : Nat) : Indexes offset (∅ : AList fun _ : α => Nat) [] := by
  intro value id
  simp

section Rules

variable {offset : Nat} {map : AList fun _ : α => Nat} {values : List α}

theorem Indexes.lookup_of_getElem (indexes : Indexes offset map values) {position : Nat}
    {value : α} (listed : values[position]? = some value) :
    map.lookup value = some (offset + position) :=
  (indexes value (offset + position)).mpr ⟨position, rfl, listed⟩

theorem Indexes.lookup_eq_none_iff (indexes : Indexes offset map values) (value : α) :
    map.lookup value = none ↔ value ∉ values := by
  constructor
  · intro absent member
    obtain ⟨position, listed⟩ := List.mem_iff_getElem?.mp member
    rw [indexes.lookup_of_getElem listed] at absent
    exact absurd absent (by simp)
  · intro unlisted
    cases found : map.lookup value with
    | none => rfl
    | some id =>
        obtain ⟨position, _, listed⟩ := (indexes value id).mp found
        exact absurd (List.mem_of_getElem? listed) unlisted

theorem Indexes.isSome_lookup_iff (indexes : Indexes offset map values) (value : α) :
    (map.lookup value).isSome = true ↔ value ∈ values := by
  rw [← not_iff_not, Bool.not_eq_true, Option.isSome_eq_false_iff, Option.isNone_iff_eq_none]
  exact indexes.lookup_eq_none_iff value

theorem Indexes.append (indexes : Indexes offset map values) {value : α}
    (unlisted : value ∉ values) :
    Indexes offset (map.insert value (offset + values.length)) (values ++ [value]) := by
  intro other id
  by_cases same : other = value
  · subst same
    rw [AList.lookup_insert, Option.some.injEq]
    constructor
    · rintro rfl
      exact ⟨values.length, rfl, by simp⟩
    · intro given
      rcases given with ⟨position, rfl, listed⟩
      rcases Nat.lt_or_ge position values.length with inside | outside
      · rw [List.getElem?_append_left inside] at listed
        exact absurd (List.mem_of_getElem? listed) unlisted
      · have inRange := (List.getElem?_eq_some_iff.mp listed).1
        rw [List.length_append, List.length_singleton] at inRange
        have isLast : position = values.length := by omega
        rw [isLast]
  · rw [AList.lookup_insert_ne same, indexes]
    constructor
    · intro given
      rcases given with ⟨position, rfl, listed⟩
      refine ⟨position, rfl, ?_⟩
      rw [List.getElem?_append_left (List.getElem?_eq_some_iff.mp listed).1]
      exact listed
    · intro given
      rcases given with ⟨position, rfl, listed⟩
      refine ⟨position, rfl, ?_⟩
      rcases Nat.lt_or_ge position values.length with inside | outside
      · rwa [List.getElem?_append_left inside] at listed
      · rw [List.getElem?_append_right outside] at listed
        exact absurd (List.mem_singleton.mp (List.mem_of_getElem? listed)) same

/-- A value has one position. -/
theorem Indexes.nodup (indexes : Indexes offset map values) : values.Nodup := by
  rw [List.nodup_iff_getElem?_ne_getElem?]
  intro first second before inside same
  have listed : values[second]? = some values[second] := List.getElem?_eq_getElem inside
  have atFirst := indexes.lookup_of_getElem (same.trans listed)
  rw [indexes.lookup_of_getElem listed, Option.some.injEq] at atFirst
  omega

/-- Writing a known index again changes nothing. -/
theorem Indexes.insert_known (indexes : Indexes offset map values) {value : α} {id : Nat}
    (known : map.lookup value = some id) : Indexes offset (map.insert value id) values := by
  intro other otherId
  by_cases same : other = value
  · subst same
    rw [AList.lookup_insert, ← known]
    exact indexes other otherId
  · rw [AList.lookup_insert_ne same]
    exact indexes other otherId

end Rules

/-! ## Positions in another type -/

/-- `map` answers with the `number` of the position of each listed value, and is as large as
the list. -/
structure Numbers {β : Type} (number : Nat → β) (map : AList fun _ : α => β) (values : List α) :
    Prop where
  size : map.entries.length = values.length
  lookup : ∀ value, map.lookup value =
    if value ∈ values then some (number (values.idxOf value)) else none

section Numbers

variable {β : Type} {number : Nat → β} {map : AList fun _ : α => β} {values : List α}

theorem numbers_empty (number : Nat → β) : Numbers number (∅ : AList fun _ : α => β) [] where
  size := rfl
  lookup value := by simp

/-- A value that is not listed gets the next number. -/
theorem Numbers.append (numbers : Numbers number map values) {value : α} (unlisted : value ∉ values) :
    Numbers number (map.insert value (number map.entries.length)) (values ++ [value]) where
  size := by
    have absent : value ∉ map := by
      rw [← AList.lookup_isSome, numbers.lookup, if_neg unlisted]
      exact Bool.false_ne_true
    rw [AList.entries_insert_of_notMem absent, List.length_cons, numbers.size, List.length_append,
      List.length_singleton]
  lookup other := by
    by_cases same : other = value
    · subst same
      have atEnd : (values ++ [other]).idxOf other = values.length := by
        rw [List.idxOf_append_of_notMem unlisted, List.idxOf_cons_self, Nat.add_zero]
      rw [AList.lookup_insert, if_pos (by simp), atEnd, numbers.size]
    · have inBoth : other ∈ values ++ [value] ↔ other ∈ values := by simp [same]
      rw [AList.lookup_insert_ne same, numbers.lookup]
      by_cases listed : other ∈ values
      · rw [if_pos listed, if_pos (inBoth.mpr listed), List.idxOf_append_of_mem listed]
      · rw [if_neg listed, if_neg (mt inBoth.mp listed)]

end Numbers

end AnanicyRs.Lib.ListIndex
