import AnanicyRs.Core.NameTable
import AnanicyRs.Lib.LastWins

/-!
Contract: the name table over whole runs of `intern`.

`internAll` is the table after a sequence of names, starting from the empty one.
`values_internAll` says which names it holds: the first `capacity` distinct ones, in the
order they came. What a call answers, and what that answer denotes in every later table,
follows from it and from the growth lemmas of one call.
-/

set_option autoImplicit false

namespace AnanicyRs.Core

open AnanicyRs.Lib.LastWins

namespace NameTable

/-- The table after the names have been interned, one after another. -/
def internAll (names : List String) : NameTable :=
  names.foldl (fun table name => (intern name table).2) empty

/-- What `intern` answers to a name, after the names before it. -/
def idOf (before : List String) (name : String) : Nat := (intern name (internAll before)).1

/-- How many names have an id: the ids are `2` to `65535`. -/
def capacity : Nat := 65534

theorem notFull_iff (table : NameTable) : table.NotFull ↔ table.values.length < capacity := by
  unfold NotFull nameFirstValue u16Max capacity
  omega

/-! ## The names of a run -/

theorem internAll_concat (names : List String) (name : String) :
    internAll (names ++ [name]) = (intern name (internAll names)).2 := by
  rw [internAll, List.foldl_append]
  rfl

theorem internAll_grows (before later : List String) :
    Grows (internAll before) (internAll (before ++ later)) := by
  induction later using List.reverseRecOn with
  | nil =>
      rw [List.append_nil]
      exact Grows.refl _
  | append_singleton later name inductionHypothesis =>
      rw [← List.append_assoc, internAll_concat]
      exact inductionHypothesis.trans (intern_grows name _)

/-- A later table holds what the table right after a call held. -/
theorem answer_grows (before later : List String) (name : String) :
    Grows (intern name (internAll before)).2 (internAll (before ++ name :: later)) := by
  have split : before ++ name :: later = before ++ [name] ++ later := List.append_cons before name later
  rw [← internAll_concat, split]
  exact internAll_grows (before ++ [name]) later

theorem values_internAll (names : List String) :
    (internAll names).values = (declared names).take capacity := by
  induction names using List.reverseRecOn with
  | nil => rfl
  | append_singleton names name inductionHypothesis =>
      rw [internAll_concat, declared_concat]
      have taken := congrArg List.length inductionHypothesis
      rw [List.length_take] at taken
      by_cases held : name ∈ (internAll names).values
      · have known : name ∈ declared names := by
          rw [inductionHypothesis] at held
          exact List.mem_of_mem_take held
        obtain ⟨position, listed⟩ := List.mem_iff_getElem?.mp held
        rw [intern_of_get listed, if_pos known]
        exact inductionHypothesis
      · by_cases room : (internAll names).NotFull
        · have few : (declared names).length ≤ capacity := by
            have short := (notFull_iff _).mp room
            omega
          rw [List.take_of_length_le few] at inductionHypothesis
          rw [inductionHypothesis] at held
          rw [if_neg held, (intern_of_fresh (by rwa [inductionHypothesis]) room).2,
            inductionHypothesis, List.take_of_length_le]
          rw [notFull_iff, inductionHypothesis] at room
          rw [List.length_append, List.length_singleton]
          omega
        · have many : capacity ≤ (declared names).length := by
            have long := (notFull_iff _).not.mp room
            omega
          rw [intern_of_full held room, inductionHypothesis]
          split
          · rfl
          · rw [List.take_append_of_le_length many]

/-- The table is full once `capacity` distinct names have been interned. -/
theorem notFull_internAll_iff (names : List String) :
    (internAll names).NotFull ↔ names.dedup.length < capacity := by
  rw [notFull_iff, values_internAll, List.length_take, (declared_perm_dedup names).length_eq]
  omega

/-! ## Answers -/

theorem idOf_bounds (before : List String) (name : String) :
    1 ≤ idOf before name ∧ idOf before name ≤ u16Max := by
  rw [idOf]
  have bounded := (internAll before).bounded
  rcases intern_cases name (internAll before) with
    ⟨position, listed, answer⟩ | ⟨_, room, index, _⟩ | ⟨_, _, answer⟩
  · have inside := (List.getElem?_eq_some_iff.mp listed).1
    rw [answer]
    unfold nameFirstValue u16Max at *
    omega
  · rw [index]
    unfold NotFull nameFirstValue u16Max at *
    omega
  · rw [answer]
    have inRange : 1 ≤ u16Max := by
      decide
    exact ⟨Nat.le_refl 1, inRange⟩

/-- The first time or later, a name has one id. -/
theorem idOf_again (before middle : List String) (name : String) :
    idOf (before ++ name :: middle) name = idOf before name := by
  have stable := intern_stable (answer_grows before middle name)
  rw [idOf, stable, idOf]

theorem get_idOf {before : List String} {name : String} (isName : nameFirstValue ≤ idOf before name)
    (later : List String) :
    (internAll (before ++ name :: later)).get (idOf before name - nameFirstValue) = some name := by
  apply (answer_grows before later name).get
  unfold idOf at isName ⊢
  rcases intern_cases name (internAll before) with
    ⟨position, listed, answer⟩ | ⟨_, _, index, values⟩ | ⟨_, _, answer⟩
  · rw [answer, Nat.add_sub_cancel_left]
    exact listed
  · rw [index, Nat.add_sub_cancel_left, NameTable.get, values, List.getElem?_concat_length]
  · rw [answer] at isName
    have small : ¬ nameFirstValue ≤ 1 := by
      decide
    exact absurd isName small

theorem idOf_injective {before middle : List String} {first second : String}
    (isName : nameFirstValue ≤ idOf before first)
    (same : idOf before first = idOf (before ++ first :: middle) second) : first = second := by
  have atFirst := get_idOf isName (middle ++ [second])
  have laterName : nameFirstValue ≤ idOf (before ++ first :: middle) second := by
    rwa [← same]
  have atSecond := get_idOf laterName []
  rw [List.append_assoc, List.cons_append, ← same, atFirst] at atSecond
  exact Option.some.inj atSecond

/-- A name gets an id of its own if it has one already or there is room. -/
theorem isName_iff (before : List String) (name : String) :
    nameFirstValue ≤ idOf before name ↔
      name ∈ (internAll before).values ∨ (internAll before).NotFull := by
  rw [idOf]
  rcases intern_cases name (internAll before) with
    ⟨position, listed, answer⟩ | ⟨_, room, index, _⟩ | ⟨fresh, full, answer⟩
  · rw [answer]
    have held : name ∈ (internAll before).values := List.mem_of_getElem? listed
    simp [held]
  · rw [index]
    simp [room]
  · rw [answer]
    have small : ¬ nameFirstValue ≤ 1 := by
      decide
    simp [fresh, full, small]

end NameTable

/-! ## Handles -/

theorem NameAttribute.intern_eq (name : String) (table : NameTable) :
    NameAttribute.intern name table =
      (⟨(NameTable.intern name table).1⟩, (NameTable.intern name table).2) := rfl

theorem TypeNameId.intern_eq (name : String) (table : NameTable) :
    TypeNameId.intern name table =
      (⟨(NameTable.intern name table).1 - 1⟩, (NameTable.intern name table).2) := rfl

theorem NameAttribute.asStr_of_isName {id : Nat} (isName : nameFirstValue ≤ id) (table : NameTable) :
    NameAttribute.asStr table ⟨id⟩ = table.get (id - nameFirstValue) := by
  obtain ⟨position, rfl⟩ := Nat.exists_eq_add_of_le isName
  rw [Nat.add_comm]
  rfl

theorem TypeNameId.asStr_of_isName {id : Nat} (isName : nameFirstValue ≤ id) (table : NameTable) :
    TypeNameId.asStr table ⟨id - 1⟩ = table.get (id - nameFirstValue) := by
  obtain ⟨position, rfl⟩ := Nat.exists_eq_add_of_le isName
  rw [Nat.add_comm]
  rfl

/-- For as long as a process runs, in whatever order names come: the table and its index
are inverse, an id stands for one name and a name for one id, and a name past the
capacity has none. -/
theorem interning_is_injective_and_stable (before : List String) (name : String) :
    (∀ listed id, (NameTable.internAll before).index.lookup listed = some id ↔
      ∃ position, id = nameFirstValue + position ∧
        (NameTable.internAll before).get position = some listed) ∧
    (NameTable.internAll before).values.Nodup ∧
    (1 ≤ NameTable.idOf before name ∧ NameTable.idOf before name ≤ u16Max) ∧
    (∀ middle second, nameFirstValue ≤ NameTable.idOf before name →
      (NameTable.idOf (before ++ name :: middle) second = NameTable.idOf before name ↔
        second = name)) ∧
    (∀ later, nameFirstValue ≤ NameTable.idOf before name →
      (NameTable.internAll (before ++ name :: later)).get
        (NameTable.idOf before name - nameFirstValue) = some name) ∧
    (before.dedup.length < NameTable.capacity ∨ name ∈ (NameTable.internAll before).values →
      ∀ later,
        (NameAttribute.intern name (NameTable.internAll before)).1.asStr
            (NameTable.internAll (before ++ name :: later)) = some name ∧
        (TypeNameId.intern name (NameTable.internAll before)).1.asStr
            (NameTable.internAll (before ++ name :: later)) = some name) ∧
    (NameTable.capacity ≤ before.dedup.length → name ∉ (NameTable.internAll before).values →
      NameAttribute.intern name (NameTable.internAll before) =
          (NameAttribute.unusable, NameTable.internAll before) ∧
        TypeNameId.intern name (NameTable.internAll before) =
          (TypeNameId.none, NameTable.internAll before)) := by
  have denotes := fun (isName : nameFirstValue ≤ NameTable.idOf before name) later =>
    NameTable.get_idOf isName later
  refine ⟨(NameTable.internAll before).agrees, (NameTable.internAll before).agrees.nodup,
    NameTable.idOf_bounds before name, fun middle second isName => ⟨fun same => ?_, ?_⟩,
    fun later isName => denotes isName later, fun known later => ?_, fun full fresh => ?_⟩
  · exact (NameTable.idOf_injective isName same.symm).symm
  · rintro rfl
    exact NameTable.idOf_again before middle second
  · have isName : nameFirstValue ≤ NameTable.idOf before name := by
      rw [NameTable.isName_iff, NameTable.notFull_internAll_iff]
      exact known.symm
    rw [NameAttribute.intern_eq, TypeNameId.intern_eq]
    constructor
    · exact (NameAttribute.asStr_of_isName isName _).trans (denotes isName later)
    · exact (TypeNameId.asStr_of_isName isName _).trans (denotes isName later)
  · have isFull : ¬ (NameTable.internAll before).NotFull := by
      rw [NameTable.notFull_internAll_iff]
      omega
    rw [NameAttribute.intern_eq, TypeNameId.intern_eq, NameTable.intern_of_full fresh isFull]
    exact ⟨rfl, rfl⟩

end AnanicyRs.Core
