import AnanicyRs.Lib.ListIndex
import Mathlib.Control.Basic

/-!
Contract: the process-wide name table of `crates/ananicy-core/src/rules.rs`.

Owns `NameTable` (`intern`, `get`), the two-byte attributes that index it
(`NameAttribute`, `TypeNameId`), and the facts every two-run argument rests on: the
table only grows, an index handed out never changes its meaning, and interning a
name again answers the same index without changing the table.

The table is one lock-protected static; loading is single-threaded, so it is passed
as state. Names past the last index are recorded as unusable, which is the one way
a result can depend on what was interned before.
-/

set_option autoImplicit false

namespace AnanicyRs.Core

open AnanicyRs.Lib.ListIndex

/-! ## The table -/

/-- `NAME_FIRST_VALUE`: below it are the two states that are not a value. -/
def nameFirstValue : Nat := 2

def u16Max : Nat := 65535

/-- The distinct names in the order they came, and the index of each. -/
structure NameTable where
  values : List String
  index : AList fun _ : String => Nat
  agrees : Indexes nameFirstValue index values
  bounded : nameFirstValue + values.length ≤ u16Max + 1

namespace NameTable

def empty : NameTable where
  values := []
  index := ∅
  agrees := indexes_empty nameFirstValue
  bounded := by decide

def append (table : NameTable) (name : String) (absent : table.index.lookup name = none)
    (room : nameFirstValue + table.values.length ≤ u16Max) : NameTable where
  values := table.values ++ [name]
  index := table.index.insert name (nameFirstValue + table.values.length)
  agrees := table.agrees.append ((table.agrees.lookup_eq_none_iff name).mp absent)
  bounded := by
    rw [List.length_append, List.length_singleton]
    omega

def intern (name : String) : StateM NameTable Nat := fun table =>
  match found : table.index.lookup name with
  | some id => (id, table)
  | none =>
      if room : nameFirstValue + table.values.length ≤ u16Max then
        (nameFirstValue + table.values.length, table.append name found room)
      else (1, table)

def get (table : NameTable) (position : Nat) : Option String := table.values[position]?

/-! ## Growth -/

/-- `later` holds the names of `table` at the same places. -/
def Grows (table later : NameTable) : Prop := table.values <+: later.values

def NotFull (table : NameTable) : Prop := nameFirstValue + table.values.length ≤ u16Max

instance (table : NameTable) : Decidable table.NotFull := inferInstanceAs (Decidable (_ ≤ _))

theorem Grows.refl (table : NameTable) : Grows table table := List.prefix_refl _

theorem Grows.trans {first second third : NameTable} (lower : Grows first second)
    (upper : Grows second third) : Grows first third :=
  List.IsPrefix.trans lower upper

theorem Grows.notFull {table later : NameTable} (grows : Grows table later)
    (notFull : later.NotFull) : table.NotFull := by
  have shorter := grows.length_le
  unfold NotFull at notFull ⊢
  omega

theorem Grows.get {table later : NameTable} (grows : Grows table later) {position : Nat}
    {name : String} (listed : table.get position = some name) :
    later.get position = some name := by
  obtain ⟨rest, extended⟩ := grows
  unfold NameTable.get at listed ⊢
  rw [← extended, List.getElem?_append_left (List.getElem?_eq_some_iff.mp listed).1]
  exact listed

theorem Grows.values_eq {table later : NameTable} (grows : Grows table later)
    (full : ¬ table.NotFull) : later.values = table.values := by
  refine (grows.eq_of_length ?_).symm
  have shorter := grows.length_le
  have bounded := later.bounded
  unfold NotFull at full
  omega

/-- What `intern` answers: a listed name keeps its index, a new one is appended
while there is room, and after that it is unusable. -/
theorem intern_cases (name : String) (table : NameTable) :
    (∃ position, table.get position = some name ∧
        intern name table = (nameFirstValue + position, table)) ∨
      (name ∉ table.values ∧ table.NotFull ∧
        (intern name table).1 = nameFirstValue + table.values.length ∧
        (intern name table).2.values = table.values ++ [name]) ∨
      (name ∉ table.values ∧ ¬ table.NotFull ∧ intern name table = (1, table)) := by
  unfold intern
  split
  next id found =>
    obtain ⟨position, rfl, listed⟩ := (table.agrees name id).mp found
    exact .inl ⟨position, listed, rfl⟩
  next absent =>
    have unlisted := (table.agrees.lookup_eq_none_iff name).mp absent
    split
    next room => exact .inr (.inl ⟨unlisted, room, rfl, rfl⟩)
    next full => exact .inr (.inr ⟨unlisted, full, rfl⟩)

theorem intern_of_get {name : String} {table : NameTable} {position : Nat}
    (listed : table.get position = some name) :
    intern name table = (nameFirstValue + position, table) := by
  have found := table.agrees.lookup_of_getElem listed
  unfold intern
  split
  next id indexed =>
    rw [found] at indexed
    rw [Option.some.inj indexed]
  next absent =>
    rw [found] at absent
    exact absurd absent (by simp)

theorem intern_of_fresh {name : String} {table : NameTable}
    (fresh : name ∉ table.values) (room : table.NotFull) :
    (intern name table).1 = nameFirstValue + table.values.length ∧
      (intern name table).2.values = table.values ++ [name] := by
  rcases intern_cases name table with ⟨position, listed, _⟩ | ⟨_, _, appended⟩ | ⟨_, full, _⟩
  · exact absurd (List.mem_of_getElem? listed) fresh
  · exact appended
  · exact absurd room full

theorem intern_of_full {name : String} {table : NameTable}
    (fresh : name ∉ table.values) (full : ¬ table.NotFull) :
    intern name table = (1, table) := by
  rcases intern_cases name table with ⟨position, listed, _⟩ | ⟨_, room, _⟩ | ⟨_, _, unusable⟩
  · exact absurd (List.mem_of_getElem? listed) fresh
  · exact absurd room full
  · exact unusable

theorem intern_grows (name : String) (table : NameTable) :
    Grows table (intern name table).2 := by
  rcases intern_cases name table with ⟨position, _, answer⟩ | ⟨_, _, _, values⟩ | ⟨_, _, answer⟩
  · rw [answer]
    exact Grows.refl table
  · unfold Grows
    rw [values]
    exact List.prefix_append _ _
  · rw [answer]
    exact Grows.refl table

/-- Interning a name again, in any later table, answers the same index and leaves
that table alone. -/
theorem intern_stable {name : String} {table later : NameTable}
    (grows : Grows (intern name table).2 later) :
    intern name later = ((intern name table).1, later) := by
  rcases intern_cases name table with
    ⟨position, listed, answer⟩ | ⟨_, _, index, values⟩ | ⟨unlisted, full, answer⟩
  · rw [answer] at grows ⊢
    exact intern_of_get (grows.get listed)
  · rw [index]
    refine intern_of_get (grows.get ?_)
    simp [NameTable.get, values]
  · rw [answer] at grows ⊢
    have same := grows.values_eq full
    apply intern_of_full (by rwa [same])
    unfold NotFull at full ⊢
    rwa [same]

/-- While the table is not full, the index handed out names the name. -/
theorem get_intern {name : String} {table later : NameTable}
    (grows : Grows (intern name table).2 later) (notFull : later.NotFull) :
    ∃ position, (intern name table).1 = nameFirstValue + position ∧
      later.get position = some name := by
  rcases intern_cases name table with
    ⟨position, listed, answer⟩ | ⟨_, _, index, values⟩ | ⟨_, full, answer⟩
  · rw [answer] at grows ⊢
    exact ⟨position, rfl, grows.get listed⟩
  · refine ⟨table.values.length, index, grows.get ?_⟩
    simp [NameTable.get, values]
  · rw [answer] at grows
    exact absurd (grows.notFull notFull) full

end NameTable

/-! ## Attributes that index the table -/

/-- `NameAttribute`: `0` is absent, `1` is declared unusable, above is a name. -/
structure NameAttribute where
  raw : Nat
deriving DecidableEq, Repr

namespace NameAttribute

def absent : NameAttribute := ⟨0⟩

def unusable : NameAttribute := ⟨1⟩

def intern (name : String) : StateM NameTable NameAttribute := do
  let id ← NameTable.intern name
  pure ⟨id⟩

def isAbsent (name : NameAttribute) : Bool := name.raw == 0

def asStr (table : NameTable) (name : NameAttribute) : Option String :=
  match name.raw with
  | 0 | 1 => none
  | id => table.get (id - nameFirstValue)

end NameAttribute

/-- `TypeNameId`: `0` names no type. -/
structure TypeNameId where
  raw : Nat
deriving DecidableEq, Repr

namespace TypeNameId

def none : TypeNameId := ⟨0⟩

def intern (name : String) : StateM NameTable TypeNameId := do
  let id ← NameTable.intern name
  pure ⟨id - 1⟩

def asStr (table : NameTable) (typeName : TypeNameId) : Option String :=
  match typeName.raw with
  | 0 => Option.none
  | id => table.get (id - 1)

end TypeNameId

end AnanicyRs.Core
