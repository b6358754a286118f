import Mathlib.Data.List.Basic

/-!
Contract: a cache that may forget.

`LossyCache` is what a program may rely on: a lookup answers nothing or the last
value put for the key, and anything may have been evicted. `Coherent` relates the
entries of a cache to the function it remembers; it is kept by lookups, by putting
what the function answers, and by any change of the function that spares the keys
still held. `lru` is the instance with least-recently-used eviction.
-/

set_option autoImplicit false

namespace AnanicyRs.Lib.Cache

variable {κ α β : Type}

/-- The operations of a cache with states `κ`, and what an entry's presence says. -/
structure LossyCache (κ α β : Type) where
  empty : κ
  get : α → κ → Option β × κ
  put : α → β → κ → κ
  clear : κ → κ
  Holds : κ → α → β → Prop
  empty_holds : ∀ key value, ¬ Holds empty key value
  get_holds : ∀ key state value, (get key state).1 = some value → Holds state key value
  get_keeps : ∀ key state other value, Holds (get key state).2 other value →
    Holds state other value
  put_holds : ∀ key value state other held, Holds (put key value state) other held →
    (other = key ∧ held = value) ∨ (other ≠ key ∧ Holds state other held)
  clear_holds : ∀ state key value, ¬ Holds (clear state) key value

/-- Every entry is the answer of the remembered function. -/
def Coherent (cache : LossyCache κ α β) (answer : α → β) (state : κ) : Prop :=
  ∀ key value, cache.Holds state key value → value = answer key

section Rules

variable {cache : LossyCache κ α β} {answer : α → β} {state : κ}

theorem coherent_empty (cache : LossyCache κ α β) (answer : α → β) :
    Coherent cache answer cache.empty :=
  fun key value held => absurd held (cache.empty_holds key value)

theorem coherent_clear (cache : LossyCache κ α β) (answer : α → β) (state : κ) :
    Coherent cache answer (cache.clear state) :=
  fun key value held => absurd held (cache.clear_holds state key value)

theorem Coherent.get_eq (coherent : Coherent cache answer state) {key : α} {value : β}
    (found : (cache.get key state).1 = some value) : value = answer key :=
  coherent key value (cache.get_holds key state value found)

theorem Coherent.get (coherent : Coherent cache answer state) (key : α) :
    Coherent cache answer (cache.get key state).2 :=
  fun other value held => coherent other value (cache.get_keeps key state other value held)

theorem Coherent.put (coherent : Coherent cache answer state) (key : α) :
    Coherent cache answer (cache.put key (answer key) state) := by
  intro other value held
  rcases cache.put_holds key (answer key) state other value held with ⟨rfl, rfl⟩ | ⟨_, before⟩
  · rfl
  · exact coherent other value before

/-- A new function that agrees on the keys still held. -/
theorem Coherent.change {next : α → β} (coherent : Coherent cache answer state)
    (spares : ∀ key, cache.Holds state key (answer key) → next key = answer key) :
    Coherent cache next state := by
  intro key value held
  have isAnswer := coherent key value held
  subst isAnswer
  exact (spares key held).symm

end Rules

/-- Most recently used first, `capacity` entries at most. -/
def lru [DecidableEq α] (capacity : Nat) : LossyCache (List (α × β)) α β where
  empty := []
  get key entries :=
    match entries.lookup key with
    | none => (none, entries)
    | some value => (some value, (key, value) :: entries.filter fun entry => entry.1 ≠ key)
  put key value entries :=
    ((key, value) :: entries.filter fun entry => entry.1 ≠ key).take capacity
  clear _ := []
  Holds entries key value := (key, value) ∈ entries
  empty_holds := by simp
  get_holds := by
    intro key entries value found
    cases listed : entries.lookup key with
    | none => simp [listed] at found
    | some held =>
        simp only [listed, Option.some.injEq] at found
        obtain ⟨before, after, split, _⟩ := List.lookup_eq_some_iff.mp listed
        simp [split, found]
  get_keeps := by
    intro key entries other value held
    cases listed : entries.lookup key with
    | none => simpa [listed] using held
    | some found =>
        simp only [listed, List.mem_cons] at held
        rcases held with isFound | kept
        · obtain ⟨before, after, split, _⟩ := List.lookup_eq_some_iff.mp listed
          simp [split, isFound]
        · exact (List.mem_filter.mp kept).1
  put_holds := by
    intro key value entries other held member
    rcases List.mem_cons.mp (List.mem_of_mem_take member) with isNew | kept
    · exact .inl (Prod.mk.injEq _ _ _ _ ▸ isNew)
    · have different : other ≠ key := by simpa using (List.mem_filter.mp kept).2
      exact .inr ⟨different, (List.mem_filter.mp kept).1⟩
  clear_holds := by simp

/-- `LruCache::pop`. -/
def pop [DecidableEq α] (key : α) (entries : List (α × β)) : List (α × β) :=
  entries.filter fun entry => entry.1 ≠ key

theorem mem_pop [DecidableEq α] {key : α} {entries : List (α × β)} {entry : α × β} :
    entry ∈ pop key entries ↔ entry ∈ entries ∧ entry.1 ≠ key := by
  simp [pop]

/-- A lookup finds the key nowhere and changes nothing, or leaves one entry of the key, which
is the one it answers. -/
theorem lru_get_cases [DecidableEq α] (capacity : Nat) (key : α) (entries : List (α × β)) :
    ((lru capacity).get key entries = (none, entries) ∧ ∀ entry ∈ entries, entry.1 ≠ key) ∨
      ∃ value later, (lru capacity).get key entries = (some value, later) ∧
        (key, value) ∈ entries ∧
          ∀ entry ∈ later, entry ∈ entries ∧ (entry.1 = key → entry.2 = value) := by
  cases listed : entries.lookup key with
  | none =>
      left
      refine ⟨by simp [lru, listed], fun entry member => ?_⟩
      have different := List.lookup_eq_none_iff.mp listed entry member
      exact fun same => absurd same.symm (by simpa using different)
  | some value =>
      right
      obtain ⟨before, after, split, _⟩ := List.lookup_eq_some_iff.mp listed
      have found : (key, value) ∈ entries := by
        simp [split]
      have moved : (lru capacity).get key entries =
          (some value, (key, value) :: entries.filter fun entry => entry.1 ≠ key) := by
        simp only [lru, listed]
      refine ⟨value, _, moved, found, fun entry member => ?_⟩
      rcases List.mem_cons.mp member with rfl | kept
      · exact ⟨found, fun _ => rfl⟩
      · obtain ⟨isEntry, different⟩ := List.mem_filter.mp kept
        exact ⟨isEntry, fun same => absurd same (by simpa using different)⟩

end AnanicyRs.Lib.Cache
