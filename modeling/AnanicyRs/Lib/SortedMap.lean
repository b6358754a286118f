import Mathlib.Order.Lattice
import AnanicyRs.Lib.LastWins

/-!
Contract: maps and sets that are walked in ascending order of their keys, as `BTreeMap` and
`BTreeSet` are.

A `SortedMap` lists its entries by strictly increasing key and a `SortedSet` is a map to
`Unit`, so two of them with the same content are equal (`SortedMap.ext_lookup`,
`SortedSet.ext_mem`). `update` is the one way to change a map: `insert` and the
`entry(..).or_default()` idiom are instances of it. `collect_` lemmas say what a run of
insertions leaves.
-/

set_option autoImplicit false

namespace AnanicyRs.Lib.Sorted

structure SortedMap (α β : Type) [LinearOrder α] where
  entries : List (α × β)
  ascending : (entries.map Prod.fst).Pairwise (· < ·)

namespace SortedMap

variable {α β γ : Type} [LinearOrder α]

def empty : SortedMap α β := ⟨[], .nil⟩

def keys (map : SortedMap α β) : List α := map.entries.map Prod.fst

def values (map : SortedMap α β) : List β := map.entries.map Prod.snd

def lookup (map : SortedMap α β) (key : α) : Option β := map.entries.lookup key

def updateEntries (key : α) (change : Option β → β) : List (α × β) → List (α × β)
  | [] => [(key, change none)]
  | (other, held) :: rest =>
      if key < other then (key, change none) :: (other, held) :: rest
      else if key = other then (key, change (some held)) :: rest
      else (other, held) :: updateEntries key change rest

theorem mem_keys_updateEntries (key other : α) (change : Option β → β) (entries : List (α × β)) :
    other ∈ (updateEntries key change entries).map Prod.fst ↔
      other = key ∨ other ∈ entries.map Prod.fst := by
  induction entries with
  | nil => simp [updateEntries]
  | cons head rest inductionHypothesis =>
      obtain ⟨first, held⟩ := head
      unfold updateEntries
      split_ifs with before same
      · simp
      · subst same
        simp
      · rw [List.map_cons, List.mem_cons, inductionHypothesis, List.map_cons, List.mem_cons]
        exact or_left_comm

theorem ascending_updateEntries (key : α) (change : Option β → β) {entries : List (α × β)}
    (ascending : (entries.map Prod.fst).Pairwise (· < ·)) :
    ((updateEntries key change entries).map Prod.fst).Pairwise (· < ·) := by
  induction entries with
  | nil => exact List.pairwise_singleton _ _
  | cons head rest inductionHypothesis =>
      obtain ⟨first, held⟩ := head
      have parts := List.pairwise_cons.mp ascending
      unfold updateEntries
      split_ifs with before same
      · refine List.pairwise_cons.mpr ⟨fun other member => ?_, ascending⟩
        rcases List.mem_cons.mp member with rfl | inRest
        · exact before
        · exact before.trans (parts.1 other inRest)
      · subst same
        exact ascending
      · refine List.pairwise_cons.mpr ⟨fun other member => ?_, inductionHypothesis parts.2⟩
        rcases (mem_keys_updateEntries key other change rest).mp member with rfl | inRest
        · exact lt_of_le_of_ne (not_lt.mp before) (Ne.symm same)
        · exact parts.1 other inRest

/-- The value under a key is replaced by what `change` makes of it. -/
def update (map : SortedMap α β) (key : α) (change : Option β → β) : SortedMap α β :=
  ⟨updateEntries key change map.entries, ascending_updateEntries key change map.ascending⟩

def insert (map : SortedMap α β) (key : α) (value : β) : SortedMap α β :=
  map.update key fun _ => value

/-! ## Content -/

theorem mem_keys_update (map : SortedMap α β) (key other : α) (change : Option β → β) :
    other ∈ (map.update key change).keys ↔ other = key ∨ other ∈ map.keys :=
  mem_keys_updateEntries key other change map.entries

theorem lookup_isSome_iff (map : SortedMap α β) (key : α) :
    (map.lookup key).isSome = true ↔ key ∈ map.keys := by
  rw [lookup, List.lookup_isSome_iff, keys, List.mem_map]
  constructor
  · rintro ⟨entry, member, isKey⟩
    exact ⟨entry, member, (beq_iff_eq.mp isKey).symm⟩
  · rintro ⟨entry, member, rfl⟩
    exact ⟨entry, member, beq_self_eq_true entry.1⟩

theorem lookup_eq_none_iff (map : SortedMap α β) (key : α) :
    map.lookup key = none ↔ key ∉ map.keys := by
  rw [← lookup_isSome_iff, Bool.not_eq_true, Option.isSome_eq_false_iff, Option.isNone_iff_eq_none]

theorem lookup_of_lt_keys {key : α} {entries : List (α × β)}
    (below : ∀ other ∈ entries.map Prod.fst, key < other) : entries.lookup key = none := by
  rw [List.lookup_eq_none_iff]
  intro entry member
  have before := below entry.1 (List.mem_map_of_mem member)
  exact bne_iff_ne.mpr before.ne

theorem lookup_update_self (map : SortedMap α β) (key : α) (change : Option β → β) :
    (map.update key change).lookup key = some (change (map.lookup key)) := by
  obtain ⟨entries, ascending⟩ := map
  change (updateEntries key change entries).lookup key = some (change (entries.lookup key))
  induction entries with
  | nil => simp [updateEntries]
  | cons head rest inductionHypothesis =>
      obtain ⟨first, held⟩ := head
      have parts := List.pairwise_cons.mp ascending
      unfold updateEntries
      split_ifs with before same
      · have absent : ((first, held) :: rest).lookup key = none := by
          apply lookup_of_lt_keys
          intro other member
          rcases List.mem_cons.mp member with rfl | inRest
          · exact before
          · exact before.trans (parts.1 other inRest)
        rw [absent, List.lookup_cons_self]
      · subst same
        rw [List.lookup_cons_self, List.lookup_cons_self]
      · rw [List.lookup_cons, List.lookup_cons, beq_false_of_ne same]
        exact inductionHypothesis parts.2

theorem lookup_update_ne (map : SortedMap α β) {key other : α} (different : other ≠ key)
    (change : Option β → β) : (map.update key change).lookup other = map.lookup other := by
  obtain ⟨entries, ascending⟩ := map
  have notKey : (other == key) = false := beq_false_of_ne different
  change (updateEntries key change entries).lookup other = entries.lookup other
  clear ascending
  induction entries with
  | nil => simp [updateEntries, different]
  | cons head rest inductionHypothesis =>
      obtain ⟨first, held⟩ := head
      unfold updateEntries
      split_ifs with before same
      · rw [List.lookup_cons, notKey]
      · subst same
        rw [List.lookup_cons, List.lookup_cons, notKey]
      · rw [List.lookup_cons, List.lookup_cons, inductionHypothesis]

theorem lookup_update (map : SortedMap α β) (key other : α) (change : Option β → β) :
    (map.update key change).lookup other =
      if other = key then some (change (map.lookup key)) else map.lookup other := by
  split
  next same =>
    rw [same]
    exact map.lookup_update_self key change
  next different => exact map.lookup_update_ne different change

theorem nodup_keys (map : SortedMap α β) : map.keys.Nodup := map.ascending.imp fun before => before.ne

theorem mem_entries_iff (map : SortedMap α β) (key : α) (value : β) :
    (key, value) ∈ map.entries ↔ map.lookup key = some value := by
  obtain ⟨entries, ascending⟩ := map
  change _ ↔ entries.lookup key = some value
  induction entries with
  | nil => simp
  | cons head rest inductionHypothesis =>
      obtain ⟨first, held⟩ := head
      have parts := List.pairwise_cons.mp ascending
      rw [List.mem_cons, inductionHypothesis parts.2, List.lookup_cons]
      by_cases same : key = first
      · subst same
        have absent := lookup_of_lt_keys (β := β) parts.1
        simp [absent, eq_comm]
      · rw [beq_false_of_ne same]
        simp [same]

theorem ext_lookup {left right : SortedMap α β}
    (same : ∀ key, left.lookup key = right.lookup key) : left = right := by
  have sorted : ∀ map : SortedMap α β,
      map.entries.Pairwise fun first second => first.1 < second.1 :=
    fun map => List.pairwise_map.mp map.ascending
  have distinct : ∀ map : SortedMap α β, map.entries.Nodup :=
    fun map => List.Nodup.of_map Prod.fst map.nodup_keys
  have perm : left.entries.Perm right.entries := by
    refine (List.perm_ext_iff_of_nodup (distinct left) (distinct right)).mpr fun entry => ?_
    rw [mem_entries_iff, mem_entries_iff, same]
  have sameEntries : left.entries = right.entries :=
    perm.eq_of_pairwise (fun _ _ _ _ before after => absurd after before.not_gt)
      (sorted left) (sorted right)
  cases left
  cases right
  congr

theorem one_lt_length_iff (map : SortedMap α β) :
    1 < map.entries.length ↔ ∃ left ∈ map.keys, ∃ right ∈ map.keys, left ≠ right := by
  obtain ⟨entries, ascending⟩ := map
  change 1 < entries.length ↔ ∃ left ∈ entries.map Prod.fst, ∃ right ∈ entries.map Prod.fst, left ≠ right
  cases entries with
  | nil => simp
  | cons first rest =>
      cases rest with
      | nil => simp
      | cons second others =>
          have before := (List.pairwise_cons.mp ascending).1 second.1 (by simp)
          exact iff_of_true (by simp) ⟨first.1, by simp, second.1, by simp, before.ne⟩

/-- The first and the last key are the least and the greatest. -/
theorem le_of_ends (map : SortedMap α β) {low high : α} (first : map.keys.head? = some low)
    (last : map.keys.getLast? = some high) : ∀ key ∈ map.keys, low ≤ key ∧ key ≤ high := by
  have ascending : map.keys.Pairwise (· < ·) := map.ascending
  intro key listed
  constructor
  · obtain ⟨rest, split⟩ := List.head?_eq_some_iff.mp first
    rw [split] at ascending listed
    rcases List.mem_cons.mp listed with same | later
    · exact same.ge
    · exact ((List.pairwise_cons.mp ascending).1 key later).le
  · obtain ⟨before, split⟩ := List.getLast?_eq_some_iff.mp last
    rw [split] at ascending listed
    rcases List.mem_append.mp listed with earlier | same
    · exact ((List.pairwise_append.mp ascending).2.2 key earlier high (by simp)).le
    · exact (List.mem_singleton.mp same).le

/-! ## Runs of insertions -/

def insertAll (entries : List (α × β)) (map : SortedMap α β) : SortedMap α β :=
  entries.foldl (fun held entry => held.insert entry.1 entry.2) map

theorem lookup_insertAll (entries : List (α × β)) (map : SortedMap α β) (key : α) :
    (insertAll entries map).lookup key = (LastWins.lastOf entries key).or (map.lookup key) := by
  induction entries using List.reverseRecOn with
  | nil => rfl
  | append_singleton entries last inductionHypothesis =>
      obtain ⟨name, value⟩ := last
      rw [insertAll, List.foldl_append, List.foldl_cons, List.foldl_nil, LastWins.lastOf_concat,
        insert, lookup_update]
      by_cases same : key = name
      · rw [if_pos same, if_pos same, Option.some_or]
      · rw [if_neg same, if_neg same]
        exact inductionHypothesis

end SortedMap

/-! ## Sets -/

abbrev SortedSet (α : Type) [LinearOrder α] := SortedMap α Unit

namespace SortedSet

variable {α β : Type} [LinearOrder α]

/-- The elements, ascending. -/
def elems (set : SortedSet α) : List α := set.keys

instance : Membership α (SortedSet α) := ⟨fun set a => a ∈ set.elems⟩

instance (a : α) (set : SortedSet α) : Decidable (a ∈ set) :=
  inferInstanceAs (Decidable (a ∈ set.elems))

theorem mem_elems (set : SortedSet α) (a : α) : a ∈ set.elems ↔ a ∈ set := Iff.rfl

def insert (set : SortedSet α) (a : α) : SortedSet α := SortedMap.insert set a ()

def isEmpty (set : SortedSet α) : Bool := set.elems.isEmpty

/-- `BTreeSet::extend`. -/
def extend (set : SortedSet α) (others : List α) : SortedSet α := others.foldl insert set

def ofList (listed : List α) : SortedSet α := extend SortedMap.empty listed

theorem ascending_elems (set : SortedSet α) : set.elems.Pairwise (· < ·) := set.ascending

@[simp] theorem notMem_empty (a : α) : a ∉ (SortedMap.empty : SortedSet α) := List.not_mem_nil

@[simp] theorem mem_insert (set : SortedSet α) (a b : α) : b ∈ set.insert a ↔ b = a ∨ b ∈ set :=
  SortedMap.mem_keys_update set a b _

@[simp] theorem mem_extend (others : List α) :
    ∀ (set : SortedSet α) (b : α), b ∈ set.extend others ↔ b ∈ set ∨ b ∈ others := by
  induction others with
  | nil => simp [extend]
  | cons first rest inductionHypothesis =>
      intro set b
      have tail := inductionHypothesis (set.insert first) b
      rw [mem_insert] at tail
      refine tail.trans ?_
      rw [List.mem_cons]
      grind

@[simp] theorem mem_ofList (listed : List α) (a : α) : a ∈ ofList listed ↔ a ∈ listed := by
  simp [ofList]

theorem isEmpty_iff (set : SortedSet α) : set.isEmpty = true ↔ ∀ a, a ∉ set := by
  rw [isEmpty, List.isEmpty_iff, List.eq_nil_iff_forall_not_mem]
  rfl

theorem isEmpty_eq_false_iff (set : SortedSet α) : set.isEmpty = false ↔ ∃ a, a ∈ set := by
  rw [← Bool.not_eq_true, isEmpty_iff]
  simp

theorem ext_mem {left right : SortedSet α} (same : ∀ a, a ∈ left ↔ a ∈ right) : left = right := by
  apply SortedMap.ext_lookup
  intro key
  have both := same key
  change key ∈ left.keys ↔ key ∈ right.keys at both
  by_cases member : key ∈ left.keys
  · obtain ⟨_, inLeft⟩ := Option.isSome_iff_exists.mp ((left.lookup_isSome_iff key).mpr member)
    obtain ⟨_, inRight⟩ :=
      Option.isSome_iff_exists.mp ((right.lookup_isSome_iff key).mpr (both.mp member))
    rw [inLeft, inRight]
  · rw [(left.lookup_eq_none_iff key).mpr member,
      (right.lookup_eq_none_iff key).mpr (mt both.mpr member)]

end SortedSet

end AnanicyRs.Lib.Sorted
