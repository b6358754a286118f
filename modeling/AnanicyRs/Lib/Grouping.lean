import AnanicyRs.Lib.SortedMap

/-!
Contract: items sorted into groups by a key, one after the other.

Owns the `entry(key).or_default().insert(element)` idiom on both kinds of map (`addTo`,
`addToHash`) and what a run of it leaves (`lookup_foldl`): under each key that some item has,
the set of the elements of these items. `perm_pairs` puts the groups of a sorted map back
together. `Gathers` is the idiom over any kind of entry, which keeps the order of its items.
-/

set_option autoImplicit false

namespace AnanicyRs.Lib.Grouping

open AnanicyRs.Lib.Sorted

/-! ## One element -/

section Maps

variable {κ α : Type} [LinearOrder α]

/-- `BTreeMap<_, BTreeSet<_>>`. -/
def addTo [LinearOrder κ] (groups : SortedMap κ (SortedSet α)) (key : κ) (element : α) :
    SortedMap κ (SortedSet α) :=
  groups.update key fun held => (held.getD .empty).insert element

/-- `HashMap<_, BTreeSet<_>>`. -/
def addToHash [DecidableEq κ] (groups : AList fun _ : κ => SortedSet α) (key : κ) (element : α) :
    AList fun _ : κ => SortedSet α :=
  groups.insert key (((groups.lookup key).getD .empty).insert element)

theorem lookup_addTo [LinearOrder κ] (groups : SortedMap κ (SortedSet α)) (key other : κ)
    (element : α) : (addTo groups key element).lookup other =
      if other = key then some (((groups.lookup other).getD .empty).insert element)
      else groups.lookup other := by
  rw [addTo, SortedMap.lookup_update]
  by_cases same : other = key
  · rw [if_pos same, if_pos same, same]
  · rw [if_neg same, if_neg same]

theorem lookup_addToHash [DecidableEq κ] (groups : AList fun _ : κ => SortedSet α) (key other : κ)
    (element : α) : (addToHash groups key element).lookup other =
      if other = key then some (((groups.lookup other).getD .empty).insert element)
      else groups.lookup other := by
  rw [addToHash]
  by_cases same : other = key
  · rw [if_pos same, same, AList.lookup_insert]
  · rw [if_neg same, AList.lookup_insert_ne same]

end Maps

/-! ## A run -/

variable {ι κ α γ : Type} [DecidableEq κ] [LinearOrder α]

/-- The elements of the items that have a key. -/
def members (key : ι → Option κ) (element : ι → α) (items : List ι) (group : κ) : SortedSet α :=
  .ofList ((items.filter fun item => key item = some group).map element)

theorem mem_members (key : ι → Option κ) (element : ι → α) (items : List ι) (group : κ) (a : α) :
    a ∈ members key element items group ↔
      ∃ item ∈ items, key item = some group ∧ element item = a := by
  simp [members, and_assoc]

/-- `step` adds the element of each item that has a key to the set under that key, which
`lookup` finds. -/
structure Adds (lookup : γ → κ → Option (SortedSet α)) (step : γ → ι → γ) (key : ι → Option κ)
    (element : ι → α) : Prop where
  lookup_step : ∀ groups item group, lookup (step groups item) group =
    if key item = some group then some (((lookup groups group).getD .empty).insert (element item))
    else lookup groups group

namespace Adds

variable {lookup : γ → κ → Option (SortedSet α)} {step : γ → ι → γ} {key : ι → Option κ}
  {element : ι → α}

theorem lookup_foldl_extend (adds : Adds lookup step key element) (group : κ) (items : List ι) :
    ∀ groups, lookup (items.foldl step groups) group =
      if ∃ item ∈ items, key item = some group then
        some (((lookup groups group).getD .empty).extend
          ((items.filter fun item => key item = some group).map element))
      else lookup groups group := by
  induction items with
  | nil => simp
  | cons head rest inductionHypothesis =>
      intro groups
      rw [List.foldl_cons, inductionHypothesis, adds.lookup_step]
      by_cases inHead : key head = some group
      · have listed : ∃ item ∈ head :: rest, key item = some group :=
          ⟨head, List.mem_cons_self, inHead⟩
        rw [if_pos inHead, if_pos listed, List.filter_cons_of_pos (by simp [inHead]), List.map_cons,
          Option.getD_some]
        split
        · rfl
        next noneLater =>
          have empty : (rest.filter fun item => key item = some group) = [] := by
            rw [List.filter_eq_nil_iff]
            intro item inRest isGroup
            exact noneLater ⟨item, inRest, of_decide_eq_true isGroup⟩
          rw [empty]
          rfl
      · rw [if_neg inHead, List.filter_cons_of_neg (by simp [inHead])]
        simp [inHead]

/-- From no groups: the members of each key that some item has. -/
theorem lookup_foldl (adds : Adds lookup step key element) {groups : γ}
    (fresh : ∀ group, lookup groups group = none) (items : List ι) (group : κ) :
    lookup (items.foldl step groups) group =
      if ∃ item ∈ items, key item = some group then some (members key element items group)
      else none := by
  rw [adds.lookup_foldl_extend, fresh]
  rfl

theorem lookup_foldl_eq_some_iff (adds : Adds lookup step key element) {groups : γ}
    (fresh : ∀ group, lookup groups group = none) (items : List ι) (group : κ) (set : SortedSet α) :
    lookup (items.foldl step groups) group = some set ↔
      (∃ item ∈ items, key item = some group) ∧ members key element items group = set := by
  rw [adds.lookup_foldl fresh, Option.ite_none_right_eq_some, Option.some.injEq]

end Adds

/-! ## Items gathered in order -/

/-- `step` adds each item that has a key to what is kept under that key, which its first item
starts. -/
structure Gathers {β : Type} (lookup : γ → κ → Option β) (step : γ → ι → γ)
    (key : ι → Option κ) (start : ι → β) (add : β → ι → β) : Prop where
  lookup_step : ∀ groups item group, lookup (step groups item) group =
    if key item = some group then some (add ((lookup groups group).getD (start item)) item)
    else lookup groups group

/-- What a run leaves under a key: its items, added in order to what the first of them
started. -/
theorem Gathers.lookup_foldl {β : Type} {lookup : γ → κ → Option β} {step : γ → ι → γ}
    {key : ι → Option κ} {start : ι → β} {add : β → ι → β}
    (gathers : Gathers lookup step key start add) (group : κ) (items : List ι) :
    ∀ groups, lookup (items.foldl step groups) group =
      match items.filter fun item => key item = some group with
      | [] => lookup groups group
      | first :: rest =>
          some ((first :: rest).foldl add ((lookup groups group).getD (start first))) := by
  induction items with
  | nil =>
      intro groups
      rfl
  | cons head rest inductionHypothesis =>
      intro groups
      rw [List.foldl_cons, inductionHypothesis, gathers.lookup_step]
      by_cases inHead : key head = some group
      · rw [if_pos inHead, List.filter_cons_of_pos (by simp [inHead])]
        cases rest.filter fun item => key item = some group <;> rfl
      · rw [if_neg inHead, List.filter_cons_of_neg (by simp [inHead])]

/-! ## The groups put back together -/

/-- Groups of the elements themselves: with its key, each element that has one is in them once. -/
theorem perm_pairs [LinearOrder κ] {groups : SortedMap κ (SortedSet α)} {key : α → Option κ}
    {items : List α} (distinct : items.Nodup)
    (grouped : ∀ group set, groups.lookup group = some set ↔
      (∃ item ∈ items, key item = some group) ∧ members key id items group = set) :
    (groups.entries.flatMap fun group => group.2.elems.map fun a => (a, group.1)).Perm
      (items.filterMap fun item => (key item).map fun group => (item, group)) := by
  refine (List.perm_ext_iff_of_nodup ?_ ?_).mpr ?_
  · rw [List.nodup_flatMap]
    constructor
    · intro group _
      exact group.2.nodup_keys.map fun _ _ same => (Prod.mk.inj same).1
    · refine (List.pairwise_map.mp groups.ascending).imp fun before => ?_
      intro pair inFirst inSecond
      obtain ⟨_, _, first⟩ := List.mem_map.mp inFirst
      obtain ⟨_, _, second⟩ := List.mem_map.mp inSecond
      exact before.ne ((Prod.mk.inj (first.trans second.symm)).2)
  · refine distinct.filterMap fun left right pair isLeft isRight => ?_
    obtain ⟨_, _, first⟩ := Option.map_eq_some_iff.mp isLeft
    obtain ⟨_, _, second⟩ := Option.map_eq_some_iff.mp isRight
    exact (Prod.mk.inj (first.trans second.symm)).1
  · intro pair
    obtain ⟨a, group⟩ := pair
    simp only [List.mem_flatMap, List.mem_map, List.mem_filterMap, Option.map_eq_some_iff,
      Prod.mk.injEq]
    constructor
    · intro ⟨entry, listed, other, inSet, isOther, isGroup⟩
      have found := (grouped entry.1 entry.2).mp ((groups.mem_entries_iff entry.1 entry.2).mp listed)
      rw [SortedSet.mem_elems, ← found.2, mem_members] at inSet
      obtain ⟨item, isItem, hasKey, rfl⟩ := inSet
      exact ⟨item, isItem, group, isGroup ▸ hasKey, isOther, rfl⟩
    · intro ⟨item, isItem, other, hasKey, isA, isGroup⟩
      subst isA isGroup
      have found := (grouped other (members key id items other)).mpr ⟨⟨item, isItem, hasKey⟩, rfl⟩
      refine ⟨(other, members key id items other), (groups.mem_entries_iff _ _).mpr found, item, ?_, rfl,
        rfl⟩
      exact (mem_members key id items other item).mpr ⟨item, isItem, hasKey, rfl⟩

/-- The keys, as often as they have elements, are the keys of the items. -/
theorem perm_keys [LinearOrder κ] {groups : SortedMap κ (SortedSet α)} {key : α → Option κ}
    {items : List α} (distinct : items.Nodup)
    (grouped : ∀ group set, groups.lookup group = some set ↔
      (∃ item ∈ items, key item = some group) ∧ members key id items group = set) :
    (groups.entries.flatMap fun group => List.replicate group.2.elems.length group.1).Perm
      (items.filterMap key) := by
  have pairs := (perm_pairs distinct grouped).map Prod.snd
  rw [List.map_flatMap, List.map_filterMap] at pairs
  simpa only [List.map_map, Option.map_map, Function.comp_def, List.map_const', Option.map_id']
    using pairs

end AnanicyRs.Lib.Grouping
