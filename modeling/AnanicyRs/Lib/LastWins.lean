import Mathlib.Data.List.AList
import Mathlib.Data.List.Dedup
import Mathlib.Data.List.Induction

/-!
Contract: definitions by key, where a later one replaces an earlier one.

`lastOf` is the definition in force of a key, `inForce` the list of those
definitions in the order they were made, `declared` the keys in the order they were
first defined, and `insertAll` the map that a run of insertions leaves. `field_foldl` is the
same for a field of a record that a fold over the entries builds.
-/

set_option autoImplicit false

namespace AnanicyRs.Lib.LastWins

variable {α β : Type} [DecidableEq α]

/-! ## The definition in force -/

/-- The last definition of a key. -/
def lastOf (entries : List (α × β)) (key : α) : Option β := entries.reverse.lookup key

theorem lastOf_concat (entries : List (α × β)) (name key : α) (value : β) :
    lastOf (entries ++ [(name, value)]) key =
      if key = name then some value else lastOf entries key := by
  rw [lastOf, List.reverse_append, List.reverse_singleton, List.singleton_append, List.lookup_cons]
  by_cases same : key = name
  · rw [if_pos same, same, beq_self_eq_true]
  · rw [if_neg same, beq_false_of_ne same, lastOf]

theorem lastOf_cons (name key : α) (value : β) (rest : List (α × β)) :
    lastOf ((name, value) :: rest) key =
      (lastOf rest key).or (if key = name then some value else none) := by
  unfold lastOf
  rw [List.reverse_cons, List.lookup_append]
  congr 1
  by_cases same : key = name
  · simp [same]
  · simp [same]

theorem lastOf_isSome_iff (entries : List (α × β)) (key : α) :
    (lastOf entries key).isSome = true ↔ key ∈ entries.map Prod.fst := by
  induction entries using List.reverseRecOn with
  | nil => simp [lastOf]
  | append_singleton entries last inductionHypothesis =>
      obtain ⟨name, value⟩ := last
      rw [lastOf_concat, List.map_append, List.mem_append]
      by_cases same : key = name
      · simp [same]
      · rw [if_neg same, inductionHypothesis]
        simp [same]

theorem lastOf_eq_none_iff (entries : List (α × β)) (key : α) :
    lastOf entries key = none ↔ key ∉ entries.map Prod.fst := by
  rw [← lastOf_isSome_iff, Bool.not_eq_true, Option.isSome_eq_false_iff, Option.isNone_iff_eq_none]

/-- The definitions in force, in the order they were made. -/
def inForce : List (α × β) → List (α × β)
  | [] => []
  | entry :: rest =>
      if entry.1 ∈ rest.map Prod.fst then inForce rest else entry :: inForce rest

theorem inForce_sublist (entries : List (α × β)) : (inForce entries).Sublist entries := by
  induction entries with
  | nil => exact List.Sublist.refl []
  | cons entry rest inductionHypothesis =>
      rw [inForce]
      split
      · exact inductionHypothesis.cons entry
      · exact inductionHypothesis.cons_cons entry

theorem mem_inForce (entries : List (α × β)) (key : α) (value : β) :
    (key, value) ∈ inForce entries ↔ lastOf entries key = some value := by
  induction entries with
  | nil => simp [inForce, lastOf]
  | cons head rest inductionHypothesis =>
      obtain ⟨name, held⟩ := head
      rw [inForce, lastOf_cons]
      by_cases replaced : name ∈ rest.map Prod.fst
      · rw [if_pos replaced, inductionHypothesis]
        by_cases same : key = name
        · obtain ⟨later, isLast⟩ := Option.isSome_iff_exists.mp
            ((lastOf_isSome_iff rest name).mpr replaced)
          rw [same, isLast, Option.some_or]
        · rw [if_neg same, Option.or_none]
      · rw [if_neg replaced, List.mem_cons, inductionHypothesis, Prod.mk.injEq]
        have fresh := (lastOf_eq_none_iff rest name).mpr replaced
        by_cases same : key = name
        · subst same
          rw [fresh, if_pos rfl, Option.none_or, Option.some.injEq]
          simp [eq_comm]
        · simp [same]

theorem mem_of_lastOf {entries : List (α × β)} {key : α} {value : β}
    (isLast : lastOf entries key = some value) : (key, value) ∈ entries :=
  (inForce_sublist entries).subset ((mem_inForce entries key value).mpr isLast)

/-- A key that is defined once has that definition. -/
theorem lastOf_of_mem {entries : List (α × β)} (distinct : (entries.map Prod.fst).Nodup) {key : α}
    {value : β} (listed : (key, value) ∈ entries) : lastOf entries key = some value := by
  have defined : (lastOf entries key).isSome = true :=
    (lastOf_isSome_iff entries key).mpr (List.mem_map_of_mem listed)
  obtain ⟨held, isLast⟩ := Option.isSome_iff_exists.mp defined
  have same := List.inj_on_of_nodup_map distinct (mem_of_lastOf isLast) listed rfl
  rw [isLast, (Prod.mk.inj same).2]

/-- Keys that are defined once may be defined in any order. -/
theorem lastOf_perm {left right : List (α × β)} (reordered : left.Perm right)
    (distinct : (left.map Prod.fst).Nodup) (key : α) : lastOf left key = lastOf right key := by
  have distinctRight : (right.map Prod.fst).Nodup := (reordered.map Prod.fst).nodup distinct
  cases defined : lastOf right key with
  | some value => exact lastOf_of_mem distinct (reordered.mem_iff.mpr (mem_of_lastOf defined))
  | none =>
      rw [lastOf_eq_none_iff] at defined ⊢
      exact fun listed => defined ((reordered.map Prod.fst).mem_iff.mp listed)

theorem lastOf_append (left right : List (α × β)) (key : α) :
    lastOf (left ++ right) key = (lastOf right key).or (lastOf left key) := by
  unfold lastOf
  rw [List.reverse_append, List.lookup_append]

/-- Keys that tell the same entries apart from those of one item are as good as each other. -/
theorem lastOf_rekey {ι α' : Type} [DecidableEq α'] (items : List ι) (left : ι → α)
    (right : ι → α') (value : ι → Option β) (target : ι)
    (same : ∀ item ∈ items, left target = left item ↔ right target = right item) :
    lastOf (items.filterMap fun item => (value item).map fun held => (left item, held))
        (left target) =
      lastOf (items.filterMap fun item => (value item).map fun held => (right item, held))
        (right target) := by
  induction items using List.reverseRecOn with
  | nil => rfl
  | append_singleton items item inductionHypothesis =>
      have before := inductionHypothesis fun other member =>
        same other (List.mem_append_left _ member)
      have here := same item (List.mem_append_right _ List.mem_cons_self)
      rw [List.filterMap_append, List.filterMap_append]
      cases ofItem : value item with
      | none => simpa [ofItem] using before
      | some held =>
          have isLeft : [item].filterMap (fun item => (value item).map fun held =>
              (left item, held)) = [(left item, held)] := by
            simp [ofItem]
          have isRight : [item].filterMap (fun item => (value item).map fun held =>
              (right item, held)) = [(right item, held)] := by
            simp [ofItem]
          rw [isLeft, isRight, lastOf_concat, lastOf_concat, before]
          simp only [here]

theorem split_of_lastOf {entries : List (α × β)} {key : α} {value : β}
    (isLast : lastOf entries key = some value) :
    ∃ before after, entries = before ++ (key, value) :: after ∧ ∀ entry ∈ after, entry.1 ≠ key := by
  obtain ⟨front, rest, split, fresh⟩ := List.lookup_eq_some_iff.mp isLast
  refine ⟨rest.reverse, front.reverse, ?_, ?_⟩
  · rw [← List.reverse_reverse entries, split]
    simp
  · intro entry member
    have differs := fresh entry (List.mem_reverse.mp member)
    exact fun same => by simp [same] at differs

/-- Where two sequences are merged into one, the last definition of a key is the last of the
first sequence, unless one of the second comes after it. -/
theorem lastOf_merged {ι : Type} (first : ι → Bool) (entry : ι → α × β) (items : List ι) (key : α) :
    lastOf (items.map entry) key = lastOf ((items.filter first).map entry) key ∨
      ∃ before item after, items = before ++ item :: after ∧ first item = false ∧
        (entry item).1 = key ∧ ∀ other ∈ after, (entry other).1 ≠ key := by
  induction items using List.reverseRecOn with
  | nil => exact .inl rfl
  | append_singleton items last inductionHypothesis =>
      have whole : lastOf ((items ++ [last]).map entry) key =
          if key = (entry last).1 then some (entry last).2 else lastOf (items.map entry) key := by
        rw [List.map_append, List.map_singleton]
        exact lastOf_concat _ _ _ _
      have own : first last = true → lastOf (((items ++ [last]).filter first).map entry) key =
          if key = (entry last).1 then some (entry last).2
          else lastOf ((items.filter first).map entry) key := by
        intro isFirst
        rw [List.filter_append, List.filter_cons_of_pos isFirst, List.filter_nil, List.map_append]
        exact lastOf_concat _ _ _ _
      have others : first last = false → (items ++ [last]).filter first = items.filter first := by
        intro isSecond
        rw [List.filter_append, List.filter_cons_of_neg (by rw [isSecond]; decide), List.filter_nil,
          List.append_nil]
      by_cases isKey : key = (entry last).1
      · cases sequence : first last with
        | true =>
            left
            rw [whole, own sequence, if_pos isKey, if_pos isKey]
        | false =>
            exact .inr ⟨items, last, [], rfl, sequence, isKey.symm,
              fun _ impossible => absurd impossible List.not_mem_nil⟩
      · rcases inductionHypothesis with same | ⟨before, item, after, split, second, isItem, later⟩
        · left
          rw [whole, if_neg isKey, same]
          cases sequence : first last with
          | true => rw [own sequence, if_neg isKey]
          | false => rw [others sequence]
        · refine .inr ⟨before, item, after ++ [last], by rw [split]; simp, second, isItem, ?_⟩
          intro other member
          rcases List.mem_append.mp member with earlier | isLast
          · exact later other earlier
          · rw [List.mem_singleton.mp isLast]
            exact fun same => isKey same.symm

/-! ## Lists with the same definitions -/

/-- Whatever came before, the same is in force. -/
def SameLast (left right : List (α × β)) : Prop := ∀ key, lastOf left key = lastOf right key

theorem SameLast.append {left right leftMore rightMore : List (α × β)}
    (same : SameLast left right) (sameMore : SameLast leftMore rightMore) :
    SameLast (left ++ leftMore) (right ++ rightMore) := by
  intro key
  rw [lastOf_append, lastOf_append, same key, sameMore key]

/-- A definition that is in force already may be left out. -/
theorem SameLast.skip {left right : List (α × β)} (same : SameLast left right) {entry : α × β}
    (present : lastOf right entry.1 = some entry.2) : SameLast (left ++ [entry]) right := by
  intro key
  rw [lastOf_concat]
  split
  next isKey =>
    rw [isKey]
    exact present.symm
  · exact same key

/-! ## Maps -/

def insertAll (entries : List (α × β)) (map : AList fun _ : α => β) : AList fun _ : α => β :=
  entries.foldl (fun held entry => held.insert entry.1 entry.2) map

theorem lookup_insertAll (entries : List (α × β)) (map : AList fun _ : α => β) (key : α) :
    (insertAll entries map).lookup key = (lastOf entries key).or (map.lookup key) := by
  induction entries using List.reverseRecOn with
  | nil => rfl
  | append_singleton entries last inductionHypothesis =>
      obtain ⟨name, value⟩ := last
      rw [insertAll, List.foldl_append, List.foldl_cons, List.foldl_nil, lastOf_concat]
      by_cases same : key = name
      · rw [if_pos same, same, AList.lookup_insert, Option.some_or]
      · rw [if_neg same, AList.lookup_insert_ne same]
        exact inductionHypothesis

theorem mem_of_lookup_insertAll {entries : List (α × β)} {map : AList fun _ : α => β} {key : α}
    {value : β} (found : (insertAll entries map).lookup key = some value) :
    (key, value) ∈ entries ∨ map.lookup key = some value := by
  rw [lookup_insertAll, Option.or_eq_some_iff] at found
  cases found with
  | inl isLast => exact .inl (mem_of_lastOf isLast)
  | inr before => exact .inr before.2

theorem length_insertAll (entries : List (α × β)) (map : AList fun _ : α => β) :
    (insertAll entries map).entries.length ≤ map.entries.length + entries.length := by
  induction entries generalizing map with
  | nil => exact Nat.le_refl _
  | cons head rest inductionHypothesis =>
      have restLength := inductionHypothesis (map.insert head.1 head.2)
      have headLength : (map.insert head.1 head.2).entries.length ≤ map.entries.length + 1 := by
        rw [AList.entries_insert, List.length_cons]
        exact Nat.succ_le_succ (List.kerase_sublist head.1 map.entries).length_le
      change (insertAll rest (map.insert head.1 head.2)).entries.length ≤ _
      rw [List.length_cons]
      omega

/-! ## Folds that keep the last value -/

/-- The values a key is given, in order. -/
def valuesOf (entries : List (α × β)) (key : α) : List β :=
  (entries.filter fun entry => entry.1 = key).map Prod.snd

theorem valuesOf_concat (entries : List (α × β)) (entry : α × β) (key : α) :
    valuesOf (entries ++ [entry]) key =
      if entry.1 = key then valuesOf entries key ++ [entry.2] else valuesOf entries key := by
  rw [valuesOf, List.filter_append, List.map_append]
  by_cases same : entry.1 = key
  · rw [if_pos same, List.filter_cons_of_pos (by simpa using same)]
    rfl
  · rw [if_neg same, List.filter_cons_of_neg (by simpa using same), List.filter_nil, List.map_nil,
      List.append_nil]
    rfl

/-- A field that every step takes from an entry of its key, if it can be read, holds the
last value that could. -/
theorem field_foldl {σ γ : Type} {step : σ → α × β → σ} {field : σ → γ} {key : α}
    {read : β → Option γ}
    (written : ∀ state entry, field (step state entry) =
      if entry.1 = key then (read entry.2).getD (field state) else field state)
    (entries : List (α × β)) (state : σ) :
    field (entries.foldl step state) =
      ((valuesOf entries key).filterMap read).getLast?.getD (field state) := by
  induction entries using List.reverseRecOn with
  | nil => rfl
  | append_singleton entries last inductionHypothesis =>
      rw [List.foldl_append, List.foldl_cons, List.foldl_nil, written, valuesOf_concat,
        inductionHypothesis]
      by_cases same : last.1 = key
      · rw [if_pos same, if_pos same, List.filterMap_append]
        cases readable : read last.2 with
        | none => simp [readable]
        | some value => simp [readable]
      · rw [if_neg same, if_neg same]

/-! ## Keys in the order of their first definition -/

/-- The keys with each repetition left out. -/
def declared (names : List α) : List α :=
  names.foldl (fun order name => if name ∈ order then order else order ++ [name]) []

theorem declared_concat (names : List α) (name : α) :
    declared (names ++ [name]) =
      if name ∈ declared names then declared names else declared names ++ [name] := by
  rw [declared, List.foldl_append, List.foldl_cons, List.foldl_nil]
  rfl

theorem mem_declared (names : List α) (name : α) : name ∈ declared names ↔ name ∈ names := by
  induction names using List.reverseRecOn with
  | nil => rfl
  | append_singleton names last inductionHypothesis =>
      rw [declared_concat, List.mem_append, List.mem_singleton]
      by_cases known : last ∈ declared names
      · rw [if_pos known, inductionHypothesis]
        constructor
        · exact .inl
        · intro given
          rcases given with old | rfl
          · exact old
          · exact inductionHypothesis.mp known
      · rw [if_neg known, List.mem_append, List.mem_singleton, inductionHypothesis]

theorem declared_nodup (names : List α) : (declared names).Nodup := by
  induction names using List.reverseRecOn with
  | nil => exact List.nodup_nil
  | append_singleton names last inductionHypothesis =>
      rw [declared_concat]
      split
      · exact inductionHypothesis
      next unknown =>
        exact List.nodup_append.mpr ⟨inductionHypothesis, List.nodup_singleton last,
          fun known member single isLast => by
            rw [List.mem_singleton.mp isLast]
            rintro rfl
            exact unknown member⟩

theorem declared_map {γ : Type} [DecidableEq γ] {f : α → γ} (injective : Function.Injective f)
    (names : List α) : declared (names.map f) = (declared names).map f := by
  induction names using List.reverseRecOn with
  | nil => rfl
  | append_singleton names last inductionHypothesis =>
      rw [List.map_append, List.map_singleton, declared_concat, declared_concat, inductionHypothesis]
      by_cases known : last ∈ declared names
      · rw [if_pos known, if_pos (List.mem_map_of_mem known)]
      · rw [if_neg known, if_neg (fun image => known ((List.mem_map_of_injective injective).mp image)),
          List.map_append, List.map_singleton]

/-- Of two keys, the later one does not occur before the earlier one does. -/
theorem declared_pairwise (names : List α) :
    (declared names).Pairwise fun left right =>
      ∃ before after, names = before ++ left :: after ∧ right ∉ before := by
  induction names using List.reverseRecOn with
  | nil => exact .nil
  | append_singleton names last inductionHypothesis =>
      have longer : (declared names).Pairwise fun left right =>
          ∃ before after, names ++ [last] = before ++ left :: after ∧ right ∉ before := by
        refine inductionHypothesis.imp fun {left right} ⟨before, after, split, absent⟩ => ?_
        exact ⟨before, after ++ [last], by rw [split, List.append_assoc, List.cons_append], absent⟩
      rw [declared_concat]
      split
      · exact longer
      next unknown =>
        refine List.pairwise_append.mpr ⟨longer, List.pairwise_singleton _ _, ?_⟩
        intro left isLeft right isRight
        rw [List.mem_singleton.mp isRight]
        obtain ⟨before, after, rfl⟩ := List.append_of_mem ((mem_declared names left).mp isLeft)
        refine ⟨before, after ++ [last], by simp, fun earlier => unknown ?_⟩
        exact (mem_declared _ last).mpr (List.mem_append_left _ earlier)

theorem declared_perm_dedup (names : List α) : (declared names).Perm names.dedup :=
  (List.perm_ext_iff_of_nodup (declared_nodup names) (List.nodup_dedup names)).mpr fun name => by
    rw [mem_declared, List.mem_dedup]

end AnanicyRs.Lib.LastWins
