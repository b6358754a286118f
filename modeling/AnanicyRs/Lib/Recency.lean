import AnanicyRs.Lib.Cache
import Mathlib.Data.Finset.Card
import Mathlib.Data.List.Nodup
import Mathlib.Data.List.TakeWhile

/-!
Contract: which keys an LRU cache still holds.

`recent past` lists the distinct keys of an access history, both most recent first.
An LRU cache whose every access moves its key to the front holds the first `capacity`
of them, so a key is held exactly when fewer than `capacity` other keys were used since
its own last use (`mem_take_recent`).
-/

set_option autoImplicit false

namespace AnanicyRs.Lib.Recency

open AnanicyRs.Lib.Cache

variable {α β : Type} [DecidableEq α]

/-! ## Distinct keys in order of use -/

def recent : List α → List α
  | [] => []
  | key :: older => key :: (recent older).filter (· ≠ key)

/-- What was used after the last use of `key`. -/
def since (key : α) (past : List α) : List α := past.takeWhile (· ≠ key)

theorem mem_recent (key : α) (past : List α) : key ∈ recent past ↔ key ∈ past := by
  induction past with
  | nil => rfl
  | cons head older inductionHypothesis =>
      simp only [recent, List.mem_cons, List.mem_filter, inductionHypothesis, decide_eq_true_eq]
      tauto

theorem recent_nodup (past : List α) : (recent past).Nodup := by
  induction past with
  | nil => exact List.nodup_nil
  | cons head older inductionHypothesis =>
      rw [recent, List.nodup_cons]
      exact ⟨by simp, inductionHypothesis.filter _⟩

theorem length_recent (past : List α) : (recent past).length = past.toFinset.card := by
  rw [← List.toFinset_card_of_nodup (recent_nodup past)]
  congr 1
  ext key
  rw [List.mem_toFinset, List.mem_toFinset, mem_recent]

/-- In front of a key stand the keys used since. -/
theorem recent_split {key : α} {past : List α} (used : key ∈ past) :
    ∃ older, recent past = recent (since key past) ++ key :: older := by
  induction past with
  | nil => exact absurd used List.not_mem_nil
  | cons head rest inductionHypothesis =>
      by_cases same : head = key
      · subst same
        exact ⟨(recent rest).filter (· ≠ head), by simp [since, recent]⟩
      · have inRest : key ∈ rest := by
          rcases List.mem_cons.mp used with isHead | inRest
          · exact absurd isHead.symm same
          · exact inRest
        obtain ⟨older, split⟩ := inductionHypothesis inRest
        refine ⟨older.filter (· ≠ head), ?_⟩
        have sinceCons : since key (head :: rest) = head :: since key rest := by
          simp [since, same]
        rw [sinceCons, recent, recent, split, List.filter_append,
          List.filter_cons_of_pos (by simpa using Ne.symm same), List.cons_append]

/-- A key is among the first `n` exactly when fewer than `n` others were used since. -/
theorem mem_take_recent {key : α} {past : List α} (used : key ∈ past) (n : Nat) :
    key ∈ (recent past).take n ↔ (since key past).toFinset.card < n := by
  obtain ⟨older, split⟩ := recent_split used
  have notBefore : key ∉ recent (since key past) := by
    rw [mem_recent]
    intro member
    simpa using List.mem_takeWhile_imp member
  rw [← length_recent, split, List.take_append, List.mem_append]
  constructor
  · intro member
    rcases member with inFront | inRest
    · exact absurd (List.mem_of_mem_take inFront) notBefore
    · by_contra tooFar
      rw [Nat.sub_eq_zero_of_le (Nat.le_of_not_lt tooFar)] at inRest
      exact absurd inRest List.not_mem_nil
  · intro close
    apply Or.inr
    obtain ⟨distance, isDistance⟩ : ∃ distance,
        n - (recent (since key past)).length = distance + 1 :=
      ⟨n - (recent (since key past)).length - 1, by omega⟩
    rw [isDistance, List.take_succ_cons]
    exact List.mem_cons_self

/-- Since a use of a key fewer keys were used than in all. -/
theorem card_since_lt {key : α} {past : List α} (used : key ∈ past) :
    (since key past).toFinset.card < past.toFinset.card := by
  have others : (since key past).toFinset ⊆ past.toFinset.erase key := by
    intro other member
    rw [List.mem_toFinset] at member
    rw [Finset.mem_erase, List.mem_toFinset]
    exact ⟨by simpa using List.mem_takeWhile_imp member, (List.takeWhile_subset _) member⟩
  calc (since key past).toFinset.card ≤ (past.toFinset.erase key).card :=
        Finset.card_le_card others
    _ < past.toFinset.card := Finset.card_erase_lt_of_mem (List.mem_toFinset.mpr used)

/-! ## The keys of an LRU cache -/

/-- Moving a key to the front before or after forgetting the tail is the same. -/
theorem take_cons_filter {key : α} {keys : List α} (distinct : keys.Nodup) (n : Nat) :
    (key :: (keys.take n).filter (· ≠ key)).take n =
      (key :: keys.filter (· ≠ key)).take n := by
  cases n with
  | zero => rfl
  | succ m =>
      rw [List.take_succ_cons, List.take_succ_cons]
      congr 1
      induction keys generalizing m with
      | nil => rfl
      | cons head rest inductionHypothesis =>
          obtain ⟨fresh, restDistinct⟩ := List.nodup_cons.mp distinct
          rw [List.take_succ_cons]
          by_cases same : head = key
          · subst same
            have untouched : ∀ part : List α, part ⊆ rest → part.filter (· ≠ head) = part := by
              intro part isPart
              rw [List.filter_eq_self]
              intro other member
              simp only [decide_eq_true_eq]
              rintro rfl
              exact fresh (isPart member)
            rw [List.filter_cons_of_neg (by simp), List.filter_cons_of_neg (by simp),
              untouched _ (List.take_subset m rest), untouched rest (List.Subset.refl rest),
              List.take_take, Nat.min_self]
          · rw [List.filter_cons_of_pos (by simpa using same),
              List.filter_cons_of_pos (by simpa using same)]
            cases m with
            | zero => rfl
            | succ m =>
                rw [List.take_succ_cons, List.take_succ_cons, inductionHypothesis restDistinct]

/-- The keys of a cache are the most recent ones of its history. -/
def Tracks (capacity : Nat) (past : List α) (entries : List (α × β)) : Prop :=
  entries.map Prod.fst = (recent past).take capacity

theorem map_filter_key (key : α) (entries : List (α × β)) :
    (entries.filter fun entry => entry.1 ≠ key).map Prod.fst =
      (entries.map Prod.fst).filter (· ≠ key) := by
  rw [List.filter_map]
  rfl

theorem Tracks.length_le {capacity : Nat} {past : List α} {entries : List (α × β)}
    (tracks : Tracks capacity past entries) : entries.length ≤ capacity := by
  rw [← List.length_map (f := Prod.fst), tracks, List.length_take]
  exact Nat.min_le_left _ _

/-- A cache whose entries are the latest values of their keys finds a key while fewer than
`capacity` others were used since. -/
theorem Tracks.lookup_eq_some_iff {capacity : Nat} {past : List α} {entries : List (α × β)}
    (tracks : Tracks capacity past entries) {latest : α → Option β}
    (values : ∀ key value, (key, value) ∈ entries → latest key = some value)
    (used : ∀ key value, latest key = some value → key ∈ past) (key : α) (value : β) :
    entries.lookup key = some value ↔
      latest key = some value ∧ (since key past).toFinset.card < capacity := by
  unfold Tracks at tracks
  have held : ∀ other, entries.lookup key = some other → (key, other) ∈ entries := by
    intro other found
    obtain ⟨before, after, split, _⟩ := List.lookup_eq_some_iff.mp found
    simp [split]
  constructor
  · intro found
    have isLatest := values key value (held value found)
    have recently : key ∈ (recent past).take capacity := by
      rw [← tracks]
      exact List.mem_map.mpr ⟨_, held value found, rfl⟩
    exact ⟨isLatest, (mem_take_recent (used key value isLatest) _).mp recently⟩
  · intro given
    have recently := (mem_take_recent (used key value given.1) _).mpr given.2
    rw [← tracks] at recently
    cases found : entries.lookup key with
    | none =>
        rw [List.lookup_eq_none_iff] at found
        obtain ⟨entry, isEntry, isKey⟩ := List.mem_map.mp recently
        exact absurd isKey.symm (by simpa using found entry isEntry)
    | some other =>
        rw [← values key other (held other found), given.1]

theorem Tracks.put {capacity : Nat} {past : List α} {entries : List (α × β)}
    (tracks : Tracks capacity past entries) (key : α) (value : β) :
    Tracks capacity (key :: past) ((lru capacity).put key value entries) := by
  unfold Tracks at tracks ⊢
  simp only [lru, List.map_take, List.map_cons]
  rw [map_filter_key, tracks, take_cons_filter (recent_nodup past), recent]

theorem Tracks.get {capacity : Nat} {past : List α} {entries : List (α × β)}
    (tracks : Tracks capacity past entries) {key : α} {value : β}
    (found : entries.lookup key = some value) :
    Tracks capacity (key :: past) ((lru capacity).get key entries).2 := by
  have held : key ∈ entries.map Prod.fst := by
    obtain ⟨before, after, rfl, _⟩ := List.lookup_eq_some_iff.mp found
    simp
  have short : (key :: (entries.map Prod.fst).filter (· ≠ key)).length ≤ capacity := by
    have bound : (entries.map Prod.fst).length ≤ capacity := by
      rw [List.length_map]
      exact tracks.length_le
    have shorter : ((entries.map Prod.fst).filter (· ≠ key)).length <
        (entries.map Prod.fst).length :=
      List.length_filter_lt_length_iff_exists.mpr ⟨key, held, by simp⟩
    rw [List.length_cons]
    omega
  have put := tracks.put key value
  unfold Tracks at put ⊢
  simp only [lru, List.map_take, List.map_cons] at put
  rw [map_filter_key, List.take_of_length_le short] at put
  simp only [lru, found, List.map_cons]
  rw [map_filter_key]
  exact put

theorem get_fst (capacity : Nat) (key : α) (entries : List (α × β)) :
    ((lru capacity).get key entries).1 = entries.lookup key := by
  simp only [lru]
  cases entries.lookup key <;> rfl

/-- A put forgets what a lookup of its key did before. -/
theorem put_get (capacity : Nat) (key : α) (value : β) (entries : List (α × β)) :
    (lru capacity).put key value ((lru capacity).get key entries).2 =
      (lru capacity).put key value entries := by
  simp only [lru]
  cases found : entries.lookup key with
  | none => rfl
  | some old =>
      dsimp only
      rw [List.filter_cons_of_neg (by simp), List.filter_filter]
      simp only [Bool.and_self]

end AnanicyRs.Lib.Recency
