import Mathlib.Data.List.Perm.Basic

/-!
Contract: lists of updates of a state that do not get in each other's way.

An update may be done twice (`again`) and two of them in either order (`commute`). Then a whole
list may be done in any order and each of its updates any number of times
(`foldl_of_same_items`); in particular, doing it again changes nothing.

Where the updates have keys and only those of different keys commute, an update may still be
left out if it repeats the last one of its key (`foldl_thinned`).
-/

set_option autoImplicit false

namespace AnanicyRs.Lib.Updates

variable {σ ι : Type} {update : σ → ι → σ} {items : List ι}

/-- What a list has done, each of its updates has done. -/
theorem foldl_absorbs
    (again : ∀ item ∈ items, ∀ state, update (update state item) item = update state item)
    (commute : ∀ left ∈ items, ∀ right ∈ items, ∀ state,
      update (update state left) right = update (update state right) left)
    {item : ι} (listed : item ∈ items) (state : σ) :
    update (items.foldl update state) item = items.foldl update state := by
  obtain ⟨before, after, split⟩ := List.append_of_mem listed
  have moved : items.Perm (before ++ after ++ [item]) := by
    rw [split]
    exact List.perm_middle.trans (List.perm_append_singleton item (before ++ after)).symm
  rw [moved.foldl_eq' commute state, List.foldl_append, List.foldl_cons, List.foldl_nil]
  exact again item listed _

/-- Updates that are all in the list change nothing after it. -/
theorem foldl_absorbs_all
    (again : ∀ item ∈ items, ∀ state, update (update state item) item = update state item)
    (commute : ∀ left ∈ items, ∀ right ∈ items, ∀ state,
      update (update state left) right = update (update state right) left) {rest : List ι}
    (within : ∀ item ∈ rest, item ∈ items) (state : σ) :
    rest.foldl update (items.foldl update state) = items.foldl update state := by
  induction rest with
  | nil => rfl
  | cons item rest inductionHypothesis =>
      rw [List.foldl_cons, foldl_absorbs again commute (within item List.mem_cons_self)]
      exact inductionHypothesis fun other later => within other (List.mem_cons_of_mem _ later)

theorem foldl_again
    (again : ∀ item ∈ items, ∀ state, update (update state item) item = update state item)
    (commute : ∀ left ∈ items, ∀ right ∈ items, ∀ state,
      update (update state left) right = update (update state right) left) (state : σ) :
    items.foldl update (items.foldl update state) = items.foldl update state :=
  foldl_absorbs_all again commute (fun _ listed => listed) state

/-- Only which updates a list holds matters, not their order or how often they come. -/
theorem foldl_of_same_items
    (again : ∀ item ∈ items, ∀ state, update (update state item) item = update state item)
    (commute : ∀ left ∈ items, ∀ right ∈ items, ∀ state,
      update (update state left) right = update (update state right) left) {others : List ι}
    (same : ∀ item, item ∈ others ↔ item ∈ items) (state : σ) :
    others.foldl update state = items.foldl update state := by
  have absorbsItems := @foldl_absorbs_all _ _ update others
    (fun item listed => again item ((same item).mp listed))
    (fun left inLeft right inRight =>
      commute left ((same left).mp inLeft) right ((same right).mp inRight))
    items (fun item => (same item).mpr) state
  have absorbsOthers := foldl_absorbs_all again commute (fun item => (same item).mp) state
  have listed : ∀ item ∈ items ++ others, item ∈ items := by
    intro item member
    exact (List.mem_append.mp member).elim id (same item).mp
  have swapped := (@List.perm_append_comm _ items others).foldl_eq'
    (fun left inLeft right inRight =>
      commute left (listed left inLeft) right (listed right inRight)) state
  rw [List.foldl_append, List.foldl_append] at swapped
  rw [← absorbsItems, ← swapped, absorbsOthers]

/-- An update moves to the front of a list it gets along with. -/
theorem foldl_past {first : ι} {right : List ι}
    (commute : ∀ second ∈ right, ∀ state,
      update (update state first) second = update (update state second) first) (state : σ) :
    update (right.foldl update state) first = right.foldl update (update state first) := by
  induction right generalizing state with
  | nil => rfl
  | cons second rest inductionHypothesis =>
      rw [List.foldl_cons, List.foldl_cons,
        inductionHypothesis fun other later => commute other (List.mem_cons_of_mem _ later),
        commute second List.mem_cons_self]

/-- Two lists that get along, each update of the one with each of the other. -/
theorem foldl_commute {left right : List ι}
    (commute : ∀ first ∈ left, ∀ second ∈ right, ∀ state,
      update (update state first) second = update (update state second) first) (state : σ) :
    right.foldl update (left.foldl update state) = left.foldl update (right.foldl update state) := by
  induction left generalizing state with
  | nil => rfl
  | cons first rest inductionHypothesis =>
      rw [List.foldl_cons, List.foldl_cons,
        inductionHypothesis fun other later => commute other (List.mem_cons_of_mem _ later),
        foldl_past (commute first List.mem_cons_self)]

/-! ## Keys -/

section Keys

variable {α : Type} {key : ι → α}

/-- The list `items` without some that repeat the last item of their key. -/
inductive Thinned (key : ι → α) : List ι → List ι → Prop
  | nil : Thinned key [] []
  | keep {items kept : List ι} (item : ι) (thinned : Thinned key items kept) :
      Thinned key (items ++ [item]) (kept ++ [item])
  | drop {items before after : List ι} (item : ι)
      (thinned : Thinned key items (before ++ item :: after))
      (last : ∀ other ∈ after, key other ≠ key item) :
      Thinned key (items ++ [item]) (before ++ item :: after)

theorem Thinned.mem_iff {items kept : List ι} (thinned : Thinned key items kept) (item : ι) :
    item ∈ kept ↔ item ∈ items := by
  induction thinned with
  | nil => exact Iff.rfl
  | keep last thinned inductionHypothesis =>
      rw [List.mem_append, List.mem_append, inductionHypothesis]
  | drop last thinned isLast inductionHypothesis =>
      rw [List.mem_append (t := [last]), ← inductionHypothesis, List.mem_singleton]
      constructor
      · exact .inl
      · intro given
        cases given with
        | inl kept => exact kept
        | inr same =>
            rw [same]
            exact List.mem_append_right _ List.mem_cons_self

/-- What is left out was done already, and nothing undid it. -/
theorem foldl_thinned {items kept : List ι} (thinned : Thinned key items kept)
    (again : ∀ item ∈ items, ∀ state, update (update state item) item = update state item)
    (commute : ∀ left ∈ items, ∀ right ∈ items, key left ≠ key right → ∀ state,
      update (update state left) right = update (update state right) left) (state : σ) :
    kept.foldl update state = items.foldl update state := by
  induction thinned with
  | nil => rfl
  | @keep items kept item thinned inductionHypothesis =>
      have among : ∀ other ∈ items, other ∈ items ++ [item] := fun _ => List.mem_append_left _
      rw [List.foldl_append, List.foldl_append,
        inductionHypothesis (fun other listed => again other (among other listed))
          fun left inLeft right inRight => commute left (among left inLeft) right (among right inRight)]
  | @drop items before after item thinned last inductionHypothesis =>
      have among : ∀ other ∈ items, other ∈ items ++ [item] := fun _ => List.mem_append_left _
      have listed : item ∈ items ++ [item] := List.mem_append_right _ (List.mem_singleton_self item)
      have past : ∀ other ∈ after, ∀ now,
          update (update now item) other = update (update now other) item := by
        intro other isAfter
        have isKept : other ∈ before ++ item :: after :=
          List.mem_append_right _ (List.mem_cons_of_mem _ isAfter)
        exact commute item listed other (among other ((thinned.mem_iff other).mp isKept))
          (last other isAfter).symm
      have sameBefore := inductionHypothesis
        (fun other isItem => again other (among other isItem))
        fun left inLeft right inRight => commute left (among left inLeft) right (among right inRight)
      have done : update ((before ++ item :: after).foldl update state) item =
          (before ++ item :: after).foldl update state := by
        rw [List.foldl_append, List.foldl_cons, foldl_past past, again item listed]
      have whole : (items ++ [item]).foldl update state = update (items.foldl update state) item :=
        List.foldl_append
      rw [whole, ← sameBefore, done]

end Keys

end AnanicyRs.Lib.Updates
