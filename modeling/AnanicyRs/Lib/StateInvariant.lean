import Mathlib.Control.Basic

/-!
Contract: pre- and postconditions for programs in the state monad.

`Ensures before program after` says that a run of `program` from a state that
satisfies `before` returns a value and a state that satisfy `after`. The rules
follow the constructors a `do` block is made of; `Maintains` is the case of one
invariant on both sides, and `invariant_of_admits` carries what one step keeps
over a whole run.
-/

set_option autoImplicit false

namespace AnanicyRs.Lib.StateInvariant

variable {σ α β ι : Type}

/-- Every run from `before` ends in `after`, which also sees the result. -/
def Ensures (before : σ → Prop) (program : StateM σ α) (after : α → σ → Prop) : Prop :=
  ∀ state, before state → after (program state).1 (program state).2

/-- Every run from a state with the invariant ends in one. -/
def Maintains (inv : σ → Prop) (program : StateM σ α) : Prop :=
  Ensures inv program fun _ => inv

theorem ensures_pure {before : σ → Prop} {after : α → σ → Prop} {value : α}
    (holds : ∀ state, before state → after value state) :
    Ensures before (pure value : StateM σ α) after :=
  fun state given => holds state given

theorem ensures_bind {before : σ → Prop} {middle : α → σ → Prop} {after : β → σ → Prop}
    {first : StateM σ α} {next : α → StateM σ β}
    (left : Ensures before first middle)
    (right : ∀ value, Ensures (middle value) (next value) after) :
    Ensures before (first >>= next) after := by
  intro state given
  exact right (first state).1 (first state).2 (left state given)

theorem Ensures.mono {before before' : σ → Prop} {after after' : α → σ → Prop}
    {program : StateM σ α} (holds : Ensures before program after)
    (stronger : ∀ state, before' state → before state)
    (weaker : ∀ value state, after value state → after' value state) :
    Ensures before' program after' :=
  fun state given => weaker _ _ (holds state (stronger state given))

theorem ensures_ite {before : σ → Prop} {after : α → σ → Prop} {condition : Prop}
    [Decidable condition] {yes no : StateM σ α}
    (whenTrue : condition → Ensures before yes after)
    (whenFalse : ¬ condition → Ensures before no after) :
    Ensures before (if condition then yes else no) after := by
  split
  next holds => exact whenTrue holds
  next fails => exact whenFalse fails

theorem maintains_pure {inv : σ → Prop} (value : α) :
    Maintains inv (pure value : StateM σ α) :=
  ensures_pure fun _ given => given

theorem maintains_bind {inv : σ → Prop} {first : StateM σ α} {next : α → StateM σ β}
    (left : Maintains inv first) (right : ∀ value, Maintains inv (next value)) :
    Maintains inv (first >>= next) :=
  ensures_bind left right

/-- What a program leaves in place, it leaves every property of. -/
theorem maintains_of_frame {γ : Type} {view : σ → γ} {program : StateM σ α}
    (frame : ∀ value, Maintains (fun state => view state = value) program) (inv : γ → Prop) :
    Maintains (fun state => inv (view state)) program := by
  intro state holds
  have same : view (program state).2 = view state := frame (view state) state rfl
  show inv (view (program state).2)
  rw [same]
  exact holds

theorem maintains_ite {inv : σ → Prop} {condition : Prop} [Decidable condition]
    {yes no : StateM σ α} (whenTrue : Maintains inv yes) (whenFalse : Maintains inv no) :
    Maintains inv (if condition then yes else no) :=
  ensures_ite (fun _ => whenTrue) fun _ => whenFalse

/-- The states a list of steps goes through, the first one included. -/
def states (step : ι → σ → σ) : List ι → σ → List σ
  | [], state => [state]
  | head :: rest, state => state :: states step rest (step head state)

/-- The state a run ends in is one of its states. -/
theorem foldl_mem_states (step : ι → σ → σ) (items : List ι) (state : σ) :
    items.foldl (fun now item => step item now) state ∈ states step items state := by
  induction items generalizing state with
  | nil => exact List.mem_singleton_self state
  | cons head rest inductionHypothesis =>
      exact List.mem_cons_of_mem state (inductionHypothesis (step head state))

/-- Every step of the run starts in a state in which `allowed` admits it. -/
def Admits (step : ι → σ → σ) (allowed : σ → ι → Prop) : List ι → σ → Prop
  | [], _ => True
  | head :: rest, state => allowed state head ∧ Admits step allowed rest (step head state)

theorem admits_of_forall {step : ι → σ → σ} {allowed : ι → Prop} {items : List ι}
    (all : ∀ item ∈ items, allowed item) (state : σ) :
    Admits step (fun _ => allowed) items state := by
  induction items generalizing state with
  | nil => trivial
  | cons head rest inductionHypothesis =>
      refine ⟨all head (by simp), inductionHypothesis ?_ _⟩
      intro item member
      exact all item (by simp [member])

/-- An invariant that every admitted step keeps holds in every state of a run
whose steps are all admitted. -/
theorem invariant_of_admits {step : ι → σ → σ} {allowed : σ → ι → Prop} {inv : σ → Prop}
    (stepKeeps : ∀ state item, inv state → allowed state item → inv (step item state)) :
    ∀ (items : List ι) (state : σ), inv state → Admits step allowed items state →
      ∀ reached ∈ states step items state, inv reached
  | [], state, holds, _, reached, member => by
      rw [states, List.mem_singleton] at member
      exact member ▸ holds
  | head :: rest, state, holds, admitted, reached, member => by
      rw [states, List.mem_cons] at member
      rcases member with rfl | later
      · exact holds
      · exact invariant_of_admits stepKeeps rest (step head state)
          (stepKeeps state head holds admitted.1) admitted.2 reached later

/-- What an invariant says of every admitted step holds at every step of a run whose steps are
all admitted. -/
theorem admits_of_invariant {step : ι → σ → σ} {allowed assured : σ → ι → Prop} {inv : σ → Prop}
    (stepKeeps : ∀ state item, inv state → allowed state item → inv (step item state))
    (assures : ∀ state item, inv state → allowed state item → assured state item)
    (items : List ι) {state : σ} (holds : inv state)
    (admitted : Admits step allowed items state) : Admits step assured items state := by
  induction items generalizing state with
  | nil => trivial
  | cons head rest inductionHypothesis =>
      exact ⟨assures state head holds admitted.1,
        inductionHypothesis (stepKeeps state head holds admitted.1) admitted.2⟩

/-- An invariant that every step keeps holds in every state of every run. -/
theorem invariant_of_step {step : ι → σ → σ} {inv : σ → Prop}
    (stepKeeps : ∀ state item, inv state → inv (step item state)) (items : List ι) (state : σ)
    (holds : inv state) : ∀ reached ∈ states step items state, inv reached := by
  have admitted : Admits step (fun _ _ => True) items state :=
    admits_of_forall (fun _ _ => trivial) state
  exact invariant_of_admits (fun before item kept _ => stepKeeps before item kept) items state
    holds admitted

end AnanicyRs.Lib.StateInvariant
