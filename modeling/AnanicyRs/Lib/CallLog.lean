import Mathlib.Data.List.Basic

/-!
Contract: programs that put several requests to a server and carry on whatever it
answers.

Owns the log of a server, the tally of such a program (did anything succeed, and
which failure came first), and `Isolated`: a step whose requests are known
beforehand and whose tally is read off the log. The rules at the end compose steps.
`collect` is a loop over requests that folds their answers into any accumulator.

Some requests are optional: their failure is not counted.
-/

set_option autoImplicit false

namespace AnanicyRs.Lib.CallLog

variable {σ ι ε : Type}

/-- What answers the requests `ι`, with a state of its own. -/
abbrev Server (σ ι ε : Type) := ι → StateM σ (Except ε Unit)

abbrev Log (ι ε : Type) := List (ι × Except ε Unit)

/-- The server, with a log of what it was asked. -/
def logged (server : Server σ ι ε) : Server (σ × Log ι ε) ι ε := fun request held =>
  let answered := server request held.1
  (answered.1, (answered.2, held.2 ++ [(request, answered.1)]))

structure Tally (ε : Type) where
  anySuccess : Bool
  firstFailure : Option ε

def Tally.start : Tally ε := ⟨false, none⟩

/-- A failure is kept unless an earlier one is. -/
def Tally.fail (tally : Tally ε) (failure : ε) : Tally ε :=
  { tally with firstFailure := tally.firstFailure.or (some failure) }

def Tally.record (tally : Tally ε) : Except ε Unit → Tally ε
  | .ok () => { tally with anySuccess := true }
  | .error failure => tally.fail failure

/-- The answer to an optional request: its failure is dropped. -/
def Tally.recordOptional (tally : Tally ε) : Except ε Unit → Tally ε
  | .ok () => { tally with anySuccess := true }
  | .error _ => tally

/-! ## Reading a tally off the log -/

def succeeded (entry : ι × Except ε Unit) : Bool :=
  match entry.2 with
  | .ok () => true
  | .error _ => false

/-- The failure an entry counts for, if it does. -/
def failureOf (optional : ι → Bool) (entry : ι × Except ε Unit) : Option ε :=
  match entry.2 with
  | .ok () => none
  | .error failure => if optional entry.1 then none else some failure

/-- The failures of a log in order, then those that came without a request. -/
def failures (optional : ι → Bool) (log : Log ι ε) (rejected : List ε) : List ε :=
  log.filterMap (failureOf optional) ++ rejected

def Tally.over (tally : Tally ε) (optional : ι → Bool) (log : Log ι ε) (rejected : List ε) :
    Tally ε where
  anySuccess := tally.anySuccess || log.any succeeded
  firstFailure := tally.firstFailure.or (failures optional log rejected).head?

theorem Tally.over_append (tally : Tally ε) (optional : ι → Bool) (left right : Log ι ε)
    (rejected : List ε) :
    (tally.over optional left []).over optional right rejected =
      tally.over optional (left ++ right) rejected := by
  unfold Tally.over failures
  simp only [List.any_append, Bool.or_assoc, List.append_nil, List.filterMap_append,
    List.append_assoc, List.head?_append, Option.or_assoc]

/-! ## Isolated steps -/

/-- Whatever the server answers, the step makes these requests in this order, and
leaves the tally that its own part of the log and the given rejections add up to. -/
def Isolated (optional : ι → Bool) (step : Tally ε → StateM (σ × Log ι ε) (Tally ε))
    (requests : List ι) (rejected : List ε) : Prop :=
  ∀ tally state log, ∃ entries next, entries.map Prod.fst = requests ∧
    step tally (state, log) =
      (tally.over optional entries rejected, (next, log ++ entries))

variable {optional : ι → Bool}

theorem isolated_skip :
    Isolated optional (pure : Tally ε → StateM (σ × Log ι ε) (Tally ε)) [] [] := by
  intro tally state log
  refine ⟨[], state, rfl, ?_⟩
  change (tally, (state, log)) = _
  simp [Tally.over, failures]

theorem isolated_reject (failure : ε) :
    Isolated optional (fun tally => (pure (tally.fail failure) : StateM (σ × Log ι ε) (Tally ε)))
      [] [failure] := by
  intro tally state log
  refine ⟨[], state, rfl, ?_⟩
  change (tally.fail failure, (state, log)) = _
  simp [Tally.over, failures, Tally.fail]

theorem isolated_record (server : Server σ ι ε) {request : ι}
    (mandatory : optional request = false) :
    Isolated optional (fun tally => do return tally.record (← logged server request))
      [request] [] := by
  intro tally state log
  refine ⟨[(request, (server request state).1)], (server request state).2, rfl, ?_⟩
  change (tally.record (server request state).1, _) = _
  rw [Prod.mk.injEq]
  refine ⟨?_, rfl⟩
  cases (server request state).1 with
  | ok _ => simp [Tally.over, failures, Tally.record, failureOf, succeeded]
  | error failure =>
      simp [Tally.over, failures, Tally.record, Tally.fail, failureOf, succeeded, mandatory]

theorem isolated_recordOptional (server : Server σ ι ε) {request : ι}
    (isOptional : optional request = true) :
    Isolated optional (fun tally => do return tally.recordOptional (← logged server request))
      [request] [] := by
  intro tally state log
  refine ⟨[(request, (server request state).1)], (server request state).2, rfl, ?_⟩
  change (tally.recordOptional (server request state).1, _) = _
  rw [Prod.mk.injEq]
  refine ⟨?_, rfl⟩
  cases (server request state).1 with
  | ok _ => simp [Tally.over, failures, Tally.recordOptional, failureOf, succeeded]
  | error failure =>
      simp [Tally.over, failures, Tally.recordOptional, failureOf, succeeded, isOptional]

/-- One step after another: the second makes its requests whatever the first was
answered. -/
theorem isolated_bind {first second : Tally ε → StateM (σ × Log ι ε) (Tally ε)}
    {firstRequests secondRequests : List ι} {rejected : List ε}
    (left : Isolated optional first firstRequests [])
    (right : Isolated optional second secondRequests rejected) :
    Isolated optional (fun tally => first tally >>= second) (firstRequests ++ secondRequests)
      rejected := by
  intro tally state log
  obtain ⟨leftEntries, middle, leftAsked, leftRun⟩ := left tally state log
  -- The second step goes on from the tally and the log that the first one left.
  obtain ⟨rightEntries, next, rightAsked, rightRun⟩ :=
    right (tally.over optional leftEntries []) middle (log ++ leftEntries)
  refine ⟨leftEntries ++ rightEntries, next, by rw [List.map_append, leftAsked, rightAsked], ?_⟩
  change second (first tally (state, log)).1 (first tally (state, log)).2 = _
  rw [leftRun, rightRun, Tally.over_append, List.append_assoc]

/-! ## Loops over requests -/

section Collect

variable {τ : Type}

/-- Every request is put to the server, and every answer recorded. -/
def collect (record : τ → Except ε Unit → τ) (server : Server σ ι ε) :
    List ι → τ → StateM σ τ
  | [], held => pure held
  | request :: rest, held => do collect record server rest (record held (← server request))

/-- Whatever is answered, each request is made once and in order. -/
theorem collect_logged (record : τ → Except ε Unit → τ) (server : Server σ ι ε)
    (requests : List ι) :
    ∀ (held : τ) (state : σ) (log : Log ι ε), ∃ answers next,
      answers.length = requests.length ∧
      collect record (logged server) requests held (state, log) =
        (answers.foldl record held, (next, log ++ requests.zip answers)) := by
  induction requests with
  | nil =>
      intro held state log
      refine ⟨[], state, rfl, ?_⟩
      rw [List.zip_nil_right, List.append_nil]
      rfl
  | cons request rest inductionHypothesis =>
      intro held state log
      let answered := server request state
      obtain ⟨answers, next, sameLength, run⟩ := inductionHypothesis (record held answered.1)
        answered.2 (log ++ [(request, answered.1)])
      refine ⟨answered.1 :: answers, next, by simp [sameLength], ?_⟩
      change collect record (logged server) rest (record held answered.1)
        (answered.2, log ++ [(request, answered.1)]) = _
      rw [run, List.append_assoc]
      rfl

/-- A loop over what the requests stand for. -/
theorem collect_map {κ : Type} (record : τ → Except ε Unit → τ) (server : Server σ ι ε)
    (requestOf : κ → ι) (items : List κ) : ∀ held : τ,
      collect record (fun item => server (requestOf item)) items held =
        collect record server (items.map requestOf) held := by
  induction items with
  | nil => exact fun _ => rfl
  | cons item rest inductionHypothesis =>
      intro held
      rw [List.map_cons]
      unfold collect
      simp only [inductionHypothesis]

/-- What every request keeps, the loop keeps. -/
theorem collect_maintains (record : τ → Except ε Unit → τ) (server : Server σ ι ε)
    {inv : σ → Prop} (requests : List ι)
    (kept : ∀ request ∈ requests, ∀ state, inv state → inv (server request state).2) :
    ∀ (held : τ) (state : σ), inv state → inv (collect record server requests held state).2 := by
  induction requests with
  | nil => exact fun _ _ holds => holds
  | cons request rest inductionHypothesis =>
      intro held state holds
      have first := kept request List.mem_cons_self state holds
      exact inductionHypothesis (fun other member => kept other (List.mem_cons_of_mem _ member))
        (record held (server request state).1) (server request state).2 first

/-- A server without a state, whose answers are a function of the request. -/
def answering (answer : ι → Except ε Unit) : Server Unit ι ε := fun request state =>
  (answer request, state)

theorem collect_answering (record : τ → Except ε Unit → τ) (answer : ι → Except ε Unit)
    (requests : List ι) :
    ∀ (held : τ) (log : Log ι ε),
      collect record (logged (answering answer)) requests held ((), log) =
        ((requests.map answer).foldl record held,
          ((), log ++ requests.map fun request => (request, answer request))) := by
  induction requests with
  | nil =>
      intro held log
      rw [List.map_nil, List.map_nil, List.append_nil]
      rfl
  | cons request rest inductionHypothesis =>
      intro held log
      change collect record (logged (answering answer)) rest (record held (answer request))
        ((), log ++ [(request, answer request)]) = _
      rw [inductionHypothesis, List.append_assoc]
      rfl

end Collect

end AnanicyRs.Lib.CallLog
