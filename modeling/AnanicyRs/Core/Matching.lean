import AnanicyRs.Core.RulesStore
import Mathlib.Data.List.Find

/-!
Contract: which rule a process name gets.

Owns the documented matching rule (`specMatch`): an exact name, or else the first
definition in force whose pattern matches. The code keeps the patterns of replaced
definitions too, so it answers with the first definition ever loaded that matches
(`findBestMatch_eq`); `NoStalePattern` says exactly when the two agree.
-/

set_option autoImplicit false

namespace AnanicyRs.Core.Rules

open AnanicyRs.Lib
open AnanicyRs.Lib.Json
open AnanicyRs.Lib.LastWins

variable {ρ κ : Type}

def patternMatches (crates : Crates ρ κ) (name : String) (definition : String × Document) :
    Bool :=
  ((definition.2.value.getStr "name_regex").bind crates.build).any fun compiled =>
    crates.isMatch compiled name

/-- The name of the rule a process gets by the documented rule. -/
def specMatch (crates : Crates ρ κ) (definitions : List (String × Document)) (name : String) :
    Option String :=
  if name ∈ definitions.map Prod.fst then some name
  else ((inForce definitions).find? (patternMatches crates name)).map Prod.fst

/-- The name is a rule's own, or no definition ever loaded has a pattern that matches
it, or the first that has belongs to the rule of the first one in force that has. -/
def NoStalePattern (crates : Crates ρ κ) (definitions : List (String × Document))
    (name : String) : Prop :=
  name ∈ definitions.map Prod.fst ∨
    (∀ definition ∈ definitions, patternMatches crates name definition = false) ∨
    ∃ first current, definitions.find? (patternMatches crates name) = some first ∧
      (inForce definitions).find? (patternMatches crates name) = some current ∧
      first.1 = current.1

section Match

variable {crates : Crates ρ κ} {definitions : List (String × Document)} {rules : Rules ρ κ}

theorem any_matcherOf (crates : Crates ρ κ) (name : String) (definition : String × Document) :
    (matcherOf crates definition.1 definition.2).any
        (fun matcher => crates.isMatch matcher.compiled name) =
      patternMatches crates name definition := by
  unfold matcherOf patternMatches
  cases definition.2.value.getStr "name_regex" with
  | none => rfl
  | some pattern => cases built : crates.build pattern <;> simp [built]

theorem matcherOf_name {name : String} {document : Document} {matcher : Matcher ρ}
    (compiled : matcherOf crates name document = some matcher) : matcher.name = name := by
  simp only [matcherOf, Option.bind_eq_some_iff, Option.map_eq_some_iff] at compiled
  obtain ⟨_, _, _, _, rfl⟩ := compiled
  rfl

/-- The regex scan answers with the first definition ever loaded that matches. -/
theorem firstMatcher_eq (tracks : Tracks crates definitions rules) (name : String) :
    firstMatcher crates rules name =
      (definitions.find? (patternMatches crates name)).map Prod.fst := by
  have everyKnown : ∀ matcher ∈ rules.regexPrograms,
      (rules.programs.lookup matcher.name).isSome = true := by
    intro matcher member
    rw [tracks.matchers, List.mem_filterMap] at member
    obtain ⟨definition, defined, compiled⟩ := member
    rw [matcherOf_name compiled, tracks.known]
    exact List.mem_map_of_mem defined
  have scan : rules.regexPrograms.find? (fun matcher =>
      crates.isMatch matcher.compiled name && (rules.programs.lookup matcher.name).isSome) =
      rules.regexPrograms.find? fun matcher => crates.isMatch matcher.compiled name := by
    refine List.find?_congr fun matcher member => ?_
    rw [everyKnown matcher member, Bool.and_true]
  unfold firstMatcher
  rw [scan, tracks.matchers, List.find?_filterMap]
  simp only [any_matcherOf]
  cases found : definitions.find? (patternMatches crates name) with
  | none => rfl
  | some first =>
      have isMatch := List.find?_some found
      rw [← any_matcherOf] at isMatch
      cases compiled : matcherOf crates first.1 first.2 with
      | none => simp [compiled] at isMatch
      | some matcher => simp [compiled, matcherOf_name compiled]

theorem findBestMatch_eq (tracks : Tracks crates definitions rules) (name : String) :
    findBestMatch crates rules name =
      if name ∈ definitions.map Prod.fst then some name
      else (definitions.find? (patternMatches crates name)).map Prod.fst := by
  unfold findBestMatch
  rw [firstMatcher_eq tracks]
  simp only [tracks.known]

theorem resolve_some (tracks : Tracks crates definitions rules) {name : String}
    (defined : name ∈ definitions.map Prod.fst) :
    ∃ rule, rules.resolve (some name) = some (name, rule) := by
  obtain ⟨index, found⟩ := Option.isSome_iff_exists.mp ((tracks.known name).mpr defined)
  have inside := tracks.inRange name index found
  exact ⟨rules.rules[index], by simp [resolve, found, List.getElem?_eq_getElem inside]⟩

theorem resolve_injective (tracks : Tracks crates definitions rules)
    {left right : Option String}
    (leftDefined : ∀ name, left = some name → name ∈ definitions.map Prod.fst)
    (rightDefined : ∀ name, right = some name → name ∈ definitions.map Prod.fst)
    (same : rules.resolve left = rules.resolve right) : left = right := by
  cases left with
  | none =>
      cases right with
      | none => rfl
      | some name =>
          obtain ⟨rule, resolved⟩ := resolve_some tracks (rightDefined name rfl)
          rw [resolved] at same
          exact absurd same (by simp [resolve])
  | some name =>
      obtain ⟨rule, resolved⟩ := resolve_some tracks (leftDefined name rfl)
      rw [resolved] at same
      cases right with
      | none => exact absurd same (by simp [resolve])
      | some other =>
          obtain ⟨otherRule, otherResolved⟩ := resolve_some tracks (rightDefined other rfl)
          rw [otherResolved, Option.some.injEq, Prod.mk.injEq] at same
          rw [same.1]

/-- The code and the documented rule agree on a name exactly when no stale pattern
decides it. -/
theorem findBestMatch_eq_specMatch_iff (tracks : Tracks crates definitions rules)
    (name : String) :
    findBestMatch crates rules name = specMatch crates definitions name ↔
      NoStalePattern crates definitions name := by
  rw [findBestMatch_eq tracks, specMatch, NoStalePattern]
  by_cases exactName : name ∈ definitions.map Prod.fst
  · rw [if_pos exactName, if_pos exactName]
    exact iff_of_true rfl (.inl exactName)
  · rw [if_neg exactName, if_neg exactName]
    cases everLoaded : definitions.find? (patternMatches crates name) with
    | none =>
        have noneMatches : ∀ definition ∈ definitions,
            patternMatches crates name definition = false := by
          intro definition member
          simpa using List.find?_eq_none.mp everLoaded definition member
        have noneInForce : (inForce definitions).find? (patternMatches crates name) = none := by
          rw [List.find?_eq_none]
          intro definition current
          simp [noneMatches definition ((inForce_sublist definitions).subset current)]
        rw [noneInForce]
        exact iff_of_true rfl (.inr (.inl noneMatches))
    | some first =>
        have loaded := List.mem_of_find?_eq_some everLoaded
        have someMatches : ¬ ∀ definition ∈ definitions,
            patternMatches crates name definition = false := by
          intro noneMatches
          have matched := List.find?_some everLoaded
          rw [noneMatches first loaded] at matched
          exact Bool.false_ne_true matched
        cases current : (inForce definitions).find? (patternMatches crates name) with
        | none =>
            apply iff_of_false (by simp)
            intro given
            rcases given with isName | noneMatches | ⟨_, _, _, found, _⟩
            · exact exactName isName
            · exact someMatches noneMatches
            · exact absurd found (by simp)
        | some definition =>
            constructor
            · intro sameName
              exact .inr (.inr ⟨first, definition, rfl, rfl, by simpa using sameName⟩)
            · intro given
              rcases given with isName | noneMatches | ⟨_, _, isFirst, isCurrent, sameName⟩
              · exact absurd isName exactName
              · exact absurd noneMatches someMatches
              · rw [Option.some.inj isFirst, Option.some.inj isCurrent]
                simpa using sameName

theorem specMatch_defined {name declared : String}
    (spec : specMatch crates definitions name = some declared) :
    declared ∈ definitions.map Prod.fst := by
  unfold specMatch at spec
  split at spec
  next exactName =>
    rw [← Option.some.inj spec]
    exact exactName
  next =>
    obtain ⟨definition, found, rfl⟩ := Option.map_eq_some_iff.mp spec
    have current := List.mem_of_find?_eq_some found
    exact List.mem_map_of_mem ((inForce_sublist definitions).subset current)

theorem findBestMatch_defined (tracks : Tracks crates definitions rules) {name declared : String}
    (best : findBestMatch crates rules name = some declared) :
    declared ∈ definitions.map Prod.fst := by
  rw [findBestMatch_eq tracks] at best
  split at best
  next exactName =>
    rw [← Option.some.inj best]
    exact exactName
  next =>
    obtain ⟨definition, found, rfl⟩ := Option.map_eq_some_iff.mp best
    exact List.mem_map_of_mem (List.mem_of_find?_eq_some found)

end Match

/-! ## Lookups on a cold cache -/

theorem loadLines_resolvedCache (crates : Crates ρ κ) (lines : List String) (rules : Rules ρ κ) :
    (loadLines crates lines rules).resolvedCache = rules.resolvedCache := by
  rw [loadLines_eq]
  change (loadPrograms crates (programLines crates lines) rules).resolvedCache = _
  induction programLines crates lines generalizing rules with
  | nil => rfl
  | cons head rest inductionHypothesis =>
      exact inductionHypothesis (loadProgram crates head.1 head.2 rules)

theorem coherent_loadLines_new (crates : Crates ρ κ) (names : NameTable) (lines : List String) :
    CacheCoherent crates (loadLines crates lines (new crates names)) := by
  unfold CacheCoherent
  rw [loadLines_resolvedCache]
  exact Cache.coherent_empty crates.cache _

/-- The answer to a lookup is the rule stored under the specified name; and while
the indices fit in 32 bits, that rule is `from_json` of the definition in force. -/
def MatchesAsSpecified (crates : Crates ρ κ) (names : NameTable) (lines : List String)
    (name : String) : Prop :=
  let store := loadLines crates lines (new crates names)
  let definitions := programLines crates lines
  (getRule crates name store).1 = store.resolve (specMatch crates definitions name) ∧
    ((definitions.map Prod.fst).dedup.length < indexModulus →
      ∀ declared rule, (getRule crates name store).1 = some (declared, rule) →
        ∃ document, lastOf definitions declared = some document ∧
          Rule.fromJson document.value store.names = (rule, store.names))

/-- After any lines and on a cold cache, `get_rule` follows the documented matching
rule for a name exactly when no pattern of a replaced definition decides it. -/
theorem getRule_specified_iff (crates : Crates ρ κ) (names : NameTable) (lines : List String)
    (name : String) :
    MatchesAsSpecified crates names lines name ↔
      NoStalePattern crates (programLines crates lines) name := by
  have tracks : Tracks crates (programLines crates lines)
      (loadLines crates lines (new crates names)) :=
    tracks_loadLines (tracks_new crates names) lines
  have lookup := getRule_fst (coherent_loadLines_new crates names lines) name
  constructor
  · intro given
    rcases given with ⟨same, _⟩
    rw [← findBestMatch_eq_specMatch_iff tracks]
    exact resolve_injective tracks (fun _ best => findBestMatch_defined tracks best)
      (fun _ spec => specMatch_defined spec) (lookup.symm.trans same)
  · intro noStale
    have agree := (findBestMatch_eq_specMatch_iff tracks name).mpr noStale
    refine ⟨lookup.trans (by rw [agree]), ?_⟩
    intro few declared rule answer
    obtain ⟨isBest, stored⟩ := (resolve_eq_some_iff _ _ _ _).mp (lookup.symm.trans answer)
    obtain ⟨document, isLast⟩ := Option.isSome_iff_exists.mp
      ((lastOf_isSome_iff _ declared).mpr (findBestMatch_defined tracks isBest))
    obtain ⟨held, found, read⟩ := (represents_loadLines crates names lines few).read _ _ isLast
    rw [found, Option.some.injEq] at stored
    exact ⟨document, isLast, stored ▸ read⟩

/-- `{"name":"a","name_regex":"fire"}` and `{"name":"a"}`. -/
def staleDefinitions : List (String × Document) :=
  [("\x7b\"name\":\"a\",\"name_regex\":\"fire\"\x7d",
      ⟨.object [("name", .string "a"), ("name_regex", .string "fire")], by decide⟩),
    ("\x7b\"name\":\"a\"\x7d", plainDocument)]

/-- Loaded and then replaced without its pattern, the rule still takes `firefox`,
which no definition in force matches. -/
theorem getRule_stale_pattern :
    ((getRule (literalCrates staleDefinitions) "firefox"
        (loadLines (literalCrates staleDefinitions)
          ["\x7b\"name\":\"a\",\"name_regex\":\"fire\"\x7d", "\x7b\"name\":\"a\"\x7d"]
          (new (literalCrates staleDefinitions) NameTable.empty))).1).map Prod.fst = some "a" ∧
      specMatch (literalCrates staleDefinitions)
        (programLines (literalCrates staleDefinitions)
          ["\x7b\"name\":\"a\",\"name_regex\":\"fire\"\x7d", "\x7b\"name\":\"a\"\x7d"])
        "firefox" = none ∧
      ¬ MatchesAsSpecified (literalCrates staleDefinitions) NameTable.empty
        ["\x7b\"name\":\"a\",\"name_regex\":\"fire\"\x7d", "\x7b\"name\":\"a\"\x7d"]
        "firefox" := by
  have answer : ((getRule (literalCrates staleDefinitions) "firefox"
        (loadLines (literalCrates staleDefinitions)
          ["\x7b\"name\":\"a\",\"name_regex\":\"fire\"\x7d", "\x7b\"name\":\"a\"\x7d"]
          (new (literalCrates staleDefinitions) NameTable.empty))).1).map Prod.fst = some "a" := by
    decide +kernel
  have spec : specMatch (literalCrates staleDefinitions)
        (programLines (literalCrates staleDefinitions)
          ["\x7b\"name\":\"a\",\"name_regex\":\"fire\"\x7d", "\x7b\"name\":\"a\"\x7d"])
        "firefox" = none := by
    decide +kernel
  refine ⟨answer, spec, ?_⟩
  intro given
  rcases given with ⟨same, _⟩
  rw [same, spec] at answer
  exact absurd answer (by simp [resolve])

end AnanicyRs.Core.Rules
