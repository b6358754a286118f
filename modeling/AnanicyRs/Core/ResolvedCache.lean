import AnanicyRs.Core.Directory
import AnanicyRs.Lib.StateInvariant

/-!
Contract: transparency of the resolved-rule cache.

Owns the invariant that every cached answer is the one the tables give now, over
every interleaving of lookups and loads. `load_directory` starts and ends with an
empty cache; a single line or file changes the tables under a warm one, and
`LineSpares` names the two ways in which that leaves a stale answer behind.
-/

set_option autoImplicit false

namespace AnanicyRs.Core.Rules

open AnanicyRs.Lib
open AnanicyRs.Lib.Json
open AnanicyRs.Lib.StateInvariant

variable {ρ κ : Type}

/-! ## Operations -/

/-- The public operations on one `Rules` value, with what they read from disk. -/
inductive Operation where
  | getRule (name : String)
  | loadRuleFromString (line : String)
  | loadFile (content : Option String)
  | loadDirectory (flags : LoadFlags) (order : IterationOrder) (tree : RuleTree)

def step (crates : Crates ρ κ) (operation : Operation) (rules : Rules ρ κ) : Rules ρ κ :=
  match operation with
  | .getRule name => (getRule crates name rules).2
  | .loadRuleFromString line => (loadRuleFromString crates line rules).2
  | .loadFile content => loadFile crates content rules
  | .loadDirectory flags order tree => loadDirectory crates flags order tree rules

def stepLine (crates : Crates ρ κ) (line : String) (rules : Rules ρ κ) : Rules ρ κ :=
  (loadRuleFromNamed crates line rules).2

/-! ## What a line may change under a warm cache -/

/-- A program line spares the cache: a name it adds is not cached, and its pattern
matches no name that is cached as having no rule. -/
def LineSpares (crates : Crates ρ κ) (rules : Rules ρ κ) (line : String) : Prop :=
  ∀ name document, definitionOf crates line = some (.program name document) →
      (rules.programs.lookup name = none →
        ∀ answer, ¬ crates.cache.Holds rules.resolvedCache name answer) ∧
      ∀ key, crates.cache.Holds rules.resolvedCache key none →
        patternMatches crates key (name, document) = false

def SparesCache (crates : Crates ρ κ) (rules : Rules ρ κ) : Operation → Prop
  | .loadRuleFromString line => LineSpares crates rules line
  | .loadFile (some text) =>
      Admits (stepLine crates) (LineSpares crates) (Text.lines text) rules
  | _ => True

/-- The invariant: a coherent cache over tables that hold some definitions. -/
structure Transparent (crates : Crates ρ κ) (rules : Rules ρ κ) : Prop where
  coherent : CacheCoherent crates rules
  tracked : ∃ definitions, Tracks crates definitions rules

theorem transparent_new (crates : Crates ρ κ) (names : NameTable) :
    Transparent crates (new crates names) where
  coherent := Cache.coherent_empty crates.cache _
  tracked := ⟨[], tracks_new crates names⟩

section Steps

variable {crates : Crates ρ κ} {rules : Rules ρ κ}

theorem transparent_getRule (transparent : Transparent crates rules) (name : String) :
    Transparent crates (getRule crates name rules).2 := by
  obtain ⟨cache, after, coherent⟩ := getRule_snd crates name rules
  obtain ⟨definitions, tracks⟩ := transparent.tracked
  rw [after]
  exact ⟨coherent transparent.coherent, definitions, tracks.known, tracks.inRange, tracks.matchers⟩

/-- The answer for a name that is still cached is the same after a program line that
spares the cache. -/
theorem findBestMatch_loadProgram {definitions : List (String × Document)}
    (tracks : Tracks crates definitions rules) {name : String} {document : Document}
    {key : String}
    (notNew : rules.programs.lookup name = none → key ≠ name)
    (noMatch : findBestMatch crates rules key = none →
      patternMatches crates key (name, document) = false) :
    findBestMatch crates (loadProgram crates name document rules) key =
      findBestMatch crates rules key := by
  have loaded := tracks_loadProgram tracks name document
  rw [findBestMatch_eq loaded, findBestMatch_eq tracks]
  rw [findBestMatch_eq tracks] at noMatch
  by_cases defined : key ∈ definitions.map Prod.fst
  · rw [if_pos defined, if_pos (by rw [List.map_append]; exact List.mem_append_left _ defined)]
  · have stillUndefined : key ∉ (definitions ++ [(name, document)]).map Prod.fst := by
      rw [List.map_append, List.mem_append]
      intro given
      rcases given with old | new
      · exact defined old
      · have isName : key = name := by simpa using new
        refine notNew ?_ isName
        rw [← Option.isNone_iff_eq_none, ← Option.isSome_eq_false_iff, ← Bool.not_eq_true,
          tracks.known, ← isName]
        exact defined
    rw [if_neg defined] at noMatch ⊢
    rw [if_neg stillUndefined, List.find?_append]
    cases found : definitions.find? (patternMatches crates key) with
    | some first => rfl
    | none => simp [noMatch (by rw [found]; rfl)]

theorem transparent_stepLine (line : String) (transparent : Transparent crates rules)
    (spares : LineSpares crates rules line) : Transparent crates (stepLine crates line rules) := by
  obtain ⟨definitions, tracks⟩ := transparent.tracked
  unfold stepLine loadRuleFromNamed
  cases defined : definitionOf crates line with
  | none => exact transparent
  | some definition =>
      cases definition with
      | type name document =>
          exact ⟨transparent.coherent, definitions, tracks.known, tracks.inRange, tracks.matchers⟩
      | cgroup name document =>
          exact ⟨transparent.coherent, definitions, tracks.known, tracks.inRange, tracks.matchers⟩
      | program name document =>
          obtain ⟨nameSpared, patternSpared⟩ := spares name document defined
          refine ⟨?_, _, tracks_loadProgram tracks name document⟩
          apply transparent.coherent.change
          intro key cached
          refine findBestMatch_loadProgram tracks ?_ ?_
          · rintro fresh rfl
            exact nameSpared fresh _ cached
          · intro noRule
            rw [noRule] at cached
            exact patternSpared key cached

theorem transparent_loadLines (lines : List String) (transparent : Transparent crates rules)
    (spares : Admits (stepLine crates) (LineSpares crates) lines rules) :
    Transparent crates (loadLines crates lines rules) := by
  induction lines generalizing rules with
  | nil => exact transparent
  | cons line rest inductionHypothesis =>
      exact inductionHypothesis (transparent_stepLine line transparent spares.1) spares.2

/-- A directory load ends with an empty cache, whatever it read. -/
theorem transparent_loadDirectory (flags : LoadFlags) (order : IterationOrder) (tree : RuleTree)
    (transparent : Transparent crates rules) :
    Transparent crates (loadDirectory crates flags order tree rules) := by
  unfold loadDirectory
  split
  · rw [loadFiles_eq]
    have lines := tracks_loadLines (tracks_cleared crates rules)
      ((sortedFiles tree).flatMap (fileLines flags))
    exact ⟨Cache.coherent_clear crates.cache _ _, _, tracks_precomputeInheritance lines order⟩
  · exact transparent

theorem transparent_step (rules : Rules ρ κ) (operation : Operation)
    (transparent : Transparent crates rules) (spares : SparesCache crates rules operation) :
    Transparent crates (step crates operation rules) := by
  cases operation with
  | getRule name => exact transparent_getRule transparent name
  | loadRuleFromString line => exact transparent_stepLine line transparent spares
  | loadFile content =>
      cases content with
      | none => exact transparent
      | some text => exact transparent_loadLines (Text.lines text) transparent spares
  | loadDirectory flags order tree =>
      exact transparent_loadDirectory flags order tree transparent

end Steps

/-- In every run of operations in which the loads of single lines and files spare
the cache, every lookup in every state reached answers what the tables say there. -/
theorem getRule_transparent (crates : Crates ρ κ) (names : NameTable)
    (operations : List Operation)
    (spares : Admits (step crates) (SparesCache crates) operations (new crates names)) :
    ∀ reached ∈ states (step crates) operations (new crates names), ∀ name,
      (getRule crates name reached).1 =
        reached.resolve (findBestMatch crates reached name) := by
  intro reached member name
  have transparent := invariant_of_admits transparent_step operations _
    (transparent_new crates names) spares reached member
  exact getRule_fst transparent.coherent name

def cachedDefinitions : List (String × Document) :=
  [("\x7b\"name\":\"cached\"\x7d", ⟨.object [("name", .string "cached")], by decide⟩),
    ("\x7b\"name\":\"other\"\x7d", ⟨.object [("name", .string "other")], by decide⟩)]

def missThenLoad (line : String) : List Operation :=
  [.getRule "cached", .loadRuleFromString line]

def afterMiss (line : String) : Rules String (List (String × Option String)) :=
  step (literalCrates cachedDefinitions) (.loadRuleFromString line)
    (step (literalCrates cachedDefinitions) (.getRule "cached")
      (new (literalCrates cachedDefinitions) NameTable.empty))

/-- A miss for one name stays right when a rule of another name is loaded. -/
theorem getRule_transparent_other :
    (getRule (literalCrates cachedDefinitions) "cached"
        (afterMiss "\x7b\"name\":\"other\"\x7d")).1 =
      (afterMiss "\x7b\"name\":\"other\"\x7d").resolve
        (findBestMatch (literalCrates cachedDefinitions)
          (afterMiss "\x7b\"name\":\"other\"\x7d") "cached") := by
  refine getRule_transparent (literalCrates cachedDefinitions) NameTable.empty
    (missThenLoad "\x7b\"name\":\"other\"\x7d") ⟨trivial, ?_, trivial⟩ _
    (by simp [missThenLoad, afterMiss, states]) "cached"
  have cache : (step (literalCrates cachedDefinitions) (.getRule "cached")
      (new (literalCrates cachedDefinitions) NameTable.empty)).resolvedCache =
        [("cached", none)] := by decide +kernel
  intro name document defined
  have isOther : (name, document) =
      ("other", ⟨.object [("name", .string "other")], by decide⟩) := by
    have known : definitionOf (literalCrates cachedDefinitions) "\x7b\"name\":\"other\"\x7d" =
      some (.program "other" ⟨.object [("name", .string "other")], by decide⟩) := rfl
    rw [known, Option.some.injEq, Definition.program.injEq] at defined
    rw [← defined.1, ← defined.2]
  obtain ⟨rfl, rfl⟩ := Prod.mk.inj isOther
  rw [cache]
  refine ⟨fun _ answer held => ?_, fun key held => ?_⟩
  · have isCached := List.mem_singleton.mp held
    simp at isCached
  · rfl

/-- A miss that is cached before the rule is loaded outlives the load. -/
theorem getRule_stale_miss :
    (getRule (literalCrates cachedDefinitions) "cached"
        (afterMiss "\x7b\"name\":\"cached\"\x7d")).1.isNone = true ∧
      ((afterMiss "\x7b\"name\":\"cached\"\x7d").resolve
        (findBestMatch (literalCrates cachedDefinitions)
          (afterMiss "\x7b\"name\":\"cached\"\x7d") "cached")).isSome = true ∧
      (getRule (literalCrates cachedDefinitions) "cached"
          (afterMiss "\x7b\"name\":\"cached\"\x7d")).1 ≠
        (afterMiss "\x7b\"name\":\"cached\"\x7d").resolve
          (findBestMatch (literalCrates cachedDefinitions)
            (afterMiss "\x7b\"name\":\"cached\"\x7d") "cached") := by
  have missed : (getRule (literalCrates cachedDefinitions) "cached"
      (afterMiss "\x7b\"name\":\"cached\"\x7d")).1.isNone = true := by
    decide +kernel
  have present : ((afterMiss "\x7b\"name\":\"cached\"\x7d").resolve
      (findBestMatch (literalCrates cachedDefinitions)
        (afterMiss "\x7b\"name\":\"cached\"\x7d") "cached")).isSome = true := by
    decide +kernel
  refine ⟨missed, present, fun same => ?_⟩
  rw [← same, Option.isNone_iff_eq_none.mp missed] at present
  exact absurd present (by decide)

end AnanicyRs.Core.Rules
