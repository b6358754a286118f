import AnanicyRs.Core.Matching

/-!
Contract: the abstract rule store, in which rules carry their names as texts.

Owns `StoreView` with its own load and inheritance, and the refinement: while the
name table is not full, every operation of the interned store is the one on views
(`view_loadPrograms`, `view_precomputeInheritance`). A view does not mention the name
table or an iteration order, so two runs that agree on their views agree on
everything a caller can see (`getRule_view`).

Also owns what the inheritance pass leaves alone, whatever the table.
-/

set_option autoImplicit false

namespace AnanicyRs.Core

open AnanicyRs.Lib
open AnanicyRs.Lib.Json
open AnanicyRs.Lib.LastWins

variable {ρ κ : Type}

/-! ## The abstract store -/

structure StoreView (ρ : Type) where
  programs : AList fun _ : String => Nat
  rules : List RuleView
  types : AList fun _ : String => Document
  cgroups : AList fun _ : String => Document
  regexPrograms : List (Matcher ρ)

/-- The overlay of a view on the type it names. -/
def RuleView.inheritType (types : AList fun _ : String => Document) (view : RuleView) : RuleView :=
  match view.typeName with
  | none => view
  | some typeName =>
      match types.lookup typeName with
      | none => view
      | some document => view.inherit (RuleView.ofJson document.value)

namespace StoreView

def empty : StoreView ρ where
  programs := ∅
  rules := []
  types := ∅
  cgroups := ∅
  regexPrograms := []

def unset : RuleView := Rule.default.view NameTable.empty

def loadProgram (crates : Crates ρ κ) (name : String) (document : Document)
    (store : StoreView ρ) : StoreView ρ :=
  let slot := match store.programs.lookup name with
    | some index => (index, store.rules)
    | none => (store.rules.length % Rules.indexModulus, store.rules ++ [unset])
  { store with
    programs := store.programs.insert name slot.1
    rules := slot.2.set slot.1 (RuleView.ofJson document.value)
    regexPrograms := store.regexPrograms ++ (Rules.matcherOf crates name document).toList }

def loadPrograms (crates : Crates ρ κ) (definitions : List (String × Document))
    (store : StoreView ρ) : StoreView ρ :=
  definitions.foldl (fun current definition =>
    loadProgram crates definition.1 definition.2 current) store

def ofDefinitions (crates : Crates ρ κ) (programs types cgroups : List (String × Document)) :
    StoreView ρ :=
  { loadPrograms crates programs empty with
    types := insertAll types ∅
    cgroups := insertAll cgroups ∅ }

def inheritAll (store : StoreView ρ) : StoreView ρ :=
  { store with rules := store.rules.map (RuleView.inheritType store.types) }

/-- The rule a name finds, with the name it is declared under. -/
def lookup (crates : Crates ρ κ) (store : StoreView ρ) (name : String) :
    Option (String × RuleView) :=
  let best :=
    if (store.programs.lookup name).isSome then some name
    else (store.regexPrograms.find? fun matcher =>
      crates.isMatch matcher.compiled name && (store.programs.lookup matcher.name).isSome).map
        Matcher.name
  best.bind fun declared =>
    (store.programs.lookup declared).bind fun index =>
      (store.rules[index]?).map fun view => (declared, view)

end StoreView

namespace Rules

def view (table : NameTable) (rules : Rules ρ κ) : StoreView ρ where
  programs := rules.programs
  rules := rules.rules.map (Rule.view table)
  types := rules.types
  cgroups := rules.cgroups
  regexPrograms := rules.regexPrograms

/-! ## Loading refines the abstract load -/

theorem view_default (table : NameTable) : Rule.default.view table = StoreView.unset := rfl

theorem view_loadProgram {crates : Crates ρ κ} {rules : Rules ρ κ} {later : NameTable}
    (name : String) (document : Document)
    (inRange : ∀ index, rules.programs.lookup name = some index → index < rules.rules.length)
    (grows : NameTable.Grows (loadProgram crates name document rules).names later)
    (notFull : later.NotFull) :
    (loadProgram crates name document rules).view later =
      StoreView.loadProgram crates name document (rules.view later) := by
  rw [loadProgram_of_inside (reserve_inside inRange)] at grows ⊢
  have read := Rule.view_fromJson grows notFull
  unfold view StoreView.loadProgram reserve
  simp only [List.map_set, read]
  cases rules.programs.lookup name with
  | some index => rfl
  | none => simp [view_default]

theorem loadProgram_grows (crates : Crates ρ κ) (name : String) (document : Document)
    (rules : Rules ρ κ) :
    NameTable.Grows rules.names (loadProgram crates name document rules).names := by
  unfold loadProgram
  simp only
  split
  · exact (Rule.stable_fromJson document.value rules.names).1
  · exact NameTable.Grows.refl _

theorem loadPrograms_grows (crates : Crates ρ κ) (definitions : List (String × Document))
    (rules : Rules ρ κ) :
    NameTable.Grows rules.names (loadPrograms crates definitions rules).names := by
  induction definitions generalizing rules with
  | nil => exact NameTable.Grows.refl _
  | cons head rest inductionHypothesis =>
      exact (loadProgram_grows crates head.1 head.2 rules).trans (inductionHypothesis _)

theorem view_loadPrograms {crates : Crates ρ κ} {before : List (String × Document)}
    {rules : Rules ρ κ} {later : NameTable} (tracks : Tracks crates before rules)
    (definitions : List (String × Document))
    (grows : NameTable.Grows (loadPrograms crates definitions rules).names later)
    (notFull : later.NotFull) :
    (loadPrograms crates definitions rules).view later =
      StoreView.loadPrograms crates definitions (rules.view later) := by
  induction definitions generalizing before rules with
  | nil => rfl
  | cons head rest inductionHypothesis =>
      have headGrows : NameTable.Grows (loadProgram crates head.1 head.2 rules).names later :=
        (loadPrograms_grows crates rest _).trans grows
      have headView := view_loadProgram head.1 head.2 (tracks.inRange head.1) headGrows notFull
      have restView := inductionHypothesis (tracks_loadProgram tracks head.1 head.2) grows
      calc (loadPrograms crates (head :: rest) rules).view later
          = StoreView.loadPrograms crates rest
              ((loadProgram crates head.1 head.2 rules).view later) := restView
        _ = StoreView.loadPrograms crates (head :: rest) (rules.view later) := by
          rw [headView]
          rfl

/-- The view of a blank store after any lines depends on its lines of each kind. -/
theorem view_loadLines {crates : Crates ρ κ} {rules : Rules ρ κ} {later : NameTable}
    (tracks : Tracks crates [] rules) (blank : rules.view later = StoreView.empty)
    (lines : List String) (grows : NameTable.Grows (loadLines crates lines rules).names later)
    (notFull : later.NotFull) :
    (loadLines crates lines rules).view later =
      StoreView.ofDefinitions crates (programLines crates lines) (typeLines crates lines)
        (cgroupLines crates lines) := by
  rw [loadLines_eq] at grows ⊢
  have programs := view_loadPrograms tracks (programLines crates lines) grows notFull
  have types : rules.types = ∅ := congrArg StoreView.types blank
  have cgroups : rules.cgroups = ∅ := congrArg StoreView.cgroups blank
  unfold StoreView.ofDefinitions
  rw [← blank, ← programs, types, cgroups]
  rfl

/-! ## The inheritance pass -/

theorem stable_resolveBases (entries : List (Sigma fun _ : String => Document)) :
    Stable (resolveBases entries) := by
  induction entries with
  | nil => exact stable_pure _
  | cons entry rest inductionHypothesis =>
      exact stable_bind (Rule.stable_fromJson entry.2.value) fun _ =>
        stable_bind inductionHypothesis fun _ => stable_pure _

def baseOf (names : NameTable) (document : Document) : Rule :=
  { (Rule.fromJson document.value names).1 with typeName := .none }

/-- Each base is its document read in any later table, which does not change. -/
theorem lookup_resolveBases {later : NameTable} (typeName : String) :
    ∀ (entries : List (Sigma fun _ : String => Document)) (names : NameTable),
      NameTable.Grows (resolveBases entries names).2 later →
        (resolveBases entries names).1.lookup typeName =
          (entries.dlookup typeName).map (baseOf later)
  | [], _, _ => rfl
  | ⟨name, document⟩ :: rest, names, grows => by
      let read := Rule.fromJson document.value names
      -- The rest of the pass only adds names, so the head reads the same afterwards.
      have restGrows : NameTable.Grows read.2 (resolveBases rest read.2).2 :=
        (stable_resolveBases rest read.2).1
      have again : Rule.fromJson document.value later = (read.1, later) :=
        (Rule.stable_fromJson document.value names).2 later (restGrows.trans grows)
      have unfolded : (resolveBases (⟨name, document⟩ :: rest) names).1 =
          (name, { read.1 with typeName := .none }) :: (resolveBases rest read.2).1 := rfl
      rw [unfolded, List.lookup_cons]
      by_cases same : typeName = name
      · subst same
        rw [beq_self_eq_true, List.dlookup_cons_eq]
        simp [baseOf, again]
      · rw [beq_false_of_ne same, List.dlookup_cons_ne rest _ same]
        exact lookup_resolveBases typeName rest read.2 grows

theorem settled_resolveBases {later : NameTable} :
    ∀ (entries : List (Sigma fun _ : String => Document)) (names : NameTable),
      NameTable.Grows (resolveBases entries names).2 later →
        ∀ entry ∈ entries, (Rule.fromJson entry.2.value later).2 = later
  | [], _, _, _, member => absurd member (by simp)
  | head :: rest, names, grows, entry, member => by
      let read := Rule.fromJson head.2.value names
      have restGrows : NameTable.Grows read.2 (resolveBases rest read.2).2 :=
        (stable_resolveBases rest read.2).1
      rcases List.mem_cons.mp member with rfl | inRest
      · have again := (Rule.stable_fromJson entry.2.value names).2 later (restGrows.trans grows)
        rw [again]
      · exact settled_resolveBases rest read.2 grows entry inRest

/-- A pass over settled types changes no table. -/
theorem resolveBases_settled {names : NameTable} :
    ∀ entries : List (Sigma fun _ : String => Document),
      (∀ entry ∈ entries, (Rule.fromJson entry.2.value names).2 = names) →
        (resolveBases entries names).2 = names
  | [], _ => rfl
  | head :: rest, settled => by
      have first : (Rule.fromJson head.2.value names).2 = names := settled head (by simp)
      have unfolded : (resolveBases (head :: rest) names).2 =
          (resolveBases rest (Rule.fromJson head.2.value names).2).2 := rfl
      rw [unfolded, first]
      exact resolveBases_settled rest fun entry member => settled entry (by simp [member])

def inheritedNames (order : IterationOrder) (rules : Rules ρ κ) : NameTable :=
  (resolveBases (order.visit rules.types.entries) rules.names).2

def inheritIn (names : NameTable) (types : AList fun _ : String => Document) (rule : Rule) :
    Rule :=
  match rule.typeName.asStr names with
  | none => rule
  | some typeName =>
      match types.lookup typeName with
      | none => rule
      | some document => rule.inherit (baseOf names document)

/-- The pass, without its iteration order: that decides the table alone. -/
theorem precomputeInheritance_eq (crates : Crates ρ κ) (order : IterationOrder)
    (rules : Rules ρ κ) :
    precomputeInheritance crates order rules =
      { rules with
        names := inheritedNames order rules
        rules := rules.rules.map (inheritIn (inheritedNames order rules) rules.types)
        resolvedCache := crates.cache.clear rules.resolvedCache } := by
  have sameRules : inheritType (inheritedNames order rules)
      (resolveBases (order.visit rules.types.entries) rules.names).1 =
        inheritIn (inheritedNames order rules) rules.types := by
    funext rule
    unfold inheritType inheritIn
    cases rule.typeName.asStr (inheritedNames order rules) with
    | none => rfl
    | some typeName =>
        have visited : (order.visit rules.types.entries).dlookup typeName =
            rules.types.lookup typeName :=
          (List.perm_dlookup typeName rules.types.nodupKeys (order.perm _).symm).symm
        simp only [lookup_resolveBases typeName _ rules.names (NameTable.Grows.refl _), visited]
        cases rules.types.lookup typeName <;> rfl
  rw [← sameRules]
  rfl

theorem inheritedNames_grows (order : IterationOrder) (rules : Rules ρ κ) :
    NameTable.Grows rules.names (inheritedNames order rules) :=
  (stable_resolveBases _ rules.names).1

theorem settled_inheritedNames (order : IterationOrder) (rules : Rules ρ κ) :
    ∀ entry ∈ rules.types.entries,
      (Rule.fromJson entry.2.value (inheritedNames order rules)).2 =
        inheritedNames order rules := by
  intro entry member
  apply settled_resolveBases _ rules.names (NameTable.Grows.refl _) entry
  exact (order.perm _).mem_iff.mpr member

theorem view_inheritIn {names : NameTable} {types : AList fun _ : String => Document}
    (settled : ∀ entry ∈ types.entries, (Rule.fromJson entry.2.value names).2 = names)
    (notFull : names.NotFull) (rule : Rule) :
    (inheritIn names types rule).view names = (rule.view names).inheritType types := by
  unfold inheritIn RuleView.inheritType
  rw [show (rule.view names).typeName = rule.typeName.asStr names from rfl]
  cases rule.typeName.asStr names with
  | none => rfl
  | some typeName =>
      cases found : types.lookup typeName with
      | none => simp only [found]
      | some document =>
          have isSettled := settled ⟨typeName, document⟩ (AList.mem_lookup_iff.mp found)
          have grows : NameTable.Grows (Rule.fromJson document.value names).2 names := by
            rw [isSettled]
            exact NameTable.Grows.refl names
          have base := Rule.view_fromJson grows notFull
          simp only [found, Rule.view_inherit, ← base]
          rfl

/-- The pass on the abstract store, at the table it leaves. -/
theorem view_precomputeInheritance (crates : Crates ρ κ) (order : IterationOrder)
    (rules : Rules ρ κ) (notFull : (inheritedNames order rules).NotFull) :
    (precomputeInheritance crates order rules).view (inheritedNames order rules) =
      (rules.view (inheritedNames order rules)).inheritAll := by
  rw [precomputeInheritance_eq]
  unfold view StoreView.inheritAll
  simp only [List.map_map]
  congr 1
  apply List.map_congr_left
  intro rule _
  exact view_inheritIn (settled_inheritedNames order rules) notFull rule

theorem inherit_inherit (rule base : Rule) :
    (rule.inherit base).inherit base = rule.inherit base := by
  have values : ∀ {α : Type} (own held : Attribute α),
      Rule.overlayValue (Rule.overlayValue own held) held = Rule.overlayValue own held := by
    intro α own held
    cases own <;> cases held <;> rfl
  have names : ∀ own held : NameAttribute,
      Rule.overlayName (Rule.overlayName own held) held = Rule.overlayName own held := by
    intro own held
    unfold Rule.overlayName
    by_cases absent : own.isAbsent = true <;> simp [absent]
  simp [Rule.inherit, values, names]

theorem inheritIn_inheritIn (names : NameTable) (types : AList fun _ : String => Document)
    (rule : Rule) :
    inheritIn names types (inheritIn names types rule) = inheritIn names types rule := by
  cases named : rule.typeName.asStr names with
  | none => simp [inheritIn, named]
  | some typeName =>
      cases found : types.lookup typeName with
      | none => simp [inheritIn, named, found]
      | some document =>
          have once : inheritIn names types rule = rule.inherit (baseOf names document) := by
            simp [inheritIn, named, found]
          have typeKept : (rule.inherit (baseOf names document)).typeName = rule.typeName := rfl
          rw [once, inheritIn, typeKept, named]
          simp only [found]
          exact inherit_inherit rule (baseOf names document)

/-- A second pass, in any order, changes nothing but the cache it clears. -/
theorem precomputeInheritance_again (crates : Crates ρ κ) (first second : IterationOrder)
    (rules : Rules ρ κ) :
    precomputeInheritance crates second (precomputeInheritance crates first rules) =
      { precomputeInheritance crates first rules with
        resolvedCache := crates.cache.clear
          (precomputeInheritance crates first rules).resolvedCache } := by
  have sameNames : inheritedNames second (precomputeInheritance crates first rules) =
      inheritedNames first rules := by
    apply resolveBases_settled _
    intro entry member
    have isType := (second.perm _).mem_iff.mp member
    exact settled_inheritedNames first rules entry isType
  rw [precomputeInheritance_eq crates second, sameNames, precomputeInheritance_eq crates first]
  simp only [List.map_map]
  congr 1
  apply List.map_congr_left
  intro rule _
  exact inheritIn_inheritIn _ _ rule

/-! ## Lookups -/

/-- A lookup through a coherent cache sees the view and nothing else. -/
theorem getRule_view {crates : Crates ρ κ} {rules : Rules ρ κ}
    (coherent : CacheCoherent crates rules) (table : NameTable) (name : String) :
    (getRule crates name rules).1.map (fun answer => (answer.1, answer.2.view table)) =
      (rules.view table).lookup crates name := by
  rw [getRule_fst coherent]
  have sameBest : (rules.view table).lookup crates name =
      (findBestMatch crates rules name).bind fun declared =>
        (rules.programs.lookup declared).bind fun index =>
          ((rules.rules.map (Rule.view table))[index]?).map fun view => (declared, view) := rfl
  rw [sameBest]
  cases findBestMatch crates rules name with
  | none => rfl
  | some declared =>
      cases found : rules.programs.lookup declared with
      | none => simp [resolve, found]
      | some index =>
          cases stored : rules.rules[index]? <;> simp [resolve, found, stored]

end Rules

end AnanicyRs.Core
