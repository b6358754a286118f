import AnanicyRs.Core.Rules
import AnanicyRs.Lib.LastWins
import Mathlib.Data.Set.Function

/-!
Contract: what the rule store holds after any sequence of lines.

Owns the split of a load into its three independent stores (`loadLines_eq`), the
representation invariant of the program rules (`Represents`) with its step and run
lemmas, and the all-or-nothing behaviour of one line.

Two structures hold the program rules: a map of indices and a list of rules. The
invariant ties both to the names in the order of their first definition, and each
rule to the last definition of its name.
-/

set_option autoImplicit false

namespace AnanicyRs.Core.Rules

open AnanicyRs.Lib
open AnanicyRs.Lib.Json
open AnanicyRs.Lib.LastWins

variable {ρ κ : Type}

/-! ## The lines of each kind -/

def documentOf (crates : Crates ρ κ) (line : String) : Option Document :=
  (ruleText line).bind crates.fromStr

/-- A program rule: an object with a string `name`. -/
def programOf (document : Document) : Option (String × Document) :=
  (document.value.getStr "name").map fun name => (name, document)

/-- A type: a string `type` and no string `name`. -/
def typeOf (document : Document) : Option (String × Document) :=
  if (document.value.getStr "name").isSome then none
  else (document.value.getStr "type").map fun typeName => (typeName, document)

/-- A cgroup: a string `cgroup` and neither of the others. -/
def cgroupOf (document : Document) : Option (String × Document) :=
  if (document.value.getStr "name").isSome || (document.value.getStr "type").isSome then none
  else (document.value.getStr "cgroup").map fun cgroupName => (cgroupName, document)

def programLines (crates : Crates ρ κ) (lines : List String) : List (String × Document) :=
  (lines.filterMap (documentOf crates)).filterMap programOf

def typeLines (crates : Crates ρ κ) (lines : List String) : List (String × Document) :=
  (lines.filterMap (documentOf crates)).filterMap typeOf

def cgroupLines (crates : Crates ρ κ) (lines : List String) : List (String × Document) :=
  (lines.filterMap (documentOf crates)).filterMap cgroupOf

def loadPrograms (crates : Crates ρ κ) (definitions : List (String × Document))
    (rules : Rules ρ κ) : Rules ρ κ :=
  definitions.foldl (fun current definition =>
    loadProgram crates definition.1 definition.2 current) rules

/-- What one line does, by the kind of its JSON. -/
theorem loadRuleFromNamed_eq (crates : Crates ρ κ) (line : String) (rules : Rules ρ κ) :
    loadRuleFromNamed crates line rules =
      match documentOf crates line with
      | none => (false, rules)
      | some document =>
          ((programOf document).isSome || (typeOf document).isSome || (cgroupOf document).isSome,
            { loadPrograms crates (programOf document).toList rules with
              types := insertAll (typeOf document).toList rules.types
              cgroups := insertAll (cgroupOf document).toList rules.cgroups }) := by
  have definition : definitionOf crates line = (documentOf crates line).bind classify := by
    simp [definitionOf, documentOf, Option.bind_assoc]
  rw [loadRuleFromNamed, definition]
  cases documentOf crates line with
  | none => rfl
  | some document =>
      simp only [Option.bind_some, classify, programOf, typeOf, cgroupOf]
      cases document.value.getStr "name" with
      | some name => rfl
      | none =>
          cases document.value.getStr "type" with
          | some typeName => rfl
          | none => cases document.value.getStr "cgroup" <;> rfl

theorem loadPrograms_frame (crates : Crates ρ κ) (definitions : List (String × Document))
    (rules : Rules ρ κ) (types cgroups : AList fun _ : String => Document) :
    loadPrograms crates definitions { rules with types := types, cgroups := cgroups } =
      { loadPrograms crates definitions rules with types := types, cgroups := cgroups } := by
  induction definitions generalizing rules with
  | nil => rfl
  | cons head rest inductionHypothesis =>
      exact inductionHypothesis (loadProgram crates head.1 head.2 rules)

/-- A load is three independent loads: program rules, types and cgroups. -/
theorem loadLines_eq (crates : Crates ρ κ) (lines : List String) (rules : Rules ρ κ) :
    loadLines crates lines rules =
      { loadPrograms crates (programLines crates lines) rules with
        types := insertAll (typeLines crates lines) rules.types
        cgroups := insertAll (cgroupLines crates lines) rules.cgroups } := by
  induction lines generalizing rules with
  | nil => rfl
  | cons line rest inductionHypothesis =>
      have unfolded : loadLines crates (line :: rest) rules =
          loadLines crates rest (loadRuleFromNamed crates line rules).2 := rfl
      rw [unfolded, inductionHypothesis, loadRuleFromNamed_eq]
      unfold programLines typeLines cgroupLines
      cases parsed : documentOf crates line with
      | none => simp [parsed]
      | some document =>
          have split : ∀ f : Document → Option (String × Document),
              ((line :: rest).filterMap (documentOf crates)).filterMap f =
                (f document).toList ++ (rest.filterMap (documentOf crates)).filterMap f := by
            intro f
            cases read : f document <;> simp [parsed, read]
          simp only [split]
          rw [loadPrograms_frame]
          simp [loadPrograms, insertAll, List.foldl_append]

theorem reserve_inside {rules : Rules ρ κ} {name : String}
    (inRange : ∀ index, rules.programs.lookup name = some index → index < rules.rules.length) :
    (reserve rules name).1 < (reserve rules name).2.length := by
  unfold reserve
  cases known : rules.programs.lookup name with
  | some index => exact inRange index known
  | none =>
      have noLarger := Nat.mod_le rules.rules.length indexModulus
      simp only [List.length_append, List.length_singleton]
      omega

theorem loadProgram_of_inside {crates : Crates ρ κ} {name : String} {document : Document}
    {rules : Rules ρ κ} (inside : (reserve rules name).1 < (reserve rules name).2.length) :
    loadProgram crates name document rules =
      { rules with
        names := (Rule.fromJson document.value rules.names).2
        programs := rules.programs.insert name (reserve rules name).1
        rules := (reserve rules name).2.set (reserve rules name).1
          (Rule.fromJson document.value rules.names).1
        regexPrograms := rules.regexPrograms ++ (matcherOf crates name document).toList } := by
  simp only [loadProgram, if_pos inside]
  rfl

/-! ## The representation invariant -/

def ruleOf (rules : Rules ρ κ) (name : String) : Option Rule :=
  (rules.programs.lookup name).bind fun index => rules.rules[index]?

theorem resolve_eq_some_iff (rules : Rules ρ κ) (answer : Option String) (declared : String)
    (rule : Rule) :
    rules.resolve answer = some (declared, rule) ↔
      answer = some declared ∧ ruleOf rules declared = some rule := by
  cases answer with
  | none => simp [resolve]
  | some name =>
      simp only [resolve, ruleOf, Option.bind_some, Option.bind_eq_some_iff,
        Option.map_eq_some_iff, Prod.mk.injEq, Option.some.injEq]
      constructor
      · intro given
        rcases given with ⟨index, found, held, stored, rfl, rfl⟩
        exact ⟨rfl, index, found, stored⟩
      · intro given
        rcases given with ⟨rfl, index, found, stored⟩
        exact ⟨index, found, rule, stored, rfl, rfl⟩

/-- `rule` is what reading `document` in `names` answers, and the table already
holds every name the document needs. -/
def ReadIn (names : NameTable) (document : Document) (rule : Rule) : Prop :=
  Rule.fromJson document.value names = (rule, names)

theorem readIn_fromJson (names : NameTable) (document : Document) :
    ReadIn (Rule.fromJson document.value names).2 document
      (Rule.fromJson document.value names).1 :=
  (Rule.stable_fromJson document.value names).2 _ (NameTable.Grows.refl _)

theorem ReadIn.mono {names later : NameTable} {document : Document} {rule : Rule}
    (read : ReadIn names document rule) (grows : NameTable.Grows names later) :
    ReadIn later document rule := by
  have again := (Rule.stable_fromJson document.value names).2 later
  rw [read] at again
  exact again grows

/-- The store holds the program definitions `definitions`. -/
structure Represents (definitions : List (String × Document)) (rules : Rules ρ κ) :
    Prop where
  index : ListIndex.Indexes 0 rules.programs (declared (definitions.map Prod.fst))
  size : rules.rules.length = (declared (definitions.map Prod.fst)).length
  read : ∀ name document, lastOf definitions name = some document →
    ∃ rule, ruleOf rules name = some rule ∧ ReadIn rules.names document rule

theorem represents_new (crates : Crates ρ κ) (names : NameTable) :
    Represents [] (new crates names) where
  index := ListIndex.indexes_empty 0
  size := rfl
  read := by simp [lastOf]

section Step

variable {crates : Crates ρ κ} {definitions : List (String × Document)} {rules : Rules ρ κ}

/-- While indices fit in 32 bits, the slot of a name exists and is its own. -/
theorem reserve_spec (represents : Represents definitions rules) (name : String)
    (room : (declared (definitions.map Prod.fst)).length < indexModulus) :
    (reserve rules name).1 < (reserve rules name).2.length ∧
      (reserve rules name).2.length =
        (declared ((definitions.map Prod.fst) ++ [name])).length ∧
      ListIndex.Indexes 0 (rules.programs.insert name (reserve rules name).1)
        (declared ((definitions.map Prod.fst) ++ [name])) ∧
      ∀ other index, other ≠ name → rules.programs.lookup other = some index →
        index ≠ (reserve rules name).1 ∧ (reserve rules name).2[index]? = rules.rules[index]? := by
  rw [declared_concat]
  unfold reserve
  cases known : rules.programs.lookup name with
  | some index =>
      obtain ⟨position, isIndex, listed⟩ := (represents.index name index).mp known
      rw [Nat.zero_add] at isIndex
      subst isIndex
      rw [if_pos (List.mem_of_getElem? listed)]
      refine ⟨?_, represents.size, represents.index.insert_known known, ?_⟩
      · rw [represents.size]
        exact (List.getElem?_eq_some_iff.mp listed).1
      · intro other otherIndex different found
        refine ⟨?_, rfl⟩
        rintro rfl
        obtain ⟨otherPosition, isPosition, otherListed⟩ := (represents.index other _).mp found
        rw [Nat.zero_add] at isPosition
        rw [← isPosition, listed] at otherListed
        exact different (Option.some.inj otherListed).symm
  | none =>
      have fresh := (represents.index.lookup_eq_none_iff name).mp known
      rw [if_neg fresh]
      -- A new name goes to the end, and below the modulus its index is not cut.
      have noWrap : rules.rules.length % indexModulus = rules.rules.length := by
        rw [represents.size]
        exact Nat.mod_eq_of_lt room
      simp only [noWrap]
      refine ⟨by simp, by simp [represents.size], ?_, ?_⟩
      · have appended := represents.index.append fresh
        rwa [Nat.zero_add, ← represents.size] at appended
      · intro other index different found
        obtain ⟨position, isIndex, listed⟩ := (represents.index other index).mp found
        have inside : index < rules.rules.length := by
          rw [represents.size]
          have := (List.getElem?_eq_some_iff.mp listed).1
          omega
        exact ⟨Nat.ne_of_lt inside, List.getElem?_append_left inside⟩

/-- One program definition keeps the invariant. -/
theorem represents_loadProgram (represents : Represents definitions rules)
    (name : String) (document : Document)
    (room : (declared (definitions.map Prod.fst)).length < indexModulus) :
    Represents (definitions ++ [(name, document)])
      (loadProgram crates name document rules) := by
  obtain ⟨inside, length, index, others⟩ := reserve_spec represents name room
  rw [loadProgram_of_inside inside]
  refine ⟨?_, ?_, ?_⟩
  · rw [List.map_append]
    exact index
  · rw [List.map_append, List.length_set]
    exact length
  · intro other otherDocument isLast
    rw [lastOf_concat] at isLast
    by_cases same : other = name
    · rw [if_pos same, Option.some.injEq] at isLast
      subst same isLast
      refine ⟨_, ?_, readIn_fromJson rules.names document⟩
      simp [ruleOf, inside]
    · rw [if_neg same] at isLast
      -- Every other name keeps its rule: the slots of two names are never the same.
      obtain ⟨rule, stored, read⟩ := represents.read other otherDocument isLast
      refine ⟨rule, ?_, read.mono (Rule.stable_fromJson document.value rules.names).1⟩
      unfold ruleOf at stored ⊢
      rw [AList.lookup_insert_ne same]
      cases found : rules.programs.lookup other with
      | none => simp [found] at stored
      | some position =>
          obtain ⟨elsewhere, kept⟩ := others other position same found
          rw [found, Option.bind_some] at stored
          rw [Option.bind_some, List.getElem?_set_ne (Ne.symm elsewhere), kept]
          exact stored

end Step

theorem declared_length_append_le (names more : List String) :
    (declared names).length ≤ (declared (names ++ more)).length := by
  refine List.Subperm.length_le (List.subperm_of_subset (declared_nodup names) ?_)
  intro name member
  rw [mem_declared] at member ⊢
  exact List.mem_append_left more member

/-- Every run of program definitions keeps the invariant, as long as the number of
distinct names fits in 32 bits. -/
theorem represents_loadPrograms {crates : Crates ρ κ} {before : List (String × Document)}
    {rules : Rules ρ κ} (represents : Represents before rules)
    (definitions : List (String × Document))
    (few : (declared ((before ++ definitions).map Prod.fst)).length < indexModulus) :
    Represents (before ++ definitions) (loadPrograms crates definitions rules) := by
  induction definitions generalizing before rules with
  | nil => simpa [loadPrograms] using represents
  | cons head rest inductionHypothesis =>
      have room : (declared (before.map Prod.fst)).length < indexModulus := by
        rw [List.map_append] at few
        exact Nat.lt_of_le_of_lt (declared_length_append_le _ _) few
      rw [List.append_cons] at few ⊢
      exact inductionHypothesis (represents_loadProgram represents head.1 head.2 room) few

theorem Represents.frame {definitions : List (String × Document)}
    {rules : Rules ρ κ} (represents : Represents definitions rules)
    (types cgroups : AList fun _ : String => Document) :
    Represents definitions { rules with types := types, cgroups := cgroups } :=
  ⟨represents.index, represents.size, represents.read⟩

/-- The store after any lines represents their program definitions. -/
theorem represents_loadLines (crates : Crates ρ κ) (names : NameTable) (lines : List String)
    (few : ((programLines crates lines).map Prod.fst).dedup.length < indexModulus) :
    Represents (programLines crates lines) (loadLines crates lines (new crates names)) := by
  rw [← (declared_perm_dedup ((programLines crates lines).map Prod.fst)).length_eq] at few
  rw [loadLines_eq]
  exact (represents_loadPrograms (represents_new crates names) _ few).frame _ _

/-! ## What holds whatever the number of names -/

/-- The names in the map are the defined ones, every index is in range, and the
patterns are those of all definitions, replaced ones included. -/
structure Tracks (crates : Crates ρ κ) (definitions : List (String × Document))
    (rules : Rules ρ κ) : Prop where
  known : ∀ name, (rules.programs.lookup name).isSome = true ↔ name ∈ definitions.map Prod.fst
  inRange : ∀ name index, rules.programs.lookup name = some index → index < rules.rules.length
  matchers : rules.regexPrograms =
    definitions.filterMap fun definition => matcherOf crates definition.1 definition.2

theorem tracks_new (crates : Crates ρ κ) (names : NameTable) :
    Tracks crates [] (new crates names) where
  known := by simp [new]
  inRange := by simp [new]
  matchers := rfl

theorem tracks_loadProgram {crates : Crates ρ κ} {definitions : List (String × Document)}
    {rules : Rules ρ κ} (tracks : Tracks crates definitions rules) (name : String)
    (document : Document) :
    Tracks crates (definitions ++ [(name, document)])
      (loadProgram crates name document rules) := by
  have longer : rules.rules.length ≤ (reserve rules name).2.length := by
    unfold reserve
    split <;> simp
  have inside := reserve_inside (tracks.inRange name)
  rw [loadProgram_of_inside inside]
  refine ⟨?_, ?_, ?_⟩
  · intro other
    rw [List.map_append, List.mem_append, ← tracks.known]
    by_cases same : other = name
    · subst same
      simp
    · simp [AList.lookup_insert_ne same, same]
  · intro other index found
    rw [List.length_set]
    by_cases same : other = name
    · subst same
      rw [AList.lookup_insert, Option.some.injEq] at found
      rw [← found]
      exact inside
    · rw [AList.lookup_insert_ne same] at found
      exact Nat.lt_of_lt_of_le (tracks.inRange other index found) longer
  · rw [List.filterMap_append, tracks.matchers]
    cases matcher : matcherOf crates name document <;> simp [matcher]

theorem tracks_loadPrograms {crates : Crates ρ κ} {before : List (String × Document)}
    {rules : Rules ρ κ} (tracks : Tracks crates before rules)
    (definitions : List (String × Document)) :
    Tracks crates (before ++ definitions) (loadPrograms crates definitions rules) := by
  induction definitions generalizing before rules with
  | nil => simpa [loadPrograms] using tracks
  | cons head rest inductionHypothesis =>
      rw [List.append_cons]
      exact inductionHypothesis (tracks_loadProgram tracks head.1 head.2)

theorem tracks_loadLines {crates : Crates ρ κ} {before : List (String × Document)}
    {rules : Rules ρ κ} (tracks : Tracks crates before rules) (lines : List String) :
    Tracks crates (before ++ programLines crates lines) (loadLines crates lines rules) := by
  rw [loadLines_eq]
  have loaded := tracks_loadPrograms tracks (programLines crates lines)
  exact ⟨loaded.known, loaded.inRange, loaded.matchers⟩

/-! ## Consequences -/

section Consequences

variable {definitions : List (String × Document)} {rules : Rules ρ κ}

theorem Represents.bijOn (represents : Represents definitions rules) :
    Set.BijOn (fun name => rules.programs.lookup name)
      {name | name ∈ definitions.map Prod.fst} (Set.image some {index | index < rules.rules.length}) := by
  have listed : ∀ name index, rules.programs.lookup name = some index ↔
      (declared (definitions.map Prod.fst))[index]? = some name := by
    intro name index
    rw [represents.index name index]
    simp
  refine ⟨?_, ?_, ?_⟩
  · intro name defined
    obtain ⟨index, found⟩ := Option.isSome_iff_exists.mp
      ((represents.index.isSome_lookup_iff name).mpr ((mem_declared _ name).mpr defined))
    refine ⟨index, ?_, found.symm⟩
    change index < rules.rules.length
    rw [represents.size]
    exact (List.getElem?_eq_some_iff.mp ((listed name index).mp found)).1
  · intro left leftDefined right _ same
    obtain ⟨index, found⟩ := Option.isSome_iff_exists.mp
      ((represents.index.isSome_lookup_iff left).mpr ((mem_declared _ left).mpr leftDefined))
    have leftListed := (listed left index).mp found
    have rightListed := (listed right index).mp (same.symm.trans found)
    exact Option.some.inj (leftListed.symm.trans rightListed)
  · rintro _ ⟨index, inside, rfl⟩
    change index < rules.rules.length at inside
    rw [represents.size] at inside
    have found := (listed _ index).mpr (List.getElem?_eq_getElem inside)
    refine ⟨_, ?_, found⟩
    exact (mem_declared _ _).mp (List.getElem_mem inside)

theorem Represents.lookup_eq_none (represents : Represents definitions rules)
    {name : String} (undefined : name ∉ definitions.map Prod.fst) :
    rules.programs.lookup name = none := by
  rw [represents.index.lookup_eq_none_iff, mem_declared]
  exact undefined

theorem mem_iterRules (rules : Rules ρ κ) (name : String) (rule : Rule) :
    (name, rule) ∈ iterRules rules ↔ ruleOf rules name = some rule := by
  simp only [iterRules, ruleOf, List.mem_filterMap, Option.map_eq_some_iff, Prod.mk.injEq,
    Option.bind_eq_some_iff]
  constructor
  · intro given
    rcases given with ⟨entry, member, found, stored, rfl, rfl⟩
    exact ⟨entry.2, AList.mem_lookup_iff.mpr member, stored⟩
  · intro given
    rcases given with ⟨index, found, stored⟩
    exact ⟨⟨name, index⟩, AList.mem_lookup_iff.mp found, rule, stored, rfl, rfl⟩

/-- Every index resolves, so the iteration meets every key of the map. -/
theorem Represents.iterRules_names (represents : Represents definitions rules) :
    ((iterRules rules).map Prod.fst).Perm (definitions.map Prod.fst).dedup := by
  have names : (iterRules rules).map Prod.fst = rules.programs.keys := by
    unfold iterRules AList.keys List.keys
    rw [List.map_filterMap, ← List.filterMap_eq_map]
    apply List.filterMap_congr
    intro entry member
    have found : rules.programs.lookup entry.1 = some entry.2 := AList.mem_lookup_iff.mpr member
    obtain ⟨position, isIndex, listed⟩ := (represents.index entry.1 entry.2).mp found
    have inside : entry.2 < rules.rules.length := by
      rw [represents.size, isIndex, Nat.zero_add]
      exact (List.getElem?_eq_some_iff.mp listed).1
    simp [List.getElem?_eq_getElem inside]
  rw [names]
  apply (List.perm_ext_iff_of_nodup rules.programs.keys_nodup (List.nodup_dedup _)).mpr
  intro name
  rw [List.mem_dedup, ← mem_declared (definitions.map Prod.fst),
    ← represents.index.isSome_lookup_iff, AList.lookup_isSome]
  rfl

end Consequences

/-! ## The store as a whole -/

/-- What the store says about the lines it was fed. -/
structure HoldsLines (crates : Crates ρ κ) (lines : List String) (rules : Rules ρ κ) : Prop where
  /-- `programs` is a bijection from the accepted names onto the indices. -/
  bijection : Set.BijOn (fun name => rules.programs.lookup name)
    {name | name ∈ (programLines crates lines).map Prod.fst}
    (Set.image some {index | index < rules.rules.length})
  undefined : ∀ name, name ∉ (programLines crates lines).map Prod.fst →
    rules.programs.lookup name = none
  /-- The rule of a name is `from_json` of its last line. -/
  rule : ∀ name document, lastOf (programLines crates lines) name = some document →
    ∃ stored, ruleOf rules name = some stored ∧
      Rule.fromJson document.value rules.names = (stored, rules.names)
  size : rules.size = ((programLines crates lines).map Prod.fst).dedup.length
  /-- `iter_rules` meets each name once, with the rule of that name. -/
  iteratedNames : ((iterRules rules).map Prod.fst).Perm
    ((programLines crates lines).map Prod.fst).dedup
  iteratedRule : ∀ name stored, (name, stored) ∈ iterRules rules ↔
    ruleOf rules name = some stored
  types : ∀ typeName, rules.types.lookup typeName = lastOf (typeLines crates lines) typeName
  cgroups : ∀ cgroupName,
    rules.cgroups.lookup cgroupName = lastOf (cgroupLines crates lines) cgroupName

/-- One line leaves the store alone and answers `false`, or writes to one of the
three stores and answers `true`. -/
def WritesOneStore (crates : Crates ρ κ) (line : String) (before : Rules ρ κ)
    (outcome : Bool × Rules ρ κ) : Prop :=
  (outcome.1 = false ∧ outcome.2 = before) ∨
    (outcome.1 = true ∧ ∃ document, documentOf crates line = some document ∧
      ((∃ name, programOf document = some (name, document) ∧
          outcome.2.types = before.types ∧ outcome.2.cgroups = before.cgroups ∧
          outcome.2.programs = before.programs.insert name (reserve before name).1) ∨
        (∃ typeName, typeOf document = some (typeName, document) ∧
          outcome.2 = { before with types := before.types.insert typeName document }) ∨
        ∃ cgroupName, cgroupOf document = some (cgroupName, document) ∧
          outcome.2 = { before with cgroups := before.cgroups.insert cgroupName document }))

theorem loadRuleFromString_writesOneStore (crates : Crates ρ κ) (line : String)
    (before : Rules ρ κ) :
    WritesOneStore crates line before (loadRuleFromString crates line before) := by
  unfold WritesOneStore loadRuleFromString
  rw [loadRuleFromNamed_eq]
  cases documentOf crates line with
  | none => exact .inl ⟨rfl, rfl⟩
  | some document =>
      cases named : document.value.getStr "name" with
      | some name =>
          have isProgram : programOf document = some (name, document) := by simp [programOf, named]
          refine .inr ⟨by simp [isProgram], document, rfl, .inl ⟨name, isProgram, ?_⟩⟩
          simp [isProgram, typeOf, cgroupOf, named, insertAll, loadPrograms, loadProgram]
      | none =>
          have notProgram : programOf document = none := by simp [programOf, named]
          cases typed : document.value.getStr "type" with
          | some typeName =>
              have isType : typeOf document = some (typeName, document) := by
                simp [typeOf, named, typed]
              refine .inr ⟨by simp [isType], document, rfl, .inr (.inl ⟨typeName, isType, ?_⟩)⟩
              simp [notProgram, isType, cgroupOf, typed, insertAll, loadPrograms]
          | none =>
              have notType : typeOf document = none := by simp [typeOf, typed]
              cases grouped : document.value.getStr "cgroup" with
              | some cgroupName =>
                  have isCgroup : cgroupOf document = some (cgroupName, document) := by
                    simp [cgroupOf, named, typed, grouped]
                  refine .inr ⟨by simp [isCgroup], document, rfl,
                    .inr (.inr ⟨cgroupName, isCgroup, ?_⟩)⟩
                  simp [notProgram, notType, isCgroup, insertAll, loadPrograms]
              | none =>
                  have notCgroup : cgroupOf document = none := by simp [cgroupOf, grouped]
                  refine .inl ⟨by simp [notProgram, notType, notCgroup], ?_⟩
                  simp [notProgram, notType, notCgroup, insertAll, loadPrograms]

/-- The representation invariant of the rule store: after any lines with fewer than
`2^32` distinct names, the map and the list of rules are in step and hold the last
definition of every name, type and cgroup; and each line writes to exactly one of
the three stores, or to none. -/
theorem loadLines_holds (crates : Crates ρ κ) (names : NameTable) (lines : List String)
    (few : ((programLines crates lines).map Prod.fst).dedup.length < indexModulus) :
    HoldsLines crates lines (loadLines crates lines (new crates names)) ∧
      ∀ line before,
        WritesOneStore crates line before (loadRuleFromString crates line before) := by
  refine ⟨?_, loadRuleFromString_writesOneStore crates⟩
  have represents := represents_loadLines crates names lines few
  have stores := loadLines_eq crates lines (new crates names)
  refine
    { bijection := represents.bijOn
      undefined := fun name => represents.lookup_eq_none
      rule := represents.read
      size := represents.size.trans (declared_perm_dedup _).length_eq
      iteratedNames := represents.iterRules_names
      iteratedRule := mem_iterRules _
      types := ?_
      cgroups := ?_ }
  · intro typeName
    rw [stores, lookup_insertAll]
    exact Option.or_none
  · intro cgroupName
    rw [stores, lookup_insertAll]
    exact Option.or_none


/-! ## A store over a table of documents -/

/-- The crates for lines whose JSON is listed: a pattern of letters and digits is
searched for as it stands, and the cache holds 5000 names. -/
def literalCrates (documents : List (String × Document)) :
    Crates String (List (String × Option String)) where
  fromStr text := documents.lookup text
  build pattern := if pattern.toList.all Char.isAlphanum then some pattern else none
  isMatch pattern name := Text.contains name pattern
  cache := Cache.lru 5000

def plainDocument : Document := ⟨.object [("name", .string "a")], by decide⟩

/-- `{"name":"a","nice":5}` and `{"name":"a"}`. -/
def redefinition : List (String × Document) :=
  [("\x7b\"name\":\"a\",\"nice\":5\x7d",
      ⟨.object [("name", .string "a"), ("nice", .number (.posInt 5))], by decide⟩),
    ("\x7b\"name\":\"a\"\x7d", plainDocument)]

/-- Two definitions of one name, a comment and a broken line leave one rule. -/
theorem loadLines_holds_redefinition :
    HoldsLines (literalCrates redefinition)
        ["\x7b\"name\":\"a\",\"nice\":5\x7d", "# a comment", "\x7bbroken\x7d",
          "\x7b\"name\":\"a\"\x7d"]
        (loadLines (literalCrates redefinition)
          ["\x7b\"name\":\"a\",\"nice\":5\x7d", "# a comment", "\x7bbroken\x7d",
            "\x7b\"name\":\"a\"\x7d"] (new (literalCrates redefinition) NameTable.empty)) :=
  (loadLines_holds (literalCrates redefinition) NameTable.empty _ (by decide +kernel)).1

end AnanicyRs.Core.Rules
