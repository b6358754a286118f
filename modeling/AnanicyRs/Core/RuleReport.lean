import AnanicyRs.Core.Interning
import AnanicyRs.Core.ResolvedCache

/-!
Contract: the report of a rule, which `dump rules` prints.

Owns what `to_json` says under each key (`RuleView.get_toJson`) and that `from_json` reads
the report of every rule a store can hold back as that rule: its names are listed in the
table and its extras ascend and are none of the implemented keys (`Rule.Reportable`), which
every load and every inheritance pass keeps.
-/

set_option autoImplicit false

namespace AnanicyRs.Core

open AnanicyRs.Lib
open AnanicyRs.Lib.Json

variable {ρ κ : Type}

/-! ## What a report says -/

/-- Extras as `from_json` collects them: in key order, and none of the implemented keys. -/
structure PlainExtras (extras : Members) : Prop where
  ascending : Ascending extras
  others : ∀ key, Rule.implemented.contains key = true → extras.lookup key = none

namespace RuleView

def attributes (view : RuleView) : List (String × Option Value) :=
  [("nice", view.nice.map Rule.jsonOfI32),
    ("latency_nice", view.latencyNice.map Rule.jsonOfI32),
    ("ioclass", view.ioclass.map Rule.jsonOfName),
    ("ionice", view.ionice.map Rule.jsonOfI32),
    ("sched", view.sched.map Rule.jsonOfName),
    ("rtprio", view.rtprio.map Rule.jsonOfU32),
    ("oom_score_adj", view.oomScoreAdj.map Rule.jsonOfI32),
    ("cgroup", view.cgroup.map Rule.jsonOfName),
    ("cpuset", view.cpuset.map Rule.jsonOfName)]

def attributeKeys : List String :=
  ["nice", "latency_nice", "ioclass", "ionice", "sched", "rtprio", "oom_score_adj", "cgroup",
    "cpuset"]

theorem keys_attributes (view : RuleView) : view.attributes.map Prod.fst = attributeKeys := rfl

theorem lookup_attributes_eq_none (view : RuleView) {key : String} (unknown : key ∉ attributeKeys) :
    view.attributes.lookup key = none := by
  rw [List.lookup_eq_none_iff]
  intro entry listed
  refine bne_iff_ne.mpr fun isKey => unknown ?_
  rw [isKey, ← view.keys_attributes]
  exact List.mem_map_of_mem listed

/-- The member of an implemented key. -/
def member (view : RuleView) (name key : String) : Option Value :=
  if key = "name" then some (.string name)
  else if key = "type" then view.typeName.map .string
  else (view.attributes.lookup key).join

end RuleView

theorem Rule.lookup_insertDeclared (declared : List (String × Option Value))
    (distinct : (declared.map Prod.fst).Nodup) (key : String) :
    ∀ object : Members, (Rule.insertDeclared object declared).lookup key =
      (declared.lookup key).join.or (object.lookup key) := by
  induction declared with
  | nil => exact fun _ => rfl
  | cons head rest inductionHypothesis =>
      intro object
      obtain ⟨name, value⟩ := head
      obtain ⟨absent, restDistinct⟩ := List.nodup_cons.mp distinct
      have step : Rule.insertDeclared object ((name, value) :: rest) =
          Rule.insertDeclared (value.elim object fun held => insertMember name held object) rest := by
        cases value with
        | none => rfl
        | some held => rfl
      rw [step, inductionHypothesis restDistinct, List.lookup_cons]
      by_cases same : key = name
      · subst same
        have later : rest.lookup key = none := by
          rw [List.lookup_eq_none_iff]
          intro entry inRest
          exact bne_iff_ne.mpr fun isKey => absent (List.mem_map.mpr ⟨entry, inRest, isKey.symm⟩)
        rw [later, beq_self_eq_true]
        cases value with
        | none => rfl
        | some held => exact lookup_insertMember_self key held object
      · rw [beq_false_of_ne same]
        congr 1
        cases value with
        | none => rfl
        | some held => exact lookup_insertMember_ne same held object

theorem Rule.ascending_insertDeclared (declared : List (String × Option Value)) :
    ∀ object : Members, Ascending object → Ascending (Rule.insertDeclared object declared) := by
  induction declared with
  | nil => exact fun _ ascending => ascending
  | cons head rest inductionHypothesis =>
      intro object ascending
      obtain ⟨name, value⟩ := head
      cases value with
      | none => exact inductionHypothesis object ascending
      | some held => exact inductionHypothesis _ (ascending.insert name held)

namespace RuleView

/-- The `name`, and the `type` if there is one. -/
def header (view : RuleView) (name : String) : Members :=
  match view.typeName with
  | some typeName => insertMember "type" (.string typeName) (insertMember "name" (.string name) [])
  | none => insertMember "name" (.string name) []

theorem toJson_eq (view : RuleView) (name : String) :
    view.toJson name = .object (view.extras.foldl (fun held extra => insertMember extra.1 extra.2 held)
      (Rule.insertDeclared (view.header name) view.attributes)) := rfl

theorem ascending_header (view : RuleView) (name : String) : Ascending (view.header name) := by
  rw [header]
  split
  · exact (ascending_nil.insert _ _).insert _ _
  · exact ascending_nil.insert _ _

theorem ascending_toJson (view : RuleView) (name : String) :
    Ascending (view.toJson name).members := by
  rw [toJson_eq]
  exact (Rule.ascending_insertDeclared _ _ (view.ascending_header name)).insertMembers _

theorem lookup_header (view : RuleView) (name key : String) :
    (view.header name).lookup key =
      if key = "name" then some (.string name)
      else if key = "type" then view.typeName.map .string else none := by
  have onlyName : ∀ other, (insertMember "name" (.string name) []).lookup other =
      if other = "name" then some (.string name) else none := by
    intro other
    by_cases isName : other = "name"
    · rw [if_pos isName, isName, lookup_insertMember_self]
    · rw [if_neg isName, lookup_insertMember_ne isName]
      rfl
  rw [header]
  cases view.typeName with
  | none =>
      rw [onlyName]
      simp
  | some typeName =>
      by_cases isType : key = "type"
      · subst isType
        rw [lookup_insertMember_self]
        simp
      · rw [lookup_insertMember_ne isType, onlyName, if_neg isType]

/-- A report has, under each implemented key, what the rule says about it, and under every
other key the extra of that name. -/
theorem get_toJson {view : RuleView} (plain : PlainExtras view.extras) (name key : String) :
    (view.toJson name).get key =
      if Rule.implemented.contains key = true then view.member name key else view.extras.lookup key := by
  have distinct : (view.attributes.map Prod.fst).Nodup := by
    rw [keys_attributes]
    decide +kernel
  have known : ∀ other ∈ attributeKeys, Rule.implemented.contains other = true := by
    decide +kernel
  have lookup : (view.toJson name).get key =
      (view.extras.lookup key).or (((view.attributes.lookup key).join).or
        ((view.header name).lookup key)) := by
    rw [← Rule.lookup_insertDeclared _ distinct]
    exact lookup_insertMembers view.extras plain.ascending.nodup key _
  rw [lookup, lookup_header]
  by_cases isImplemented : Rule.implemented.contains key = true
  · rw [if_pos isImplemented, plain.others key isImplemented, Option.none_or, member]
    by_cases isName : key = "name"
    · have notAttribute : key ∉ attributeKeys := by
        rw [isName]
        decide +kernel
      rw [if_pos isName, if_pos isName, view.lookup_attributes_eq_none notAttribute]
      rfl
    · by_cases isType : key = "type"
      · have notAttribute : key ∉ attributeKeys := by
          rw [isType]
          decide +kernel
        rw [if_neg isName, if_neg isName, if_pos isType, if_pos isType,
          view.lookup_attributes_eq_none notAttribute]
        rfl
      · rw [if_neg isName, if_neg isName, if_neg isType, if_neg isType, Option.or_none]
  · have notAttribute : key ∉ attributeKeys := fun listed => isImplemented (known key listed)
    have notName : ¬ key = "name" := by
      rintro rfl
      exact isImplemented (by decide +kernel)
    have notType : ¬ key = "type" := by
      rintro rfl
      exact isImplemented (by decide +kernel)
    rw [if_neg isImplemented, view.lookup_attributes_eq_none notAttribute, if_neg notName,
      if_neg notType, Option.join_none, Option.or_none, Option.or_none]

end RuleView

/-! ## Rules that can be reported -/

/-- A name that stands for one of the two states without a value, or is listed. -/
def NameAttribute.Listed (table : NameTable) (name : NameAttribute) : Prop :=
  name.raw < nameFirstValue ∨ ∃ position text, name.raw = nameFirstValue + position ∧
    table.get position = some text

def TypeNameId.Listed (table : NameTable) (typeName : TypeNameId) : Prop :=
  typeName.raw = 0 ∨ ∃ position text, typeName.raw = position + 1 ∧ table.get position = some text

/-- What a store knows of every rule it holds. -/
structure Rule.Reportable (table : NameTable) (rule : Rule) : Prop where
  typeName : rule.typeName.Listed table
  ioclass : rule.ioclass.Listed table
  sched : rule.sched.Listed table
  cgroup : rule.cgroup.Listed table
  cpuset : rule.cpuset.Listed table
  extras : PlainExtras rule.extras

theorem NameAttribute.Listed.mono {table later : NameTable} {name : NameAttribute}
    (listed : name.Listed table) (grows : NameTable.Grows table later) : name.Listed later := by
  rcases listed with state | ⟨position, text, isIndex, held⟩
  · exact .inl state
  · exact .inr ⟨position, text, isIndex, grows.get held⟩

theorem TypeNameId.Listed.mono {table later : NameTable} {typeName : TypeNameId}
    (listed : typeName.Listed table) (grows : NameTable.Grows table later) : typeName.Listed later := by
  rcases listed with untyped | ⟨position, text, isIndex, held⟩
  · exact .inl untyped
  · exact .inr ⟨position, text, isIndex, grows.get held⟩

theorem Rule.Reportable.mono {table later : NameTable} {rule : Rule}
    (reportable : rule.Reportable table) (grows : NameTable.Grows table later) :
    rule.Reportable later where
  typeName := reportable.typeName.mono grows
  ioclass := reportable.ioclass.mono grows
  sched := reportable.sched.mono grows
  cgroup := reportable.cgroup.mono grows
  cpuset := reportable.cpuset.mono grows
  extras := reportable.extras

theorem plainExtras_nil : PlainExtras [] := ⟨ascending_nil, fun _ _ => rfl⟩

theorem Rule.reportable_default (table : NameTable) : Rule.default.Reportable table where
  typeName := .inl rfl
  ioclass := .inl (by decide)
  sched := .inl (by decide)
  cgroup := .inl (by decide)
  cpuset := .inl (by decide)
  extras := plainExtras_nil

/-! ## Reading a report back -/

namespace Rule

theorem i32Of_number {number : Number} {held : Int32} (holds : number.HoldsPlain held.toInt) :
    i32Of (.number number) = some held := by
  have read := Number.toInt_asI64 holds
  have lower := held.le_toInt
  have upper := held.toInt_lt
  rw [if_pos (by omega)] at read
  obtain ⟨value, isValue, same⟩ := Option.map_eq_some_iff.mp read
  have narrowed : value.toInt32 = held := by
    rw [← Int32.toInt_inj, Int64.toInt_toInt32, same]
    exact Int.bmod_eq_of_le (by omega) (by omega)
  rw [i32Of, isValue, Option.map_some, narrowed]

theorem u32Of_number {number : Number} {held : UInt32} (holds : number.HoldsPlain held.toNat) :
    u32Of (.number number) = some held := by
  have read := Number.toNat_asU64 holds
  have upper := held.toNat_lt
  rw [if_pos (by omega)] at read
  obtain ⟨value, isValue, same⟩ := Option.map_eq_some_iff.mp read
  have narrowed : value.toUInt32 = held := by
    rw [← UInt32.toNat_inj, UInt64.toNat_toUInt32]
    omega
  rw [u32Of, isValue, Option.map_some, narrowed]

theorem i32Of_jsonOfI32 (value : Option Int32) : i32Of (jsonOfI32 value) = value := by
  cases value with
  | none => rfl
  | some held => exact i32Of_number (Number.holds_ofI32 held)

theorem u32Of_jsonOfU32 (value : Option UInt32) : u32Of (jsonOfU32 value) = value := by
  cases value with
  | none => rfl
  | some held => exact u32Of_number (Number.holds_ofU32 held)

theorem string_view {table : NameTable} {name : NameAttribute} (listed : name.Listed table)
    {value : Value} {key : String}
    (held : value.get key = (name.view table).map jsonOfName) :
    string value key table = (name, table) := by
  obtain ⟨raw⟩ := name
  unfold string
  rcases listed with state | ⟨position, text, isIndex, atIndex⟩
  · have states : raw = 0 ∨ raw = 1 := by
      have below : raw < 2 := state
      omega
    rcases states with rfl | rfl
    · have absent : value.get key = none := held
      rw [absent]
      rfl
    · have isNull : value.get key = some .null := held
      rw [isNull]
      rfl
  · have isRaw : raw = position + 1 + 1 := by
      have index : raw = 2 + position := isIndex
      omega
    subst isRaw
    have isText : value.get key = some (.string text) := by
      rw [held]
      have asText : NameAttribute.asStr table ⟨position + 1 + 1⟩ = some text := atIndex
      simp [NameAttribute.view, NameAttribute.isAbsent, asText, jsonOfName]
    rw [isText]
    change NameAttribute.intern text table = _
    rw [NameAttribute.intern_eq, NameTable.intern_of_get atIndex, ← isIndex]

theorem typeNameOf_view {table : NameTable} {typeName : TypeNameId} (listed : typeName.Listed table)
    {value : Value} (held : value.get "type" = (typeName.asStr table).map .string) :
    typeNameOf value table = (typeName, table) := by
  obtain ⟨raw⟩ := typeName
  unfold typeNameOf Value.getStr
  rcases listed with untyped | ⟨position, text, isIndex, atIndex⟩
  · have isZero : raw = 0 := untyped
    subst isZero
    have absent : value.get "type" = none := held
    rw [absent]
    rfl
  · have isRaw : raw = position + 1 := isIndex
    subst isRaw
    have asText : TypeNameId.asStr table ⟨position + 1⟩ = some text := atIndex
    rw [held, asText]
    change TypeNameId.intern text table = _
    have index : nameFirstValue + position - 1 = position + 1 := by
      rw [nameFirstValue]
      omega
    rw [TypeNameId.intern_eq, NameTable.intern_of_get atIndex, index]

theorem extrasOf_toJson {view : RuleView} (plain : PlainExtras view.extras) (name : String) :
    extrasOf (view.toJson name) = view.extras := by
  refine ((view.ascending_toJson name).filter _).ext plain.ascending fun key => ?_
  rw [lookup_filter fun key => !implemented.contains key]
  have atKey := RuleView.get_toJson plain name key
  rw [Value.get] at atKey
  rw [atKey]
  by_cases known : implemented.contains key = true
  · rw [if_pos known, known, plain.others key known]
    rfl
  · rw [if_neg known]
    rw [Bool.not_eq_true] at known
    rw [known]
    rfl

/-- The report of a rule is read back as the rule, and the names are found where they
were. -/
theorem fromJson_toJson {table : NameTable} {rule : Rule} (reportable : rule.Reportable table)
    (name : String) : fromJson (rule.toJson table name) table = (rule, table) := by
  rw [toJson_eq_view]
  have plain : PlainExtras (rule.view table).extras := reportable.extras
  have extras : extrasOf ((rule.view table).toJson name) = rule.extras := extrasOf_toJson plain name
  have held : ∀ key, implemented.contains key = true →
      ((rule.view table).toJson name).get key = (rule.view table).member name key := by
    intro key known
    rw [RuleView.get_toJson plain, if_pos known]
  generalize (rule.view table).toJson name = report at *
  have typeName : typeNameOf report table = (rule.typeName, table) :=
    typeNameOf_view reportable.typeName (held "type" (by decide +kernel))
  have ioclass : string report "ioclass" table = (rule.ioclass, table) :=
    string_view reportable.ioclass (held "ioclass" (by decide +kernel))
  have sched : string report "sched" table = (rule.sched, table) :=
    string_view reportable.sched (held "sched" (by decide +kernel))
  have cgroup : string report "cgroup" table = (rule.cgroup, table) :=
    string_view reportable.cgroup (held "cgroup" (by decide +kernel))
  have cpuset : string report "cpuset" table = (rule.cpuset, table) :=
    string_view reportable.cpuset (held "cpuset" (by decide +kernel))
  have signed : ∀ {key : String} {value : Attribute Int32},
      report.get key = value.map jsonOfI32 → number report key = value := by
    intro key value isHeld
    rw [number, isHeld, Option.map_map]
    cases value with
    | none => rfl
    | some inner => exact congrArg some (i32Of_jsonOfI32 inner)
  have nice : number report "nice" = rule.nice := signed (held "nice" (by decide +kernel))
  have latencyNice : number report "latency_nice" = rule.latencyNice :=
    signed (held "latency_nice" (by decide +kernel))
  have ionice : number report "ionice" = rule.ionice := signed (held "ionice" (by decide +kernel))
  have oomScoreAdj : number report "oom_score_adj" = rule.oomScoreAdj :=
    signed (held "oom_score_adj" (by decide +kernel))
  have rtprio : (report.get "rtprio").map u32Of = rule.rtprio := by
    have isHeld : report.get "rtprio" = rule.rtprio.map jsonOfU32 :=
      held "rtprio" (by decide +kernel)
    rw [isHeld, Option.map_map]
    cases rule.rtprio with
    | none => rfl
    | some inner => exact congrArg some (u32Of_jsonOfU32 inner)
  simp only [fromJson, bind, StateT.bind, pure, typeName, ioclass, sched, cgroup, cpuset, nice,
    latencyNice, ionice, oomScoreAdj, rtprio, extras]
  rfl

/-! ## What keeps a rule reportable -/

theorem listed_intern (text : String) (table : NameTable) :
    (NameAttribute.intern text table).1.Listed (NameTable.intern text table).2 := by
  rw [NameAttribute.intern_eq]
  rcases NameTable.intern_cases text table with
    ⟨position, listed, answer⟩ | ⟨_, _, index, values⟩ | ⟨_, _, answer⟩
  · rw [answer]
    exact .inr ⟨position, text, rfl, listed⟩
  · refine .inr ⟨table.values.length, text, index, ?_⟩
    rw [NameTable.get, values, List.getElem?_concat_length]
  · rw [answer]
    have state : NameAttribute.unusable.Listed table := .inl (by decide)
    exact state

theorem listed_string (value : Value) (key : String) (table : NameTable) :
    (string value key table).1.Listed (string value key table).2 := by
  have absent : NameAttribute.absent.Listed table := .inl (by decide)
  have unusable : NameAttribute.unusable.Listed table := .inl (by decide)
  unfold string
  cases value.get key with
  | none => exact absent
  | some member =>
      cases member with
      | string text => exact listed_intern text table
      | _ => exact unusable

theorem listed_typeNameOf (value : Value) (table : NameTable) :
    (typeNameOf value table).1.Listed (typeNameOf value table).2 := by
  unfold typeNameOf
  cases value.getStr "type" with
  | none => exact .inl rfl
  | some text =>
      change (TypeNameId.intern text table).1.Listed (TypeNameId.intern text table).2
      rw [TypeNameId.intern_eq]
      -- A type name is a name, one place further down.
      have listed := listed_intern text table
      rw [NameAttribute.intern_eq] at listed
      rcases listed with state | ⟨position, name, index, held⟩
      · refine .inl ?_
        have below : (NameTable.intern text table).1 < 2 := state
        change (NameTable.intern text table).1 - 1 = 0
        omega
      · refine .inr ⟨position, name, ?_, held⟩
        have isIndex : (NameTable.intern text table).1 = 2 + position := index
        change (NameTable.intern text table).1 - 1 = position + 1
        omega

theorem plainExtras_extrasOf (document : Document) : PlainExtras (extrasOf document.value) where
  ascending := (Value.wellFormed_members document.wellFormed).1.filter _
  others key known := by
    rw [extrasOf, lookup_filter fun key => !implemented.contains key, known]
    rfl

/-- A rule that was just read. -/
theorem reportable_fromJson (document : Document) (table : NameTable) :
    (fromJson document.value table).1.Reportable (fromJson document.value table).2 := by
  obtain ⟨typeKept, namesKept, typeName, ioclass, sched, cgroup, cpuset⟩ :=
    fromJson_reads (NameTable.Grows.refl (fromJson document.value table).2)
  generalize (fromJson document.value table).2 = later at *
  have names : ∀ key ∈ nameKeys, (string document.value key later).1.Listed later := by
    intro key member
    have listed := listed_string document.value key later
    rwa [namesKept key member] at listed
  constructor
  · have listed := listed_typeNameOf document.value later
    rw [typeKept] at listed
    rwa [typeName]
  · rw [ioclass]
    exact names "ioclass" (by simp [nameKeys])
  · rw [sched]
    exact names "sched" (by simp [nameKeys])
  · rw [cgroup]
    exact names "cgroup" (by simp [nameKeys])
  · rw [cpuset]
    exact names "cpuset" (by simp [nameKeys])
  · exact plainExtras_extrasOf document

theorem Reportable.inherit {table : NameTable} {rule base : Rule} (own : rule.Reportable table)
    (inherited : base.Reportable table) : (rule.inherit base).Reportable table := by
  have overlay : ∀ {left right : NameAttribute}, left.Listed table → right.Listed table →
      (overlayName left right).Listed table := by
    intro left right leftListed rightListed
    rw [overlayName]
    split
    · exact rightListed
    · exact leftListed
  exact ⟨own.typeName, overlay own.ioclass inherited.ioclass, overlay own.sched inherited.sched,
    overlay own.cgroup inherited.cgroup, overlay own.cpuset inherited.cpuset, own.extras⟩

end Rule

/-! ## Stores -/

namespace Rules

/-- Every rule of the store can be reported. -/
def AllReportable (rules : Rules ρ κ) : Prop := ∀ rule ∈ rules.rules, rule.Reportable rules.names

theorem allReportable_loadProgram (crates : Crates ρ κ) (name : String) (document : Document)
    {rules : Rules ρ κ} (reportable : AllReportable rules) :
    AllReportable (loadProgram crates name document rules) := by
  have reserved : ∀ rule ∈ (rules.reserve name).2, rule.Reportable rules.names := by
    intro rule member
    unfold reserve at member
    split at member
    · exact reportable rule member
    · rcases List.mem_append.mp member with old | isNew
      · exact reportable rule old
      · rw [List.mem_singleton.mp isNew]
        exact Rule.reportable_default rules.names
  intro rule member
  unfold loadProgram at member ⊢
  dsimp only at member ⊢
  split at member
  next inside =>
    rw [if_pos inside]
    rcases List.mem_or_eq_of_mem_set member with old | rfl
    · exact (reserved rule old).mono (Rule.stable_fromJson document.value rules.names).1
    · exact Rule.reportable_fromJson document rules.names
  next outside =>
    rw [if_neg outside]
    exact reserved rule member

theorem allReportable_loadRule (crates : Crates ρ κ) (line : String) {rules : Rules ρ κ}
    (reportable : AllReportable rules) :
    AllReportable (loadRuleFromNamed crates line rules).2 := by
  unfold loadRuleFromNamed
  cases definitionOf crates line with
  | none => exact reportable
  | some definition =>
      cases definition with
      | program name document => exact allReportable_loadProgram crates name document reportable
      | type name document => exact reportable
      | cgroup name document => exact reportable

theorem allReportable_loadLines (crates : Crates ρ κ) (lines : List String) {rules : Rules ρ κ}
    (reportable : AllReportable rules) : AllReportable (loadLines crates lines rules) := by
  induction lines generalizing rules with
  | nil => exact reportable
  | cons line rest inductionHypothesis =>
      exact inductionHypothesis (allReportable_loadRule crates line reportable)

theorem allReportable_precomputeInheritance (crates : Crates ρ κ) (order : IterationOrder)
    {rules : Rules ρ κ} (reportable : AllReportable rules) :
    AllReportable (precomputeInheritance crates order rules) := by
  rw [precomputeInheritance_eq]
  intro rule member
  obtain ⟨before, isRule, rfl⟩ := List.mem_map.mp member
  have own := (reportable before isRule).mono (inheritedNames_grows order rules)
  change (inheritIn (inheritedNames order rules) rules.types before).Reportable
    (inheritedNames order rules)
  unfold inheritIn
  split
  next => exact own
  next typeName _ =>
    split
    next => exact own
    next document found =>
      have settled := settled_inheritedNames order rules ⟨typeName, document⟩
        (AList.mem_lookup_iff.mp found)
      have read := Rule.reportable_fromJson document (inheritedNames order rules)
      rw [settled] at read
      refine own.inherit ?_
      exact ⟨.inl rfl, read.ioclass, read.sched, read.cgroup, read.cpuset, read.extras⟩

theorem allReportable_loadDirectory (crates : Crates ρ κ) (flags : LoadFlags)
    (order : IterationOrder) (tree : RuleTree) {rules : Rules ρ κ}
    (reportable : AllReportable rules) :
    AllReportable (loadDirectory crates flags order tree rules) := by
  unfold loadDirectory
  split
  · rw [loadFiles_eq]
    apply allReportable_precomputeInheritance
    apply allReportable_loadLines
    exact fun rule member => absurd member List.not_mem_nil
  · exact reportable

/-- What is done to a store: the public operations, and an inheritance pass. -/
inductive Loading where
  | operation (operation : Operation)
  | precomputeInheritance (order : IterationOrder)

def load (crates : Crates ρ κ) (loading : Loading) (rules : Rules ρ κ) : Rules ρ κ :=
  match loading with
  | .operation operation => step crates operation rules
  | .precomputeInheritance order => precomputeInheritance crates order rules

theorem allReportable_load (crates : Crates ρ κ) (rules : Rules ρ κ) (loading : Loading)
    (reportable : AllReportable rules) : AllReportable (load crates loading rules) := by
  cases loading with
  | precomputeInheritance order => exact allReportable_precomputeInheritance crates order reportable
  | operation operation =>
      cases operation with
      | getRule name =>
          obtain ⟨cache, after, _⟩ := getRule_snd crates name rules
          change AllReportable (getRule crates name rules).2
          rw [after]
          exact reportable
      | loadRuleFromString line => exact allReportable_loadRule crates line reportable
      | loadFile content =>
          cases content with
          | none => exact reportable
          | some text => exact allReportable_loadLines crates (Text.lines text) reportable
      | loadDirectory flags order tree =>
          exact allReportable_loadDirectory crates flags order tree reportable

/-- Whatever was loaded, and in whatever order: the report of a rule, under any name and in
the table of the time or a later one, is read back as that very rule. -/
theorem report_is_read_back (crates : Crates ρ κ) (names : NameTable) (loadings : List Loading) :
    ∀ reached ∈ StateInvariant.states (load crates) loadings (new crates names),
      ∀ rule ∈ reached.rules, ∀ (name : String) (later : NameTable),
        NameTable.Grows reached.names later →
          Rule.fromJson (rule.toJson later name) later = (rule, later) := by
  intro reached member rule isRule name later grows
  have reportable := StateInvariant.invariant_of_step (allReportable_load crates) loadings
    (new crates names) (fun rule isRule => absurd isRule List.not_mem_nil) reached member
  exact Rule.fromJson_toJson ((reportable rule isRule).mono grows) name

/-- The typed rule is loaded line by line, and then takes what it does not say from its type. -/
def typedLoadings : List Loading :=
  typedLines.map (fun line => .operation (.loadRuleFromString line)) ++
    [.precomputeInheritance listedOrder]

def typedStore : Rules String (List (String × Option String)) :=
  typedLoadings.foldl (fun rules loading => load (literalCrates typedDefinitions) loading rules)
    (new (literalCrates typedDefinitions) .empty)

theorem report_is_read_back_typed :
    ∃ rule, typedStore.rules[0]? = some rule ∧ rule.sched.asStr typedStore.names = some "idle" ∧
      Rule.fromJson (rule.toJson typedStore.names "a") typedStore.names = (rule, typedStore.names) := by
  have stored : typedStore.rules[0]?.isSome = true := by
    decide +kernel
  obtain ⟨rule, isRule⟩ := Option.isSome_iff_exists.mp stored
  refine ⟨rule, isRule, ?_, report_is_read_back (literalCrates typedDefinitions) .empty typedLoadings
    typedStore (StateInvariant.foldl_mem_states _ _ _) rule (List.mem_of_getElem? isRule) "a"
    typedStore.names (NameTable.Grows.refl _)⟩
  have sched : (typedStore.rules[0]?.bind fun rule => rule.sched.asStr typedStore.names) =
      some "idle" := by
    decide +kernel
  rwa [isRule] at sched

end Rules

end AnanicyRs.Core
