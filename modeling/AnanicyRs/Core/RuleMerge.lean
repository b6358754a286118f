import AnanicyRs.Core.Inheritance
import AnanicyRs.Core.RuleReport

/-!
Contract: the report of an inherited rule against the RFC 7396 merge.

Owns when the report of a rule is the merge of its object onto that of its type
(`report_eq_mergePatch_iff`). The implemented keys always agree. The other keys of the
type are not inherited, so the two differ as soon as the type has one that the rule does
not cover.
-/

set_option autoImplicit false

namespace AnanicyRs.Core

open AnanicyRs.Lib
open AnanicyRs.Lib.Json
open AnanicyRs.Lib.LastWins

variable {ρ κ : Type}

/-! ## Objects that say nothing unusable -/

namespace Rule

def textKeys : List String := ["name", "type", "ioclass", "sched", "cgroup", "cpuset"]

def signedKeys : List String := ["nice", "latency_nice", "ionice", "oom_score_adj"]

/-- A member that is not `null`, and under an implemented key one of the type that key is
read as, in the range of the field that keeps it. -/
structure Fits (key : String) (member : Value) : Prop where
  notNull : member ≠ .null
  text : key ∈ textKeys → ∃ text, member = .string text
  signed : key ∈ signedKeys →
    ∃ number : Number, ∃ held : Int32, member = .number number ∧ number.HoldsPlain held.toInt
  unsigned : key = "rtprio" →
    ∃ number : Number, ∃ held : UInt32, member = .number number ∧ number.HoldsPlain held.toNat

def WellTyped (value : Value) : Prop := ∀ member ∈ value.members, Fits member.1 member.2

theorem WellTyped.get {value : Value} (wellTyped : WellTyped value) {key : String} {member : Value}
    (held : value.get key = some member) : Fits key member :=
  wellTyped (key, member) (mem_of_lookup held)

theorem wellTyped_empty : WellTyped (.object []) := fun _ listed => absurd listed List.not_mem_nil

theorem Fits.cons {key : String} {member : Value} {rest : Members} (fits : Fits key member)
    (wellTyped : WellTyped (.object rest)) : WellTyped (.object ((key, member) :: rest)) :=
  List.forall_mem_cons.mpr ⟨fits, wellTyped⟩

theorem fits_string {key text : String} (notSigned : key ∉ signedKeys) (notUnsigned : key ≠ "rtprio") :
    Fits key (.string text) where
  notNull := by simp
  text := fun _ => ⟨text, rfl⟩
  signed := fun isSigned => absurd isSigned notSigned
  unsigned := fun isUnsigned => absurd isUnsigned notUnsigned

theorem fits_unimplemented {key : String} {member : Value} (unknown : key ∉ implemented)
    (notNull : member ≠ .null) : Fits key member := by
  have texts : ∀ other ∈ textKeys, other ∈ implemented := by decide +kernel
  have signs : ∀ other ∈ signedKeys, other ∈ implemented := by decide +kernel
  refine ⟨notNull, fun isText => absurd (texts key isText) unknown,
    fun isSigned => absurd (signs key isSigned) unknown, fun isUnsigned => ?_⟩
  rw [isUnsigned] at unknown
  exact absurd unknown (by decide +kernel)

theorem WellTyped.get_eq_none {value : Value} (wellTyped : WellTyped value) {key : String}
    (isText : key ∈ textKeys) (noText : value.getStr key = none) : value.get key = none := by
  cases held : value.get key with
  | none => rfl
  | some member =>
      obtain ⟨text, isString⟩ := (wellTyped.get held).text isText
      rw [isString, ← Value.getStr_eq_some_iff, noText] at held
      exact absurd held (by simp)

theorem jsonOfI32_i32Of {member : Value} {number : Number} {held : Int32}
    (isNumber : member = .number number) (holds : number.HoldsPlain held.toInt) :
    jsonOfI32 (i32Of member) = member := by
  have lower := held.le_toInt
  have upper := held.toInt_lt
  rw [isNumber, i32Of_number holds, jsonOfI32]
  exact congrArg Value.number
    (Number.eq_of_holds (Number.holds_ofI32 held) holds (by omega) (by omega))

theorem jsonOfU32_u32Of {member : Value} {number : Number} {held : UInt32}
    (isNumber : member = .number number) (holds : number.HoldsPlain held.toNat) :
    jsonOfU32 (u32Of member) = member := by
  have upper := held.toNat_lt
  rw [isNumber, u32Of_number holds, jsonOfU32]
  exact congrArg Value.number
    (Number.eq_of_holds (Number.holds_ofU32 held) holds (by omega) (by omega))

/-- One attribute: what a declared member is read as is reported as that member. -/
theorem map_overlayValue {α : Type} {read : Value → Option α} {write : Option α → Value}
    {own base : Option Value} (ownKept : ∀ member, own = some member → write (read member) = member)
    (baseKept : ∀ member, base = some member → write (read member) = member) :
    (overlayValue (own.map read) (base.map read)).map write = own.or base := by
  cases own with
  | some member => exact congrArg some (ownKept member rfl)
  | none =>
      cases base with
      | none => rfl
      | some member => exact congrArg some (baseKept member rfl)

/-- A member that is neither `null` nor an object replaces what it is merged onto. -/
theorem patched_eq_or {held own : Option Value}
    (scalar : ∀ member, own = some member → member ≠ .null ∧ ∀ members, member ≠ .object members) :
    patched held own = own.or held := by
  cases own with
  | none => rfl
  | some member =>
      obtain ⟨notNull, notObject⟩ := scalar member rfl
      cases member with
      | null => exact absurd rfl notNull
      | object members => exact absurd rfl (notObject members)
      | _ => simp [patched, mergePatch]

theorem lookup_extrasOf (value : Value) (key : String) :
    (extrasOf value).lookup key =
      if implemented.contains key = true then none else value.get key := by
  rw [extrasOf, lookup_filter fun key => !implemented.contains key, Value.get]
  cases implemented.contains key <;> rfl

theorem wellFormed_extrasOf (document : Document) :
    (Value.object (extrasOf document.value)).wellFormed = true := by
  have formed := (Value.wellFormed_members document.wellFormed).2
  rw [Value.wellFormed, Bool.and_eq_true, decide_eq_true_eq, membersWellFormed_iff]
  refine ⟨(plainExtras_extrasOf document).ascending, fun member isExtra => ?_⟩
  exact formed member (List.mem_filter.mp isExtra).1

end Rule

namespace RuleView

variable {rule type : Document} {name typeName : String}

theorem overlay_signed (ruleTyped : Rule.WellTyped rule.value) (typeTyped : Rule.WellTyped type.value)
    {key : String} (isSigned : key ∈ Rule.signedKeys) :
    (Rule.overlayValue (Rule.number rule.value key) (Rule.number type.value key)).map
      Rule.jsonOfI32 = patched (type.value.get key) (rule.value.get key) := by
  rw [Rule.patched_eq_or]
  · apply Rule.map_overlayValue
    · intro member held
      obtain ⟨number, value, isNumber, holds⟩ := (ruleTyped.get held).signed isSigned
      exact Rule.jsonOfI32_i32Of isNumber holds
    · intro member held
      obtain ⟨number, value, isNumber, holds⟩ := (typeTyped.get held).signed isSigned
      exact Rule.jsonOfI32_i32Of isNumber holds
  · intro member held
    obtain ⟨number, value, isNumber, _⟩ := (ruleTyped.get held).signed isSigned
    simp [isNumber]

theorem overlay_unsigned (ruleTyped : Rule.WellTyped rule.value)
    (typeTyped : Rule.WellTyped type.value) :
    (Rule.overlayValue ((rule.value.get "rtprio").map Rule.u32Of)
      ((type.value.get "rtprio").map Rule.u32Of)).map Rule.jsonOfU32 =
        patched (type.value.get "rtprio") (rule.value.get "rtprio") := by
  rw [Rule.patched_eq_or]
  · apply Rule.map_overlayValue
    · intro member held
      obtain ⟨number, value, isNumber, holds⟩ := (ruleTyped.get held).unsigned rfl
      exact Rule.jsonOfU32_u32Of isNumber holds
    · intro member held
      obtain ⟨number, value, isNumber, holds⟩ := (typeTyped.get held).unsigned rfl
      exact Rule.jsonOfU32_u32Of isNumber holds
  · intro member held
    obtain ⟨number, value, isNumber, _⟩ := (ruleTyped.get held).unsigned rfl
    simp [isNumber]

theorem overlay_text (ruleTyped : Rule.WellTyped rule.value) (typeTyped : Rule.WellTyped type.value)
    {key : String} (isText : key ∈ Rule.textKeys) :
    (Rule.overlayValue (RuleView.text rule.value key) (RuleView.text type.value key)).map
      Rule.jsonOfName = patched (type.value.get key) (rule.value.get key) := by
  rw [Rule.patched_eq_or]
  · apply Rule.map_overlayValue
    · intro member held
      obtain ⟨value, isString⟩ := (ruleTyped.get held).text isText
      rw [isString]
      rfl
    · intro member held
      obtain ⟨value, isString⟩ := (typeTyped.get held).text isText
      rw [isString]
      rfl
  · intro member held
    obtain ⟨value, isString⟩ := (ruleTyped.get held).text isText
    simp [isString]

/-- Under an implemented key the report of an overlay is the merge. -/
theorem member_inherit (ruleTyped : Rule.WellTyped rule.value) (typeTyped : Rule.WellTyped type.value)
    (isNamed : rule.value.get "name" = some (.string name))
    (untitled : type.value.get "name" = none)
    (isTyped : rule.value.get "type" = some (.string typeName)) (key : String)
    (known : Rule.implemented.contains key = true) :
    ((ofJson rule.value).inherit (ofJson type.value)).member name key =
      patched (type.value.get key) (rule.value.get key) := by
  have cases : key ∈ Rule.implemented := List.contains_iff_mem.mp known
  simp only [Rule.implemented, List.mem_cons, List.not_mem_nil, or_false] at cases
  rcases cases with rfl | rfl | rfl | rfl | rfl | rfl | rfl | rfl | rfl | rfl | rfl
  · rw [isNamed, untitled]
    rfl
  · rw [isTyped]
    have named : (ofJson rule.value).typeName = some typeName := Value.getStr_eq_some_iff.mpr isTyped
    change (ofJson rule.value).typeName.map Value.string = _
    rw [named]
    simp [patched, mergePatch]
  · exact overlay_signed ruleTyped typeTyped (by decide +kernel)
  · exact overlay_signed ruleTyped typeTyped (by decide +kernel)
  · exact overlay_text ruleTyped typeTyped (by decide +kernel)
  · exact overlay_signed ruleTyped typeTyped (by decide +kernel)
  · exact overlay_text ruleTyped typeTyped (by decide +kernel)
  · exact overlay_unsigned ruleTyped typeTyped
  · exact overlay_signed ruleTyped typeTyped (by decide +kernel)
  · exact overlay_text ruleTyped typeTyped (by decide +kernel)
  · exact overlay_text ruleTyped typeTyped (by decide +kernel)

theorem get_toJson_inherit (key : String) :
    (((ofJson rule.value).inherit (ofJson type.value)).toJson name).get key =
      if Rule.implemented.contains key = true then
        ((ofJson rule.value).inherit (ofJson type.value)).member name key
      else (Rule.extrasOf rule.value).lookup key :=
  get_toJson (Rule.plainExtras_extrasOf rule) name key

/-- The report of an overlay is the merge exactly if the rule covers its type on the keys
that are not implemented. -/
theorem toJson_inherit_eq_iff (ruleTyped : Rule.WellTyped rule.value)
    (typeTyped : Rule.WellTyped type.value) (isNamed : rule.value.get "name" = some (.string name))
    (untitled : type.value.get "name" = none)
    (isTyped : rule.value.get "type" = some (.string typeName)) :
    ((ofJson rule.value).inherit (ofJson type.value)).toJson name =
        mergePatch type.value rule.value ↔
      (Value.object (Rule.extrasOf rule.value)).Covers (Rule.extrasOf type.value) := by
  obtain ⟨members, isObject⟩ := isObject_of_getStr (Value.getStr_eq_some_iff.mpr isNamed)
  have merge : mergePatch type.value rule.value = .object (mergeMembers type.value.members members) := by
    rw [isObject, mergePatch]
  have mergeSorted : Ascending (mergeMembers type.value.members members) :=
    (Value.wellFormed_members type.wellFormed).1.merge members
  obtain ⟨reported, isReport⟩ : ∃ reported,
      ((ofJson rule.value).inherit (ofJson type.value)).toJson name = .object reported := ⟨_, rfl⟩
  have reportSorted : Ascending reported := by
    have sorted := ascending_toJson ((ofJson rule.value).inherit (ofJson type.value)) name
    rwa [isReport] at sorted
  have ruleExtras : Ascending (Rule.extrasOf rule.value) := (Rule.plainExtras_extrasOf rule).ascending
  have typeExtras : Ascending (Rule.extrasOf type.value) := (Rule.plainExtras_extrasOf type).ascending
  have covers := mergePatch_eq_self_iff (.object (Rule.extrasOf type.value))
    (Rule.wellFormed_extrasOf type) (.object (Rule.extrasOf rule.value)) (Rule.wellFormed_extrasOf rule)
  have atMerge : ∀ key, (mergeMembers type.value.members members).lookup key =
      patched (type.value.get key) (rule.value.get key) := by
    intro key
    rw [← get_mergePatch rule ⟨members, isObject⟩, merge]
    rfl
  calc ((ofJson rule.value).inherit (ofJson type.value)).toJson name =
        mergePatch type.value rule.value
      ↔ ∀ key, (((ofJson rule.value).inherit (ofJson type.value)).toJson name).get key =
          patched (type.value.get key) (rule.value.get key) := by
        rw [merge, isReport, Value.object.injEq, reportSorted.eq_iff_lookup mergeSorted]
        simp only [atMerge]
        rfl
    _ ↔ ∀ key, (mergeMembers (Rule.extrasOf type.value) (Rule.extrasOf rule.value)).lookup key =
          (Rule.extrasOf rule.value).lookup key := by
        apply forall_congr'
        intro key
        rw [lookup_mergeMembers ruleExtras.nodup, get_toJson_inherit]
        by_cases known : Rule.implemented.contains key = true
        · rw [if_pos known, Rule.lookup_extrasOf, Rule.lookup_extrasOf, if_pos known, if_pos known]
          exact iff_of_true (member_inherit ruleTyped typeTyped isNamed untitled isTyped key known) rfl
        · rw [if_neg known, Rule.lookup_extrasOf, Rule.lookup_extrasOf, if_neg known, if_neg known]
          exact eq_comm
    _ ↔ mergeMembers (Rule.extrasOf type.value) (Rule.extrasOf rule.value) =
          Rule.extrasOf rule.value :=
        (Ascending.eq_iff_lookup (typeExtras.merge _) ruleExtras).symm
    _ ↔ (Value.object (Rule.extrasOf rule.value)).Covers (Rule.extrasOf type.value) := by
        rw [← Value.object.injEq]
        exact covers

end RuleView

/-! ## Room in the table -/

theorem NameTable.length_intern (name : String) (table : NameTable) :
    (intern name table).2.values.length ≤ table.values.length + 1 := by
  rcases intern_cases name table with ⟨position, _, answer⟩ | ⟨_, _, _, values⟩ | ⟨_, _, answer⟩
  · rw [answer]
    exact Nat.le_add_right _ 1
  · rw [values, List.length_append, List.length_singleton]
  · rw [answer]
    exact Nat.le_add_right _ 1

namespace Rule

theorem length_string (value : Value) (key : String) (table : NameTable) :
    (string value key table).2.values.length ≤ table.values.length + 1 := by
  unfold string
  cases value.get key with
  | none => exact Nat.le_add_right _ 1
  | some member =>
      cases member with
      | string text => exact NameTable.length_intern text table
      | _ => exact Nat.le_add_right _ 1

theorem length_typeNameOf (value : Value) (table : NameTable) :
    (typeNameOf value table).2.values.length ≤ table.values.length + 1 := by
  unfold typeNameOf
  cases value.getStr "type" with
  | none => exact Nat.le_add_right _ 1
  | some text => exact NameTable.length_intern text table

/-- A definition has at most five names to intern. -/
theorem length_fromJson (value : Value) (table : NameTable) :
    (fromJson value table).2.values.length ≤ table.values.length + 5 := by
  have typeName := length_typeNameOf value table
  have ioclass := length_string value "ioclass" (typeNameOf value table).2
  have sched := length_string value "sched" (string value "ioclass" (typeNameOf value table).2).2
  have cgroup := length_string value "cgroup"
    (string value "sched" (string value "ioclass" (typeNameOf value table).2).2).2
  have cpuset := length_string value "cpuset" (string value "cgroup"
    (string value "sched" (string value "ioclass" (typeNameOf value table).2).2).2).2
  have unfolded : (fromJson value table).2 = (string value "cpuset" (string value "cgroup"
    (string value "sched" (string value "ioclass" (typeNameOf value table).2).2).2).2).2 := rfl
  rw [unfolded]
  omega

end Rule

namespace Rules

theorem length_loadPrograms (crates : Crates ρ κ) (definitions : List (String × Document))
    (rules : Rules ρ κ) : (loadPrograms crates definitions rules).names.values.length ≤
      rules.names.values.length + 5 * definitions.length := by
  induction definitions generalizing rules with
  | nil => exact Nat.le_add_right _ _
  | cons head rest inductionHypothesis =>
      have headRoom : (loadProgram crates head.1 head.2 rules).names.values.length ≤
          rules.names.values.length + 5 := by
        unfold loadProgram
        simp only
        split
        · exact Rule.length_fromJson head.2.value rules.names
        · exact Nat.le_add_right _ _
      have restRoom := inductionHypothesis (loadProgram crates head.1 head.2 rules)
      change (loadPrograms crates rest (loadProgram crates head.1 head.2 rules)).names.values.length ≤ _
      rw [List.length_cons]
      omega

theorem length_resolveBases (entries : List (Sigma fun _ : String => Document)) (table : NameTable) :
    (resolveBases entries table).2.values.length ≤ table.values.length + 5 * entries.length := by
  induction entries generalizing table with
  | nil => exact Nat.le_add_right _ _
  | cons head rest inductionHypothesis =>
      have headRoom := Rule.length_fromJson head.2.value table
      have restRoom := inductionHypothesis (Rule.fromJson head.2.value table).2
      change (resolveBases rest (Rule.fromJson head.2.value table).2).2.values.length ≤ _
      rw [List.length_cons]
      omega

/-- No line is both a program rule and a type. -/
theorem length_kinds (crates : Crates ρ κ) (lines : List String) :
    (programLines crates lines).length + (typeLines crates lines).length ≤ lines.length := by
  have documents := List.length_filterMap_le (documentOf crates) lines
  suffices kinds : ∀ held : List Document,
      (held.filterMap programOf).length + (held.filterMap typeOf).length ≤ held.length from
    (kinds _).trans documents
  intro held
  induction held with
  | nil => exact Nat.le_refl 0
  | cons head rest inductionHypothesis =>
      have longer : ∀ read : Document → Option (String × Document),
          ((head :: rest).filterMap read).length ≤ (rest.filterMap read).length + 1 := by
        intro read
        rw [List.filterMap_cons]
        cases read head with
        | none => exact Nat.le_add_right _ 1
        | some definition => exact Nat.le_refl _
      have programs := longer programOf
      have types := longer typeOf
      rw [List.length_cons]
      cases named : head.value.getStr "name" with
      | none =>
          have notProgram : programOf head = none := by
            rw [programOf, named, Option.map_none]
          rw [List.filterMap_cons_none notProgram]
          omega
      | some name =>
          have notType : typeOf head = none := by
            rw [typeOf, named]
            rfl
          rw [List.filterMap_cons_none notType]
          omega

/-- Five names a line fit in the table. -/
theorem notFull_inherited (crates : Crates ρ κ) (names : NameTable) (order : IterationOrder)
    (lines : List String)
    (room : nameFirstValue + names.values.length + 5 * lines.length ≤ u16Max) :
    (inherited crates names order lines).names.NotFull := by
  have kinds := length_kinds crates lines
  have loaded : (loadLines crates lines (new crates names)).names.values.length ≤
      names.values.length + 5 * (programLines crates lines).length := by
    rw [loadLines_eq]
    exact length_loadPrograms crates (programLines crates lines) (new crates names)
  have types : (loadLines crates lines (new crates names)).types.entries.length ≤
      (typeLines crates lines).length := by
    rw [loadLines_eq]
    have added := length_insertAll (typeLines crates lines) ∅
    change _ ≤ 0 + _ at added
    rwa [Nat.zero_add] at added
  have resolved := length_resolveBases
    (order.visit (loadLines crates lines (new crates names)).types.entries)
    (loadLines crates lines (new crates names)).names
  rw [(order.perm _).length_eq] at resolved
  change nameFirstValue + (resolveBases _ _).2.values.length ≤ u16Max
  omega

/-! ## The report of a loaded rule -/

theorem getStr_of_programLines {crates : Crates ρ κ} {lines : List String} {name : String}
    {document : Document} (listed : (name, document) ∈ programLines crates lines) :
    document.value.getStr "name" = some name := by
  obtain ⟨read, _, isProgram⟩ := List.mem_filterMap.mp listed
  obtain ⟨held, named, same⟩ := Option.map_eq_some_iff.mp isProgram
  rw [← (Prod.mk.inj same).1, ← (Prod.mk.inj same).2]
  exact named

theorem getStr_of_typeLines {crates : Crates ρ κ} {lines : List String} {typeName : String}
    {document : Document} (listed : (typeName, document) ∈ typeLines crates lines) :
    document.value.getStr "name" = none := by
  obtain ⟨read, _, isType⟩ := List.mem_filterMap.mp listed
  rw [typeOf] at isType
  cases named : read.value.getStr "name" with
  | some name =>
      rw [named] at isType
      exact absurd isType (by simp)
  | none =>
      rw [named] at isType
      obtain ⟨held, _, same⟩ := Option.map_eq_some_iff.mp isType
      rw [← (Prod.mk.inj same).2]
      exact named

/-- In a store that read any lines, in a table with room for their names: the report of a
rule, after it took what it does not say from its type, is the RFC 7396 merge of its object
onto that of the type exactly if its unimplemented members cover those of the type. -/
theorem report_eq_mergePatch_iff (crates : Crates ρ κ) (names : NameTable) (order : IterationOrder)
    (lines : List String) (name typeName : String) (rule type : Document)
    (room : nameFirstValue + names.values.length + 5 * lines.length ≤ u16Max)
    (isRule : lastOf (programLines crates lines) name = some rule)
    (isType : lastOf (typeLines crates lines) typeName = some type)
    (named : rule.value.getStr "type" = some typeName) (ruleTyped : Rule.WellTyped rule.value)
    (typeTyped : Rule.WellTyped type.value) :
    ∃ held, (name, held) ∈ (inherited crates names order lines).iterRules ∧
      (held.toJson (inherited crates names order lines).names name =
          mergePatch type.value rule.value ↔
        (Value.object (Rule.extrasOf rule.value)).Covers (Rule.extrasOf type.value)) := by
  have notFull := notFull_inherited crates names order lines room
  have few : ((programLines crates lines).map Prod.fst).dedup.length < indexModulus := by
    have kinds := length_kinds crates lines
    have distinct := (List.dedup_sublist ((programLines crates lines).map Prod.fst)).length_le
    rw [List.length_map] at distinct
    rw [u16Max] at room
    rw [indexModulus]
    omega
  obtain ⟨before, _, stored, _, view⟩ :=
    ruleOf_inherited crates names order lines few isRule notFull
  have found := (types_inherited crates names order lines typeName).trans isType
  have settled := settled_inherited crates names order lines
  generalize inherited crates names order lines = final at *
  refine ⟨_, (mem_iterRules final name _).mpr stored, ?_⟩
  have overlay : (inheritIn final.names final.types before).view final.names =
      (RuleView.ofJson rule.value).inherit (RuleView.ofJson type.value) := by
    rw [view_inheritIn settled notFull, view, RuleView.inheritType]
    rw [show (RuleView.ofJson rule.value).typeName = rule.value.getStr "type" from rfl, named]
    simp only [found]
  rw [Rule.toJson_eq_view, overlay]
  have isNamed := getStr_of_programLines (mem_of_lastOf isRule)
  have untitled := getStr_of_typeLines (mem_of_lastOf isType)
  exact RuleView.toJson_inherit_eq_iff ruleTyped typeTyped (Value.getStr_eq_some_iff.mp isNamed)
    (typeTyped.get_eq_none (by decide +kernel) untitled) (Value.getStr_eq_some_iff.mp named)

/-- `{"foo":1,"type":"x"}`. -/
def fooType : Document := ⟨.object [("foo", .number (.posInt 1)), ("type", .string "x")], by decide⟩

/-- `{"name":"a","type":"x"}`. -/
def plainProgram : Document := ⟨.object [("name", .string "a"), ("type", .string "x")], by decide⟩

/-- `{"foo":2,"name":"a","type":"x"}`. -/
def fooProgram : Document :=
  ⟨.object [("foo", .number (.posInt 2)), ("name", .string "a"), ("type", .string "x")], by decide⟩

def fooDefinitions (program : Document) : List (String × Document) :=
  [("\x7bprogram\x7d", program), ("\x7btype\x7d", fooType)]

def fooStore (program : Document) : Rules String (List (String × Option String)) :=
  inherited (literalCrates (fooDefinitions program)) .empty listedOrder
    ((fooDefinitions program).map Prod.fst)

theorem wellTyped_fooType : Rule.WellTyped fooType.value :=
  Rule.Fits.cons (Rule.fits_unimplemented (by decide +kernel) (by simp)) <|
    Rule.Fits.cons (Rule.fits_string (by decide +kernel) (by decide +kernel)) Rule.wellTyped_empty

theorem wellTyped_plainProgram : Rule.WellTyped plainProgram.value :=
  Rule.Fits.cons (Rule.fits_string (by decide +kernel) (by decide +kernel)) <|
    Rule.Fits.cons (Rule.fits_string (by decide +kernel) (by decide +kernel)) Rule.wellTyped_empty

theorem report_eq_mergePatch_iff_foo :
    ∃ held, ("a", held) ∈ (fooStore fooProgram).iterRules ∧
      (held.toJson (fooStore fooProgram).names "a" = mergePatch fooType.value fooProgram.value ↔
        (Value.object (Rule.extrasOf fooProgram.value)).Covers (Rule.extrasOf fooType.value)) :=
  report_eq_mergePatch_iff (literalCrates (fooDefinitions fooProgram)) .empty listedOrder
    ((fooDefinitions fooProgram).map Prod.fst) "a" "x" fooProgram fooType (by decide +kernel) rfl rfl
    rfl (Rule.Fits.cons (Rule.fits_unimplemented (by decide +kernel) (by simp)) wellTyped_plainProgram)
    wellTyped_fooType

/-- A key of the type that the daemon does not implement is missing from the report. -/
theorem inherited_extra_is_not_reported :
    Rule.WellTyped plainProgram.value ∧ Rule.WellTyped fooType.value ∧
      ∃ held, ("a", held) ∈ (fooStore plainProgram).iterRules ∧
        held.toJson (fooStore plainProgram).names "a" ≠
          mergePatch fooType.value plainProgram.value := by
  have isListed : (ruleOf (fooStore plainProgram) "a").isSome = true := by
    decide +kernel
  obtain ⟨held, stored⟩ := Option.isSome_iff_exists.mp isListed
  refine ⟨wellTyped_plainProgram, wellTyped_fooType, held, (mem_iterRules _ "a" held).mpr stored, ?_⟩
  intro same
  have missing : ((ruleOf (fooStore plainProgram) "a").map fun rule =>
      ((rule.toJson (fooStore plainProgram).names "a").get "foo").isSome) = some false := by
    decide +kernel
  rw [stored, Option.map_some, same] at missing
  exact absurd missing (by decide +kernel)

end Rules

end AnanicyRs.Core
