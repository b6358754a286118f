import AnanicyRs.Core.StoreView

/-!
Contract: what inheritance means.

Owns two results about the rules after `precompute_inheritance`. The overlay of a rule
on its type answers every accessor as the RFC 7396 merge of the two objects does
(`accessors_inherit_mergePatch`), and the outcome depends on the definitions of each
kind and not on how the kinds were interleaved or in which order the types were
visited, as long as the name table does not fill up.
-/

set_option autoImplicit false

namespace AnanicyRs.Core

open AnanicyRs.Lib
open AnanicyRs.Lib.Json
open AnanicyRs.Lib.LastWins

variable {ρ κ : Type}

/-! ## The overlay is a merge patch -/

/-- One attribute: `read` takes a member to its usable value. -/
theorem join_overlay_patched {α : Type} {read : Value → Option α} (nullUnusable : read .null = none)
    (objectUnusable : ∀ members, read (.object members) = none) (held patch : Option Value) :
    (Rule.overlayValue (patch.map read) (held.map read)).join =
      ((patched held patch).map read).join := by
  cases patch with
  | none => rfl
  | some member =>
      cases member with
      | null => simp [Rule.overlayValue, patched, nullUnusable]
      | object members => simp [Rule.overlayValue, patched, mergePatch, objectUnusable]
      | _ => simp [Rule.overlayValue, patched, mergePatch]

theorem isObject_of_getStr {value : Value} {key text : String}
    (named : value.getStr key = some text) : ∃ members, value = .object members := by
  cases value with
  | object members => exact ⟨members, rfl⟩
  | _ => simp [Value.getStr, Value.get, Value.members] at named

theorem RuleView.accessors_inherit_mergePatch (target : Value) (patch : Document)
    (isObject : ∃ members, patch.value = .object members) :
    ((RuleView.ofJson patch.value).inherit (RuleView.ofJson target)).accessors =
      (RuleView.ofJson (mergePatch target patch.value)).accessors := by
  have number (key : String) :
      (Rule.overlayValue (Rule.number patch.value key) (Rule.number target key)).join =
        (Rule.number (mergePatch target patch.value) key).join := by
    rw [Rule.number, Rule.number, Rule.number, get_mergePatch patch isObject]
    exact join_overlay_patched rfl (fun _ => rfl) _ _
  have unsigned :
      (Rule.overlayValue ((patch.value.get "rtprio").map Rule.u32Of)
          ((target.get "rtprio").map Rule.u32Of)).join =
        (((mergePatch target patch.value).get "rtprio").map Rule.u32Of).join := by
    rw [get_mergePatch patch isObject]
    exact join_overlay_patched rfl (fun _ => rfl) _ _
  have text (key : String) :
      (Rule.overlayValue (RuleView.text patch.value key) (RuleView.text target key)).join =
        (RuleView.text (mergePatch target patch.value) key).join := by
    rw [RuleView.text, RuleView.text, RuleView.text, get_mergePatch patch isObject]
    exact join_overlay_patched rfl (fun _ => rfl) _ _
  simp only [RuleView.accessors, RuleView.inherit, RuleView.ofJson, number, unsigned, text]

/-! ## Reading a merge adds no name -/

namespace Rule

def Settled (names : NameTable) (value : Value) : Prop := (fromJson value names).2 = names

theorem settled_iff (names : NameTable) (value : Value) :
    Settled names value ↔ (typeNameOf value names).2 = names ∧
      ∀ key ∈ nameKeys, (string value key names).2 = names := by
  constructor
  · intro settled
    have grows : NameTable.Grows (fromJson value names).2 names := by
      rw [settled]
      exact NameTable.Grows.refl names
    exact ⟨(fromJson_reads grows).1, (fromJson_reads grows).2.1⟩
  · intro given
    rcases given with ⟨typeKept, namesKept⟩
    have unfolded : (fromJson value names).2 = (string value "cpuset" (string value "cgroup"
        (string value "sched" (string value "ioclass" (typeNameOf value names).2).2).2).2).2 := rfl
    rw [Settled, unfolded, typeKept, namesKept "ioclass" (by simp [nameKeys]),
      namesKept "sched" (by simp [nameKeys]), namesKept "cgroup" (by simp [nameKeys]),
      namesKept "cpuset" (by simp [nameKeys])]

/-- Every name of a merge is a name of the patch or of the target. -/
theorem settled_mergePatch {names : NameTable} {target : Value} {patch : Document}
    (isObject : ∃ members, patch.value = .object members)
    (targetSettled : Settled names target) (patchSettled : Settled names patch.value) :
    Settled names (mergePatch target patch.value) := by
  rw [settled_iff] at targetSettled patchSettled ⊢
  refine ⟨?_, fun key member => ?_⟩
  · have targetType := targetSettled.1
    have patchType := patchSettled.1
    unfold typeNameOf Value.getStr at targetType patchType ⊢
    rw [get_mergePatch patch isObject]
    cases own : patch.value.get "type" with
    | none => exact targetType
    | some value =>
        rw [own] at patchType
        cases value with
        | string text => exact patchType
        | _ => rfl
  · have targetName := targetSettled.2 key member
    have patchName := patchSettled.2 key member
    unfold string at targetName patchName ⊢
    rw [get_mergePatch patch isObject]
    cases own : patch.value.get key with
    | none => exact targetName
    | some value =>
        rw [own] at patchName
        cases value with
        | string text => exact patchName
        | _ => rfl

end Rule

/-! ## Rules after the pass -/

namespace Rules

theorem ruleOf_precomputeInheritance (crates : Crates ρ κ) (order : IterationOrder)
    (rules : Rules ρ κ) (name : String) :
    ruleOf (precomputeInheritance crates order rules) name =
      (ruleOf rules name).map (inheritIn (inheritedNames order rules) rules.types) := by
  rw [precomputeInheritance_eq]
  unfold ruleOf
  cases rules.programs.lookup name with
  | none => rfl
  | some index => simp

/-- The store of a process with table `names` that read `lines` into a fresh store
and ran the inheritance pass. -/
def inherited (crates : Crates ρ κ) (names : NameTable) (order : IterationOrder)
    (lines : List String) : Rules ρ κ :=
  precomputeInheritance crates order (loadLines crates lines (new crates names))

/-- The rule of a name after the pass: the overlay of the one the last definition was read as. -/
theorem ruleOf_inherited (crates : Crates ρ κ) (names : NameTable) (order : IterationOrder)
    (lines : List String) {name : String} {document : Document}
    (few : ((programLines crates lines).map Prod.fst).dedup.length < indexModulus)
    (isLast : lastOf (programLines crates lines) name = some document)
    (notFull : (inherited crates names order lines).names.NotFull) :
    ∃ before, ruleOf (loadLines crates lines (new crates names)) name = some before ∧
      ruleOf (inherited crates names order lines) name =
        some (inheritIn (inherited crates names order lines).names
          (inherited crates names order lines).types before) ∧
      Rule.fromJson document.value (inherited crates names order lines).names =
        (before, (inherited crates names order lines).names) ∧
      before.view (inherited crates names order lines).names = RuleView.ofJson document.value := by
  unfold inherited at notFull ⊢
  obtain ⟨before, stored, read⟩ := (represents_loadLines crates names lines few).read _ _ isLast
  generalize loadLines crates lines (new crates names) = store at *
  have readFinal := read.mono (inheritedNames_grows order store)
  refine ⟨before, stored, ?_, readFinal, ?_⟩
  · rw [ruleOf_precomputeInheritance, stored]
    rfl
  · have grows : NameTable.Grows (Rule.fromJson document.value (inheritedNames order store)).2
        (inheritedNames order store) := by
      rw [readFinal]
      exact NameTable.Grows.refl _
    have readView := Rule.view_fromJson grows notFull
    rwa [readFinal] at readView

theorem types_inherited (crates : Crates ρ κ) (names : NameTable) (order : IterationOrder)
    (lines : List String) (typeName : String) :
    (inherited crates names order lines).types.lookup typeName =
      lastOf (typeLines crates lines) typeName := by
  change (loadLines crates lines (new crates names)).types.lookup typeName = _
  rw [loadLines_eq, lookup_insertAll]
  exact Option.or_none

theorem settled_inherited (crates : Crates ρ κ) (names : NameTable) (order : IterationOrder)
    (lines : List String) : ∀ entry ∈ (inherited crates names order lines).types.entries,
      Rule.Settled (inherited crates names order lines).names entry.2.value :=
  settled_inheritedNames order (loadLines crates lines (new crates names))

/-- Inheritance refines the merge patch. After any lines and the inheritance pass,
the rule of a name has, at every accessor, the value that `from_json` of the merge of
its object onto its type has; and a rule that names no type, or one that no line
defines, is the rule it was before the pass. -/
theorem inherited_refines_mergePatch (crates : Crates ρ κ) (names : NameTable)
    (order : IterationOrder) (lines : List String) (name : String) (document : Document)
    (few : ((programLines crates lines).map Prod.fst).dedup.length < indexModulus)
    (isLast : lastOf (programLines crates lines) name = some document)
    (notFull : (inherited crates names order lines).names.NotFull) :
    ∃ before rule, ruleOf (loadLines crates lines (new crates names)) name = some before ∧
      ruleOf (inherited crates names order lines) name = some rule ∧
      (∀ typeName type, document.value.getStr "type" = some typeName →
        lastOf (typeLines crates lines) typeName = some type →
          ∃ merged, Rule.fromJson (mergePatch type.value document.value)
              (inherited crates names order lines).names =
                (merged, (inherited crates names order lines).names) ∧
            rule.accessors (inherited crates names order lines).names =
              merged.accessors (inherited crates names order lines).names) ∧
      ((∀ typeName, document.value.getStr "type" = some typeName →
        lastOf (typeLines crates lines) typeName = none) → rule = before) := by
  obtain ⟨before, stored, after, read, view⟩ :=
    ruleOf_inherited crates names order lines few isLast notFull
  have types := types_inherited crates names order lines
  have allSettled := settled_inherited crates names order lines
  generalize inherited crates names order lines = final at *
  have typeNameView : before.typeName.asStr final.names = document.value.getStr "type" :=
    congrArg RuleView.typeName view
  refine ⟨before, inheritIn final.names final.types before, stored, after, ?_, ?_⟩
  · intro typeName type named defined
    have found : final.types.lookup typeName = some type := (types typeName).trans defined
    have isObject := isObject_of_getStr named
    have settled := Rule.settled_mergePatch isObject
      (allSettled ⟨typeName, type⟩ (AList.mem_lookup_iff.mp found)) (congrArg Prod.snd read)
    refine ⟨_, Prod.ext rfl settled, ?_⟩
    have grows : NameTable.Grows (Rule.fromJson (mergePatch type.value document.value) final.names).2
        final.names := by
      rw [settled]
      exact NameTable.Grows.refl _
    rw [Rule.accessors_eq_view, Rule.accessors_eq_view, Rule.view_fromJson grows notFull,
      view_inheritIn allSettled notFull, view,
      ← RuleView.accessors_inherit_mergePatch type.value document isObject]
    unfold RuleView.inheritType
    rw [show (RuleView.ofJson document.value).typeName = document.value.getStr "type" from rfl,
      named]
    simp only [found]
  · intro undefined
    unfold inheritIn
    rw [typeNameView]
    cases named : document.value.getStr "type" with
    | none => rfl
    | some typeName => simp only [types typeName, undefined typeName named]

def listedOrder : IterationOrder := ⟨id, List.Perm.refl⟩

def reversedOrder : IterationOrder := ⟨List.reverse, List.reverse_perm⟩

/-- `{"name":"a","nice":null,"type":"x"}`. -/
def typedProgram : Document :=
  ⟨.object [("name", .string "a"), ("nice", .null), ("type", .string "x")], by decide⟩

/-- `{"nice":5,"sched":"idle","type":"x"}`. -/
def idleType : Document :=
  ⟨.object [("nice", .number (.posInt 5)), ("sched", .string "idle"), ("type", .string "x")],
    by decide⟩

/-- `{"type":"y"}`. -/
def otherType : Document := ⟨.object [("type", .string "y")], by decide⟩

def typedDefinitions : List (String × Document) :=
  [("\x7b\"name\":\"a\",\"nice\":null,\"type\":\"x\"\x7d", typedProgram),
    ("\x7b\"nice\":5,\"sched\":\"idle\",\"type\":\"x\"\x7d", idleType),
    ("\x7b\"type\":\"y\"\x7d", otherType)]

def typedLines : List String := typedDefinitions.map Prod.fst

/-- A declared `null` holds against the type, and what the rule does not say comes
from it. -/
theorem inherited_refines_mergePatch_typed :
    ∃ rule merged,
      ruleOf (inherited (literalCrates typedDefinitions) .empty listedOrder typedLines) "a" =
        some rule ∧
      Rule.fromJson (mergePatch idleType.value typedProgram.value)
          (inherited (literalCrates typedDefinitions) .empty listedOrder typedLines).names =
        (merged,
          (inherited (literalCrates typedDefinitions) .empty listedOrder typedLines).names) ∧
      rule.accessors
          (inherited (literalCrates typedDefinitions) .empty listedOrder typedLines).names =
        merged.accessors
          (inherited (literalCrates typedDefinitions) .empty listedOrder typedLines).names := by
  obtain ⟨_, rule, _, stored, refines, _⟩ := inherited_refines_mergePatch
    (literalCrates typedDefinitions) .empty listedOrder typedLines "a" typedProgram
    (by decide +kernel) rfl (by decide +kernel)
  obtain ⟨merged, read, same⟩ := refines "x" idleType rfl rfl
  exact ⟨rule, merged, stored, read, same⟩

/-! ## Independence of the interleaving -/

/-- The abstract store that lines leave after the inheritance pass. -/
def specStore (crates : Crates ρ κ) (lines : List String) : StoreView ρ :=
  (StoreView.ofDefinitions crates (programLines crates lines) (typeLines crates lines)
    (cgroupLines crates lines)).inheritAll

/-- Whatever the process interned before and in whatever order the types are
visited, the store means the same. -/
theorem view_inherited (crates : Crates ρ κ) (names : NameTable) (order : IterationOrder)
    (lines : List String) (notFull : (inherited crates names order lines).names.NotFull) :
    (inherited crates names order lines).view (inherited crates names order lines).names =
      specStore crates lines := by
  have loaded := view_loadLines (tracks_new crates names) rfl lines
    (inheritedNames_grows order (loadLines crates lines (new crates names))) notFull
  exact (view_precomputeInheritance crates order _ notFull).trans
    (congrArg StoreView.inheritAll loaded)

theorem coherent_inherited (crates : Crates ρ κ) (names : NameTable) (order : IterationOrder)
    (lines : List String) : CacheCoherent crates (inherited crates names order lines) :=
  Cache.coherent_clear crates.cache _ _

/-- What a caller sees of a rule: its accessors and its report. -/
def observed (table : NameTable) (name : String) (rule : Rule) : Rule.Accessors × Value :=
  (rule.accessors table, rule.toJson table name)

/-- No caller can tell the stores apart: every name has a rule with the same
accessors and report, the types and cgroups are the same, and every lookup agrees. -/
structure Indistinguishable (crates : Crates ρ κ) (left right : Rules ρ κ) : Prop where
  rules : ∀ name, (ruleOf left name).map (observed left.names name) =
    (ruleOf right name).map (observed right.names name)
  types : left.types = right.types
  cgroups : left.cgroups = right.cgroups
  lookups : ∀ name,
    ((getRule crates name left).1.map fun answer =>
        (answer.1, observed left.names answer.1 answer.2)) =
      (getRule crates name right).1.map fun answer =>
        (answer.1, observed right.names answer.1 answer.2)

theorem observed_eq_view (table : NameTable) (name : String) (rule : Rule) :
    observed table name rule = ((rule.view table).accessors, (rule.view table).toJson name) := by
  rw [observed, Rule.accessors_eq_view, Rule.toJson_eq_view]

theorem observed_ruleOf (rules : Rules ρ κ) (table : NameTable) (name : String) :
    (ruleOf rules name).map (observed table name) =
      (((rules.view table).programs.lookup name).bind fun index =>
        (rules.view table).rules[index]?).map fun view => (view.accessors, view.toJson name) := by
  unfold ruleOf view
  cases rules.programs.lookup name with
  | none => rfl
  | some index => cases stored : rules.rules[index]? <;> simp [stored, observed_eq_view]

theorem observed_getRule {crates : Crates ρ κ} {rules : Rules ρ κ}
    (coherent : CacheCoherent crates rules) (table : NameTable) (name : String) :
    ((getRule crates name rules).1.map fun answer =>
        (answer.1, observed table answer.1 answer.2)) =
      ((rules.view table).lookup crates name).map fun answer =>
        (answer.1, answer.2.accessors, answer.2.toJson answer.1) := by
  rw [← getRule_view coherent, Option.map_map]
  apply Option.map_congr
  intro answer _
  rw [observed_eq_view]
  rfl

theorem indistinguishable_of_view {crates : Crates ρ κ} {left right : Rules ρ κ}
    (leftCoherent : CacheCoherent crates left) (rightCoherent : CacheCoherent crates right)
    (sameView : left.view left.names = right.view right.names) :
    Indistinguishable crates left right where
  rules name := by rw [observed_ruleOf, observed_ruleOf, sameView]
  types := congrArg StoreView.types sameView
  cgroups := congrArg StoreView.cgroups sameView
  lookups name := by rw [observed_getRule leftCoherent, observed_getRule rightCoherent, sameView]

/-- Two runs over the same program lines, the same type lines and the same cgroup
lines, however interleaved, leave stores that no caller can tell apart, provided
neither run fills the name table. A second pass changes nothing but the cache it
clears, and no pass alters a type. -/
theorem inherited_independent (crates : Crates ρ κ) (leftNames rightNames : NameTable)
    (leftOrder rightOrder : IterationOrder) (left right : List String)
    (samePrograms : programLines crates left = programLines crates right)
    (sameTypes : typeLines crates left = typeLines crates right)
    (sameCgroups : cgroupLines crates left = cgroupLines crates right)
    (leftNotFull : (inherited crates leftNames leftOrder left).names.NotFull)
    (rightNotFull : (inherited crates rightNames rightOrder right).names.NotFull) :
    Indistinguishable crates (inherited crates leftNames leftOrder left)
        (inherited crates rightNames rightOrder right) ∧
      (∀ again, precomputeInheritance crates again (inherited crates leftNames leftOrder left) =
        { inherited crates leftNames leftOrder left with
          resolvedCache := crates.cache.clear
            (inherited crates leftNames leftOrder left).resolvedCache }) ∧
      (inherited crates leftNames leftOrder left).types =
        (loadLines crates left (new crates leftNames)).types := by
  refine ⟨?_, fun again => precomputeInheritance_again crates leftOrder again _, rfl⟩
  apply indistinguishable_of_view (coherent_inherited _ _ _ _) (coherent_inherited _ _ _ _)
  rw [view_inherited _ _ _ _ leftNotFull, view_inherited _ _ _ _ rightNotFull, specStore,
    specStore, samePrograms, sameTypes, sameCgroups]

/-- The typed rule first or last: the stores are the same to every caller. -/
theorem inherited_independent_typed :
    Indistinguishable (literalCrates typedDefinitions)
      (inherited (literalCrates typedDefinitions) .empty listedOrder typedLines)
      (inherited (literalCrates typedDefinitions) .empty reversedOrder
        (typedLines.drop 1 ++ typedLines.take 1)) :=
  (inherited_independent (literalCrates typedDefinitions) .empty .empty listedOrder reversedOrder
    typedLines (typedLines.drop 1 ++ typedLines.take 1) rfl rfl rfl (by decide +kernel)
    (by decide +kernel)).1

/-! ## A crowded name table -/

def crowdName (length : Nat) : String := String.ofList (List.replicate length 'n')

/-- The table after `count` names of growing length. -/
def crowd : Nat → NameTable
  | 0 => .empty
  | count + 1 => (NameTable.intern (crowdName count) (crowd count)).2

theorem crowd_values (count : Nat) (fits : count ≤ 65534) :
    (crowd count).values = (List.range count).map crowdName := by
  induction count with
  | zero => rfl
  | succ count inductionHypothesis =>
      have held := inductionHypothesis (by omega)
      rw [crowd]
      rcases NameTable.intern_cases (crowdName count) (crowd count) with
        ⟨position, listed, _⟩ | ⟨_, _, _, values⟩ | ⟨_, full, _⟩
      · have member := List.mem_of_getElem? listed
        rw [held, List.mem_map] at member
        obtain ⟨length, inRange, same⟩ := member
        have lengths := congrArg (fun name => name.toList.length) same
        simp [crowdName] at lengths
        rw [List.mem_range, lengths] at inRange
        omega
      · rw [values, held, List.range_succ, List.map_append]
        rfl
      · refine absurd ?_ full
        unfold NameTable.NotFull
        rw [held, List.length_map, List.length_range, nameFirstValue, u16Max]
        omega

theorem crowd_fresh {name : String} {count : Nat} (fits : count ≤ 65534) {letter : Char}
    (inName : letter ∈ name.toList) (different : letter ≠ 'n') :
    name ∉ (crowd count).values := by
  rw [crowd_values count fits, List.mem_map]
  intro given
  rcases given with ⟨length, _, rfl⟩
  rw [crowdName, String.toList_ofList] at inName
  exact different (List.eq_of_mem_replicate inName)

theorem typed_names (table : NameTable) :
    (inherited (literalCrates typedDefinitions) table listedOrder typedLines).names =
        (NameTable.intern "idle" (NameTable.intern "x" (NameTable.intern "y"
          (NameTable.intern "x" table).2).2).2).2 ∧
      (inherited (literalCrates typedDefinitions) table reversedOrder typedLines).names =
        (NameTable.intern "y" (NameTable.intern "idle" (NameTable.intern "x"
          (NameTable.intern "x" table).2).2).2).2 :=
  ⟨rfl, rfl⟩

/-- The `sched` the typed rule gets: its type is found, and the name is looked for in
the table the pass leaves. -/
theorem typed_sched (table : NameTable) (order : IterationOrder) {position : Nat}
    (index : (NameTable.intern "x" table).1 = nameFirstValue + position)
    (listed : (inherited (literalCrates typedDefinitions) table order typedLines).names.get
      position = some "x") :
    (ruleOf (inherited (literalCrates typedDefinitions) table order typedLines) "a").map
        (fun rule => (rule.accessors
          (inherited (literalCrates typedDefinitions) table order typedLines).names).sched) =
      some ((NameAttribute.mk (NameTable.intern "idle"
        (inherited (literalCrates typedDefinitions) table order typedLines).names).1).asStr
          (inherited (literalCrates typedDefinitions) table order typedLines).names) := by
  have names : (inherited (literalCrates typedDefinitions) table order typedLines).names =
      inheritedNames order (loadLines (literalCrates typedDefinitions) typedLines
        (new (literalCrates typedDefinitions) table)) := rfl
  rw [names] at listed ⊢
  have stored : ruleOf (loadLines (literalCrates typedDefinitions) typedLines
      (new (literalCrates typedDefinitions) table)) "a" =
        some (Rule.fromJson typedProgram.value table).1 := rfl
  have isType : (loadLines (literalCrates typedDefinitions) typedLines
      (new (literalCrates typedDefinitions) table)).types.lookup "x" = some idleType := rfl
  rw [inherited, ruleOf_precomputeInheritance, stored]
  generalize inheritedNames order (loadLines (literalCrates typedDefinitions) typedLines
    (new (literalCrates typedDefinitions) table)) = final at *
  have typeName : (Rule.fromJson typedProgram.value table).1.typeName.asStr final = some "x" := by
    have isId : (Rule.fromJson typedProgram.value table).1.typeName = ⟨position + 1⟩ := by
      have shifted : (Rule.fromJson typedProgram.value table).1.typeName =
          ⟨(NameTable.intern "x" table).1 - 1⟩ := rfl
      rw [shifted, index, nameFirstValue]
      congr 1
      omega
    rw [isId]
    exact listed
  have overlaid : inheritIn final (loadLines (literalCrates typedDefinitions) typedLines
      (new (literalCrates typedDefinitions) table)).types
        (Rule.fromJson typedProgram.value table).1 =
      (Rule.fromJson typedProgram.value table).1.inherit (baseOf final idleType) := by
    simp only [inheritIn, typeName, isType]
  have baseSched : (baseOf final idleType).sched = ⟨(NameTable.intern "idle" final).1⟩ := by
    have read : (baseOf final idleType).sched =
        ⟨(NameTable.intern "idle" (NameTable.intern "x" final).2).1⟩ := rfl
    rw [read, NameTable.intern_of_get listed]
  rw [Option.map_some, Option.map_some, overlaid, ← baseSched]
  rfl

section Crowded

variable {table : NameTable} (twoLeft : nameFirstValue + table.values.length + 1 = u16Max)
  (xFresh : "x" ∉ table.values) (idleFresh : "idle" ∉ table.values) (yFresh : "y" ∉ table.values)

include twoLeft xFresh

theorem typed_index :
    (NameTable.intern "x" table).1 = nameFirstValue + table.values.length ∧
      (NameTable.intern "x" table).2.values = table.values ++ ["x"] ∧
      (NameTable.intern "x" table).2.NotFull ∧
      ∀ later, NameTable.Grows (NameTable.intern "x" table).2 later →
        later.get table.values.length = some "x" := by
  have room : table.NotFull := by
    unfold NameTable.NotFull
    omega
  obtain ⟨index, values⟩ := NameTable.intern_of_fresh xFresh room
  refine ⟨index, values, ?_, fun later grows => grows.get ?_⟩
  · rw [NameTable.NotFull, values, List.length_append, List.length_singleton]
    omega
  · simp [NameTable.get, values]

theorem intern_last {name : String} (fresh : name ∉ table.values) (other : name ≠ "x") :
    (NameTable.intern name (NameTable.intern "x" table).2).2.values =
        table.values ++ ["x", name] ∧
      ¬ (NameTable.intern name (NameTable.intern "x" table).2).2.NotFull := by
  obtain ⟨_, values, room, _⟩ := typed_index twoLeft xFresh
  have stillFresh : name ∉ (NameTable.intern "x" table).2.values := by
    rw [values]
    simp [fresh, other]
  obtain ⟨_, lastValues⟩ := NameTable.intern_of_fresh stillFresh room
  refine ⟨by rw [lastValues, values, List.append_assoc]; rfl, ?_⟩
  rw [NameTable.NotFull, lastValues, values]
  simp only [List.length_append, List.length_singleton]
  omega

include idleFresh yFresh

theorem typed_sched_reversed :
    (ruleOf (inherited (literalCrates typedDefinitions) table reversedOrder typedLines)
        "a").map (fun rule => (rule.accessors (inherited (literalCrates typedDefinitions)
          table reversedOrder typedLines).names).sched) = some (some "idle") := by
  obtain ⟨index, _, _, xListed⟩ := typed_index twoLeft xFresh
  obtain ⟨values, full⟩ := intern_last twoLeft xFresh idleFresh (by decide)
  have names : (inherited (literalCrates typedDefinitions) table reversedOrder typedLines).names =
      (NameTable.intern "idle" (NameTable.intern "x" table).2).2 := by
    rw [(typed_names table).2, NameTable.intern_of_get (xListed _ (NameTable.Grows.refl _)),
      NameTable.intern_of_full (by rw [values]; simp [yFresh]) full]
  have idleListed : (NameTable.intern "idle" (NameTable.intern "x" table).2).2.get
      (table.values.length + 1) = some "idle" := by
    simp [NameTable.get, values]
  rw [typed_sched table reversedOrder index (by
    rw [names]; exact xListed _ (NameTable.intern_grows _ _)), names,
    NameTable.intern_of_get idleListed]
  have isValue : nameFirstValue + (table.values.length + 1) = table.values.length + 1 + 1 + 1 := by
    rw [nameFirstValue]
    omega
  rw [isValue]
  exact congrArg some idleListed

theorem typed_sched_listed :
    (ruleOf (inherited (literalCrates typedDefinitions) table listedOrder typedLines)
        "a").map (fun rule => (rule.accessors (inherited (literalCrates typedDefinitions)
          table listedOrder typedLines).names).sched) = some none := by
  obtain ⟨index, _, _, xListed⟩ := typed_index twoLeft xFresh
  obtain ⟨values, full⟩ := intern_last twoLeft xFresh yFresh (by decide)
  have idleStillFresh : "idle" ∉ (NameTable.intern "y" (NameTable.intern "x" table).2).2.values := by
    rw [values]
    simp [idleFresh]
  have names : (inherited (literalCrates typedDefinitions) table listedOrder typedLines).names =
      (NameTable.intern "y" (NameTable.intern "x" table).2).2 := by
    rw [(typed_names table).1,
      NameTable.intern_of_get (xListed _ (NameTable.intern_grows "y" _)),
      NameTable.intern_of_full idleStillFresh full]
  rw [typed_sched table listedOrder index (by
    rw [names]; exact xListed _ (NameTable.intern_grows _ _)), names,
    NameTable.intern_of_full idleStillFresh full]
  rfl

end Crowded

/-- In a table with room for two more names, the first goes to the type of the rule, and
the order in which the types are visited decides whether the second is its `sched`. -/
theorem inherited_depends_on_order :
    (ruleOf (inherited (literalCrates typedDefinitions) (crowd 65532) reversedOrder typedLines)
        "a").map (fun rule => (rule.accessors (inherited (literalCrates typedDefinitions)
          (crowd 65532) reversedOrder typedLines).names).sched) = some (some "idle") ∧
      (ruleOf (inherited (literalCrates typedDefinitions) (crowd 65532) listedOrder typedLines)
        "a").map (fun rule => (rule.accessors (inherited (literalCrates typedDefinitions)
          (crowd 65532) listedOrder typedLines).names).sched) = some none := by
  have twoLeft : nameFirstValue + (crowd 65532).values.length + 1 = u16Max := by
    rw [crowd_values 65532 (by decide), List.length_map, List.length_range]
    rfl
  have xFresh : "x" ∉ (crowd 65532).values :=
    crowd_fresh (by decide) (show 'x' ∈ "x".toList by decide) (by decide)
  have idleFresh : "idle" ∉ (crowd 65532).values :=
    crowd_fresh (by decide) (show 'i' ∈ "idle".toList by decide) (by decide)
  have yFresh : "y" ∉ (crowd 65532).values :=
    crowd_fresh (by decide) (show 'y' ∈ "y".toList by decide) (by decide)
  exact ⟨typed_sched_reversed twoLeft xFresh idleFresh yFresh,
    typed_sched_listed twoLeft xFresh idleFresh yFresh⟩

end Rules

end AnanicyRs.Core
