import AnanicyRs.Core.NameTable
import AnanicyRs.Lib.Json

/-!
Contract: one program rule of `crates/ananicy-core/src/rules.rs`.

Owns `Rule` (`from_json`, `inherit`, `to_json` and the accessors) over the name
table, and its abstract counterpart `RuleView`, in which the names are texts. A rule
is read in a table; `Rule.view` says what it means there, and every operation on
rules is matched by the one on views (`view_fromJson`, `view_inherit`,
`toJson_eq_view`).

Does not own where rules are kept.
-/

set_option autoImplicit false

namespace AnanicyRs.Core

open AnanicyRs.Lib.Json

/-- Absent, declared with nothing usable in it, or a value. -/
abbrev Attribute (α : Type) := Option (Option α)

structure Rule where
  typeName : TypeNameId
  nice : Attribute Int32
  latencyNice : Attribute Int32
  ioclass : NameAttribute
  ionice : Attribute Int32
  sched : NameAttribute
  rtprio : Attribute UInt32
  oomScoreAdj : Attribute Int32
  cgroup : NameAttribute
  cpuset : NameAttribute
  extras : Members

namespace Rule

def default : Rule where
  typeName := .none
  nice := none
  latencyNice := none
  ioclass := .absent
  ionice := none
  sched := .absent
  rtprio := none
  oomScoreAdj := none
  cgroup := .absent
  cpuset := .absent
  extras := []

/-! ## Reading a rule from JSON -/

def implemented : List String :=
  ["name", "type", "nice", "latency_nice", "ioclass", "ionice", "sched", "rtprio",
    "oom_score_adj", "cgroup", "cpuset"]

/-- `as_i64` cut down to 32 bits; a value that is not a number has none. -/
def i32Of : Value → Option Int32
  | .number number => number.asI64.map Int64.toInt32
  | _ => none

def u32Of : Value → Option UInt32
  | .number number => number.asU64.map UInt64.toUInt32
  | _ => none

/-- The `number` closure of `from_json`. -/
def number (value : Value) (key : String) : Attribute Int32 := (value.get key).map i32Of

/-- The `string` closure of `from_json`. -/
def string (value : Value) (key : String) : StateM NameTable NameAttribute :=
  match value.get key with
  | none => pure .absent
  | some (.string text) => NameAttribute.intern text
  | some _ => pure .unusable

def typeNameOf (value : Value) : StateM NameTable TypeNameId :=
  match value.getStr "type" with
  | none => pure .none
  | some name => TypeNameId.intern name

def extrasOf (value : Value) : Members :=
  value.members.filter fun member => !implemented.contains member.1

/-- `Rule::from_json`. Names are interned in the order of the fields. -/
def fromJson (value : Value) : StateM NameTable Rule := do
  let typeName ← typeNameOf value
  let ioclass ← string value "ioclass"
  let sched ← string value "sched"
  let cgroup ← string value "cgroup"
  let cpuset ← string value "cpuset"
  pure {
    typeName
    nice := number value "nice"
    latencyNice := number value "latency_nice"
    ioclass
    ionice := number value "ionice"
    sched
    rtprio := (value.get "rtprio").map u32Of
    oomScoreAdj := number value "oom_score_adj"
    cgroup
    cpuset
    extras := extrasOf value }

/-! ## Inheritance -/

def overlayValue {α : Type} (own base : Attribute α) : Attribute α :=
  if own.isNone then base else own

def overlayName (own base : NameAttribute) : NameAttribute :=
  if own.isAbsent then base else own

def inherit (rule base : Rule) : Rule :=
  { rule with
    nice := overlayValue rule.nice base.nice
    latencyNice := overlayValue rule.latencyNice base.latencyNice
    ionice := overlayValue rule.ionice base.ionice
    rtprio := overlayValue rule.rtprio base.rtprio
    oomScoreAdj := overlayValue rule.oomScoreAdj base.oomScoreAdj
    ioclass := overlayName rule.ioclass base.ioclass
    sched := overlayName rule.sched base.sched
    cgroup := overlayName rule.cgroup base.cgroup
    cpuset := overlayName rule.cpuset base.cpuset }

/-! ## Reporting a rule -/

def jsonOfI32 (value : Option Int32) : Value :=
  match value with
  | none => .null
  | some held => .number (.ofI32 held)

def jsonOfU32 (value : Option UInt32) : Value :=
  match value with
  | none => .null
  | some held => .number (.ofU32 held)

def jsonOfName (name : Option String) : Value :=
  match name with
  | none => .null
  | some text => .string text

/-- `if_declared` and `json_of_name`. -/
def declaredName (table : NameTable) (name : NameAttribute) : Option Value :=
  if name.isAbsent then none else some (jsonOfName (name.asStr table))

def insertDeclared (object : Members) (declared : List (String × Option Value)) : Members :=
  declared.foldl (fun held entry =>
    match entry.2 with
    | some value => insertMember entry.1 value held
    | none => held) object

def toJson (table : NameTable) (rule : Rule) (name : String) : Value :=
  let named := insertMember "name" (.string name) []
  let typed := match rule.typeName.asStr table with
    | some typeName => insertMember "type" (.string typeName) named
    | none => named
  let attributes := insertDeclared typed [
    ("nice", rule.nice.map jsonOfI32),
    ("latency_nice", rule.latencyNice.map jsonOfI32),
    ("ioclass", declaredName table rule.ioclass),
    ("ionice", rule.ionice.map jsonOfI32),
    ("sched", declaredName table rule.sched),
    ("rtprio", rule.rtprio.map jsonOfU32),
    ("oom_score_adj", rule.oomScoreAdj.map jsonOfI32),
    ("cgroup", declaredName table rule.cgroup),
    ("cpuset", declaredName table rule.cpuset)]
  .object (rule.extras.foldl (fun held extra => insertMember extra.1 extra.2 held) attributes)

/-! ## Accessors -/

structure Accessors where
  nice : Option Int32
  ionice : Option Int32
  oomScoreAdj : Option Int32
  rtprio : Option UInt32
  effectiveLatencyNice : Option Int32
  ioclass : Option String
  sched : Option String
  cgroup : Option String
  cpuset : Option String
deriving DecidableEq, Repr

/-- `numeric_accessor!`, `name_accessor!`, `rtprio` and `effective_latency_nice`. -/
def accessors (table : NameTable) (rule : Rule) : Accessors where
  nice := rule.nice.join
  ionice := rule.ionice.join
  oomScoreAdj := rule.oomScoreAdj.join
  rtprio := rule.rtprio.join
  effectiveLatencyNice := rule.latencyNice.join.or rule.nice.join
  ioclass := rule.ioclass.asStr table
  sched := rule.sched.asStr table
  cgroup := rule.cgroup.asStr table
  cpuset := rule.cpuset.asStr table

end Rule

/-! ## Stable programs over the name table -/

/-- The table grows, and a second run in any later table answers the same and
leaves that table alone. -/
def Stable {α : Type} (program : StateM NameTable α) : Prop :=
  ∀ table, NameTable.Grows table (program table).2 ∧
    ∀ later, NameTable.Grows (program table).2 later →
      program later = ((program table).1, later)

theorem stable_pure {α : Type} (value : α) : Stable (pure value : StateM NameTable α) :=
  fun table => ⟨NameTable.Grows.refl table, fun _ _ => rfl⟩

theorem stable_bind {α β : Type} {first : StateM NameTable α} {next : α → StateM NameTable β}
    (left : Stable first) (right : ∀ value, Stable (next value)) : Stable (first >>= next) := by
  intro table
  obtain ⟨firstGrows, firstAgain⟩ := left table
  obtain ⟨nextGrows, nextAgain⟩ := right (first table).1 (first table).2
  refine ⟨firstGrows.trans nextGrows, fun later grows => ?_⟩
  calc (first >>= next) later
      = next (first later).1 (first later).2 := rfl
    _ = next (first table).1 later := by rw [firstAgain later (nextGrows.trans grows)]
    _ = ((next (first table).1 (first table).2).1, later) := nextAgain later grows

theorem stable_intern (name : String) : Stable (NameTable.intern name) :=
  fun table => ⟨NameTable.intern_grows name table, fun _ grows => NameTable.intern_stable grows⟩

namespace Rule

theorem stable_string (value : Value) (key : String) : Stable (string value key) := by
  unfold string
  split
  · exact stable_pure _
  · exact stable_bind (stable_intern _) fun _ => stable_pure _
  · exact stable_pure _

theorem stable_typeNameOf (value : Value) : Stable (typeNameOf value) := by
  unfold typeNameOf
  split
  · exact stable_pure _
  · exact stable_bind (stable_intern _) fun _ => stable_pure _

theorem stable_fromJson (value : Value) : Stable (fromJson value) :=
  stable_bind (stable_typeNameOf value) fun _ =>
    stable_bind (stable_string value "ioclass") fun _ =>
      stable_bind (stable_string value "sched") fun _ =>
        stable_bind (stable_string value "cgroup") fun _ =>
          stable_bind (stable_string value "cpuset") fun _ => stable_pure _

end Rule

/-! ## Rules with their names spelled out -/

structure RuleView where
  typeName : Option String
  nice : Attribute Int32
  latencyNice : Attribute Int32
  ioclass : Attribute String
  ionice : Attribute Int32
  sched : Attribute String
  rtprio : Attribute UInt32
  oomScoreAdj : Attribute Int32
  cgroup : Attribute String
  cpuset : Attribute String
  extras : Members

/-- The three states of a name attribute, with the name spelled out. -/
def NameAttribute.view (table : NameTable) (name : NameAttribute) : Attribute String :=
  if name.isAbsent then none else some (name.asStr table)

/-- What a rule means in a table. -/
def Rule.view (table : NameTable) (rule : Rule) : RuleView where
  typeName := rule.typeName.asStr table
  nice := rule.nice
  latencyNice := rule.latencyNice
  ioclass := rule.ioclass.view table
  ionice := rule.ionice
  sched := rule.sched.view table
  rtprio := rule.rtprio
  oomScoreAdj := rule.oomScoreAdj
  cgroup := rule.cgroup.view table
  cpuset := rule.cpuset.view table
  extras := rule.extras

namespace RuleView

def text (value : Value) (key : String) : Attribute String := (value.get key).map Value.asStr

def ofJson (value : Value) : RuleView where
  typeName := value.getStr "type"
  nice := Rule.number value "nice"
  latencyNice := Rule.number value "latency_nice"
  ioclass := text value "ioclass"
  ionice := Rule.number value "ionice"
  sched := text value "sched"
  rtprio := (value.get "rtprio").map Rule.u32Of
  oomScoreAdj := Rule.number value "oom_score_adj"
  cgroup := text value "cgroup"
  cpuset := text value "cpuset"
  extras := Rule.extrasOf value

def inherit (view base : RuleView) : RuleView :=
  { view with
    nice := Rule.overlayValue view.nice base.nice
    latencyNice := Rule.overlayValue view.latencyNice base.latencyNice
    ionice := Rule.overlayValue view.ionice base.ionice
    rtprio := Rule.overlayValue view.rtprio base.rtprio
    oomScoreAdj := Rule.overlayValue view.oomScoreAdj base.oomScoreAdj
    ioclass := Rule.overlayValue view.ioclass base.ioclass
    sched := Rule.overlayValue view.sched base.sched
    cgroup := Rule.overlayValue view.cgroup base.cgroup
    cpuset := Rule.overlayValue view.cpuset base.cpuset }

def accessors (view : RuleView) : Rule.Accessors where
  nice := view.nice.join
  ionice := view.ionice.join
  oomScoreAdj := view.oomScoreAdj.join
  rtprio := view.rtprio.join
  effectiveLatencyNice := view.latencyNice.join.or view.nice.join
  ioclass := view.ioclass.join
  sched := view.sched.join
  cgroup := view.cgroup.join
  cpuset := view.cpuset.join

def toJson (view : RuleView) (name : String) : Value :=
  let named := insertMember "name" (.string name) []
  let typed := match view.typeName with
    | some typeName => insertMember "type" (.string typeName) named
    | none => named
  let attributes := Rule.insertDeclared typed [
    ("nice", view.nice.map Rule.jsonOfI32),
    ("latency_nice", view.latencyNice.map Rule.jsonOfI32),
    ("ioclass", view.ioclass.map Rule.jsonOfName),
    ("ionice", view.ionice.map Rule.jsonOfI32),
    ("sched", view.sched.map Rule.jsonOfName),
    ("rtprio", view.rtprio.map Rule.jsonOfU32),
    ("oom_score_adj", view.oomScoreAdj.map Rule.jsonOfI32),
    ("cgroup", view.cgroup.map Rule.jsonOfName),
    ("cpuset", view.cpuset.map Rule.jsonOfName)]
  .object (view.extras.foldl (fun held extra => insertMember extra.1 extra.2 held) attributes)

end RuleView

namespace NameAttribute

theorem asStr_eq_join_view (table : NameTable) (name : NameAttribute) :
    name.asStr table = (name.view table).join := by
  unfold view
  by_cases absent : name.isAbsent = true
  · have isZero : name.raw = 0 := by simpa [isAbsent] using absent
    simp [absent, asStr, isZero]
  · simp [absent]

theorem view_eq_none_iff (table : NameTable) (name : NameAttribute) :
    (name.view table).isNone = name.isAbsent := by
  unfold view
  by_cases absent : name.isAbsent = true <;> simp [absent]

theorem view_overlayName (table : NameTable) (own base : NameAttribute) :
    (Rule.overlayName own base).view table =
      Rule.overlayValue (own.view table) (base.view table) := by
  unfold Rule.overlayName Rule.overlayValue
  rw [view_eq_none_iff]
  split <;> rfl

theorem declaredName_eq_view (table : NameTable) (name : NameAttribute) :
    Rule.declaredName table name = (name.view table).map Rule.jsonOfName := by
  unfold Rule.declaredName view
  split <;> rfl

/-- The attribute of an interned name means the name, while the table is not full. -/
theorem view_intern {name : String} {table later : NameTable}
    (grows : NameTable.Grows (intern name table).2 later) (notFull : later.NotFull) :
    (intern name table).1.view later = some (some name) := by
  obtain ⟨position, index, listed⟩ := NameTable.get_intern grows notFull
  have answer : (intern name table).1 = ⟨2 + position⟩ := congrArg NameAttribute.mk index
  have isValue : (2 + position) = position + 1 + 1 := by omega
  rw [answer, isValue]
  simpa [view, isAbsent, asStr, nameFirstValue] using listed

end NameAttribute

theorem TypeNameId.asStr_intern {name : String} {table later : NameTable}
    (grows : NameTable.Grows (TypeNameId.intern name table).2 later) (notFull : later.NotFull) :
    (TypeNameId.intern name table).1.asStr later = some name := by
  obtain ⟨position, index, listed⟩ := NameTable.get_intern grows notFull
  have answer : (TypeNameId.intern name table).1 = ⟨position + 1⟩ := by
    have shifted : (TypeNameId.intern name table).1 = ⟨(NameTable.intern name table).1 - 1⟩ := rfl
    rw [shifted, index, nameFirstValue]
    congr 1
    omega
  rw [answer]
  exact listed

namespace Rule

theorem view_string {value : Value} {key : String} {table later : NameTable}
    (grows : NameTable.Grows (string value key table).2 later) (notFull : later.NotFull) :
    (string value key table).1.view later = RuleView.text value key := by
  unfold string at grows ⊢
  unfold RuleView.text
  cases held : value.get key with
  | none => rfl
  | some member =>
      cases member with
      | string text =>
          simp only [held] at grows
          exact NameAttribute.view_intern grows notFull
      | _ => rfl

theorem asStr_typeNameOf {value : Value} {table later : NameTable}
    (grows : NameTable.Grows (typeNameOf value table).2 later) (notFull : later.NotFull) :
    (typeNameOf value table).1.asStr later = value.getStr "type" := by
  unfold typeNameOf at grows ⊢
  cases named : value.getStr "type" with
  | none => rfl
  | some name =>
      simp only [named] at grows
      exact TypeNameId.asStr_intern grows notFull

def nameKeys : List String := ["ioclass", "sched", "cgroup", "cpuset"]

/-- Read again in any later table, each of the five names is found where it was, and
that table stays as it is. -/
theorem fromJson_reads {value : Value} {table later : NameTable}
    (grows : NameTable.Grows (fromJson value table).2 later) :
    (typeNameOf value later).2 = later ∧
      (∀ key ∈ nameKeys, (string value key later).2 = later) ∧
      (fromJson value table).1.typeName = (typeNameOf value later).1 ∧
      (fromJson value table).1.ioclass = (string value "ioclass" later).1 ∧
      (fromJson value table).1.sched = (string value "sched" later).1 ∧
      (fromJson value table).1.cgroup = (string value "cgroup" later).1 ∧
      (fromJson value table).1.cpuset = (string value "cpuset" later).1 := by
  -- The table after each of the names, in the order they are read.
  let typed := (typeNameOf value table).2
  let classed := (string value "ioclass" typed).2
  let scheduled := (string value "sched" classed).2
  let grouped := (string value "cgroup" scheduled).2
  have fromGrouped : NameTable.Grows grouped later :=
    (stable_string value "cpuset" grouped).1.trans grows
  have fromScheduled : NameTable.Grows scheduled later :=
    (stable_string value "cgroup" scheduled).1.trans fromGrouped
  have fromClassed : NameTable.Grows classed later :=
    (stable_string value "sched" classed).1.trans fromScheduled
  have fromTyped : NameTable.Grows typed later :=
    (stable_string value "ioclass" typed).1.trans fromClassed
  have typeName := (stable_typeNameOf value table).2 later fromTyped
  have ioclass := (stable_string value "ioclass" typed).2 later fromClassed
  have sched := (stable_string value "sched" classed).2 later fromScheduled
  have cgroup := (stable_string value "cgroup" scheduled).2 later fromGrouped
  have cpuset := (stable_string value "cpuset" grouped).2 later grows
  rw [typeName, ioclass, sched, cgroup, cpuset]
  refine ⟨rfl, ?_, rfl, rfl, rfl, rfl, rfl⟩
  intro key member
  simp only [nameKeys, List.mem_cons, List.not_mem_nil, or_false] at member
  rcases member with rfl | rfl | rfl | rfl
  · rw [ioclass]
  · rw [sched]
  · rw [cgroup]
  · rw [cpuset]

/-- While the table is not full, a rule read from JSON means what the JSON says. -/
theorem view_fromJson {value : Value} {table later : NameTable}
    (grows : NameTable.Grows (fromJson value table).2 later) (notFull : later.NotFull) :
    (fromJson value table).1.view later = RuleView.ofJson value := by
  obtain ⟨typeKept, namesKept, typeName, ioclass, sched, cgroup, cpuset⟩ := fromJson_reads grows
  have nameView : ∀ key ∈ nameKeys,
      (string value key later).1.view later = RuleView.text value key := by
    intro key member
    refine view_string ?_ notFull
    rw [namesKept key member]
    exact NameTable.Grows.refl later
  have typeView : (typeNameOf value later).1.asStr later = value.getStr "type" := by
    refine asStr_typeNameOf ?_ notFull
    rw [typeKept]
    exact NameTable.Grows.refl later
  unfold view RuleView.ofJson
  rw [typeName, ioclass, sched, cgroup, cpuset, typeView, nameView "ioclass" (by simp [nameKeys]),
    nameView "sched" (by simp [nameKeys]), nameView "cgroup" (by simp [nameKeys]),
    nameView "cpuset" (by simp [nameKeys])]
  rfl

theorem view_inherit (table : NameTable) (rule base : Rule) :
    (rule.inherit base).view table = (rule.view table).inherit (base.view table) := by
  simp [inherit, view, RuleView.inherit, NameAttribute.view_overlayName]

theorem accessors_eq_view (table : NameTable) (rule : Rule) :
    rule.accessors table = (rule.view table).accessors := by
  simp [accessors, view, RuleView.accessors, NameAttribute.asStr_eq_join_view]

theorem toJson_eq_view (table : NameTable) (rule : Rule) (name : String) :
    rule.toJson table name = (rule.view table).toJson name := by
  simp [toJson, view, RuleView.toJson, NameAttribute.declaredName_eq_view]

end Rule

end AnanicyRs.Core
