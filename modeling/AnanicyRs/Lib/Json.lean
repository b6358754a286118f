import Mathlib.Data.String.Basic
import AnanicyRs.Lib.SortedMap

/-!
Contract: JSON values as `serde_json` holds them, and the RFC 7396 merge patch.

An object is a `BTreeMap`: its members are listed by strictly increasing key. A
`Document` carries that fact at every depth, so a parser cannot answer with an
object that has a key twice. Numbers keep the three representations of
`serde_json::Number`; a float is known by its bits only.

Does not own the text syntax of JSON.
-/

set_option autoImplicit false

namespace AnanicyRs.Lib.Json

inductive Number where
  | posInt (value : UInt64)
  | negInt (value : Int64)
  | float (bits : UInt64)
deriving DecidableEq, Repr

def Number.asI64 : Number → Option Int64
  | .posInt value => if value.toNat < 2 ^ 63 then some value.toInt64 else none
  | .negInt value => some value
  | .float _ => none

def Number.asU64 : Number → Option UInt64
  | .posInt value => some value
  | _ => none

/-- What `-0` is read as: the float of that value. -/
def Number.minusZero : Number := .float 0x8000000000000000

/-- The number a JSON integer is held as, if it is not written `-0`: an integer that 64 bits
have no room for becomes a float, and only negative integers are held as signed. -/
def Number.HoldsPlain : Number → Int → Prop
  | .posInt value, v => v = value.toNat
  | .negInt value, v => v = value.toInt ∧ v < 0
  | .float bits, v =>
      (v < -0x8000000000000000 ∨ 0x10000000000000000 ≤ v) ∧ .float bits ≠ minusZero

/-- The numbers that a JSON integer may be held as. -/
def Number.Holds (number : Number) (v : Int) : Prop :=
  number.HoldsPlain v ∨ (v = 0 ∧ number = .minusZero)

def Number.ofI32 (value : Int32) : Number :=
  if value < 0 then .negInt value.toInt64 else .posInt value.toInt64.toUInt64

def Number.ofU32 (value : UInt32) : Number := .posInt value.toUInt64

inductive Value where
  | null
  | bool (value : Bool)
  | number (value : Number)
  | string (value : String)
  | array (items : List Value)
  | object (members : List (String × Value))
deriving Repr

abbrev Members := List (String × Value)

def Value.members : Value → Members
  | .object members => members
  | _ => []

/-- `Value::get` with a string index. -/
def Value.get (value : Value) (key : String) : Option Value := value.members.lookup key

def Value.asStr : Value → Option String
  | .string text => some text
  | _ => none

def Value.getStr (value : Value) (key : String) : Option String := (value.get key).bind Value.asStr

theorem Value.getStr_eq_some_iff {value : Value} {key text : String} :
    value.getStr key = some text ↔ value.get key = some (.string text) := by
  rw [getStr, Option.bind_eq_some_iff]
  constructor
  · intro ⟨member, held, isText⟩
    cases member with
    | string other => rw [held, Option.some.inj isText]
    | _ => exact absurd isText (by simp [asStr])
  · exact fun held => ⟨_, held, rfl⟩

/-! ## Integers -/

theorem Number.toInt_asI64 {number : Number} {v : Int} (holds : number.HoldsPlain v) :
    number.asI64.map Int64.toInt =
      if -0x8000000000000000 ≤ v ∧ v < 0x8000000000000000 then some v else none := by
  cases number with
  | posInt value =>
      have isValue : v = value.toNat := holds
      by_cases small : value.toNat < 2 ^ 63
      · have sameInt : value.toInt64.toInt = value.toNat := by
          have signed : 2 * value.toBitVec.toNat < 2 ^ 64 := by
            change 2 * value.toNat < 2 ^ 64
            omega
          exact BitVec.toInt_eq_toNat_of_lt signed
        rw [Number.asI64, if_pos small, Option.map_some, sameInt, if_pos (by omega), isValue]
      · rw [Number.asI64, if_neg small, if_neg (by omega)]
        rfl
  | negInt value =>
      obtain ⟨isValue, _⟩ := holds
      have lower := value.le_toInt
      have upper := value.toInt_lt
      rw [Number.asI64, Option.map_some, if_pos (by omega), isValue]
  | float bits =>
      have outside : v < -0x8000000000000000 ∨ 0x10000000000000000 ≤ v := holds.1
      rw [Number.asI64, if_neg (by omega)]
      rfl

theorem Number.toNat_asU64 {number : Number} {v : Int} (holds : number.HoldsPlain v) :
    number.asU64.map (fun value => (value.toNat : Int)) =
      if 0 ≤ v ∧ v < 0x10000000000000000 then some v else none := by
  cases number with
  | posInt value =>
      have isValue : v = value.toNat := holds
      have upper := value.toNat_lt
      rw [Number.asU64, Option.map_some, if_pos (by omega), isValue]
  | negInt value =>
      obtain ⟨_, negative⟩ := holds
      rw [Number.asU64, if_neg (by omega)]
      · rfl
      · simp
  | float bits =>
      have outside : v < -0x8000000000000000 ∨ 0x10000000000000000 ≤ v := holds.1
      rw [Number.asU64, if_neg (by omega)]
      · rfl
      · simp

theorem Number.holds_ofI32 (value : Int32) : (ofI32 value).HoldsPlain value.toInt := by
  rw [ofI32]
  by_cases negative : value < 0
  · rw [if_pos negative]
    refine ⟨value.toInt_toInt64.symm, ?_⟩
    exact Int32.lt_iff_toInt_lt.mp negative
  · have nonneg : 0 ≤ value.toInt := by
      have notBelow := (not_congr Int32.lt_iff_toInt_lt).mp negative
      exact Int.not_lt.mp notBelow
    have wide : 0 ≤ value.toInt64 := by
      rw [Int64.le_iff_toInt_le, Int32.toInt_toInt64]
      exact nonneg
    rw [if_neg negative]
    change value.toInt = (value.toInt64.toUInt64.toNat : Int)
    rw [Int64.toNat_toUInt64_of_le wide, Int64.toNatClampNeg, Int32.toInt_toInt64]
    omega

theorem Number.holds_ofU32 (value : UInt32) : (ofU32 value).HoldsPlain value.toNat := by
  change (value.toNat : Int) = (value.toUInt64.toNat : Int)
  rw [UInt32.toNat_toUInt64]

theorem Number.holdsPlain_iff {number : Number} {v : Int} (holds : number.Holds v) :
    number.HoldsPlain v ↔ number ≠ .minusZero := by
  constructor
  · rintro plain rfl
    exact plain.2 rfl
  · exact fun signed => holds.resolve_right fun minus => signed minus.2

/-- An integer that 64 bits have room for is held in one way, but for `-0`. -/
theorem Number.eq_of_holds {left right : Number} {v : Int} (leftHolds : left.HoldsPlain v)
    (rightHolds : right.HoldsPlain v) (lower : -0x8000000000000000 ≤ v) (upper : v < 0x10000000000000000) :
    left = right := by
  cases left with
  | float bits =>
      have outside : v < -0x8000000000000000 ∨ 0x10000000000000000 ≤ v := leftHolds.1
      omega
  | posInt value =>
      have isValue : v = value.toNat := leftHolds
      cases right with
      | float bits =>
          have outside : v < -0x8000000000000000 ∨ 0x10000000000000000 ≤ v := rightHolds.1
          omega
      | posInt other =>
          have isOther : v = other.toNat := rightHolds
          exact congrArg Number.posInt (UInt64.toNat_inj.mp (by omega))
      | negInt other =>
          obtain ⟨_, negative⟩ := rightHolds
          omega
  | negInt value =>
      obtain ⟨isValue, negative⟩ := leftHolds
      cases right with
      | float bits =>
          have outside : v < -0x8000000000000000 ∨ 0x10000000000000000 ≤ v := rightHolds.1
          omega
      | posInt other =>
          have isOther : v = other.toNat := rightHolds
          omega
      | negInt other =>
          obtain ⟨isOther, _⟩ := rightHolds
          exact congrArg Number.negInt (Int64.toInt_inj.mp (isValue.symm.trans isOther))

/-! ## Members -/

/-- `Map::insert`: in key order, replacing a member of the same key. -/
def insertMember (key : String) (value : Value) : Members → Members
  | [] => [(key, value)]
  | (other, held) :: rest =>
      if key < other then (key, value) :: (other, held) :: rest
      else if key = other then (key, value) :: rest
      else (other, held) :: insertMember key value rest

def removeMember (key : String) (members : Members) : Members :=
  members.filter fun member => member.1 ≠ key

@[simp]
theorem lookup_insertMember_self (key : String) (value : Value) (members : Members) :
    (insertMember key value members).lookup key = some value := by
  induction members with
  | nil => simp [insertMember]
  | cons head rest inductionHypothesis =>
      obtain ⟨other, held⟩ := head
      unfold insertMember
      split_ifs with before same
      · simp
      · simp
      · rw [List.lookup_cons, beq_false_of_ne same]
        exact inductionHypothesis

theorem lookup_insertMember_ne {key other : String} (different : other ≠ key) (value : Value)
    (members : Members) : (insertMember key value members).lookup other = members.lookup other := by
  have notKey : (other == key) = false := beq_false_of_ne different
  induction members with
  | nil => simp [insertMember, different]
  | cons head rest inductionHypothesis =>
      obtain ⟨first, held⟩ := head
      unfold insertMember
      split_ifs with before same
      · rw [List.lookup_cons, notKey]
      · subst same
        rw [List.lookup_cons, List.lookup_cons, notKey]
      · rw [List.lookup_cons, List.lookup_cons, inductionHypothesis]

@[simp]
theorem lookup_removeMember_self (key : String) (members : Members) :
    (removeMember key members).lookup key = none := by
  rw [List.lookup_eq_none_iff]
  intro member kept
  have different : member.1 ≠ key := by simpa using (List.mem_filter.mp kept).2
  exact bne_iff_ne.mpr (Ne.symm different)

theorem lookup_removeMember_ne {key other : String} (different : other ≠ key)
    (members : Members) : (removeMember key members).lookup other = members.lookup other := by
  induction members with
  | nil => rfl
  | cons head rest inductionHypothesis =>
      obtain ⟨first, held⟩ := head
      unfold removeMember at inductionHypothesis ⊢
      by_cases removed : first = key
      · subst removed
        rw [List.filter_cons_of_neg (by simp), List.lookup_cons, beq_false_of_ne different]
        exact inductionHypothesis
      · rw [List.filter_cons_of_pos (by simpa using removed), List.lookup_cons, List.lookup_cons,
          inductionHypothesis]

/-! ## Members in key order -/

/-- As a `BTreeMap` lists them. -/
def Ascending (members : Members) : Prop := (members.map Prod.fst).Pairwise (· < ·)

theorem Ascending.nodup {members : Members} (ascending : Ascending members) :
    (members.map Prod.fst).Nodup :=
  ascending.imp fun before => String.ne_of_lt before

theorem ascending_nil : Ascending [] := .nil

/-- Ascending members are known by what they answer for each key. -/
theorem Ascending.ext {left right : Members} (leftSorted : Ascending left)
    (rightSorted : Ascending right) (same : ∀ key, left.lookup key = right.lookup key) :
    left = right := by
  let leftMap : Sorted.SortedMap String Value := ⟨left, leftSorted⟩
  let rightMap : Sorted.SortedMap String Value := ⟨right, rightSorted⟩
  have sameMap : leftMap = rightMap := Sorted.SortedMap.ext_lookup same
  exact congrArg Sorted.SortedMap.entries sameMap

theorem Ascending.eq_iff_lookup {left right : Members} (leftSorted : Ascending left)
    (rightSorted : Ascending right) : left = right ↔ ∀ key, left.lookup key = right.lookup key :=
  ⟨fun same key => congrArg (List.lookup key) same, leftSorted.ext rightSorted⟩

theorem insertMember_eq (key : String) (value : Value) (members : Members) :
    insertMember key value members = Sorted.SortedMap.updateEntries key (fun _ => value) members := by
  induction members with
  | nil => rfl
  | cons head rest inductionHypothesis =>
      rw [insertMember, Sorted.SortedMap.updateEntries, inductionHypothesis]

theorem Ascending.insert {members : Members} (ascending : Ascending members) (key : String)
    (value : Value) : Ascending (insertMember key value members) := by
  rw [Ascending, insertMember_eq]
  exact Sorted.SortedMap.ascending_updateEntries key _ ascending

theorem Ascending.filter {members : Members} (ascending : Ascending members)
    (keep : String × Value → Bool) : Ascending (members.filter keep) :=
  List.Pairwise.sublist (List.filter_sublist.map Prod.fst) ascending

/-- Members that are inserted one after another replace those that were there. -/
theorem lookup_insertMembers (added : Members) (distinct : (added.map Prod.fst).Nodup) (key : String) :
    ∀ members : Members,
      (added.foldl (fun held extra => insertMember extra.1 extra.2 held) members).lookup key =
        (added.lookup key).or (members.lookup key) := by
  induction added with
  | nil => simp
  | cons head rest inductionHypothesis =>
      intro members
      obtain ⟨name, value⟩ := head
      obtain ⟨absent, restDistinct⟩ := List.nodup_cons.mp distinct
      rw [List.foldl_cons, inductionHypothesis restDistinct, List.lookup_cons]
      by_cases same : key = name
      · subst same
        have later : rest.lookup key = none := by
          rw [List.lookup_eq_none_iff]
          intro member inRest
          exact bne_iff_ne.mpr fun isKey => absent (List.mem_map.mpr ⟨member, inRest, isKey.symm⟩)
        rw [later, lookup_insertMember_self, beq_self_eq_true]
        rfl
      · rw [lookup_insertMember_ne same, beq_false_of_ne same]

theorem Ascending.insertMembers {members : Members} (ascending : Ascending members)
    (added : Members) :
    Ascending (added.foldl (fun held extra => insertMember extra.1 extra.2 held) members) := by
  induction added generalizing members with
  | nil => exact ascending
  | cons head rest inductionHypothesis => exact inductionHypothesis (ascending.insert head.1 head.2)

theorem lookup_filter (keep : String → Bool) (members : Members) (key : String) :
    (members.filter fun member => keep member.1).lookup key =
      if keep key then members.lookup key else none := by
  induction members with
  | nil => simp
  | cons head rest inductionHypothesis =>
      obtain ⟨name, value⟩ := head
      by_cases kept : keep name = true
      · rw [List.filter_cons, if_pos kept, List.lookup_cons, List.lookup_cons, inductionHypothesis]
        by_cases same : key = name
        · simp [same, kept]
        · rw [beq_false_of_ne same]
      · rw [List.filter_cons, if_neg kept, inductionHypothesis, List.lookup_cons]
        by_cases same : key = name
        · simp [same, kept]
        · rw [beq_false_of_ne same]

/-! ## Documents -/

mutual

/-- Every object in the value lists its keys in strictly increasing order. -/
def Value.wellFormed : Value → Bool
  | .array items => itemsWellFormed items
  | .object members =>
      decide ((members.map Prod.fst).Pairwise (· < ·)) && membersWellFormed members
  | _ => true

def itemsWellFormed : List Value → Bool
  | [] => true
  | item :: rest => item.wellFormed && itemsWellFormed rest

def membersWellFormed : List (String × Value) → Bool
  | [] => true
  | (_, value) :: rest => value.wellFormed && membersWellFormed rest

end

theorem ascending_of_wellFormed {members : Members}
    (wellFormed : (Value.object members).wellFormed = true) : Ascending members := by
  rw [Value.wellFormed, Bool.and_eq_true, decide_eq_true_eq] at wellFormed
  exact wellFormed.1

theorem membersWellFormed_iff (members : Members) :
    membersWellFormed members = true ↔ ∀ member ∈ members, member.2.wellFormed = true := by
  induction members with
  | nil => simp [membersWellFormed]
  | cons head rest inductionHypothesis =>
      rw [membersWellFormed, Bool.and_eq_true, inductionHypothesis, List.forall_mem_cons]

/-- The members of a well-formed value, of whatever kind it is. -/
theorem Value.wellFormed_members {value : Value} (wellFormed : value.wellFormed = true) :
    Ascending value.members ∧ ∀ member ∈ value.members, member.2.wellFormed = true := by
  cases value with
  | object members =>
      have parts := wellFormed
      rw [Value.wellFormed, Bool.and_eq_true] at parts
      exact ⟨ascending_of_wellFormed wellFormed, (membersWellFormed_iff members).mp parts.2⟩
  | _ => exact ⟨ascending_nil, by simp [Value.members]⟩

/-- A value a parser can answer with. -/
structure Document where
  value : Value
  wellFormed : value.wellFormed = true

theorem Document.keys_nodup (document : Document) :
    (document.value.members.map Prod.fst).Nodup := by
  exact (Value.wellFormed_members document.wellFormed).1.nodup

/-! ## Merge patch -/

mutual

/-- RFC 7396: an object patch is applied member by member, any other patch
replaces the target. -/
def mergePatch (target : Value) : Value → Value
  | .object patch => .object (mergeMembers target.members patch)
  | replacement => replacement

/-- One member after the other: `null` removes, anything else is merged in. -/
def mergeMembers (target : Members) : List (String × Value) → Members
  | [] => target
  | (key, .null) :: rest => mergeMembers (removeMember key target) rest
  | (key, patch) :: rest =>
      mergeMembers (insertMember key (mergePatch ((target.lookup key).getD .null) patch) target) rest

end

/-- What a patch member leaves under its key. -/
def patched (held : Option Value) : Option Value → Option Value
  | none => held
  | some .null => none
  | some patch => some (mergePatch (held.getD .null) patch)

theorem mergeMembers_cons (target : Members) (key : String) (patch : Value) (rest : Members) :
    ∃ updated, mergeMembers target ((key, patch) :: rest) = mergeMembers updated rest ∧
      updated.lookup key = patched (target.lookup key) (some patch) ∧
      ∀ other, other ≠ key → updated.lookup other = target.lookup other := by
  by_cases isNull : patch = .null
  · subst isNull
    refine ⟨removeMember key target, by rw [mergeMembers], ?_, ?_⟩
    · rw [lookup_removeMember_self, patched]
    · exact fun other different => lookup_removeMember_ne different target
  · refine ⟨_, by rw [mergeMembers]; exact isNull, ?_, ?_⟩
    · rw [lookup_insertMember_self, patched]
      exact isNull
    · exact fun other different => lookup_insertMember_ne different _ target

/-- A key of a merge is decided by the patch member of that key alone. -/
theorem lookup_mergeMembers {patch : Members} (distinct : (patch.map Prod.fst).Nodup)
    (target : Members) (key : String) :
    (mergeMembers target patch).lookup key = patched (target.lookup key) (patch.lookup key) := by
  induction patch generalizing target with
  | nil => rfl
  | cons head rest inductionHypothesis =>
      obtain ⟨name, value⟩ := head
      obtain ⟨absent, restDistinct⟩ := List.nodup_cons.mp distinct
      obtain ⟨updated, step, atName, elsewhere⟩ := mergeMembers_cons target name value rest
      rw [step, inductionHypothesis restDistinct, List.lookup_cons]
      by_cases same : key = name
      · subst same
        have later : rest.lookup key = none := by
          rw [List.lookup_eq_none_iff]
          intro member inRest
          refine bne_iff_ne.mpr fun isKey => absent ?_
          exact List.mem_map.mpr ⟨member, inRest, isKey.symm⟩
        rw [later, beq_self_eq_true, atName]
        rfl
      · rw [beq_false_of_ne same, elsewhere key same]

/-- A member of a merge onto any target, when the patch is an object. -/
theorem get_mergePatch (patch : Document) (isObject : ∃ members, patch.value = .object members)
    (target : Value) (key : String) :
    (mergePatch target patch.value).get key = patched (target.get key) (patch.value.get key) := by
  have distinct := patch.keys_nodup
  obtain ⟨members, eq⟩ := isObject
  rw [eq] at distinct ⊢
  rw [mergePatch]
  exact lookup_mergeMembers distinct target.members key

theorem Ascending.merge {target : Members} (ascending : Ascending target) (patch : Members) :
    Ascending (mergeMembers target patch) := by
  induction patch generalizing target with
  | nil => exact ascending
  | cons head rest inductionHypothesis =>
      obtain ⟨name, value⟩ := head
      by_cases isNull : value = .null
      · subst isNull
        rw [mergeMembers]
        exact inductionHypothesis (ascending.filter _)
      · rw [mergeMembers]
        · exact inductionHypothesis (ascending.insert _ _)
        · exact isNull

/-! ## Patches that say everything -/

mutual

/-- Merging the value onto an object with the members `held` leaves the value: it has
every key that the object has, at every depth where both are objects, and no `null`. -/
def Value.Covers (held : Members) : Value → Prop
  | .object members =>
      (∀ key ∈ held.map Prod.fst, key ∈ members.map Prod.fst) ∧ CoversMembers held members
  | _ => True

def CoversMembers (held : Members) : List (String × Value) → Prop
  | [] => True
  | (key, value) :: rest =>
      value ≠ .null ∧ value.Covers ((held.lookup key).getD .null).members ∧ CoversMembers held rest

end

theorem lookup_isSome_iff (members : Members) (key : String) :
    (members.lookup key).isSome = true ↔ key ∈ members.map Prod.fst := by
  rw [List.lookup_isSome_iff, List.mem_map]
  constructor
  · rintro ⟨member, inMembers, isKey⟩
    exact ⟨member, inMembers, (beq_iff_eq.mp isKey).symm⟩
  · rintro ⟨member, inMembers, rfl⟩
    exact ⟨member, inMembers, beq_self_eq_true member.1⟩

theorem mem_of_lookup {members : Members} {key : String} {value : Value}
    (found : members.lookup key = some value) : (key, value) ∈ members := by
  obtain ⟨before, after, rfl, _⟩ := List.lookup_eq_some_iff.mp found
  simp

theorem lookup_of_mem {members : Members} (distinct : (members.map Prod.fst).Nodup) {key : String}
    {value : Value} (member : (key, value) ∈ members) : members.lookup key = some value := by
  induction members with
  | nil => exact absurd member List.not_mem_nil
  | cons head rest inductionHypothesis =>
      obtain ⟨absent, restDistinct⟩ := List.nodup_cons.mp distinct
      rcases List.mem_cons.mp member with rfl | inRest
      · rw [List.lookup_cons_self]
      · have different : key ≠ head.1 := by
          rintro rfl
          exact absent (List.mem_map.mpr ⟨_, inRest, rfl⟩)
        rw [List.lookup_cons, beq_false_of_ne different]
        exact inductionHypothesis restDistinct inRest

theorem mem_insertMember {key : String} {value : Value} {members : Members}
    {member : String × Value} (inserted : member ∈ insertMember key value members) :
    member = (key, value) ∨ member ∈ members := by
  induction members with
  | nil => exact .inl (List.mem_singleton.mp inserted)
  | cons head rest inductionHypothesis =>
      unfold insertMember at inserted
      split_ifs at inserted with before same
      · exact List.mem_cons.mp inserted
      · exact (List.mem_cons.mp inserted).imp_right (List.mem_cons_of_mem head)
      · rcases List.mem_cons.mp inserted with isHead | later
        · rw [isHead]
          exact .inr List.mem_cons_self
        · exact (inductionHypothesis later).imp_right (List.mem_cons_of_mem head)

/-- A member that is taken out and put back is where it was. -/
theorem insertMember_removeMember {members : Members} (ascending : Ascending members)
    {key : String} {value : Value} (found : members.lookup key = some value) :
    insertMember key value (removeMember key members) = members := by
  have removed : Ascending (removeMember key members) := ascending.filter _
  apply (removed.insert key value).ext ascending
  intro other
  by_cases same : other = key
  · rw [same, lookup_insertMember_self, found]
  · rw [lookup_insertMember_ne same, lookup_removeMember_ne same]

/-- Members that come in any order are listed in order once they are inserted. -/
theorem insertMembers_of_perm {added sorted : Members} (ascending : Ascending sorted)
    (perm : added.Perm sorted) :
    added.foldl (fun held extra => insertMember extra.1 extra.2 held) [] = sorted := by
  have distinct : (added.map Prod.fst).Nodup := (perm.map Prod.fst).nodup_iff.mpr ascending.nodup
  apply (ascending_nil.insertMembers added).ext ascending
  intro key
  rw [lookup_insertMembers added distinct key [], List.lookup_nil, Option.or_none]
  apply Option.ext
  intro value
  constructor
  · intro found
    exact lookup_of_mem ascending.nodup (perm.mem_iff.mp (mem_of_lookup found))
  · intro found
    exact lookup_of_mem distinct (perm.mem_iff.mpr (mem_of_lookup found))

/-- An object is left alone if no key is removed or added and every member is left alone. -/
theorem mergePatch_object_eq_iff {target : Value} {members : Members}
    (targetSorted : Ascending target.members) (sorted : Ascending members) :
    mergePatch target (.object members) = .object members ↔
      (∀ key ∈ target.members.map Prod.fst, key ∈ members.map Prod.fst) ∧
        ∀ member ∈ members, member.2 ≠ .null ∧
          mergePatch ((target.members.lookup member.1).getD .null) member.2 = member.2 := by
  have merged : mergePatch target (.object members) = .object members ↔
      ∀ key, patched (target.members.lookup key) (members.lookup key) = members.lookup key := by
    rw [mergePatch, Value.object.injEq, (targetSorted.merge members).eq_iff_lookup sorted]
    simp only [lookup_mergeMembers sorted.nodup]
  rw [merged]
  constructor
  · intro same
    refine ⟨fun key held => ?_, fun member inMembers => ?_⟩
    · rw [← lookup_isSome_iff] at held ⊢
      have atKey := same key
      cases found : members.lookup key with
      | none =>
          rw [found, patched] at atKey
          rw [atKey] at held
          exact held
      | some value => rfl
    · have atKey := same member.1
      rw [lookup_of_mem sorted.nodup inMembers] at atKey
      by_cases isNull : member.2 = .null
      · rw [isNull, patched] at atKey
        exact absurd atKey (by simp)
      · rw [patched] at atKey
        · exact ⟨isNull, Option.some.inj atKey⟩
        · exact isNull
  · rintro ⟨keys, kept⟩ key
    cases found : members.lookup key with
    | none =>
        have absent : key ∉ target.members.map Prod.fst := by
          intro held
          have inMembers := keys key held
          rw [← lookup_isSome_iff, found] at inMembers
          exact absurd inMembers (by simp)
        rw [patched, ← Option.not_isSome_iff_eq_none, lookup_isSome_iff]
        exact absent
    | some value =>
        obtain ⟨notNull, same⟩ := kept (key, value) (mem_of_lookup found)
        rw [patched, same]
        exact notNull

mutual

/-- A merge leaves a value alone exactly if the value covers the target. -/
theorem mergePatch_eq_self_iff (target : Value) (targetFormed : target.wellFormed = true) :
    ∀ value : Value, value.wellFormed = true →
      (mergePatch target value = value ↔ value.Covers target.members)
  | .object members, wellFormed => by
      have targetMembers := Value.wellFormed_members targetFormed
      have valueMembers : Ascending members ∧ ∀ member ∈ members, member.2.wellFormed = true :=
        Value.wellFormed_members wellFormed
      rw [mergePatch_object_eq_iff targetMembers.1 valueMembers.1, Value.Covers,
        coversMembers_iff target.members targetMembers.2 members valueMembers.2]
  | .null, _ => by simp [mergePatch, Value.Covers]
  | .bool _, _ => by simp [mergePatch, Value.Covers]
  | .number _, _ => by simp [mergePatch, Value.Covers]
  | .string _, _ => by simp [mergePatch, Value.Covers]
  | .array _, _ => by simp [mergePatch, Value.Covers]

theorem coversMembers_iff (held : Members)
    (heldFormed : ∀ member ∈ held, member.2.wellFormed = true) :
    ∀ members : List (String × Value), (∀ member ∈ members, member.2.wellFormed = true) →
      ((∀ member ∈ members, member.2 ≠ .null ∧
        mergePatch ((held.lookup member.1).getD .null) member.2 = member.2) ↔
        CoversMembers held members)
  | [], _ => by simp [CoversMembers]
  | (key, value) :: rest, wellFormed => by
      obtain ⟨valueFormed, restFormed⟩ := List.forall_mem_cons.mp wellFormed
      have underFormed : ((held.lookup key).getD .null).wellFormed = true := by
        cases found : held.lookup key with
        | none => rfl
        | some under => exact heldFormed (key, under) (mem_of_lookup found)
      rw [List.forall_mem_cons, CoversMembers,
        mergePatch_eq_self_iff ((held.lookup key).getD .null) underFormed value valueFormed,
        coversMembers_iff held heldFormed rest restFormed, and_assoc]

end

end AnanicyRs.Lib.Json
