import AnanicyRs.Core.Inheritance

/-!
Contract: the integers of a loaded rule, against the integers that were written.

An attribute is read from the rule's own object or, where that does not mention it, from
the object of its type (`writtenIn`). The reader narrows what `serde_json` answers to 32
bits with a cast. `Kept` says what the documentation of the fields asks for: the integer
that was written, or nothing, or the nearest integer the attribute can hold. The main
theorem says for which integers the cast keeps that.

Owns nothing of the names in a rule.
-/

set_option autoImplicit false

namespace AnanicyRs.Core

open AnanicyRs.Lib AnanicyRs.Lib.Json

/-! ## What was written, and what was kept -/

/-- The document of the type that the inheritance pass overlays a rule on. -/
def typeDocument (names : NameTable) (types : AList fun _ : String => Document) (rule : Rule) :
    Option Document :=
  (rule.typeName.asStr names).bind types.lookup

/-- The member a rule has for a key: its own, or else that of its type. -/
def writtenIn (value : Value) (type : Option Document) (key : String) : Option Value :=
  (value.get key).or (type.bind fun document => document.value.get key)

/-- The integer itself where it lies within the bounds; nothing, or the bound on its side,
where not. -/
structure Kept (lower upper v : Int) (answer : Option Int) : Prop where
  inside : lower ≤ v → v ≤ upper → answer = some v
  below : v < lower → answer = none ∨ answer = some lower
  above : upper < v → answer = none ∨ answer = some upper

def i32Min : Int := -0x80000000

def i32Max : Int := 0x7fffffff

def u32Max : Int := 0xffffffff

/-- The attributes that are read as `i32`, but for `latency_nice`, which falls back to
another. -/
inductive I32Attribute where
  | nice
  | ionice
  | oomScoreAdj

def I32Attribute.key : I32Attribute → String
  | .nice => "nice"
  | .ionice => "ionice"
  | .oomScoreAdj => "oom_score_adj"

def I32Attribute.access : I32Attribute → Rule.Accessors → Option Int32
  | .nice => Rule.Accessors.nice
  | .ionice => Rule.Accessors.ionice
  | .oomScoreAdj => Rule.Accessors.oomScoreAdj

/-! ## The casts -/

/-- The integers that a cast of an `i64` to `i32` keeps: those in range, those that are
not an `i64`, and those that wrap onto the bound on their side. -/
def KeptAsI32 (v : Int) : Prop :=
  (-0x80000000 ≤ v ∧ v ≤ 0x7fffffff) ∨ v < -0x8000000000000000 ∨ 0x8000000000000000 ≤ v ∨
    (0x7fffffff < v ∧ v % 0x100000000 = 0x7fffffff) ∨
    (v < -0x80000000 ∧ v % 0x100000000 = 0x80000000)

/-- The integers that a cast of a `u64` to `u32` keeps. -/
def KeptAsU32 (v : Int) : Prop :=
  v ≤ 0xffffffff ∨ 0x10000000000000000 ≤ v ∨ v % 0x100000000 = 0xffffffff

theorem toInt_i32Of {number : Number} {v : Int} (holds : number.HoldsPlain v) :
    (Rule.i32Of (.number number)).map Int32.toInt =
      if -0x8000000000000000 ≤ v ∧ v < 0x8000000000000000 then some (v.bmod 0x100000000)
      else none := by
  have read := Number.toInt_asI64 holds
  have narrowed : (Rule.i32Of (.number number)).map Int32.toInt =
      (number.asI64.map Int64.toInt).map fun value => value.bmod 0x100000000 := by
    rw [Rule.i32Of]
    cases number.asI64 with
    | none => rfl
    | some value => exact congrArg some value.toInt_toInt32
  rw [narrowed, read]
  split <;> rfl

theorem toNat_u32Of {number : Number} {v : Int} (holds : number.HoldsPlain v) :
    (Rule.u32Of (.number number)).map (fun value => (value.toNat : Int)) =
      if 0 ≤ v ∧ v < 0x10000000000000000 then some (v % 0x100000000) else none := by
  have read := Number.toNat_asU64 holds
  have narrowed : (Rule.u32Of (.number number)).map (fun value => (value.toNat : Int)) =
      (number.asU64.map fun value => (value.toNat : Int)).map fun value => value % 0x100000000 := by
    rw [Rule.u32Of]
    cases number.asU64 with
    | none => rfl
    | some value =>
        have cut : (value.toUInt32.toNat : Int) = (value.toNat : Int) % 0x100000000 := by
          rw [UInt64.toNat_toUInt32]
          rfl
        exact congrArg some cut
  rw [narrowed, read]
  split <;> rfl

theorem kept_none_iff (lower upper v : Int) :
    Kept lower upper v none ↔ v < lower ∨ upper < v := by
  constructor
  · intro kept
    by_contra within
    have answer := kept.inside (by omega) (by omega)
    simp at answer
  · intro outside
    exact ⟨fun _ _ => by omega, fun _ => .inl rfl, fun _ => .inl rfl⟩

theorem kept_some_iff (lower upper v w : Int) (ordered : lower ≤ upper) :
    Kept lower upper v (some w) ↔
      (lower ≤ v ∧ v ≤ upper ∧ w = v) ∨ (v < lower ∧ w = lower) ∨ (upper < v ∧ w = upper) := by
  constructor
  · intro kept
    rcases Int.lt_trichotomy v lower with below | same | notBelow
    · have answer := kept.below below
      simp at answer
      omega
    · have answer := kept.inside (by omega) (by omega)
      simp at answer
      omega
    · by_cases above : upper < v
      · have answer := kept.above above
        simp at answer
        omega
      · have answer := kept.inside (by omega) (by omega)
        simp at answer
        omega
  · intro cases
    refine ⟨fun _ _ => ?_, fun _ => .inr ?_, fun _ => .inr ?_⟩
    · rw [Option.some.injEq]
      omega
    · rw [Option.some.injEq]
      omega
    · rw [Option.some.injEq]
      omega

theorem kept_i32_iff {number : Number} {v : Int} (holds : number.HoldsPlain v) :
    Kept i32Min i32Max v ((Rule.i32Of (.number number)).map Int32.toInt) ↔ KeptAsI32 v := by
  rw [toInt_i32Of holds, KeptAsI32, i32Min, i32Max]
  split
  · rw [kept_some_iff _ _ _ _ (by decide), Int.bmod_def]
    split
    · omega
    · omega
  · rw [kept_none_iff]
    omega

theorem kept_u32_iff {number : Number} {v : Int} (holds : number.HoldsPlain v) :
    Kept 0 u32Max v ((Rule.u32Of (.number number)).map fun value => (value.toNat : Int)) ↔
      KeptAsU32 v := by
  rw [toNat_u32Of holds, KeptAsU32, u32Max]
  split
  · rw [kept_some_iff _ _ _ _ (by decide)]
    omega
  · rw [kept_none_iff]
    omega

/-! ## Loaded rules -/

section Loaded

variable (read names : NameTable) (types : AList fun _ : String => Document) (document : Document)

/-- A rule as it is after the inheritance pass: read in one table, and overlaid on its
type in a later one. -/
def loadedRule : Rule := Rules.inheritIn names types (Rule.fromJson document.value read).1

/-- What a rule has to say about a key when its type is taken into account. -/
def written (key : String) : Option Value :=
  writtenIn document.value (typeDocument names types (Rule.fromJson document.value read).1) key

/-- Reading commutes with the overlay. -/
theorem overlay_written {α : Type} (reader : Value → Option α) (type : Option Document)
    (value : Value) (key : String) :
    Rule.overlayValue ((value.get key).map reader)
        (type.bind fun document => (document.value.get key).map reader) =
      (writtenIn value type key).map reader := by
  rw [writtenIn, Rule.overlayValue]
  cases value.get key with
  | some member => rfl
  | none =>
      cases type with
      | none => rfl
      | some document => rfl

/-- Every integer attribute of a loaded rule is read from the member that was written. -/
theorem loadedRule_fields :
    (loadedRule read names types document).nice =
        (written read names types document "nice").map Rule.i32Of ∧
      (loadedRule read names types document).latencyNice =
        (written read names types document "latency_nice").map Rule.i32Of ∧
      (loadedRule read names types document).ionice =
        (written read names types document "ionice").map Rule.i32Of ∧
      (loadedRule read names types document).rtprio =
        (written read names types document "rtprio").map Rule.u32Of ∧
      (loadedRule read names types document).oomScoreAdj =
        (written read names types document "oom_score_adj").map Rule.i32Of := by
  have own : ∀ {α : Type} (held : Attribute α), Rule.overlayValue held none = held := by
    intro α held
    cases held with
    | none => rfl
    | some value => rfl
  unfold written
  simp only [← overlay_written]
  unfold loadedRule Rules.inheritIn typeDocument
  cases (Rule.fromJson document.value read).1.typeName.asStr names with
  | none =>
      simp only [Option.bind_none, own]
      exact ⟨rfl, rfl, rfl, rfl, rfl⟩
  | some typeName =>
      cases found : types.lookup typeName with
      | none =>
          simp only [Option.bind_some, found, Option.bind_none, own]
          exact ⟨rfl, rfl, rfl, rfl, rfl⟩
      | some type =>
          simp only [Option.bind_some, found]
          exact ⟨rfl, rfl, rfl, rfl, rfl⟩

/-- The store holds such rules: the one of a name is loaded from the last document that
defines it. -/
theorem ruleOf_inherited_eq_loadedRule {ρ κ : Type} (crates : Crates ρ κ) (names : NameTable)
    (order : IterationOrder) (lines : List String) (name : String) (document : Document)
    (few : ((Rules.programLines crates lines).map Prod.fst).dedup.length < Rules.indexModulus)
    (isLast : LastWins.lastOf (Rules.programLines crates lines) name = some document) :
    let store := Rules.loadLines crates lines (Rules.new crates names)
    Rules.ruleOf (Rules.inherited crates names order lines) name =
      some (loadedRule store.names (Rules.inheritedNames order store) store.types document) := by
  intro store
  obtain ⟨rule, stored, isRead⟩ :=
    (Rules.represents_loadLines crates names lines few).read name document isLast
  rw [Rules.inherited, Rules.ruleOf_precomputeInheritance, stored, loadedRule, isRead]
  rfl

theorem access_of_written {field : I32Attribute} {number : Number}
    (isWritten : written read names types document field.key = some (.number number)) :
    field.access ((loadedRule read names types document).accessors names) =
      Rule.i32Of (.number number) := by
  obtain ⟨nice, _, ionice, _, oomScoreAdj⟩ := loadedRule_fields read names types document
  cases field with
  | nice =>
      have member : written read names types document "nice" = some (.number number) := isWritten
      change (loadedRule read names types document).nice.join = _
      rw [nice, member]
      rfl
  | ionice =>
      have member : written read names types document "ionice" = some (.number number) := isWritten
      change (loadedRule read names types document).ionice.join = _
      rw [ionice, member]
      rfl
  | oomScoreAdj =>
      have member : written read names types document "oom_score_adj" = some (.number number) :=
        isWritten
      change (loadedRule read names types document).oomScoreAdj.join = _
      rw [oomScoreAdj, member]
      rfl

theorem rtprio_of_written {number : Number}
    (isWritten : written read names types document "rtprio" = some (.number number)) :
    ((loadedRule read names types document).accessors names).rtprio =
      Rule.u32Of (.number number) := by
  obtain ⟨_, _, _, rtprio, _⟩ := loadedRule_fields read names types document
  change (loadedRule read names types document).rtprio.join = _
  rw [rtprio, isWritten]
  rfl

theorem effectiveLatencyNice_of_written {number : Number}
    (isWritten : written read names types document "latency_nice" = some (.number number)) :
    ((loadedRule read names types document).accessors names).effectiveLatencyNice =
      (Rule.i32Of (.number number)).or
        ((written read names types document "nice").bind Rule.i32Of) := by
  obtain ⟨nice, latencyNice, _, _, _⟩ := loadedRule_fields read names types document
  change (loadedRule read names types document).latencyNice.join.or
    (loadedRule read names types document).nice.join = _
  rw [latencyNice, nice, isWritten]
  cases written read names types document "nice" with
  | none => rfl
  | some member => rfl

/-- An integer in front of a fallback: the fallback counts where the integer is no `i64`. -/
theorem kept_i32_or_iff {number : Number} {v : Int} (holds : number.HoldsPlain v)
    (fallback : Option Int32) :
    Kept i32Min i32Max v (((Rule.i32Of (.number number)).or fallback).map Int32.toInt) ↔
      if -0x8000000000000000 ≤ v ∧ v < 0x8000000000000000 then KeptAsI32 v
      else fallback = none ∨ fallback.map Int32.toInt = some (if v < 0 then i32Min else i32Max) := by
  have inRange := toInt_i32Of holds
  split
  next small =>
    rw [if_pos small] at inRange
    obtain ⟨value, own, _⟩ := Option.map_eq_some_iff.mp inRange
    rw [own, Option.some_or, ← own]
    exact kept_i32_iff holds
  next large =>
    rw [if_neg large, Option.map_eq_none_iff] at inRange
    rw [inRange, Option.none_or]
    cases fallback with
    | none =>
        refine iff_of_true ((kept_none_iff _ _ _).mpr ?_) (.inl rfl)
        rw [i32Min, i32Max]
        omega
    | some value =>
        rw [Option.map_some, kept_some_iff _ _ _ _ (by decide)]
        simp only [reduceCtorEq, false_or, Option.some.injEq, i32Min, i32Max]
        split
        · omega
        · omega

theorem kept_zero_iff (answer : Option Int32) :
    Kept i32Min i32Max 0 (answer.map Int32.toInt) ↔ answer = some 0 := by
  cases answer with
  | none => exact iff_of_false (by rw [Option.map_none, kept_none_iff]; decide) (by simp)
  | some value =>
      have isZero : value.toInt = 0 ↔ value = 0 := by
        rw [← Int32.toInt_inj]
        rfl
      rw [Option.map_some, kept_some_iff _ _ _ _ (by decide), Option.some.injEq, ← isZero]
      simp only [i32Min, i32Max]
      omega

/-- A `-0` is no `i64` and no `u64` to the reader. -/
theorem i32Of_minusZero : Rule.i32Of (.number .minusZero) = none := rfl

theorem u32Of_minusZero : Rule.u32Of (.number .minusZero) = none := rfl

theorem zero_of_holds {v : Int} (holds : Number.minusZero.Holds v) : v = 0 :=
  (holds.resolve_left fun plain => plain.2 rfl).1

theorem not_kept_none {lower upper : Int} (least : lower ≤ 0) (most : 0 ≤ upper) :
    ¬ Kept lower upper 0 none := by
  rw [kept_none_iff]
  omega

/-- Which integers survive loading: for each attribute, the accessor of the loaded rule
keeps the integer that was written exactly if the cast does and it was not written `-0`. A
`latency_nice` that is no `i64` counts as not said, and the accessor then answers with the
`nice` of the rule. -/
theorem loadedRule_integers_kept_iff :
    let accessors := (loadedRule read names types document).accessors names
    (∀ (field : I32Attribute) (number : Number) (v : Int), number.Holds v →
      written read names types document field.key = some (.number number) →
      (Kept i32Min i32Max v ((field.access accessors).map Int32.toInt) ↔
        number ≠ .minusZero ∧ KeptAsI32 v)) ∧
    (∀ (number : Number) (v : Int), number.Holds v →
      written read names types document "rtprio" = some (.number number) →
      (Kept 0 u32Max v (accessors.rtprio.map fun value => (value.toNat : Int)) ↔
        number ≠ .minusZero ∧ KeptAsU32 v)) ∧
    ∀ (number : Number) (v : Int), number.Holds v →
      written read names types document "latency_nice" = some (.number number) →
      (Kept i32Min i32Max v (accessors.effectiveLatencyNice.map Int32.toInt) ↔
        let nice := (written read names types document "nice").bind Rule.i32Of
        if number = .minusZero then nice = some 0
        else if -0x8000000000000000 ≤ v ∧ v < 0x8000000000000000 then KeptAsI32 v
        else nice = none ∨ nice.map Int32.toInt = some (if v < 0 then i32Min else i32Max)) := by
  intro accessors
  refine ⟨?_, ?_, ?_⟩
  · intro field number v holds isWritten
    rw [access_of_written read names types document isWritten]
    by_cases minus : number = .minusZero
    · subst minus
      rw [zero_of_holds holds, i32Of_minusZero]
      exact iff_of_false (not_kept_none (by decide) (by decide)) fun kept => kept.1 rfl
    · rw [kept_i32_iff ((Number.holdsPlain_iff holds).mpr minus)]
      exact (and_iff_right minus).symm
  · intro number v holds isWritten
    rw [rtprio_of_written read names types document isWritten]
    by_cases minus : number = .minusZero
    · subst minus
      rw [zero_of_holds holds, u32Of_minusZero]
      exact iff_of_false (not_kept_none (by decide) (by decide)) fun kept => kept.1 rfl
    · rw [kept_u32_iff ((Number.holdsPlain_iff holds).mpr minus)]
      exact (and_iff_right minus).symm
  · intro number v holds isWritten
    rw [effectiveLatencyNice_of_written read names types document isWritten]
    dsimp only
    by_cases minus : number = .minusZero
    · subst minus
      rw [zero_of_holds holds, i32Of_minusZero, Option.none_or, if_pos rfl]
      exact kept_zero_iff _
    · rw [if_neg minus]
      exact kept_i32_or_iff ((Number.holdsPlain_iff holds).mpr minus) _

end Loaded

/-- `{"name":"a","nice":4294967301}`. -/
def wrappingProgram : Document :=
  ⟨.object [("name", .string "a"), ("nice", .number (.posInt 4294967301))], by decide⟩

/-- A `nice` of 2³² + 5 is loaded as 5. -/
theorem nice_wraps :
    Number.Holds (.posInt 4294967301) 4294967301 ∧
    written .empty .empty ∅ wrappingProgram "nice" = some (.number (.posInt 4294967301)) ∧
    ((loadedRule .empty .empty ∅ wrappingProgram).accessors .empty).nice = some 5 ∧
    ¬ Kept i32Min i32Max 4294967301 (some 5) := by
  refine ⟨.inl rfl, rfl, by decide, ?_⟩
  rw [kept_some_iff _ _ _ _ (by decide)]
  decide

end AnanicyRs.Core
