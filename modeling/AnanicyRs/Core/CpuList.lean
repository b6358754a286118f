import Mathlib.Data.List.Forall2
import AnanicyRs.Core.CpuSet

/-!
Contract: CPU lists as texts, and the sets they stand for.

`ListsCpus` is the grammar of the lists in its own terms: tokens between commas, one
trailing comma allowed, each token a CPU or a range of CPUs below the bound.
`parse_eq_some_iff` says that `CpuSet::parse` accepts exactly this grammar and answers
with the union of the ranges; `ranges_toText` that the printer writes the maximal runs of
the set, which the grammar reads back.

Owns nothing of how a set becomes an affinity mask.
-/

set_option autoImplicit false

namespace AnanicyRs.Core.CpuSet

open AnanicyRs.Lib AnanicyRs.Lib.NumberRanges

/-! ## A set by its CPUs -/

theorem hasCpu_iff (set : CpuSet) (cpu : Nat) :
    set.hasCpu cpu = true ↔ set.cores[cpu]? = some true := by
  rw [hasCpu, Bool.and_eq_true, decide_eq_true_iff, List.getD_eq_getElem?_getD, ← set.sized]
  by_cases inside : cpu < set.cores.length
  · simp [inside]
  · simp [inside]

theorem lt_of_hasCpu {set : CpuSet} {cpu : Nat} (has : set.hasCpu cpu = true) :
    cpu < set.maxCores := by
  rw [hasCpu, Bool.and_eq_true, decide_eq_true_iff] at has
  exact has.1

theorem ext_hasCpu {left right : CpuSet} (sameBound : left.maxCores = right.maxCores)
    (sameCpus : ∀ cpu, left.hasCpu cpu = true ↔ right.hasCpu cpu = true) : left = right := by
  have sameLength : left.cores.length = right.cores.length := by
    rw [left.sized, right.sized, sameBound]
  have sameCores : left.cores = right.cores := by
    apply List.ext_getElem sameLength
    intro cpu inLeft inRight
    have same := sameCpus cpu
    rw [hasCpu_iff, hasCpu_iff, List.getElem?_eq_getElem inLeft, List.getElem?_eq_getElem inRight,
      Option.some.injEq, Option.some.injEq] at same
    exact Bool.eq_iff_iff.mpr same
  cases left
  cases right
  congr

theorem isEmpty_eq_false_iff (set : CpuSet) :
    set.isEmpty = false ↔ ∃ cpu, set.hasCpu cpu = true := by
  rw [isEmpty, Bool.not_eq_false', List.any_eq_true]
  constructor
  · rintro ⟨flag, member, isSet⟩
    obtain ⟨cpu, found⟩ := List.mem_iff_getElem?.mp member
    refine ⟨cpu, (set.hasCpu_iff cpu).mpr ?_⟩
    rw [found]
    exact congrArg some isSet
  · rintro ⟨cpu, has⟩
    exact ⟨true, List.mem_of_getElem? ((set.hasCpu_iff cpu).mp has), rfl⟩

theorem hasCpu_new (maxCores cpu : Nat) : (new maxCores).hasCpu cpu = false := by
  rw [← Bool.not_eq_true, hasCpu_iff]
  simp [new, List.getElem?_replicate]

@[simp] theorem maxCores_setCpu (set : CpuSet) (cpu : Nat) :
    (set.setCpu cpu).maxCores = set.maxCores := by
  rw [setCpu]
  split <;> rfl

theorem hasCpu_setCpu (set : CpuSet) (cpu other : Nat) :
    (set.setCpu cpu).hasCpu other = true ↔
      set.hasCpu other = true ∨ (cpu = other ∧ other < set.maxCores) := by
  rw [hasCpu_iff, hasCpu_iff, setCpu]
  split
  next inside =>
    rw [List.getElem?_set, set.sized]
    by_cases same : cpu = other
    · subst same
      simp [inside]
    · simp [same]
  next outside =>
    constructor
    · exact .inl
    · rintro (has | ⟨rfl, inside⟩)
      · exact has
      · exact absurd inside outside

theorem maxCores_setCpus (cpus : List Nat) :
    ∀ set : CpuSet, (cpus.foldl setCpu set).maxCores = set.maxCores := by
  induction cpus with
  | nil => exact fun _ => rfl
  | cons cpu rest inductionHypothesis =>
      intro set
      rw [List.foldl_cons, inductionHypothesis, maxCores_setCpu]

theorem hasCpu_setCpus (cpus : List Nat) (other : Nat) :
    ∀ set : CpuSet, (cpus.foldl setCpu set).hasCpu other = true ↔
      set.hasCpu other = true ∨ (other ∈ cpus ∧ other < set.maxCores) := by
  induction cpus with
  | nil => simp
  | cons cpu rest inductionHypothesis =>
      intro set
      rw [List.foldl_cons, inductionHypothesis, hasCpu_setCpu, maxCores_setCpu, List.mem_cons]
      grind

@[simp] theorem maxCores_setRange (set : CpuSet) (start stop : Nat) :
    (set.setRange start stop).maxCores = set.maxCores :=
  maxCores_setCpus _ set

theorem hasCpu_setRange (set : CpuSet) (start stop cpu : Nat) :
    (set.setRange start stop).hasCpu cpu = true ↔
      set.hasCpu cpu = true ∨ ((start ≤ cpu ∧ cpu ≤ stop) ∧ cpu < set.maxCores) := by
  have inRange : cpu ∈ List.range' start (stop + 1 - start) ↔ start ≤ cpu ∧ cpu ≤ stop := by
    rw [List.mem_range'_1]
    omega
  rw [setRange, hasCpu_setCpus, inRange]

theorem setRange_self (set : CpuSet) (cpu : Nat) : set.setRange cpu cpu = set.setCpu cpu := by
  rw [setRange, Nat.add_sub_cancel_left]
  rfl

/-- The ranges are added one after another. -/
def setRanges (set : CpuSet) (ranges : List (Nat × Nat)) : CpuSet :=
  ranges.foldl (fun set range => set.setRange range.1 range.2) set

theorem maxCores_setRanges (ranges : List (Nat × Nat)) :
    ∀ set : CpuSet, (set.setRanges ranges).maxCores = set.maxCores := by
  induction ranges with
  | nil => exact fun _ => rfl
  | cons range rest inductionHypothesis =>
      intro set
      exact (inductionHypothesis (set.setRange range.1 range.2)).trans (maxCores_setRange set _ _)

theorem hasCpu_setRanges (ranges : List (Nat × Nat)) (cpu : Nat) :
    ∀ set : CpuSet, (set.setRanges ranges).hasCpu cpu = true ↔
      set.hasCpu cpu = true ∨ (Covers ranges cpu ∧ cpu < set.maxCores) := by
  induction ranges with
  | nil => simp [setRanges, Covers]
  | cons range rest inductionHypothesis =>
      intro set
      have first := inductionHypothesis (set.setRange range.1 range.2)
      rw [maxCores_setRange, hasCpu_setRange] at first
      rw [covers_cons]
      exact first.trans (by grind)

/-! ## The grammar -/

/-- A CPU or a range of CPUs below the bound. -/
structure ListsRange (maxCores : Nat) (token : List Char) (range : Nat × Nat) : Prop where
  spells : Spells (Text.trimChars token) range.1 range.2
  ordered : range.1 ≤ range.2
  below : range.2 < maxCores

/-- Tokens between commas, and at most one comma after the last of them. -/
def ListsCpus (maxCores : Nat) (text : List Char) (ranges : List (Nat × Nat)) : Prop :=
  ∃ tokens, tokens ≠ [] ∧
    (text = [','].intercalate tokens ∨ text = [','].intercalate tokens ++ [',']) ∧
    List.Forall₂ (ListsRange maxCores) tokens ranges

theorem ListsRange.notComma {maxCores : Nat} {token : List Char} {range : Nat × Nat}
    (lists : ListsRange maxCores token range) : ',' ∉ token := by
  obtain ⟨front, back, parts, frontBlank, backBlank⟩ := Text.exists_trimChars token
  have inside := lists.spells.notMem (c := ',') (by decide) (by decide) (by decide)
  rw [parts]
  simp only [List.mem_append, not_or]
  refine ⟨⟨fun member => ?_, inside⟩, fun member => ?_⟩
  · exact absurd (frontBlank ',' member) (by decide)
  · exact absurd (backBlank ',' member) (by decide)

theorem ListsRange.trim_ne_nil {maxCores : Nat} {token : List Char} {range : Nat × Nat}
    (lists : ListsRange maxCores token range) : ¬ (Text.trimChars token).isEmpty = true := by
  rw [List.isEmpty_iff]
  exact lists.spells.ne_nil

theorem exists_of_mem_forall₂ {α β : Type} {R : α → β → Prop} {left : List α} {right : List β}
    (related : List.Forall₂ R left right) {a : α} (member : a ∈ left) : ∃ b ∈ right, R a b := by
  induction related with
  | nil => exact absurd member List.not_mem_nil
  | cons first _ inductionHypothesis =>
      rcases List.mem_cons.mp member with rfl | inRest
      · exact ⟨_, List.mem_cons_self, first⟩
      · obtain ⟨b, inRight, isRelated⟩ := inductionHypothesis inRest
        exact ⟨b, List.mem_cons_of_mem _ inRight, isRelated⟩

/-! ## The token loop -/

theorem addToken_eq_some_iff (maxCores : Nat) (token : List Char) (set result : CpuSet) :
    addToken maxCores (Text.trimChars token) set = some result ↔
      ∃ range, ListsRange maxCores token range ∧ result = set.setRange range.1 range.2 := by
  have asRange : addToken maxCores (Text.trimChars token) set =
      (readRange (Text.trimChars token)).bind fun range =>
        if range.2 < range.1 ∨ maxCores ≤ range.2 then none
        else some (set.setRange range.1 range.2) := by
    rw [addToken, readRange]
    cases Text.splitOnceChars '-' (Text.trimChars token) with
    | none =>
        cases Text.parseU32Chars (Text.trimChars token) with
        | none => rfl
        | some cpu => simp [setRange_self]
    | some parts =>
        obtain ⟨startStr, endStr⟩ := parts
        dsimp only
        cases Text.parseU32Chars startStr with
        | none => rfl
        | some start =>
            cases Text.parseU32Chars endStr with
            | none => rfl
            | some stop => rfl
  rw [asRange, Option.bind_eq_some_iff]
  constructor
  · rintro ⟨range, read, answer⟩
    split at answer
    next => exact absurd answer (by simp)
    next accepted =>
      refine ⟨range, ⟨(readRange_eq_some_iff _ _ _).mp read, by omega, by omega⟩, ?_⟩
      exact (Option.some.inj answer).symm
  · rintro ⟨range, lists, rfl⟩
    refine ⟨range, (readRange_eq_some_iff _ _ _).mpr lists.spells, if_neg ?_⟩
    have ordered := lists.ordered
    have below := lists.below
    omega

/-- The loop takes every token, or every token but a blank one in the last place. -/
theorem addTokens_eq_some_iff (maxCores : Nat) (tokens : List (List Char)) :
    ∀ set result : CpuSet, addTokens maxCores tokens set = some result ↔
      ∃ listed ranges,
        (tokens = listed ∨ ∃ last, tokens = listed ++ [last] ∧ Text.trimChars last = []) ∧
        List.Forall₂ (ListsRange maxCores) listed ranges ∧ result = set.setRanges ranges := by
  induction tokens with
  | nil =>
      intro set result
      rw [addTokens]
      constructor
      · intro answer
        exact ⟨[], [], .inl rfl, .nil, (Option.some.inj answer).symm⟩
      · rintro ⟨listed, ranges, rfl | ⟨last, parts, _⟩, taken, rfl⟩
        · cases taken
          rfl
        · simp at parts
  | cons token rest inductionHypothesis =>
      intro set result
      rw [addTokens]
      by_cases blank : (Text.trimChars token).isEmpty = true
      · -- A blank token is in the last place, and nothing is taken from it.
        rw [if_pos blank]
        constructor
        · intro answer
          split at answer
          next isLast =>
            rw [List.isEmpty_iff.mp isLast]
            exact ⟨[], [], .inr ⟨token, rfl, List.isEmpty_iff.mp blank⟩, .nil,
              (Option.some.inj answer).symm⟩
          next => exact absurd answer (by simp)
        · rintro ⟨listed, ranges, parts, taken, rfl⟩
          cases taken with
          | nil =>
              rcases parts with parts | ⟨last, parts, _⟩
              · simp at parts
              · obtain ⟨_, rfl⟩ := List.cons.inj parts
                rfl
          | cons lists _ =>
              rcases parts with parts | ⟨last, parts, _⟩
              · rw [(List.cons.inj parts).1] at blank
                exact absurd blank lists.trim_ne_nil
              · rw [(List.cons.inj parts).1] at blank
                exact absurd blank lists.trim_ne_nil
      · rw [if_neg blank, Option.bind_eq_some_iff]
        constructor
        · rintro ⟨middle, added, others⟩
          obtain ⟨range, lists, rfl⟩ := (addToken_eq_some_iff _ _ _ _).mp added
          obtain ⟨listed, ranges, parts, taken, rfl⟩ := (inductionHypothesis _ _).mp others
          refine ⟨token :: listed, range :: ranges, ?_, .cons lists taken, rfl⟩
          rcases parts with rfl | ⟨last, rfl, isBlank⟩
          · exact .inl rfl
          · exact .inr ⟨last, rfl, isBlank⟩
        · rintro ⟨listed, ranges, parts, taken, rfl⟩
          cases taken with
          | nil =>
              rcases parts with parts | ⟨last, parts, isBlank⟩
              · simp at parts
              · rw [← (List.cons.inj parts).1, ← List.isEmpty_iff] at isBlank
                exact absurd isBlank blank
          | @cons first range listed ranges lists taken =>
              have same : token = first ∧ (rest = listed ∨
                  ∃ last, rest = listed ++ [last] ∧ Text.trimChars last = []) := by
                rcases parts with parts | ⟨last, parts, isBlank⟩
                · exact ⟨(List.cons.inj parts).1, .inl (List.cons.inj parts).2⟩
                · exact ⟨(List.cons.inj parts).1, .inr ⟨last, (List.cons.inj parts).2, isBlank⟩⟩
              obtain ⟨rfl, restParts⟩ := same
              exact ⟨set.setRange range.1 range.2,
                (addToken_eq_some_iff _ _ _ _).mpr ⟨range, lists, rfl⟩,
                (inductionHypothesis _ _).mpr ⟨listed, ranges, restParts, taken, rfl⟩⟩

/-! ## The parser -/

theorem intercalate_concat (sep last : List Char) (tokens : List (List Char))
    (nonempty : tokens ≠ []) :
    sep.intercalate (tokens ++ [last]) = sep.intercalate tokens ++ sep ++ last := by
  induction tokens with
  | nil => exact absurd rfl nonempty
  | cons token rest inductionHypothesis =>
      cases rest with
      | nil => simp
      | cons next others =>
          have tail := inductionHypothesis (by simp)
          rw [List.cons_append] at tail
          rw [List.cons_append, List.cons_append, List.intercalate_cons_cons, tail,
            List.intercalate_cons_cons]
          simp only [List.append_assoc]

/-- The tokens a trimmed text is cut into, against the grammar. -/
theorem splitOn_iff_listsCpus {maxCores : Nat} {s : List Char} {ranges : List (Nat × Nat)}
    (nonempty : Text.trimChars s ≠ []) :
    (∃ listed, ((Text.trimChars s).splitOn ',' = listed ∨
        ∃ last, (Text.trimChars s).splitOn ',' = listed ++ [last] ∧ Text.trimChars last = []) ∧
      List.Forall₂ (ListsRange maxCores) listed ranges) ↔
      ListsCpus maxCores (Text.trimChars s) ranges := by
  constructor
  · rintro ⟨listed, parts, taken⟩
    have joined : [','].intercalate ((Text.trimChars s).splitOn ',') = Text.trimChars s :=
      List.intercalate_splitOn ','
    rcases parts with parts | ⟨last, parts, isBlank⟩
    · rw [parts] at joined
      refine ⟨listed, ?_, .inl joined.symm, taken⟩
      rw [← parts]
      exact List.splitOn_ne_nil ',' _
    · rw [parts] at joined
      -- The text does not end in a blank, so the blank token is empty.
      have isEmpty : last = [] := by
        cases ending : last.getLast? with
        | none => exact List.getLast?_eq_none_iff.mp ending
        | some c =>
            have endsBlank := Text.blank_of_trimChars_eq_nil isBlank c (List.mem_of_getLast? ending)
            have endsText : (Text.trimChars s).getLast? = some c := by
              rw [← joined]
              cases listed with
              | nil => simpa using ending
              | cons first others =>
                  rw [intercalate_concat _ _ _ (by simp), List.getLast?_append, ending]
                  rfl
            rw [Text.getLast?_trimChars endsText] at endsBlank
            exact absurd endsBlank (by decide)
      subst isEmpty
      have some : listed ≠ [] := by
        rintro rfl
        exact nonempty joined.symm
      rw [intercalate_concat _ _ _ some, List.append_nil] at joined
      exact ⟨listed, some, .inr joined.symm, taken⟩
  · rintro ⟨tokens, some, text, taken⟩
    have noComma : ∀ token ∈ tokens, ',' ∉ token := by
      intro token member
      obtain ⟨range, _, lists⟩ := exists_of_mem_forall₂ taken member
      exact lists.notComma
    refine ⟨tokens, ?_, taken⟩
    rcases text with text | text
    · left
      rw [text, List.splitOn_intercalate ',' noComma some]
    · right
      refine ⟨[], ?_, rfl⟩
      have asLast := intercalate_concat [','] [] tokens some
      rw [List.append_nil] at asLast
      rw [text, ← asLast]
      apply List.splitOn_intercalate
      · intro token member
        rcases List.mem_append.mp member with listed | isLast
        · exact noComma token listed
        · rw [List.mem_singleton.mp isLast]
          exact List.not_mem_nil
      · simp

theorem ListsCpus.ne_nil {maxCores : Nat} {text : List Char} {ranges : List (Nat × Nat)}
    (lists : ListsCpus maxCores text ranges) : text ≠ [] := by
  obtain ⟨tokens, some, joined, taken⟩ := lists
  rcases joined with rfl | rfl
  · cases taken with
    | nil => exact absurd rfl some
    | @cons token range others ranges first rest =>
        have solid : token ≠ [] := by
          rintro rfl
          exact first.trim_ne_nil rfl
        cases others with
        | nil => simpa using solid
        | cons next more =>
            rw [List.intercalate_cons_of_ne_nil (by simp)]
            simp [solid]
  · simp

theorem ListsCpus.covers {maxCores : Nat} {text : List Char} {ranges : List (Nat × Nat)}
    (lists : ListsCpus maxCores text ranges) : ∃ cpu, Covers ranges cpu := by
  obtain ⟨tokens, some, _, taken⟩ := lists
  cases taken with
  | nil => exact absurd rfl some
  | @cons token range _ _ first _ =>
      exact ⟨range.1, range, List.mem_cons_self, Nat.le_refl _, first.ordered⟩

theorem parse_eq_some_iff (s : String) (maxCores : Nat) (set : CpuSet) :
    parse s maxCores = some set ↔
      ∃ ranges, ListsCpus maxCores (Text.trimChars s.toList) ranges ∧
        set = (new maxCores).setRanges ranges := by
  rw [parse]
  by_cases empty : (Text.trimChars s.toList).isEmpty = true
  · rw [if_pos empty]
    constructor
    · intro answer
      exact absurd answer (by simp)
    · rintro ⟨ranges, lists, _⟩
      exact absurd (List.isEmpty_iff.mp empty) lists.ne_nil
  · rw [if_neg empty, addTokens_eq_some_iff]
    rw [List.isEmpty_iff] at empty
    constructor
    · rintro ⟨listed, ranges, parts, taken, result⟩
      exact ⟨ranges, (splitOn_iff_listsCpus empty).mp ⟨listed, parts, taken⟩, result⟩
    · rintro ⟨ranges, lists, result⟩
      obtain ⟨listed, parts, taken⟩ := (splitOn_iff_listsCpus empty).mpr lists
      exact ⟨listed, ranges, parts, taken, result⟩

/-- Every CPU of the list is below the bound, so the set is the union of its ranges. -/
theorem hasCpu_of_listsCpus {maxCores : Nat} {text : List Char} {ranges : List (Nat × Nat)}
    (lists : ListsCpus maxCores text ranges) (cpu : Nat) :
    ((new maxCores).setRanges ranges).hasCpu cpu = true ↔ Covers ranges cpu := by
  obtain ⟨tokens, _, _, taken⟩ := lists
  rw [hasCpu_setRanges, hasCpu_new]
  simp only [Bool.false_eq_true, false_or, and_iff_left_iff_imp]
  rintro ⟨range, member, _, atMost⟩
  obtain ⟨token, _, listed⟩ := exists_of_mem_forall₂ taken.flip member
  exact Nat.lt_of_le_of_lt atMost listed.below

/-- One number is a list of one CPU. -/
theorem parse_number {s : String} {maxCores cpu : Nat}
    (literal : Text.parseU32Chars s.toList = some cpu) (below : cpu < maxCores) :
    parse s maxCores = some ((new maxCores).setRanges [(cpu, cpu)]) := by
  have spells : Spells s.toList cpu cpu := .number literal
  refine (parse_eq_some_iff _ _ _).mpr ⟨[(cpu, cpu)], ?_, rfl⟩
  rw [Text.trimChars_solid spells.solid]
  refine ⟨[s.toList], by simp, .inl (by simp), .cons ⟨?_, Nat.le_refl _, below⟩ .nil⟩
  rw [Text.trimChars_solid spells.solid]
  exact spells

theorem hasCpu_setRanges_single (maxCores cpu other : Nat) (below : cpu < maxCores) :
    ((new maxCores).setRanges [(cpu, cpu)]).hasCpu other = true ↔ other = cpu := by
  rw [hasCpu_setRanges, hasCpu_new]
  simp only [Covers, List.mem_singleton, exists_eq_left, Bool.false_eq_true, false_or]
  change _ ∧ other < maxCores ↔ _
  omega

/-! ## The printer -/

/-- The printer's fold writes the runs of the flags it reads, after what it has written. -/
theorem ranges_foldl_step (flags : List Bool) :
    ∀ (i : Nat) (printer : Printer),
      let final := (flags.zipIdx i).foldl Printer.step printer
      (if final.inRange then
          final.ranges ++ [rangeText final.rangeStart (i + flags.length - 1)]
        else final.ranges) =
        printer.ranges ++
          (runs (if printer.inRange then some printer.rangeStart else none) i flags).map
            fun range => rangeText range.1 range.2 := by
  induction flags with
  | nil =>
      intro i printer
      cases isOpen : printer.inRange with
      | false => simp [isOpen, runs]
      | true => simp [isOpen, runs]
  | cons active rest inductionHypothesis =>
      intro i printer
      have size : i + (active :: rest).length - 1 = i + 1 + rest.length - 1 := by
        rw [List.length_cons]
        omega
      have tail := inductionHypothesis (i + 1) (printer.step (active, i))
      dsimp only at tail ⊢
      rw [size, List.zipIdx_cons, List.foldl_cons, tail]
      cases isOpen : printer.inRange with
      | false =>
          cases active with
          | false => simp [Printer.step, isOpen, runs]
          | true => simp [Printer.step, isOpen, runs]
      | true =>
          cases active with
          | false => simp [Printer.step, isOpen, runs]
          | true => simp [Printer.step, isOpen, runs]

/-- The maximal runs of CPUs in the set. -/
def ranges (set : CpuSet) : List (Nat × Nat) := runs none 0 set.cores

theorem toText_eq (set : CpuSet) :
    set.toText = ",".intercalate (set.ranges.map fun range => rangeText range.1 range.2) := by
  have written := ranges_foldl_step set.cores 0 ⟨[], false, 0⟩
  rw [Nat.zero_add, set.sized] at written
  exact congrArg (",".intercalate ·) written

theorem covers_ranges (set : CpuSet) (cpu : Nat) :
    Covers set.ranges cpu ↔ set.hasCpu cpu = true := by
  rw [ranges, covers_runs set.cores none 0 (by simp) cpu, hasCpu_iff]
  simp

theorem ranges_canonical (set : CpuSet) : Canonical set.ranges :=
  runs_canonical set.cores none 0 (by simp)

theorem mem_intercalate {c : Char} {sep : List Char} :
    ∀ {tokens : List (List Char)}, c ∈ sep.intercalate tokens →
      c ∈ sep ∨ ∃ token ∈ tokens, c ∈ token
  | [], member => absurd member List.not_mem_nil
  | [token], member => .inr ⟨token, by simp, by simpa using member⟩
  | token :: next :: others, member => by
      rw [List.intercalate_cons_cons, List.mem_append, List.mem_append] at member
      rcases member with (inToken | inSep) | inRest
      · exact .inr ⟨token, by simp, inToken⟩
      · exact .inl inSep
      · rcases mem_intercalate inRest with inSep | ⟨other, isOther, inOther⟩
        · exact .inl inSep
        · exact .inr ⟨other, List.mem_cons_of_mem _ isOther, inOther⟩

/-- What is printed is a list of the set's ranges. -/
theorem listsCpus_toText {set : CpuSet} (small : ∀ cpu, set.hasCpu cpu = true → cpu < 2 ^ 32)
    (nonempty : set.isEmpty = false) :
    ListsCpus set.maxCores (Text.trimChars set.toText.toList) set.ranges := by
  let tokenOf : Nat × Nat → List Char := fun range => (rangeText range.1 range.2).toList
  have text : set.toText.toList = [','].intercalate (set.ranges.map tokenOf) := by
    rw [toText_eq, String.toList_intercalate, List.map_map]
    rfl
  have lastCpu : ∀ range ∈ set.ranges, set.hasCpu range.2 = true := by
    intro range member
    rw [← covers_ranges]
    exact ⟨range, member, set.ranges_canonical.nonempty range member, Nat.le_refl _⟩
  have spells : ∀ range ∈ set.ranges, Spells (tokenOf range) range.1 range.2 := by
    intro range member
    exact spells_rangeText (set.ranges_canonical.nonempty range member)
      (small range.2 (lastCpu range member))
  have solid : ∀ c ∈ set.toText.toList, Text.isWhitespace c = false := by
    intro c member
    rw [text] at member
    rcases mem_intercalate member with isComma | ⟨token, isToken, inToken⟩
    · rw [List.mem_singleton.mp isComma]
      decide
    · obtain ⟨range, inRanges, rfl⟩ := List.mem_map.mp isToken
      exact (spells range inRanges).solid c inToken
  rw [Text.trimChars_solid solid]
  refine ⟨set.ranges.map tokenOf, ?_, .inl text, ?_⟩
  · obtain ⟨cpu, has⟩ := set.isEmpty_eq_false_iff.mp nonempty
    obtain ⟨range, member, _⟩ := (set.covers_ranges cpu).mpr has
    exact List.ne_nil_of_mem (List.mem_map_of_mem member)
  · rw [List.forall₂_map_left_iff, List.forall₂_same]
    intro range member
    refine ⟨?_, set.ranges_canonical.nonempty range member, lt_of_hasCpu (lastCpu range member)⟩
    rw [Text.trimChars_solid (spells range member).solid]
    exact spells range member

/-! ## Reading and printing -/

theorem parse_toText {set : CpuSet} (small : ∀ cpu, set.hasCpu cpu = true → cpu < 2 ^ 32)
    (nonempty : set.isEmpty = false) : parse set.toText set.maxCores = some set := by
  have lists := listsCpus_toText small nonempty
  refine (parse_eq_some_iff _ _ _).mpr ⟨set.ranges, lists, ?_⟩
  apply ext_hasCpu
  · rw [maxCores_setRanges]
    rfl
  · intro cpu
    rw [hasCpu_of_listsCpus lists, covers_ranges]

/-- `CpuSet::parse` accepts exactly the CPU lists and answers with the union of their
ranges; the printer writes a set as its maximal ranges, which read back as the set. -/
theorem parse_reads_what_toText_prints :
    (∀ (s : String) (maxCores : Nat), (parse s maxCores).isSome ↔
      ∃ ranges, ListsCpus maxCores (Text.trimChars s.toList) ranges) ∧
    (∀ (s : String) (maxCores : Nat) (set : CpuSet) (ranges : List (Nat × Nat)),
      parse s maxCores = some set → ListsCpus maxCores (Text.trimChars s.toList) ranges →
        set.isEmpty = false ∧ set.maxCores = maxCores ∧
          ∀ cpu, set.hasCpu cpu = true ↔ Covers ranges cpu) ∧
    (∀ set : CpuSet, set.maxCores < 2 ^ 32 → set.isEmpty = false →
      parse set.toText set.maxCores = some set ∧
      ∃ ranges : List (Nat × Nat),
        set.toText = ",".intercalate (ranges.map fun range => rangeText range.1 range.2) ∧
        Canonical ranges ∧ (∀ cpu, Covers ranges cpu ↔ set.hasCpu cpu = true) ∧
        ∀ range ∈ ranges, set.hasCpu (range.2 + 1) = false ∧
          ∀ cpu, cpu + 1 = range.1 → set.hasCpu cpu = false) := by
  refine ⟨fun s maxCores => ?_, fun s maxCores set ranges parsed lists => ?_,
    fun set small nonempty => ?_⟩
  · rw [Option.isSome_iff_exists]
    simp only [parse_eq_some_iff]
    constructor
    · intro accepted
      obtain ⟨set, ranges, lists, _⟩ := accepted
      exact ⟨ranges, lists⟩
    · intro listed
      obtain ⟨ranges, lists⟩ := listed
      exact ⟨_, ranges, lists, rfl⟩
  · have answer := (parse_eq_some_iff s maxCores _).mpr ⟨ranges, lists, rfl⟩
    rw [parsed] at answer
    have isUnion := Option.some.inj answer
    have cpus : ∀ cpu, set.hasCpu cpu = true ↔ Covers ranges cpu := by
      intro cpu
      rw [isUnion]
      exact hasCpu_of_listsCpus lists cpu
    refine ⟨?_, ?_, cpus⟩
    · obtain ⟨cpu, covered⟩ := lists.covers
      exact set.isEmpty_eq_false_iff.mpr ⟨cpu, (cpus cpu).mpr covered⟩
    · rw [isUnion, maxCores_setRanges]
      rfl
  · have smallCpus : ∀ cpu, set.hasCpu cpu = true → cpu < 2 ^ 32 :=
      fun cpu has => Nat.lt_trans (lt_of_hasCpu has) small
    refine ⟨parse_toText smallCpus nonempty, set.ranges, set.toText_eq, set.ranges_canonical,
      set.covers_ranges, fun range member => ?_⟩
    have maximal := set.ranges_canonical.maximal member
    simp only [covers_ranges, Bool.not_eq_true] at maximal
    exact maximal

end AnanicyRs.Core.CpuSet
