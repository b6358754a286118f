import AnanicyRs.Lib.Text

/-!
Contract: lists of numbers and ranges as texts, `0-3,8`.

Owns the reading of one token (`readRange`, which is `Spells` as a function), how the
tokens of a text survive trimming it, and the way back: the maximal runs of a list of
flags (`runs`) and the text of one range. `runs_canonical` says that runs ascend and
leave a gap between each other, and `covers_runs` that they cover exactly the flags that
are set; `Canonical.eq_of_covers` that no other such ranges do.

Does not own what the numbers stand for or which of them are too large.
-/

set_option autoImplicit false

namespace AnanicyRs.Lib.NumberRanges

open AnanicyRs.Lib.Text

/-! ## Tokens -/

/-- `text` is the literal of `first = last`, or two literals with a dash between them. -/
inductive Spells : List Char → Nat → Nat → Prop where
  | number {text : List Char} {n : Nat} (literal : parseU32Chars text = some n) : Spells text n n
  | range {left right : List Char} {first last : Nat} (leftLiteral : parseU32Chars left = some first)
      (rightLiteral : parseU32Chars right = some last) : Spells (left ++ '-' :: right) first last

def readRange (token : List Char) : Option (Nat × Nat) :=
  match splitOnceChars '-' token with
  | some (left, right) =>
      (parseU32Chars left).bind fun first => (parseU32Chars right).map fun last => (first, last)
  | none => (parseU32Chars token).map fun n => (n, n)

theorem notMem_of_literal {text : List Char} {n : Nat} (literal : parseU32Chars text = some n)
    {c : Char} (notPlus : c ≠ '+') (notDigit : ¬ ('0' ≤ c ∧ c ≤ '9')) : c ∉ text := by
  intro member
  rcases mem_of_parseU32Chars literal member with isPlus | isDigit
  · exact notPlus isPlus
  · exact notDigit isDigit

theorem readRange_eq_some_iff (token : List Char) (first last : Nat) :
    readRange token = some (first, last) ↔ Spells token first last := by
  have noDash : ∀ {text : List Char} {n : Nat}, parseU32Chars text = some n → '-' ∉ text :=
    fun literal => notMem_of_literal literal (by decide) (by decide)
  constructor
  · intro read
    rw [readRange] at read
    cases cut : splitOnceChars '-' token with
    | none =>
        rw [cut] at read
        obtain ⟨n, literal, same⟩ := Option.map_eq_some_iff.mp read
        obtain ⟨rfl, rfl⟩ := Prod.mk.inj same
        exact .number literal
    | some parts =>
        rw [cut] at read
        obtain ⟨start, leftLiteral, rest⟩ := Option.bind_eq_some_iff.mp read
        obtain ⟨stop, rightLiteral, same⟩ := Option.map_eq_some_iff.mp rest
        obtain ⟨rfl, rfl⟩ := Prod.mk.inj same
        rw [((splitOnceChars_eq_some_iff token).mp cut).1]
        exact .range leftLiteral rightLiteral
  · intro spells
    cases spells with
    | number literal =>
        have uncut := (splitOnceChars_eq_none_iff token).mpr (noDash literal)
        rw [readRange, uncut]
        simp [literal]
    | @range left right _ _ leftLiteral rightLiteral =>
        have cut : splitOnceChars '-' (left ++ '-' :: right) = some (left, right) :=
          (splitOnceChars_eq_some_iff _).mpr ⟨rfl, noDash leftLiteral⟩
        rw [readRange, cut]
        simp [leftLiteral, rightLiteral]

theorem Spells.notMem {text : List Char} {first last : Nat} (spells : Spells text first last)
    {c : Char} (notPlus : c ≠ '+') (notDash : c ≠ '-') (notDigit : ¬ ('0' ≤ c ∧ c ≤ '9')) :
    c ∉ text := by
  cases spells with
  | number literal => exact notMem_of_literal literal notPlus notDigit
  | range leftLiteral rightLiteral =>
      have notLeft := notMem_of_literal leftLiteral notPlus notDigit
      have notRight := notMem_of_literal rightLiteral notPlus notDigit
      simp [notLeft, notRight, notDash]

theorem Spells.solid {text : List Char} {first last : Nat} (spells : Spells text first last) :
    ∀ c ∈ text, isWhitespace c = false := by
  intro c member
  by_contra blank
  have isBlank : isWhitespace c = true := by
    simpa using blank
  have notDigit : ¬ ('0' ≤ c ∧ c ≤ '9') := fun digit => blank (isWhitespace_of_digit digit)
  refine spells.notMem ?_ ?_ notDigit member
  · rintro rfl
    exact absurd isBlank (by decide)
  · rintro rfl
    exact absurd isBlank (by decide)

theorem Spells.ne_nil {text : List Char} {first last : Nat} (spells : Spells text first last) :
    text ≠ [] := by
  rintro rfl
  generalize empty : ([] : List Char) = text at spells
  cases spells with
  | number literal =>
      subst empty
      exact absurd literal (by simp [parseU32Chars])
  | range => simp at empty

/-- A token spells one range at most. -/
theorem Spells.unique {text : List Char} {first last otherFirst otherLast : Nat}
    (spells : Spells text first last) (others : Spells text otherFirst otherLast) :
    first = otherFirst ∧ last = otherLast := by
  have read := (readRange_eq_some_iff text first last).mpr spells
  rw [(readRange_eq_some_iff text otherFirst otherLast).mpr others] at read
  obtain ⟨rfl, rfl⟩ := Prod.mk.inj (Option.some.inj read)
  exact ⟨rfl, rfl⟩

/-! ## The tokens of a trimmed text -/

section Trim

variable {sep : Char}

theorem splitOn_concat {c : Char} (notSep : c ≠ sep) (text : List Char) :
    ∃ front last, text.splitOn sep = front ++ [last] ∧
      (text ++ [c]).splitOn sep = front ++ [last ++ [c]] := by
  induction text with
  | nil => exact ⟨[], [], rfl, by simp [List.splitOn_cons_eq_if_modifyHead, notSep]⟩
  | cons first rest inductionHypothesis =>
      obtain ⟨front, last, split, splitMore⟩ := inductionHypothesis
      rw [List.cons_append, List.splitOn_cons_eq_if_modifyHead, List.splitOn_cons_eq_if_modifyHead,
        split, splitMore]
      by_cases isSep : first = sep
      · exact ⟨[] :: front, last, by simp [isSep], by simp [isSep]⟩
      · cases front with
        | nil => exact ⟨[], first :: last, by simp [isSep], by simp [isSep]⟩
        | cons token others =>
            exact ⟨(first :: token) :: others, last, by simp [isSep], by simp [isSep]⟩

variable (sepSolid : isWhitespace sep = false)

include sepSolid

theorem trimmedTokens_blank_cons {c : Char} (blank : isWhitespace c = true) (text : List Char) :
    ((c :: text).splitOn sep).map trimChars = (text.splitOn sep).map trimChars := by
  have notSep : c ≠ sep := by
    rintro rfl
    simp [sepSolid] at blank
  rw [List.splitOn_cons_eq_if_modifyHead]
  cases split : text.splitOn sep with
  | nil => exact absurd split (List.splitOn_ne_nil sep text)
  | cons token others => simp [notSep, trimChars_blank_cons blank]

theorem trimmedTokens_concat_blank {c : Char} (blank : isWhitespace c = true) (text : List Char) :
    ((text ++ [c]).splitOn sep).map trimChars = (text.splitOn sep).map trimChars := by
  have notSep : c ≠ sep := by
    rintro rfl
    simp [sepSolid] at blank
  obtain ⟨front, last, split, splitMore⟩ := splitOn_concat notSep text
  rw [split, splitMore]
  simp [trimChars_concat_blank blank]

/-- Trimming a text does not change its trimmed tokens. -/
theorem trimmedTokens_trim (text : List Char) :
    ((trimChars text).splitOn sep).map trimChars = (text.splitOn sep).map trimChars := by
  have leading : ∀ front rest : List Char, (∀ c ∈ front, isWhitespace c = true) →
      ((front ++ rest).splitOn sep).map trimChars = (rest.splitOn sep).map trimChars := by
    intro front rest blanks
    induction front with
    | nil => rfl
    | cons c others inductionHypothesis =>
        rw [List.cons_append, trimmedTokens_blank_cons sepSolid (blanks c (by simp))]
        exact inductionHypothesis fun other member => blanks other (by simp [member])
  have trailing : ∀ back rest : List Char, (∀ c ∈ back, isWhitespace c = true) →
      ((rest ++ back).splitOn sep).map trimChars = (rest.splitOn sep).map trimChars := by
    intro back
    induction back with
    | nil => simp
    | cons c others inductionHypothesis =>
        intro rest blanks
        rw [← List.singleton_append, ← List.append_assoc,
          inductionHypothesis (rest ++ [c]) fun other member => blanks other (by simp [member]),
          trimmedTokens_concat_blank sepSolid (blanks c (by simp))]
  obtain ⟨front, back, parts, frontBlank, backBlank⟩ := exists_trimChars text
  have same := (trailing back (front ++ trimChars text) backBlank).trans
    (leading front (trimChars text) frontBlank)
  rw [← parts] at same
  exact same.symm

end Trim

/-! ## Runs of flags -/

/-- The runs of set flags, each with its first and its last position. The flags start at
position `i`; `opened` is where the run that is under way there began. -/
def runs (opened : Option Nat) (i : Nat) : List Bool → List (Nat × Nat)
  | [] =>
      match opened with
      | some start => [(start, i - 1)]
      | none => []
  | active :: rest =>
      match opened, active with
      | none, true => runs (some i) (i + 1) rest
      | none, false => runs none (i + 1) rest
      | some start, true => runs (some start) (i + 1) rest
      | some start, false => (start, i - 1) :: runs none (i + 1) rest

def Covers (ranges : List (Nat × Nat)) (k : Nat) : Prop :=
  ∃ range ∈ ranges, range.1 ≤ k ∧ k ≤ range.2

/-- Ranges that ascend, are disjoint, and could not be joined to longer ones. -/
structure Canonical (ranges : List (Nat × Nat)) : Prop where
  nonempty : ∀ range ∈ ranges, range.1 ≤ range.2
  apart : ranges.Pairwise fun left right => left.2 + 1 < right.1

theorem covers_cons (range : Nat × Nat) (ranges : List (Nat × Nat)) (k : Nat) :
    Covers (range :: ranges) k ↔ (range.1 ≤ k ∧ k ≤ range.2) ∨ Covers ranges k := by
  simp [Covers]

/-- A flag at or after `i` is the head or a flag of the rest. -/
theorem flag_cons_iff (active : Bool) (rest : List Bool) (i k : Nat) :
    (i ≤ k ∧ (active :: rest)[k - i]? = some true) ↔
      (k = i ∧ active = true) ∨ (i + 1 ≤ k ∧ rest[k - (i + 1)]? = some true) := by
  rcases Nat.lt_trichotomy k i with below | rfl | above
  · constructor
    · intro given
      omega
    · intro given
      omega
  · have notLater : ¬ k + 1 ≤ k := by
      omega
    simp [notLater]
  · have shifted : k - i = (k - (i + 1)) + 1 := by
      omega
    have notHead : k ≠ i := by
      omega
    rw [shifted, List.getElem?_cons_succ]
    simp [notHead, Nat.le_of_lt above, Nat.succ_le_of_lt above]

/-- The runs cover the run under way and the flags that are set. -/
theorem covers_runs (flags : List Bool) :
    ∀ (opened : Option Nat) (i : Nat), (∀ start, opened = some start → start < i) → ∀ k,
      Covers (runs opened i flags) k ↔
        (∃ start, opened = some start ∧ start ≤ k ∧ k < i) ∨
          (i ≤ k ∧ flags[k - i]? = some true) := by
  induction flags with
  | nil =>
      intro opened i before k
      cases opened with
      | none => simp [runs, Covers]
      | some start =>
          have earlier := before start rfl
          simp only [runs, Covers, List.mem_singleton, exists_eq_left, Option.some.injEq,
            exists_eq_left', List.getElem?_nil, reduceCtorEq, and_false, or_false]
          omega
  | cons active rest inductionHypothesis =>
      intro opened i before k
      rw [flag_cons_iff active rest i k]
      cases opened with
      | none =>
          cases active with
          | false =>
              rw [runs, inductionHypothesis none (i + 1) (by simp) k]
              simp
          | true =>
              rw [runs, inductionHypothesis (some i) (i + 1) (by simp) k]
              simp only [Option.some.injEq, exists_eq_left', reduceCtorEq, false_and, exists_false,
                false_or]
              grind
      | some start =>
          have earlier := before start rfl
          cases active with
          | false =>
              rw [runs, covers_cons, inductionHypothesis none (i + 1) (by simp) k]
              simp only [Option.some.injEq, exists_eq_left', reduceCtorEq, false_and, exists_false,
                false_or, Bool.false_eq_true, and_false]
              grind
          | true =>
              rw [runs, inductionHypothesis (some start) (i + 1) (by simp; omega) k]
              simp only [Option.some.injEq, exists_eq_left']
              grind

theorem runs_start (flags : List Bool) :
    ∀ (opened : Option Nat) (i : Nat), (∀ start, opened = some start → start < i) →
      ∀ range ∈ runs opened i flags, opened.getD i ≤ range.1 := by
  induction flags with
  | nil =>
      intro opened i _ range member
      cases opened with
      | none => simp [runs] at member
      | some start =>
          rw [runs, List.mem_singleton] at member
          rw [member]
          exact Nat.le_refl _
  | cons active rest inductionHypothesis =>
      intro opened i before range member
      cases opened with
      | none =>
          cases active with
          | false =>
              have above := inductionHypothesis none (i + 1) (by simp) range member
              simp only [Option.getD_none] at above ⊢
              omega
          | true => exact inductionHypothesis (some i) (i + 1) (by simp) range member
      | some start =>
          have earlier := before start rfl
          cases active with
          | true => exact inductionHypothesis (some start) (i + 1) (by simp; omega) range member
          | false =>
              rw [runs] at member
              rcases List.mem_cons.mp member with rfl | inRest
              · exact Nat.le_refl _
              · have above := inductionHypothesis none (i + 1) (by simp) range inRest
                simp only [Option.getD_none, Option.getD_some] at above ⊢
                omega

theorem runs_canonical (flags : List Bool) :
    ∀ (opened : Option Nat) (i : Nat), (∀ start, opened = some start → start < i) →
      Canonical (runs opened i flags) := by
  induction flags with
  | nil =>
      intro opened i before
      cases opened with
      | none => exact ⟨by simp [runs], .nil⟩
      | some start =>
          have earlier := before start rfl
          refine ⟨?_, List.pairwise_singleton _ _⟩
          simp only [runs, List.mem_singleton, forall_eq]
          omega
  | cons active rest inductionHypothesis =>
      intro opened i before
      cases opened with
      | none =>
          cases active with
          | false => exact inductionHypothesis none (i + 1) (by simp)
          | true => exact inductionHypothesis (some i) (i + 1) (by simp)
      | some start =>
          have earlier := before start rfl
          cases active with
          | true => exact inductionHypothesis (some start) (i + 1) (by simp; omega)
          | false =>
              have others := inductionHypothesis none (i + 1) (by simp)
              rw [runs]
              constructor
              · intro range member
                rcases List.mem_cons.mp member with rfl | inRest
                · simp only
                  omega
                · exact others.nonempty range inRest
              · refine List.pairwise_cons.mpr ⟨fun range inRest => ?_, others.apart⟩
                have above := runs_start rest none (i + 1) (by simp) range inRest
                simp only [Option.getD_none] at above ⊢
                omega

/-- No number next to a canonical range is covered: the range is as long as it can be. -/
theorem Canonical.maximal {ranges : List (Nat × Nat)} (canonical : Canonical ranges)
    {range : Nat × Nat} (member : range ∈ ranges) :
    ¬ Covers ranges (range.2 + 1) ∧ ∀ k, k + 1 = range.1 → ¬ Covers ranges k := by
  have others : ∀ other ∈ ranges, other = range ∨ range.2 + 1 < other.1 ∨ other.2 + 1 < range.1 := by
    intro other isRange
    obtain ⟨i, insideI, rfl⟩ := List.mem_iff_getElem.mp member
    obtain ⟨j, insideJ, rfl⟩ := List.mem_iff_getElem.mp isRange
    have apart := List.pairwise_iff_getElem.mp canonical.apart
    rcases Nat.lt_trichotomy i j with before | rfl | after
    · exact .inr (.inl (apart i j insideI insideJ before))
    · exact .inl rfl
    · exact .inr (.inr (apart j i insideJ insideI after))
  have ordered := canonical.nonempty range member
  constructor
  · rintro ⟨other, isRange, atLeast, atMost⟩
    have otherOrdered := canonical.nonempty other isRange
    rcases others other isRange with rfl | above | below
    · omega
    · omega
    · omega
  · rintro k next ⟨other, isRange, atLeast, atMost⟩
    have otherOrdered := canonical.nonempty other isRange
    rcases others other isRange with rfl | above | below
    · omega
    · omega
    · omega

theorem Canonical.tail {range : Nat × Nat} {ranges : List (Nat × Nat)}
    (canonical : Canonical (range :: ranges)) : Canonical ranges :=
  ⟨fun other member => canonical.nonempty other (List.mem_cons_of_mem _ member),
    (List.pairwise_cons.mp canonical.apart).2⟩

/-- What the later ranges cover is what lies above the first one. -/
theorem Canonical.covers_tail {range : Nat × Nat} {ranges : List (Nat × Nat)}
    (canonical : Canonical (range :: ranges)) (k : Nat) :
    Covers ranges k ↔ Covers (range :: ranges) k ∧ range.2 < k := by
  have above : Covers ranges k → range.2 < k := by
    rintro ⟨other, member, atLeast, _⟩
    have gap := (List.pairwise_cons.mp canonical.apart).1 other member
    omega
  rw [covers_cons]
  constructor
  · intro covered
    exact ⟨.inr covered, above covered⟩
  · rintro ⟨inFirst | covered, later⟩
    · omega
    · exact covered

theorem Canonical.first_le {range : Nat × Nat} {ranges : List (Nat × Nat)}
    (canonical : Canonical (range :: ranges)) {k : Nat} (covered : Covers (range :: ranges) k) :
    range.1 ≤ k := by
  have ordered := canonical.nonempty range List.mem_cons_self
  rcases (covers_cons range ranges k).mp covered with inFirst | inRest
  · exact inFirst.1
  · have later := ((canonical.covers_tail k).mp inRest).2
    omega

theorem covers_first {range : Nat × Nat} {ranges : List (Nat × Nat)} {k : Nat}
    (atLeast : range.1 ≤ k) (atMost : k ≤ range.2) : Covers (range :: ranges) k :=
  (covers_cons range ranges k).mpr (.inl ⟨atLeast, atMost⟩)

/-- A set of numbers has one list of canonical ranges. -/
theorem Canonical.eq_of_covers {left : List (Nat × Nat)} :
    ∀ {right : List (Nat × Nat)}, Canonical left → Canonical right →
      (∀ k, Covers left k ↔ Covers right k) → left = right := by
  induction left with
  | nil =>
      intro right _ canonical same
      cases right with
      | nil => rfl
      | cons range ranges =>
          have ordered := canonical.nonempty range List.mem_cons_self
          have covered := (same range.1).mpr (covers_first (Nat.le_refl _) ordered)
          simp [Covers] at covered
  | cons range ranges inductionHypothesis =>
      intro right canonical others same
      have ordered := canonical.nonempty range List.mem_cons_self
      cases right with
      | nil =>
          have covered := (same range.1).mp (covers_first (Nat.le_refl _) ordered)
          simp [Covers] at covered
      | cons other more =>
          have otherOrdered := others.nonempty other List.mem_cons_self
          have sameFirst : range.1 = other.1 := by
            have below := others.first_le
              ((same range.1).mp (covers_first (Nat.le_refl _) ordered))
            have above := canonical.first_le
              ((same other.1).mpr (covers_first (Nat.le_refl _) otherOrdered))
            omega
          -- A range that is longer than the other would cover the gap after it.
          have sameLast : range.2 = other.2 := by
            rcases Nat.lt_trichotomy range.2 other.2 with shorter | isSame | longer
            · have gap := (canonical.maximal List.mem_cons_self).1
              exact absurd ((same _).mpr (covers_first (by omega) shorter)) gap
            · exact isSame
            · have gap := (others.maximal List.mem_cons_self).1
              exact absurd ((same _).mp (covers_first (by omega) longer)) gap
          have isRange : range = other := Prod.ext sameFirst sameLast
          subst isRange
          refine congrArg (range :: ·) (inductionHypothesis canonical.tail others.tail fun k => ?_)
          rw [canonical.covers_tail, others.covers_tail, same]

/-- The text of one range. -/
def rangeText (first last : Nat) : String :=
  if last = first then toString first else toString first ++ "-" ++ toString last

theorem spells_rangeText {first last : Nat} (ordered : first ≤ last) (small : last < 2 ^ 32) :
    Spells (rangeText first last).toList first last := by
  have digits : ∀ n : Nat, (toString n).toList = Nat.toDigits 10 n := fun n => String.toList_ofList
  have firstLiteral : parseU32Chars (Nat.toDigits 10 first) = some first :=
    parseU32Chars_toDigits (Nat.lt_of_le_of_lt ordered small)
  rw [rangeText]
  split
  next same =>
    rw [digits, same]
    exact .number firstLiteral
  next =>
    have dash : "-".toList = ['-'] := rfl
    rw [String.toList_append, String.toList_append, digits, digits, dash, List.append_assoc,
      List.singleton_append]
    exact .range firstLiteral (parseU32Chars_toDigits small)

end AnanicyRs.Lib.NumberRanges
