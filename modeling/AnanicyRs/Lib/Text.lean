import Mathlib.Algebra.GroupWithZero.Nat
import Mathlib.Data.String.Basic

/-!
Contract: the `str` functions of the Rust standard library that the daemon
reads its text with.

Owns the Unicode white-space class, trimming, line and word splitting, splitting at
the first separator, the substring test, byte lengths and byte-offset slicing, and
decimal `u32`, `u64` and `i32` parsing with its round trip. Every function works on the
character list of its text, so that slices off a character boundary can be told apart
from good ones.

Does not own any format of the daemon.
-/

set_option autoImplicit false

namespace AnanicyRs.Lib.Text

/-! ## Characters -/

/-- `char::is_whitespace`: the Unicode `White_Space` property. -/
def isWhitespace (c : Char) : Bool :=
  let code := c.toNat
  (9 ≤ code && code ≤ 13) || code == 0x20 || code == 0x85 || code == 0xA0 ||
    code == 0x1680 || (0x2000 ≤ code && code ≤ 0x200A) || code == 0x2028 ||
    code == 0x2029 || code == 0x202F || code == 0x205F || code == 0x3000

/-! ## Trimming, prefixes and substrings -/

def trimChars (cs : List Char) : List Char :=
  ((cs.dropWhile isWhitespace).reverse.dropWhile isWhitespace).reverse

def trim (s : String) : String := String.ofList (trimChars s.toList)

def startsWithChar (s : String) (c : Char) : Bool := s.toList.head? == some c

def stripPrefixChar (s : String) (c : Char) : Option String :=
  match s.toList with
  | [] => none
  | first :: rest => if first = c then some (String.ofList rest) else none

def stripPrefixChars (start text : List Char) : Option (List Char) :=
  if start.isPrefixOf text then some (text.drop start.length) else none

def trimStartChars (cs : List Char) : List Char := cs.dropWhile isWhitespace

def containsChars (needle : List Char) : List Char → Bool
  | [] => needle.isEmpty
  | c :: rest => needle.isPrefixOf (c :: rest) || containsChars needle rest

def contains (s needle : String) : Bool := containsChars needle.toList s.toList

theorem containsChars_iff_infix (needle : List Char) :
    ∀ text : List Char, containsChars needle text = true ↔ needle <:+: text
  | [] => by
      simp [containsChars]
  | c :: rest => by
      rw [containsChars, Bool.or_eq_true, List.isPrefixOf_iff_prefix,
        containsChars_iff_infix needle rest, List.infix_cons_iff]

/-- `char::to_lowercase`, for the characters that lower into ASCII: beside the ASCII
capitals, only the Kelvin sign does. Every other character stands for itself. -/
def lowerChar (c : Char) : Char := if c.toNat = 0x212A then 'k' else c.toLower

/-- `str::to_lowercase`, up to characters outside ASCII. -/
def toLowercase (s : String) : String := String.ofList (s.toList.map lowerChar)

/-- `str::trim_start_matches` with a text: every leading copy of it goes. The fuel is
the number of copies that can fit. -/
def trimStartMatchesChars (pattern : List Char) : Nat → List Char → List Char
  | 0, text => text
  | fuel + 1, text =>
      if pattern ≠ [] ∧ pattern <+: text then
        trimStartMatchesChars pattern fuel (text.drop pattern.length)
      else text

def trimStartMatches (text pattern : String) : String :=
  String.ofList (trimStartMatchesChars pattern.toList text.toList.length text.toList)

/-- `str::trim_end_matches` with a text. -/
def trimEndMatches (text pattern : String) : String :=
  String.ofList (trimStartMatchesChars pattern.toList.reverse text.toList.length
    text.toList.reverse).reverse

def startsWith (text start : String) : Bool := start.toList.isPrefixOf text.toList

def endsWith (text tail : String) : Bool := tail.toList.isSuffixOf text.toList

def splitOnceChars (sep : Char) : List Char → Option (List Char × List Char)
  | [] => none
  | c :: rest =>
      if c = sep then some ([], rest)
      else (splitOnceChars sep rest).map fun parts => (c :: parts.1, parts.2)

def splitOnce (s : String) (sep : Char) : Option (String × String) :=
  (splitOnceChars sep s.toList).map fun parts =>
    (String.ofList parts.1, String.ofList parts.2)

theorem splitOnceChars_eq_none_iff {sep : Char} :
    ∀ text : List Char, splitOnceChars sep text = none ↔ sep ∉ text
  | [] => by simp [splitOnceChars]
  | c :: rest => by
      rw [splitOnceChars]
      by_cases isSep : c = sep
      · simp [isSep]
      · have different : sep ≠ c := Ne.symm isSep
        rw [if_neg isSep, Option.map_eq_none_iff, splitOnceChars_eq_none_iff rest]
        simp [different]

/-- The text is cut at its first separator. -/
theorem splitOnceChars_eq_some_iff {sep : Char} {left right : List Char} :
    ∀ text : List Char, splitOnceChars sep text = some (left, right) ↔
      text = left ++ sep :: right ∧ sep ∉ left := by
  intro text
  induction text generalizing left with
  | nil => simp [splitOnceChars]
  | cons c rest inductionHypothesis =>
      rw [splitOnceChars]
      by_cases isSep : c = sep
      · subst isSep
        rw [if_pos rfl]
        cases left with
        | nil => simp [eq_comm]
        | cons first more =>
            simp only [Option.some.injEq, Prod.mk.injEq, List.cons_append, List.cons.injEq,
              List.mem_cons, not_or]
            constructor
            · intro given
              exact absurd given.1 (by simp)
            · intro given
              exact absurd given.1.1 given.2.1
      · rw [if_neg isSep]
        cases left with
        | nil => simp [isSep]
        | cons first more =>
            have different : sep ≠ c := Ne.symm isSep
            have tail := @inductionHypothesis more
            simp only [Option.map_eq_some_iff, Prod.exists, Prod.mk.injEq, List.cons.injEq,
              List.cons_append, List.mem_cons, not_or]
            constructor
            · intro given
              obtain ⟨before, after, found, ⟨rfl, rfl⟩, rfl⟩ := given
              obtain ⟨split, fresh⟩ := tail.mp found
              exact ⟨⟨rfl, split⟩, different, fresh⟩
            · intro given
              obtain ⟨⟨rfl, split⟩, _, fresh⟩ := given
              exact ⟨more, right, tail.mpr ⟨split, fresh⟩, ⟨rfl, rfl⟩, rfl⟩

/-- `str::splitn`: at most `limit` fields, the last of them with the rest of the text. -/
def splitnChars (sep : Char) : Nat → List Char → List (List Char)
  | 0, _ => []
  | 1, text => [text]
  | limit + 2, text =>
      match splitOnceChars sep text with
      | some (field, rest) => field :: splitnChars sep (limit + 1) rest
      | none => [text]

example : splitnChars ':' 3 "0::/a:b".toList = ["0".toList, [], "/a:b".toList] := by decide

theorem splitnChars_three_iff {sep : Char} {text first second third : List Char} :
    splitnChars sep 3 text = [first, second, third] ↔
      text = first ++ sep :: (second ++ sep :: third) ∧ sep ∉ first ∧ sep ∉ second := by
  constructor
  · intro fields
    rw [splitnChars] at fields
    cases outer : splitOnceChars sep text with
    | none => simp [outer] at fields
    | some parts =>
        rw [outer] at fields
        obtain ⟨isFirst, others⟩ := List.cons.inj fields
        obtain ⟨split, freshFirst⟩ := (splitOnceChars_eq_some_iff text).mp outer
        rw [splitnChars] at others
        cases inner : splitOnceChars sep parts.2 with
        | none => simp [inner] at others
        | some innerParts =>
            rw [inner] at others
            obtain ⟨isSecond, last⟩ := List.cons.inj others
            obtain ⟨innerSplit, freshSecond⟩ := (splitOnceChars_eq_some_iff parts.2).mp inner
            have isThird : innerParts.2 = third := by
              simpa [splitnChars] using last
            subst isFirst isSecond isThird
            exact ⟨by rw [split, innerSplit], freshFirst, freshSecond⟩
  · rintro ⟨rfl, freshFirst, freshSecond⟩
    have outer : splitOnceChars sep (first ++ sep :: (second ++ sep :: third)) =
        some (first, second ++ sep :: third) :=
      (splitOnceChars_eq_some_iff _).mpr ⟨rfl, freshFirst⟩
    have inner : splitOnceChars sep (second ++ sep :: third) = some (second, third) :=
      (splitOnceChars_eq_some_iff _).mpr ⟨rfl, freshSecond⟩
    rw [splitnChars, outer]
    simp only [splitnChars, inner]

/-! ## Lines -/

/-- `str::lines` on characters: a line ends at `\n` or `\r\n`, a final line
without a terminator is kept as it is, and an empty one is not produced. -/
def linesChars : List Char → List (List Char)
  | [] => []
  | '\r' :: '\n' :: rest => [] :: linesChars rest
  | '\n' :: rest => [] :: linesChars rest
  | c :: rest =>
      match linesChars rest with
      | [] => [[c]]
      | line :: lines =>
          -- The recursion sees an empty first line when `rest` starts with a
          -- terminator, so `c` is put in front of it either way.
          (c :: line) :: lines

def lines (s : String) : List String := (linesChars s.toList).map String.ofList

example : lines "a\r\nb\n\nc\r" = ["a", "b", "", "c\r"] := by decide

/-- A line without the `\r` in front of its terminator. -/
def stripReturn (line : List Char) : List Char :=
  if line.getLast? = some '\r' then line.dropLast else line

theorem stripReturn_cases (line : List Char) :
    (line.getLast? ≠ some '\r' ∧ stripReturn line = line) ∨ line = stripReturn line ++ ['\r'] := by
  unfold stripReturn
  split
  next isReturn => exact .inr (List.dropLast_append_getLast? '\r' isReturn).symm
  next notReturn => exact .inl ⟨notReturn, rfl⟩

theorem stripReturn_cons (c : Char) {rest : List Char} (nonempty : rest ≠ []) :
    stripReturn (c :: rest) = c :: stripReturn rest := by
  cases rest with
  | nil => exact absurd rfl nonempty
  | cons next more =>
      unfold stripReturn
      rw [List.getLast?_cons_cons]
      split <;> rfl

/-- A line ends at its `\n`, and loses a `\r` in front of it. -/
theorem linesChars_terminated (rest : List Char) :
    ∀ line : List Char, '\n' ∉ line →
      linesChars (line ++ '\n' :: rest) = stripReturn line :: linesChars rest
  | [], _ => by
      simp [linesChars, stripReturn]
  | c :: tail, noBreak => by
      have notBreak : c ≠ '\n' := fun equal => noBreak (by simp [equal])
      have split := linesChars_terminated rest tail (fun member => noBreak (by simp [member]))
      cases tail with
      | nil =>
          by_cases isReturn : c = '\r'
          · subst isReturn
            rfl
          · have kept : stripReturn [c] = [c] := by
              simp [stripReturn, isReturn]
            rw [kept, List.singleton_append, linesChars.eq_4 c _ (fun _ equal => absurd equal isReturn)
              notBreak]
            simp [linesChars]
      | cons next more =>
          have noPair : ∀ after, c = '\r' → next :: more ++ '\n' :: rest = '\n' :: after → False := by
            intro after _ starts
            exact noBreak (by simp [(List.cons.inj starts).1])
          rw [List.cons_append, linesChars.eq_4 c _ noPair notBreak, split,
            stripReturn_cons c (by simp)]

theorem linesChars_line (rest : List Char) (line : List Char) (noBreak : '\n' ∉ line) :
    ∃ first, linesChars (line ++ '\n' :: rest) = first :: linesChars rest ∧
      (first = line ∨ line = first ++ ['\r']) := by
  refine ⟨stripReturn line, linesChars_terminated rest line noBreak, ?_⟩
  exact (stripReturn_cases line).imp_left And.right

/-- A final line keeps its `\r`. -/
theorem linesChars_unterminated :
    ∀ line : List Char, line ≠ [] → '\n' ∉ line → linesChars line = [line]
  | [], nonempty, _ => absurd rfl nonempty
  | c :: tail, _, noBreak => by
      have notBreak : c ≠ '\n' := fun equal => noBreak (by simp [equal])
      have noPair : ∀ after, c = '\r' → tail = '\n' :: after → False := by
        intro after _ starts
        exact noBreak (by simp [starts])
      rw [linesChars.eq_4 c tail noPair notBreak]
      cases tail with
      | nil => rfl
      | cons next more =>
          rw [linesChars_unterminated (next :: more) (by simp)
            fun member => noBreak (List.mem_cons_of_mem c member)]

theorem notMem_of_mem_linesChars (cs : List Char) : ∀ line ∈ linesChars cs, '\n' ∉ line := by
  induction cs using linesChars.induct with
  | case1 => simp [linesChars]
  | case2 rest inductionHypothesis =>
      intro line member
      rw [linesChars] at member
      rcases List.mem_cons.mp member with rfl | later
      · exact List.not_mem_nil
      · exact inductionHypothesis line later
  | case3 rest inductionHypothesis =>
      intro line member
      rw [linesChars] at member
      rcases List.mem_cons.mp member with rfl | later
      · exact List.not_mem_nil
      · exact inductionHypothesis line later
  | case4 c rest notReturn notBreak noLine inductionHypothesis =>
      intro line member
      rw [linesChars.eq_4 c rest notReturn notBreak, noLine] at member
      rw [List.mem_singleton.mp member, List.mem_singleton]
      exact fun isBreak => notBreak isBreak.symm
  | case5 c rest notReturn notBreak first others split inductionHypothesis =>
      intro line member
      rw [linesChars.eq_4 c rest notReturn notBreak, split] at member
      rw [split] at inductionHypothesis
      rcases List.mem_cons.mp member with rfl | later
      · have inFirst := inductionHypothesis first List.mem_cons_self
        rw [List.mem_cons, not_or]
        exact ⟨fun isBreak => notBreak isBreak.symm, inFirst⟩
      · exact inductionHypothesis line (List.mem_cons_of_mem _ later)

theorem linesChars_plain {line : List Char} (noBreak : '\n' ∉ line) (noReturn : '\r' ∉ line)
    (rest : List Char) : linesChars (line ++ '\n' :: rest) = line :: linesChars rest := by
  obtain ⟨first, split, rfl | rfl⟩ := linesChars_line rest line noBreak
  · exact split
  · exact absurd (by simp) noReturn

/-! ## Words -/

/-- `str::split_whitespace` on characters. -/
def splitWhitespaceChars : List Char → List (List Char)
  | [] => []
  | c :: rest =>
      if isWhitespace c then splitWhitespaceChars rest
      else match rest with
        | [] => [[c]]
        | next :: _ =>
            if isWhitespace next then [c] :: splitWhitespaceChars rest
            else match splitWhitespaceChars rest with
              | [] => [[c]]
              | word :: words => (c :: word) :: words

def splitWhitespace (s : String) : List String :=
  (splitWhitespaceChars s.toList).map String.ofList

example : splitWhitespace " a  bc\td\n" = ["a", "bc", "d"] := by decide

theorem splitWhitespaceChars_blank {c : Char} (blank : isWhitespace c = true) (rest : List Char) :
    splitWhitespaceChars (c :: rest) = splitWhitespaceChars rest := by
  rw [splitWhitespaceChars.eq_def]
  simp [blank]

/-- A word ends at the first blank. -/
theorem splitWhitespaceChars_word {blank : Char} (isBlank : isWhitespace blank = true)
    (rest : List Char) :
    ∀ word : List Char, word ≠ [] → (∀ c ∈ word, isWhitespace c = false) →
      splitWhitespaceChars (word ++ blank :: rest) = word :: splitWhitespaceChars rest
  | [], nonempty, _ => absurd rfl nonempty
  | [c], _, solid => by
      rw [List.singleton_append, splitWhitespaceChars.eq_def]
      simp only [solid c (by simp), Bool.false_eq_true, if_false, isBlank, if_true,
        splitWhitespaceChars_blank isBlank]
  | c :: next :: more, _, solid => by
      have tail := splitWhitespaceChars_word isBlank rest (next :: more) (by simp)
        (fun other member => solid other (by simp [List.mem_cons.mp member]))
      rw [List.cons_append, List.cons_append, splitWhitespaceChars.eq_def]
      simp only [solid c (by simp), solid next (by simp), Bool.false_eq_true, if_false]
      rw [← List.cons_append, tail]

theorem splitWhitespaceChars_last :
    ∀ word : List Char, word ≠ [] → (∀ c ∈ word, isWhitespace c = false) →
      splitWhitespaceChars word = [word]
  | [], nonempty, _ => absurd rfl nonempty
  | [c], _, solid => by
      rw [splitWhitespaceChars.eq_def]
      simp [solid c (by simp)]
  | c :: next :: more, _, solid => by
      have tail := splitWhitespaceChars_last (next :: more) (by simp)
        (fun other member => solid other (by simp [List.mem_cons.mp member]))
      rw [splitWhitespaceChars.eq_def]
      simp only [solid c (by simp), solid next (by simp), Bool.false_eq_true, if_false]
      rw [tail]

/-- Words, each with a blank in front of it. -/
def spaced (words : List (List Char)) : List Char := (words.map (' ' :: ·)).flatten

theorem splitWhitespaceChars_spaced {words : List (List Char)}
    (solid : ∀ word ∈ words, word ≠ [] ∧ ∀ c ∈ word, isWhitespace c = false) :
    splitWhitespaceChars (spaced words ++ ['\n']) = words := by
  have atBlank : ∀ c rest, isWhitespace c = true → ∀ word : List Char, word ≠ [] →
      (∀ c ∈ word, isWhitespace c = false) →
        splitWhitespaceChars (word ++ c :: rest) = word :: splitWhitespaceChars (c :: rest) := by
    intro c rest blank word nonempty wordSolid
    rw [splitWhitespaceChars_word blank rest word nonempty wordSolid,
      splitWhitespaceChars_blank blank]
  induction words with
  | nil => rfl
  | cons word rest inductionHypothesis =>
      obtain ⟨nonempty, wordSolid⟩ := solid word (by simp)
      have others := inductionHypothesis fun other member => solid other (by simp [member])
      have text (first : List Char) (more : List (List Char)) :
          spaced (first :: more) ++ ['\n'] = ' ' :: (first ++ (spaced more ++ ['\n'])) := by
        simp [spaced]
      rw [text, splitWhitespaceChars_blank (by decide)]
      cases rest with
      | nil => exact atBlank '\n' [] (by decide) word nonempty wordSolid
      | cons next more =>
          have ended := atBlank ' ' (next ++ (spaced more ++ ['\n'])) (by decide) word nonempty
            wordSolid
          rw [text, ended, ← text, others]

/-! ## Byte offsets -/

/-- `str::len`: the number of UTF-8 bytes. -/
def byteLen (cs : List Char) : Nat := (cs.map Char.utf8Size).sum

/-- The tail of `cs` from byte offset `offset`; `none` where the offset is not
on a character boundary, which is where the Rust slice panics. -/
def sliceFrom : List Char → Nat → Option (List Char)
  | cs, 0 => some cs
  | [], _ + 1 => none
  | c :: rest, offset + 1 =>
      if c.utf8Size ≤ offset + 1 then sliceFrom rest (offset + 1 - c.utf8Size) else none

def sliceTo : List Char → Nat → Option (List Char)
  | _, 0 => some []
  | [], _ + 1 => none
  | c :: rest, offset + 1 =>
      if c.utf8Size ≤ offset + 1 then
        (sliceTo rest (offset + 1 - c.utf8Size)).map (c :: ·)
      else none

def slice (cs : List Char) (start stop : Nat) : Option (List Char) :=
  (sliceTo cs stop).bind fun head => sliceFrom head start

/-- `str::rfind(char)`: the byte offset of the last occurrence. -/
def rfind (sep : Char) : List Char → Option Nat
  | [] => none
  | c :: rest =>
      match rfind sep rest with
      | some offset => some (c.utf8Size + offset)
      | none => if c = sep then some 0 else none

/-- `str::find(char)`: the byte offset of the first occurrence. -/
def find (sep : Char) (cs : List Char) : Option Nat :=
  (splitOnceChars sep cs).map fun parts => byteLen parts.1

theorem find_append {sep : Char} {left : List Char} (fresh : sep ∉ left) (right : List Char) :
    find sep (left ++ sep :: right) = some (byteLen left) := by
  rw [find, (splitOnceChars_eq_some_iff _).mpr ⟨rfl, fresh⟩]
  rfl

@[simp] theorem byteLen_nil : byteLen [] = 0 := rfl

@[simp] theorem byteLen_cons (c : Char) (cs : List Char) :
    byteLen (c :: cs) = c.utf8Size + byteLen cs := by
  simp [byteLen]

theorem byteLen_append (left right : List Char) :
    byteLen (left ++ right) = byteLen left + byteLen right := by
  simp [byteLen]

theorem sliceFrom_append (left right : List Char) :
    sliceFrom (left ++ right) (byteLen left) = some right := by
  induction left with
  | nil => cases right <;> rfl
  | cons c rest inductionHypothesis =>
      have positive : 0 < c.utf8Size := c.utf8Size_pos
      obtain ⟨size, sizeEq⟩ : ∃ size, c.utf8Size + byteLen rest = size + 1 :=
        ⟨c.utf8Size + byteLen rest - 1, by omega⟩
      rw [List.cons_append, byteLen_cons, sizeEq, sliceFrom, if_pos (by omega),
        ← sizeEq, Nat.add_sub_cancel_left]
      exact inductionHypothesis

theorem sliceTo_append (left right : List Char) :
    sliceTo (left ++ right) (byteLen left) = some left := by
  induction left with
  | nil => cases right <;> rfl
  | cons c rest inductionHypothesis =>
      have positive : 0 < c.utf8Size := c.utf8Size_pos
      obtain ⟨size, sizeEq⟩ : ∃ size, c.utf8Size + byteLen rest = size + 1 :=
        ⟨c.utf8Size + byteLen rest - 1, by omega⟩
      rw [List.cons_append, byteLen_cons, sizeEq, sliceTo, if_pos (by omega),
        ← sizeEq, Nat.add_sub_cancel_left, inductionHypothesis]
      rfl

/-- Slicing between the ends of `left` and `left ++ middle` gives `middle`. -/
theorem slice_append (left middle right : List Char) :
    slice (left ++ middle ++ right) (byteLen left) (byteLen (left ++ middle)) =
      some middle := by
  rw [slice, sliceTo_append, Option.bind_some, sliceFrom_append]

/-- `rfind` answers with the end of the part before the last separator. -/
theorem rfind_eq_some {sep : Char} :
    ∀ {cs : List Char} {offset : Nat}, rfind sep cs = some offset →
      ∃ left right, cs = left ++ sep :: right ∧ sep ∉ right ∧ offset = byteLen left
  | [], _, found => by simp [rfind] at found
  | c :: rest, offset, found => by
      rw [rfind] at found
      cases inRest : rfind sep rest with
      | some below =>
          simp only [inRest, Option.some.injEq] at found
          obtain ⟨left, right, split, fresh, belowEq⟩ := rfind_eq_some inRest
          refine ⟨c :: left, right, by rw [split]; rfl, fresh, ?_⟩
          rw [byteLen_cons, ← belowEq, found]
      | none =>
          simp only [inRest] at found
          split at found
          next isSep =>
            refine ⟨[], rest, by rw [isSep]; rfl, ?_, by simpa using found.symm⟩
            exact rfind_eq_none inRest
          next notSep => simp at found
where
  rfind_eq_none {cs : List Char} (missing : rfind sep cs = none) : sep ∉ cs := by
    induction cs with
    | nil => simp
    | cons c rest inductionHypothesis =>
        rw [rfind] at missing
        cases inRest : rfind sep rest with
        | some below => simp [inRest] at missing
        | none =>
            simp only [inRest] at missing
            split at missing
            next isSep => simp at missing
            next notSep =>
              simp only [List.mem_cons, not_or]
              exact ⟨fun equal => notSep equal.symm, inductionHypothesis inRest⟩

theorem rfind_append {sep : Char} {right : List Char} (fresh : sep ∉ right) (left : List Char) :
    rfind sep (left ++ sep :: right) = some (byteLen left) := by
  have missing : rfind sep right = none := by
    cases found : rfind sep right with
    | none => rfl
    | some offset =>
        obtain ⟨before, after, rfl, _, _⟩ := rfind_eq_some found
        exact absurd (by simp) fresh
  induction left with
  | nil => simp [rfind, missing]
  | cons c rest inductionHypothesis =>
      rw [List.cons_append, rfind, inductionHypothesis, byteLen_cons]

/-- A text has one last separator. -/
theorem split_last_unique {sep : Char} {left right left' right' : List Char} (fresh : sep ∉ right)
    (fresh' : sep ∉ right') (same : left ++ sep :: right = left' ++ sep :: right') :
    left = left' ∧ right = right' := by
  have offset : byteLen left = byteLen left' := by
    have found := rfind_append fresh left
    rw [same, rfind_append fresh' left'] at found
    exact (Option.some.inj found).symm
  have isLeft : left = left' := by
    have taken := sliceTo_append left (sep :: right)
    rw [same, offset, sliceTo_append left' (sep :: right')] at taken
    exact (Option.some.inj taken).symm
  subst isLeft
  exact ⟨rfl, (List.cons.inj (List.append_cancel_left same)).2⟩

/-! ## Numbers -/

def digitValue (c : Char) : Option Nat :=
  if '0' ≤ c ∧ c ≤ '9' then some (c.toNat - '0'.toNat) else none

/-- Decimal digits read from the left into `acc`; `none` on any other character. -/
def parseDigits (acc : Nat) : List Char → Option Nat
  | [] => some acc
  | c :: rest =>
      match digitValue c with
      | some digit => parseDigits (acc * 10 + digit) rest
      | none => none

/-- `str::parse::<u32>`: an optional `+`, then at least one digit, below `2^32`. -/
def parseU32Chars (cs : List Char) : Option Nat :=
  let digits := match cs with
    | '+' :: rest => rest
    | other => other
  if digits.isEmpty then none
  else (parseDigits 0 digits).bind fun value => if value < 2 ^ 32 then some value else none

def parseU32 (s : String) : Option Nat := parseU32Chars s.toList

/-- `str::parse::<u64>`. -/
def parseU64Chars (cs : List Char) : Option Nat :=
  let digits := match cs with
    | '+' :: rest => rest
    | other => other
  if digits.isEmpty then none
  else (parseDigits 0 digits).bind fun value => if value < 2 ^ 64 then some value else none

/-- `str::parse::<i32>`: an optional sign, then at least one digit, in range. -/
def parseI32Chars (cs : List Char) : Option Int32 :=
  let (negative, digits) := match cs with
    | '+' :: rest => (false, rest)
    | '-' :: rest => (true, rest)
    | other => (false, other)
  if digits.isEmpty then none
  else (parseDigits 0 digits).bind fun value =>
    if negative then (if value ≤ 2 ^ 31 then some (Int32.ofInt (-value)) else none)
    else if value < 2 ^ 31 then some (Int32.ofNat value) else none

def parseI32 (s : String) : Option Int32 := parseI32Chars s.toList

/-! ## Printed numbers -/

theorem digit_of_mem_toDigits {n : Nat} {c : Char} (member : c ∈ Nat.toDigits 10 n) :
    '0' ≤ c ∧ c ≤ '9' := by
  have isDigit := Nat.isDigit_of_mem_toDigits (by decide) (by decide) member
  simpa [Char.isDigit, Char.le_def, UInt32.le_iff_toNat_le] using isDigit

theorem parseDigits_digits (acc : Nat) :
    ∀ cs : List Char, (∀ c ∈ cs, '0' ≤ c ∧ c ≤ '9') →
      parseDigits acc cs = some (Nat.ofDigitChars 10 cs acc)
  | [], _ => rfl
  | c :: rest, digits => by
      have value : digitValue c = some (c.toNat - '0'.toNat) := if_pos (digits c (by simp))
      rw [parseDigits, value, Nat.ofDigitChars_cons, Nat.mul_comm]
      exact parseDigits_digits _ rest fun other member => digits other (by simp [member])

theorem parseDigits_toDigits (n : Nat) : parseDigits 0 (Nat.toDigits 10 n) = some n := by
  rw [parseDigits_digits 0 _ fun c member => digit_of_mem_toDigits member,
    Nat.ofDigitChars_ten_toDigits]

theorem toString_inj {left right : Nat} (same : toString left = toString right) : left = right := by
  have digits : Nat.toDigits 10 left = Nat.toDigits 10 right := String.ofList_injective same
  have parsed := parseDigits_toDigits left
  rw [digits, parseDigits_toDigits] at parsed
  exact (Option.some.inj parsed).symm

/-- Nothing in front of a printed number looks like a sign. -/
theorem head_toDigits (n : Nat) :
    ∃ first rest, Nat.toDigits 10 n = first :: rest ∧ first ≠ '+' ∧ first ≠ '-' := by
  cases digits : Nat.toDigits 10 n with
  | nil => exact absurd digits Nat.toDigits_ne_nil
  | cons first rest =>
      have isDigit := digit_of_mem_toDigits (n := n) (c := first) (by simp [digits])
      refine ⟨first, rest, rfl, ?_, ?_⟩ <;>
        · rintro rfl
          exact absurd isDigit.1 (by decide)

theorem parseU32Chars_toDigits {n : Nat} (bound : n < 2 ^ 32) :
    parseU32Chars (Nat.toDigits 10 n) = some n := by
  have parsed := parseDigits_toDigits n
  obtain ⟨first, rest, digits, notPlus, _⟩ := head_toDigits n
  rw [digits] at parsed ⊢
  unfold parseU32Chars
  split
  next isPlus => exact absurd (List.cons.inj isPlus).1 notPlus
  · simpa [parsed] using bound

theorem parseU64Chars_toDigits {n : Nat} (bound : n < 2 ^ 64) :
    parseU64Chars (Nat.toDigits 10 n) = some n := by
  have parsed := parseDigits_toDigits n
  obtain ⟨first, rest, digits, notPlus, _⟩ := head_toDigits n
  rw [digits] at parsed ⊢
  unfold parseU64Chars
  split
  next isPlus => exact absurd (List.cons.inj isPlus).1 notPlus
  · simpa [parsed] using bound

theorem parseI32Chars_toDigits {n : Nat} (bound : n < 2 ^ 31) :
    parseI32Chars (Nat.toDigits 10 n) = some (Int32.ofNat n) := by
  have parsed := parseDigits_toDigits n
  obtain ⟨first, rest, digits, notPlus, notMinus⟩ := head_toDigits n
  rw [digits] at parsed ⊢
  unfold parseI32Chars
  split
  next negative unsigned isUnsigned =>
    split at isUnsigned
    next isPlus => exact absurd (List.cons.inj isPlus).1 notPlus
    next isMinus => exact absurd (List.cons.inj isMinus).1 notMinus
    · obtain ⟨rfl, rfl⟩ := Prod.mk.inj isUnsigned
      simpa [parsed] using bound

/-- `str::parse::<i32>` reads what `i32` prints. -/
theorem parseI32_toString (n : Int32) : parseI32 (toString n.toInt) = some n := by
  have least : -(2 : Int) ^ 31 ≤ n.toInt := n.le_toInt
  have most : n.toInt < (2 : Int) ^ 31 := n.toInt_lt
  have same : Int32.ofInt n.toInt = n := Int32.ofInt_toInt n
  generalize n.toInt = value at least most same
  cases value with
  | ofNat magnitude =>
      have bound : magnitude < 2 ^ 31 := by
        have cast : ((magnitude : Nat) : Int) < (2 : Int) ^ 31 := most
        omega
      have printed : (toString (Int.ofNat magnitude)).toList = Nat.toDigits 10 magnitude :=
        String.toList_ofList
      unfold parseI32
      rw [printed, parseI32Chars_toDigits bound]
      exact congrArg some same
  | negSucc below =>
      have bound : below + 1 ≤ 2 ^ 31 := by
        omega
      have printed : (toString (Int.negSucc below)).toList = '-' :: Nat.toDigits 10 (below + 1) := by
        show ("-" ++ String.ofList (Nat.toDigits 10 (below + 1))).toList = _
        rw [String.toList_append, String.toList_ofList, String.toList_ofList]
        rfl
      obtain ⟨first, rest, digits, _⟩ := head_toDigits (below + 1)
      have parsed := parseDigits_toDigits (below + 1)
      unfold parseI32 parseI32Chars
      rw [printed]
      simp only
      rw [parsed, digits]
      simp only [List.isEmpty_cons, Bool.false_eq_true, if_false, Option.bind_some, if_true, bound]
      exact congrArg some same

theorem digits_of_parseDigits {acc value : Nat} {cs : List Char}
    (parsed : parseDigits acc cs = some value) : ∀ c ∈ cs, '0' ≤ c ∧ c ≤ '9' := by
  induction cs generalizing acc with
  | nil => simp
  | cons first rest inductionHypothesis =>
      rw [parseDigits] at parsed
      cases isDigit : digitValue first with
      | none => simp [isDigit] at parsed
      | some digit =>
          have firstDigit : '0' ≤ first ∧ first ≤ '9' := by
            by_contra notDigit
            simp [digitValue, if_neg notDigit] at isDigit
          rw [isDigit] at parsed
          exact List.forall_mem_cons.mpr ⟨firstDigit, inductionHypothesis parsed⟩

/-- A `u32` literal has digits, and at most a `+` besides. -/
theorem mem_of_parseU32Chars {cs : List Char} {value : Nat}
    (parsed : parseU32Chars cs = some value) {c : Char} (member : c ∈ cs) :
    c = '+' ∨ ('0' ≤ c ∧ c ≤ '9') := by
  unfold parseU32Chars at parsed
  split at parsed
  next digits rest =>
    have notEmpty : ¬ rest.isEmpty = true := by
      intro isEmpty
      simp [isEmpty] at parsed
    rw [if_neg notEmpty] at parsed
    obtain ⟨read, parsedDigits, _⟩ := Option.bind_eq_some_iff.mp parsed
    rcases List.mem_cons.mp member with isPlus | inRest
    · exact .inl isPlus
    · exact .inr (digits_of_parseDigits parsedDigits c inRest)
  next =>
    have notEmpty : ¬ cs.isEmpty = true := by
      intro isEmpty
      simp [isEmpty] at parsed
    rw [if_neg notEmpty] at parsed
    obtain ⟨read, parsedDigits, _⟩ := Option.bind_eq_some_iff.mp parsed
    exact .inr (digits_of_parseDigits parsedDigits c member)

theorem lt_of_parseU32Chars {cs : List Char} {value : Nat}
    (literal : parseU32Chars cs = some value) : value < 2 ^ 32 := by
  rw [parseU32Chars.eq_def, Option.ite_none_left_eq_some] at literal
  obtain ⟨n, _, bounded⟩ := Option.bind_eq_some_iff.mp literal.2
  rw [Option.ite_none_right_eq_some] at bounded
  rw [← Option.some.inj bounded.2]
  exact bounded.1

theorem isWhitespace_of_digit {c : Char} (digit : '0' ≤ c ∧ c ≤ '9') : isWhitespace c = false := by
  obtain ⟨lower, upper⟩ := digit
  have lowerCode : 48 ≤ c.toNat := lower
  have upperCode : c.toNat ≤ 57 := upper
  simp only [isWhitespace, Bool.or_eq_false_iff, Bool.and_eq_false_iff, decide_eq_false_iff_not,
    beq_eq_false_iff_ne]
  omega

theorem trimChars_solid {cs : List Char} (solid : ∀ c ∈ cs, isWhitespace c = false) :
    trimChars cs = cs := by
  have kept : ∀ text : List Char, (∀ c ∈ text, isWhitespace c = false) →
      text.dropWhile isWhitespace = text := by
    intro text allSolid
    cases text with
    | nil => rfl
    | cons c rest => simp [allSolid c (by simp)]
  rw [trimChars, kept cs solid, kept cs.reverse (by simpa using solid), List.reverse_reverse]

theorem trimChars_blank_cons {c : Char} (blank : isWhitespace c = true) (cs : List Char) :
    trimChars (c :: cs) = trimChars cs := by
  rw [trimChars, List.dropWhile_cons_of_pos blank, trimChars]

theorem trimChars_concat_blank {c : Char} (blank : isWhitespace c = true) (cs : List Char) :
    trimChars (cs ++ [c]) = trimChars cs := by
  induction cs with
  | nil => exact trimChars_blank_cons blank []
  | cons first rest inductionHypothesis =>
      cases firstBlank : isWhitespace first with
      | true =>
          rw [List.cons_append, trimChars_blank_cons firstBlank, trimChars_blank_cons firstBlank,
            inductionHypothesis]
      | false =>
          have solid : ¬ isWhitespace first = true := by
            simp [firstBlank]
          rw [trimChars, trimChars, List.cons_append, List.dropWhile_cons_of_neg solid,
            List.dropWhile_cons_of_neg solid, ← List.cons_append, List.reverse_concat,
            List.dropWhile_cons_of_pos blank]

/-- A text is its trimmed self between blanks. -/
theorem exists_trimChars (cs : List Char) :
    ∃ front back, cs = front ++ trimChars cs ++ back ∧ (∀ c ∈ front, isWhitespace c = true) ∧
      ∀ c ∈ back, isWhitespace c = true := by
  have taken : ∀ text : List Char, ∀ c ∈ text.takeWhile isWhitespace, isWhitespace c = true :=
    fun text => List.all_eq_true.mp List.all_takeWhile
  let rest := cs.dropWhile isWhitespace
  refine ⟨cs.takeWhile isWhitespace, (rest.reverse.takeWhile isWhitespace).reverse, ?_,
    taken cs, fun c member => taken rest.reverse c (List.mem_reverse.mp member)⟩
  have back : rest = trimChars cs ++ (rest.reverse.takeWhile isWhitespace).reverse := by
    rw [trimChars, ← List.reverse_append, List.takeWhile_append_dropWhile, List.reverse_reverse]
  rw [List.append_assoc, ← back, List.takeWhile_append_dropWhile]

theorem blank_of_trimChars_eq_nil {cs : List Char} (empty : trimChars cs = []) :
    ∀ c ∈ cs, isWhitespace c = true := by
  obtain ⟨front, back, parts, frontBlank, backBlank⟩ := exists_trimChars cs
  intro c member
  rw [parts, empty, List.append_nil, List.mem_append] at member
  rcases member with inFront | inBack
  · exact frontBlank c inFront
  · exact backBlank c inBack

theorem getLast?_trimChars {cs : List Char} {c : Char} (last : (trimChars cs).getLast? = some c) :
    isWhitespace c = false := by
  have head := List.head?_dropWhile_not isWhitespace (cs.dropWhile isWhitespace).reverse
  rw [trimChars, List.getLast?_reverse] at last
  rw [last] at head
  exact head

/-- A text whose ends are solid has nothing to trim. -/
theorem trimChars_of_ends {cs : List Char} (first : ∀ c, cs.head? = some c → isWhitespace c = false)
    (last : ∀ c, cs.getLast? = some c → isWhitespace c = false) : trimChars cs = cs := by
  have kept : ∀ text : List Char, (∀ c, text.head? = some c → isWhitespace c = false) →
      text.dropWhile isWhitespace = text := by
    intro text solid
    cases text with
    | nil => rfl
    | cons c rest => simp [solid c rfl]
  rw [trimChars, kept cs first, kept cs.reverse, List.reverse_reverse]
  intro c isFirst
  rw [List.head?_reverse] at isFirst
  exact last c isFirst

theorem head?_trimChars {cs : List Char} {c : Char} (first : (trimChars cs).head? = some c) :
    isWhitespace c = false := by
  have suffix := List.dropWhile_suffix isWhitespace (l := (cs.dropWhile isWhitespace).reverse)
  obtain ⟨back, parts⟩ := List.reverse_prefix.mpr suffix
  rw [List.reverse_reverse] at parts
  have head := List.head?_dropWhile_not isWhitespace cs
  rw [← parts, List.head?_append] at head
  rw [trimChars] at first
  rw [first] at head
  exact head

theorem trimChars_trimChars (cs : List Char) : trimChars (trimChars cs) = trimChars cs :=
  trimChars_of_ends (fun _ => head?_trimChars) fun _ => getLast?_trimChars

theorem mem_of_mem_trimChars {cs : List Char} {c : Char} (member : c ∈ trimChars cs) : c ∈ cs := by
  obtain ⟨front, back, parts, _, _⟩ := exists_trimChars cs
  rw [parts]
  simp [member]

theorem trimChars_newline {cs : List Char} (solid : ∀ c ∈ cs, isWhitespace c = false) :
    trimChars (cs ++ ['\n']) = cs := by
  cases cs with
  | nil => decide
  | cons c rest =>
      have kept := trimChars_solid solid
      have first : ¬ isWhitespace c = true := by
        simp [solid c (by simp)]
      rw [trimChars, List.dropWhile_cons_of_neg first] at kept
      rw [trimChars, List.cons_append, List.dropWhile_cons_of_neg first, ← List.cons_append,
        List.reverse_concat, List.dropWhile_cons_of_pos (by decide)]
      exact kept

end AnanicyRs.Lib.Text
