import AnanicyRs.Lib.Utf8
import AnanicyRs.Platform.Procfs

/-!
Contract: what procfs says of a process, byte for byte, and who can read it.

Owns `parse_stat` of `crates/ananicy-platform/src/process_info.rs`, the contents of
`/proc/<pid>/stat` and `/proc/<pid>/status` for a name of any bytes, and the readers over
those bytes. The readers of `procfs.rs` take text, so the file is decoded first, and a
file with a broken byte is not read at all.

Nothing in a name that is text confuses the readers, its own parentheses and line breaks
included; a name that is not text keeps every one of them from answering
(`identityRead_iff`).
-/

set_option autoImplicit false

namespace AnanicyRs.Platform.ProcessInfo

open AnanicyRs.Lib
open AnanicyRs.Lib.Utf8
open AnanicyRs.Platform

/-! ## Readers -/

/-- `fs::read_to_string`, on the bytes of the file. -/
def readToString (content : List UInt8) : Option String := fromUtf8 content

/-- `parse_stat`; `none` where the slice would panic. -/
def parseStat (stat : List Char) : Option (Option (List Char)) :=
  match Text.find '(' stat, Text.rfind ')' stat with
  | some start, some stop => (Text.slice stat (start + 1) stop).map some
  | _, _ => some none

/-- The `stat_name` of `ProcessInfo::from_parts`. -/
def statName (content : List UInt8) : Option String :=
  let stat := Text.trimChars ((readToString content).getD "").toList
  (parseStat stat).map fun name => String.ofList (name.getD [])

/-! ## What the kernel prints -/

/-- The name of a process: what fits beside the terminator. -/
structure Comm where
  bytes : List UInt8
  short : bytes.length ≤ 15
  noNul : 0 ∉ bytes

/-- Where a name must stay on one line, a line break and a backslash are escaped. -/
def escapeByte (byte : UInt8) : List UInt8 :=
  if byte = 0x0A then [0x5C, 0x6E] else if byte = 0x5C then [0x5C, 0x5C] else [byte]

def escapeName (bytes : List UInt8) : List UInt8 := bytes.flatMap escapeByte

def decimal (n : Int) : List Char :=
  match n with
  | .ofNat n => Nat.toDigits 10 n
  | .negSucc n => '-' :: Nat.toDigits 10 (n + 1)

/-- What is printed of a process beside its name. -/
structure Printed where
  pid : Nat
  /-- The third field. -/
  state : Char
  stateLetter : state.isAlpha = true
  /-- The fields from the fourth on. -/
  fields : List Int
  startTime : Nat
  isStartTime : fields[18]? = some (Int.ofNat startTime)
  startTimeFits : startTime < 2 ^ 64
  /-- The lines of the status between the name and the thread group. -/
  between : List (List Char)
  oneLine : ∀ line ∈ between, '\n' ∉ line
  otherKey : ∀ line ∈ between, ¬ "Tgid:".toList <+: line
  tgid : Nat
  tgidFits : tgid < 2 ^ 31
  /-- The status behind the thread group. -/
  rest : List Char

def Printed.words (printed : Printed) : List (List Char) :=
  [printed.state] :: printed.fields.map decimal

/-- `/proc/<pid>/stat`. -/
def statContent (comm : List UInt8) (printed : Printed) : List UInt8 :=
  encode (Nat.toDigits 10 printed.pid ++ [' ', '(']) ++ comm ++
    encode (')' :: (Text.spaced printed.words ++ ['\n']))

def printLines (lines : List (List Char)) : List Char := (lines.map (· ++ ['\n'])).flatten

/-- `/proc/<pid>/status`. -/
def statusContent (comm : List UInt8) (printed : Printed) : List UInt8 :=
  encode "Name:\t".toList ++ escapeName comm ++
    encode ('\n' :: (printLines printed.between ++
      (Procfs.tgidLine printed.tgid ++ '\n' :: printed.rest)))

/-! ## Names that are text -/

def escapeChar (c : Char) : List Char :=
  if c = '\n' then ['\\', 'n'] else if c = '\\' then ['\\', '\\'] else [c]

theorem escapeName_encodeChar (c : Char) :
    escapeName (String.utf8EncodeChar c) = encode (escapeChar c) := by
  by_cases isBreak : c = '\n'
  · subst isBreak
    decide
  · by_cases isBackslash : c = '\\'
    · subst isBackslash
      decide
    · have plain : ∀ byte ∈ String.utf8EncodeChar c, escapeByte byte = [byte] := by
        intro byte member
        have notCode : ∀ code : UInt8, code.toNat < 128 → byte = code → c.toNat = code.toNat := by
          rintro code ascii rfl
          exact (utf8EncodeChar_of_ascii member ascii).2
        have notBreak : byte ≠ 0x0A := by
          intro isCode
          exact isBreak (Char.toNat_inj.mp (notCode 0x0A (by decide) isCode))
        have notBackslash : byte ≠ 0x5C := by
          intro isCode
          exact isBackslash (Char.toNat_inj.mp (notCode 0x5C (by decide) isCode))
        rw [escapeByte, if_neg notBreak, if_neg notBackslash]
      rw [escapeChar, if_neg isBreak, if_neg isBackslash, escapeName,
        List.flatMap_congr plain, List.flatMap_singleton', encode_cons, encode_nil, List.append_nil]

theorem escapeName_encode (text : List Char) :
    escapeName (encode text) = encode (text.flatMap escapeChar) := by
  induction text with
  | nil => rfl
  | cons c rest inductionHypothesis =>
      rw [encode_cons, escapeName, List.flatMap_append, ← escapeName, ← escapeName,
        inductionHypothesis, escapeName_encodeChar, List.flatMap_cons, encode_append]

theorem break_notMem_escaped (text : List Char) : '\n' ∉ text.flatMap escapeChar := by
  intro member
  obtain ⟨c, _, inEscape⟩ := List.mem_flatMap.mp member
  unfold escapeChar at inEscape
  split at inEscape
  next => exact absurd inEscape (by decide)
  next notBreak =>
    split at inEscape
    next => exact absurd inEscape (by decide)
    next => exact notBreak (List.mem_singleton.mp inEscape).symm

/-! ## Reading back -/

def SolidWord (word : List Char) : Prop :=
  word ≠ [] ∧ (∀ c ∈ word, Text.isWhitespace c = false) ∧ ')' ∉ word

theorem solidWord_digits (n : Nat) : SolidWord (Nat.toDigits 10 n) := by
  refine ⟨Nat.toDigits_ne_nil, ?_, ?_⟩
  · intro c member
    exact Text.isWhitespace_of_digit (Text.digit_of_mem_toDigits member)
  · intro member
    exact absurd (Text.digit_of_mem_toDigits member).1 (by decide)

theorem solidWord_decimal (n : Int) : SolidWord (decimal n) := by
  cases n with
  | ofNat n => exact solidWord_digits n
  | negSucc n =>
      obtain ⟨_, solid, noParen⟩ := solidWord_digits (n + 1)
      refine ⟨List.cons_ne_nil _ _, ?_, ?_⟩
      · intro c member
        rcases List.mem_cons.mp member with rfl | inDigits
        · decide
        · exact solid c inDigits
      · intro member
        rcases List.mem_cons.mp member with isMinus | inDigits
        · exact absurd isMinus (by decide)
        · exact noParen inDigits

theorem isWhitespace_of_isAlpha {c : Char} (letter : c.isAlpha = true) :
    Text.isWhitespace c = false := by
  have ranges : (decide (65 ≤ c.val ∧ c.val ≤ 90) ||
      decide (97 ≤ c.val) && decide (c.val ≤ 122)) = true := letter
  have code : (65 ≤ c.toNat ∧ c.toNat ≤ 90) ∨ (97 ≤ c.toNat ∧ c.toNat ≤ 122) := by
    simpa [UInt32.le_iff_toNat_le] using ranges
  simp only [Text.isWhitespace, Bool.or_eq_false_iff, Bool.and_eq_false_iff,
    decide_eq_false_iff_not, beq_eq_false_iff_ne]
  omega

section ReadBack

variable (printed : Printed)

theorem solidWord_words : ∀ word ∈ printed.words, SolidWord word := by
  intro word member
  rcases List.mem_cons.mp member with rfl | inFields
  · have letter := printed.stateLetter
    refine ⟨by simp, ?_, ?_⟩
    · intro c isState
      rw [List.mem_singleton.mp isState]
      exact isWhitespace_of_isAlpha letter
    · intro isState
      rw [← List.mem_singleton.mp isState] at letter
      exact absurd letter (by decide)
  · obtain ⟨field, _, rfl⟩ := List.mem_map.mp inFields
    exact solidWord_decimal field

theorem rparen_notMem_words : ')' ∉ Text.spaced printed.words ++ ['\n'] := by
  simp only [Text.spaced, List.mem_append, List.mem_flatten, List.mem_map, List.mem_singleton,
    not_or]
  refine ⟨?_, by decide⟩
  rintro ⟨_, ⟨word, member, rfl⟩, inWord⟩
  rcases List.mem_cons.mp inWord with isBlank | inside
  · exact absurd isBlank (by decide)
  · exact (solidWord_words printed word member).2.2 inside

/-- The stat of a process whose name is text. -/
def statText (name : List Char) : List Char :=
  Nat.toDigits 10 printed.pid ++ [' ', '('] ++ name ++
    ')' :: (Text.spaced printed.words ++ ['\n'])

theorem read_statContent (name : List Char) :
    readToString (statContent (encode name) printed) = some (String.ofList (statText printed name)) := by
  have encoded : statContent (encode name) printed = encode (statText printed name) := by
    simp only [statContent, statText, encode_append]
  rw [readToString, encoded, fromUtf8_encode]

theorem getStartTime_statContent (name : List Char) :
    Procfs.getStartTime (readToString (statContent (encode name) printed)) =
      some printed.startTime := by
  have words : Text.splitWhitespaceChars (Text.spaced printed.words ++ ['\n']) = printed.words :=
    Text.splitWhitespaceChars_spaced fun word member =>
      ⟨(solidWord_words printed word member).1, (solidWord_words printed word member).2.1⟩
  have field : printed.words[19]? = some (Nat.toDigits 10 printed.startTime) := by
    rw [Printed.words, List.getElem?_cons_succ, List.getElem?_map, printed.isStartTime]
    rfl
  have parts : (String.ofList (statText printed name)).toList =
      (Nat.toDigits 10 printed.pid ++ [' ', '('] ++ name) ++
        ')' :: (Text.spaced printed.words ++ ['\n']) := String.toList_ofList
  rw [read_statContent, Procfs.getStartTime_of_rest parts (rparen_notMem_words printed), words,
    field]
  exact Text.parseU64Chars_toDigits printed.startTimeFits

/-- Nothing but the final line break is trimmed. -/
theorem trim_statText (name : List Char) :
    Text.trimChars (statText printed name) =
      Nat.toDigits 10 printed.pid ++ [' ', '('] ++ name ++ ')' :: Text.spaced printed.words := by
  have text : statText printed name =
      (Nat.toDigits 10 printed.pid ++ [' ', '('] ++ name ++ ')' :: Text.spaced printed.words) ++
        ['\n'] := by
    simp [statText]
  rw [text, Text.trimChars_concat_blank (by decide)]
  apply Text.trimChars_of_ends
  · intro c isFirst
    obtain ⟨first, more, digits, _⟩ := Text.head_toDigits printed.pid
    rw [digits] at isFirst
    have isDigit : c ∈ Nat.toDigits 10 printed.pid := by
      rw [digits]
      simp only [List.cons_append, List.head?_cons, Option.some.injEq] at isFirst
      simp [isFirst]
    exact Text.isWhitespace_of_digit (Text.digit_of_mem_toDigits isDigit)
  · intro c isLast
    obtain ⟨word, isWord⟩ : ∃ word, printed.words.getLast? = some word := by
      rw [Printed.words, List.getLast?_cons]
      exact ⟨_, rfl⟩
    have solid := solidWord_words printed word (List.mem_of_getLast? isWord)
    have wordLast : (Text.spaced printed.words).getLast? = word.getLast? := by
      obtain ⟨front, split⟩ := List.getLast?_eq_some_iff.mp isWord
      rw [split, Text.spaced, List.map_append, List.flatten_append, List.map_singleton,
        List.flatten_singleton, List.getLast?_append, List.getLast?_cons]
      cases last : word.getLast? with
      | none => exact absurd (List.getLast?_eq_none_iff.mp last) solid.1
      | some other => rfl
    rw [List.getLast?_append, List.getLast?_cons, wordLast] at isLast
    cases last : word.getLast? with
    | none => exact absurd (List.getLast?_eq_none_iff.mp last) solid.1
    | some other =>
        rw [last] at isLast
        simp only [Option.getD_some, Option.some_or, Option.some.injEq] at isLast
        rw [← isLast]
        exact solid.2.1 other (List.mem_of_getLast? last)

theorem parseStat_printed {pid name rest : List Char} (digits : '(' ∉ pid) (fresh : ')' ∉ rest) :
    parseStat (pid ++ '(' :: (name ++ ')' :: rest)) = some (some name) := by
  have size : Text.byteLen ['('] = 1 := by
    decide
  have whole : pid ++ '(' :: (name ++ ')' :: rest) = (pid ++ '(' :: name) ++ ')' :: rest := by
    simp
  have last : Text.rfind ')' (pid ++ '(' :: (name ++ ')' :: rest)) =
      some (Text.byteLen (pid ++ '(' :: name)) := by
    rw [whole]
    exact Text.rfind_append fresh _
  have sliced := Text.slice_append (pid ++ ['(']) name (')' :: rest)
  rw [Text.byteLen_append, size, List.append_assoc, List.append_assoc, List.singleton_append,
    List.append_assoc, List.singleton_append] at sliced
  rw [parseStat, Text.find_append digits, last]
  simp only [sliced, Option.map_some]

theorem statName_statContent (name : List Char) :
    statName (statContent (encode name) printed) = some (String.ofList name) := by
  have noParen : '(' ∉ Nat.toDigits 10 printed.pid ++ [' '] := by
    simp only [List.mem_append, List.mem_singleton, not_or]
    refine ⟨fun member => ?_, by decide⟩
    exact absurd (Text.digit_of_mem_toDigits member).1 (by decide)
  have noClose : ')' ∉ Text.spaced printed.words := by
    intro member
    exact rparen_notMem_words printed (List.mem_append_left _ member)
  have text : Nat.toDigits 10 printed.pid ++ [' ', '('] ++ name ++ ')' :: Text.spaced printed.words =
      (Nat.toDigits 10 printed.pid ++ [' ']) ++ '(' :: (name ++ ')' :: Text.spaced printed.words) := by
    simp
  rw [statName, read_statContent, Option.getD_some, String.toList_ofList]
  simp only [trim_statText]
  rw [text, parseStat_printed noParen noClose]
  rfl

theorem linesChars_printLines {lines : List (List Char)} (oneLine : ∀ line ∈ lines, '\n' ∉ line)
    (rest : List Char) : Text.linesChars (printLines lines ++ rest) =
      lines.map Text.stripReturn ++ Text.linesChars rest := by
  induction lines with
  | nil => rfl
  | cons line others inductionHypothesis =>
      have text : printLines (line :: others) ++ rest =
          line ++ '\n' :: (printLines others ++ rest) := by
        simp [printLines]
      rw [text, Text.linesChars_terminated _ line (oneLine line (by simp)),
        inductionHypothesis fun other member => oneLine other (by simp [member])]
      rfl

theorem stripReturn_extends (line : List Char) : Text.stripReturn line <+: line := by
  rcases Text.stripReturn_cases line with ⟨_, kept⟩ | cut
  · exact ⟨[], by rw [kept, List.append_nil]⟩
  · exact ⟨_, cut.symm⟩

/-- The lines in front of the thread group, the name first. -/
def frontLines (name : List Char) : List (List Char) :=
  ("Name:\t".toList ++ name.flatMap escapeChar) :: printed.between

theorem break_notMem_frontLines (name : List Char) :
    ∀ line ∈ frontLines printed name, '\n' ∉ line := by
  intro line member
  rcases List.mem_cons.mp member with rfl | inBetween
  · intro inName
    rcases List.mem_append.mp inName with inKey | inEscape
    · exact absurd inKey (by decide)
    · exact break_notMem_escaped name inEscape
  · exact printed.oneLine line inBetween

theorem otherKey_frontLines (name : List Char) :
    ∀ line ∈ frontLines printed name, ¬ "Tgid:".toList <+: line := by
  intro line member
  rcases List.mem_cons.mp member with rfl | inBetween
  · intro isKey
    obtain ⟨tail, parts⟩ := isKey
    have spelled : "Tgid:".toList = 'T' :: "gid:".toList := by
      decide
    have key : "Name:\t".toList = 'N' :: "ame:\t".toList := by
      decide
    simp only [spelled, key, List.cons_append] at parts
    exact absurd (List.cons.inj parts).1 (by decide)
  · exact printed.otherKey line inBetween

theorem statusContent_encode (name : List Char) :
    statusContent (encode name) printed =
      encode (printLines (frontLines printed name) ++
        (Procfs.tgidLine printed.tgid ++ '\n' :: printed.rest)) := by
  rw [statusContent, escapeName_encode, ← encode_append, ← encode_append]
  congr 1
  simp [printLines, frontLines]

theorem lines_statusText (name : List Char) :
    Text.lines (String.ofList (printLines (frontLines printed name) ++
        (Procfs.tgidLine printed.tgid ++ '\n' :: printed.rest))) =
      ((frontLines printed name).map Text.stripReturn).map String.ofList ++
        String.ofList (Procfs.tgidLine printed.tgid) ::
          (Text.linesChars printed.rest).map String.ofList := by
  have tgidPlain := Text.linesChars_plain
    (Procfs.notMem_tgidLine printed.tgid (by decide) (by decide))
    (Procfs.notMem_tgidLine printed.tgid (by decide) (by decide)) printed.rest
  rw [Text.lines, String.toList_ofList, linesChars_printLines (break_notMem_frontLines printed name),
    tgidPlain, List.map_append]
  rfl

theorem getTgid_statusContent (name : List Char) :
    Procfs.getTgid (readToString (statusContent (encode name) printed)) =
      some (Int32.ofNat printed.tgid) := by
  rw [readToString, statusContent_encode, fromUtf8_encode]
  apply Procfs.getTgid_of_lines (lines_statusText printed name) _ printed.tgidFits
  intro line member
  obtain ⟨_, inStripped, rfl⟩ := List.mem_map.mp member
  obtain ⟨shown, inFront, rfl⟩ := List.mem_map.mp inStripped
  have text : (String.ofList (Text.stripReturn shown)).toList = Text.stripReturn shown :=
    String.toList_ofList
  rw [Bool.eq_false_iff, ne_eq, Text.startsWith, text, List.isPrefixOf_iff_prefix]
  intro starts
  exact otherKey_frontLines printed name shown inFront (starts.trans (stripReturn_extends shown))

end ReadBack

/-! ## Names that are not text -/

/-- A stat is text only if the name in it is. -/
theorem isUtf8_of_statContent {comm : List UInt8} {printed : Printed}
    (valid : IsUtf8 (statContent comm printed)) : IsUtf8 comm := by
  have parenBytes : String.utf8EncodeChar '(' = [0x28] ∧ String.utf8EncodeChar ')' = [0x29] := by
    decide
  have text : statContent comm printed =
      encode (Nat.toDigits 10 printed.pid ++ [' ']) ++ 0x28 :: (comm ++ 0x29 ::
        encode (Text.spaced printed.words ++ ['\n'])) := by
    simp [statContent, parenBytes.1, parenBytes.2]
  rw [text] at valid
  exact (isUtf8_cut (by decide) (isUtf8_cut (by decide) valid).2).1

/-- An escaped name is text only if the name is. The induction is on what is left to escape,
with the bytes since the last escaped one before it. -/
theorem isUtf8_of_escapeName {before bytes : List UInt8}
    (valid : IsUtf8 (before ++ escapeName bytes)) : IsUtf8 (before ++ bytes) := by
  induction bytes generalizing before with
  | nil => exact valid
  | cons byte rest inductionHypothesis =>
      have escaped : escapeName (byte :: rest) = escapeByte byte ++ escapeName rest := rfl
      rw [escaped] at valid
      have ofEscape : ∀ {letter : UInt8} {c : Char}, escapeByte byte = [0x5C, letter] →
          letter.toNat < 128 → encode [c] = [byte] → IsUtf8 (before ++ byte :: rest) := by
        intro letter c isEscape ascii isChar
        rw [isEscape] at valid
        obtain ⟨⟨text, isText⟩, validRest⟩ := isUtf8_cut (by decide) valid
        have letterFirst : IsUtf8 ([] ++ letter :: escapeName rest) := validRest
        have restValid : IsUtf8 ([] ++ escapeName rest) := (isUtf8_cut ascii letterFirst).2
        obtain ⟨others, isOthers⟩ := inductionHypothesis restValid
        refine ⟨text ++ [c] ++ others, ?_⟩
        rw [encode_append, encode_append, isChar, ← isText, ← isOthers]
        simp
      by_cases isBreak : byte = 0x0A
      · subst isBreak
        exact @ofEscape 0x6E '\n' (by decide) (by decide) (by decide)
      · by_cases isBackslash : byte = 0x5C
        · subst isBackslash
          exact @ofEscape 0x5C '\\' (by decide) (by decide) (by decide)
        · rw [escapeByte, if_neg isBreak, if_neg isBackslash, ← List.append_assoc] at valid
          have grown := inductionHypothesis valid
          rwa [List.append_assoc] at grown

/-- A status is text only if the name in it is. -/
theorem isUtf8_of_statusContent {comm : List UInt8} {printed : Printed}
    (valid : IsUtf8 (statusContent comm printed)) : IsUtf8 comm := by
  have breakBytes : String.utf8EncodeChar '\n' = [0x0A] := by
    decide
  have key : encode "Name:\t".toList = encode "Name:".toList ++ [0x09] := by
    decide
  have text : statusContent comm printed = encode "Name:".toList ++ 0x09 :: (escapeName comm ++
      0x0A :: encode (printLines printed.between ++
        (Procfs.tgidLine printed.tgid ++ '\n' :: printed.rest))) := by
    rw [statusContent, key, encode_cons, breakBytes]
    simp
  rw [text] at valid
  have escaped : IsUtf8 ([] ++ escapeName comm) :=
    (isUtf8_cut (by decide) (isUtf8_cut (by decide) valid).2).1
  exact isUtf8_of_escapeName escaped

/-- The start time is read exactly of a process whose name is text. -/
theorem getStartTime_eq_some_iff {comm : List UInt8} {printed : Printed} {startTime : Nat} :
    Procfs.getStartTime (readToString (statContent comm printed)) = some startTime ↔
      IsUtf8 comm ∧ startTime = printed.startTime := by
  constructor
  · intro read
    cases text : readToString (statContent comm printed) with
    | none =>
        rw [text] at read
        exact absurd read (by simp [Procfs.getStartTime])
    | some stat =>
        have isText := isUtf8_of_statContent (isUtf8_of_fromUtf8 text)
        obtain ⟨name, rfl⟩ := isText
        rw [getStartTime_statContent] at read
        exact ⟨⟨name, rfl⟩, (Option.some.inj read).symm⟩
  · rintro ⟨⟨name, rfl⟩, rfl⟩
    exact getStartTime_statContent printed name

/-- The thread group is read exactly of a process whose name is text. -/
theorem getTgid_eq_some_iff {comm : List UInt8} {printed : Printed} {tgid : Int32} :
    Procfs.getTgid (readToString (statusContent comm printed)) = some tgid ↔
      IsUtf8 comm ∧ tgid = Int32.ofNat printed.tgid := by
  constructor
  · intro read
    cases text : readToString (statusContent comm printed) with
    | none =>
        rw [text] at read
        exact absurd read (by simp [Procfs.getTgid])
    | some status =>
        have isText := isUtf8_of_statusContent (isUtf8_of_fromUtf8 text)
        obtain ⟨name, rfl⟩ := isText
        rw [getTgid_statusContent] at read
        exact ⟨⟨name, rfl⟩, (Option.some.inj read).symm⟩
  · rintro ⟨⟨name, rfl⟩, rfl⟩
    exact getTgid_statusContent printed name

/-- What a process is told apart by, and its name, as the readers answer them. -/
structure IdentityRead (comm : Comm) (printed : Printed) : Prop where
  startTime : Procfs.getStartTime (readToString (statContent comm.bytes printed)) =
    some printed.startTime
  tgid : Procfs.getTgid (readToString (statusContent comm.bytes printed)) =
    some (Int32.ofNat printed.tgid)
  name : ∃ name, statName (statContent comm.bytes printed) = some name ∧
    encode name.toList = comm.bytes

/-- For every name, the identity of the process is read exactly when the name is UTF-8. -/
theorem identityRead_iff (comm : Comm) (printed : Printed) :
    IdentityRead comm printed ↔ IsUtf8 comm.bytes := by
  constructor
  · intro read
    exact (getStartTime_eq_some_iff.mp read.startTime).1
  · rintro ⟨name, isName⟩
    rw [← String.toList_ofList (l := name)] at isName
    refine ⟨?_, ?_, String.ofList name, ?_, isName.symm⟩
    · rw [isName]
      exact getStartTime_statContent printed _
    · rw [isName]
      exact getTgid_statusContent printed _
    · rw [isName, statName_statContent, String.ofList_toList]

/-- Eight accented letters take 16 bytes, and the kernel keeps 15 of them. -/
def cutName : Comm where
  bytes := (encode (List.replicate 8 (Char.ofNat 0xE9))).take 15
  short := by decide
  noNul := by decide

def sleeper : Printed where
  pid := 4242
  state := 'S'
  stateLetter := by decide
  fields := [1, 4242, 4242, 0, -1, 4194304, 100, 0, 0, 0, 5, 3, 0, 0, 20, 0, 1, 0, 8765, 9007104]
  startTime := 8765
  isStartTime := by decide
  startTimeFits := by decide
  between := ["Umask:\t0022".toList, "State:\tS (sleeping)".toList]
  oneLine := by decide
  otherKey := by decide
  tgid := 4242
  tgidFits := by decide
  rest := "Ngid:\t0\n".toList

/-- The process has no start time, no thread group and no name. -/
theorem cut_name_hides_process :
    Procfs.getStartTime (readToString (statContent cutName.bytes sleeper)) = none ∧
      Procfs.getTgid (readToString (statusContent cutName.bytes sleeper)) = none ∧
      statName (statContent cutName.bytes sleeper) = some "" ∧ ¬ IdentityRead cutName sleeper := by
  have unread : Procfs.getStartTime (readToString (statContent cutName.bytes sleeper)) = none := by
    decide +kernel
  refine ⟨unread, by decide +kernel, by decide +kernel, fun read => ?_⟩
  rw [read.startTime] at unread
  exact absurd unread (by simp)

end AnanicyRs.Platform.ProcessInfo
