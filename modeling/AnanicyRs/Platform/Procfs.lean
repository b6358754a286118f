import AnanicyRs.Lib.Text

/-!
Contract: the procfs readers of `crates/ananicy-platform/src/procfs.rs` that identify a
task.

Owns `get_start_time` and `get_tgid` as functions of the text read, and where in the text
they look: behind the last parenthesis (`getStartTime_of_rest`), and in the first line with
the key (`getTgid_of_lines`).

Does not own the whole of `/proc/<pid>/stat` and `/proc/<pid>/status` (`ProcessInfo`), the
name heuristics of `get_command_from_pid` or the `/proc` walk.
-/

set_option autoImplicit false

namespace AnanicyRs.Platform.Procfs

open AnanicyRs.Lib.Text

/-! ## Readers -/

/-- `get_start_time`, on what reading `/proc/<pid>/stat` gave. -/
def getStartTime (stat : Option String) : Option Nat := do
  let text ← stat
  let rparen ← rfind ')' text.toList
  let fields ← sliceFrom text.toList (rparen + 1)
  let field ← (splitWhitespaceChars fields)[19]?
  parseU64Chars field

/-- `get_tgid`, on what reading `/proc/<pid>/status` gave. -/
def getTgid (status : Option String) : Option Int32 := do
  let text ← status
  let line ← (lines text).find? (startsWith · "Tgid:")
  let field ← (splitWhitespace line)[1]?
  parseI32 field

/-- The fields are counted behind the last parenthesis. -/
theorem getStartTime_of_rest {text : String} {left rest : List Char}
    (parts : text.toList = left ++ ')' :: rest) (fresh : ')' ∉ rest) :
    getStartTime (some text) = ((splitWhitespaceChars rest)[19]?).bind parseU64Chars := by
  have found : rfind ')' text.toList = some (byteLen left) := by
    rw [parts]
    exact rfind_append fresh left
  have parenSize : byteLen [')'] = 1 := by
    decide
  have sliced := sliceFrom_append (left ++ [')']) rest
  rw [List.append_assoc, List.singleton_append, ← parts, byteLen_append, parenSize] at sliced
  simp only [getStartTime, Option.bind_eq_bind, Option.bind_some, found, sliced]

/-! ## What the kernel prints -/

def tgidLine (tgid : Nat) : List Char := "Tgid:\t".toList ++ Nat.toDigits 10 tgid

theorem notMem_tgidLine (tgid : Nat) {c : Char} (notKey : c ∉ "Tgid:\t".toList)
    (notDigit : ¬ '0' ≤ c) : c ∉ tgidLine tgid := by
  intro member
  rcases List.mem_append.mp member with inKey | digit
  · exact notKey inKey
  · exact notDigit (digit_of_mem_toDigits digit).1

theorem startsWith_tgidLine (tgid : Nat) :
    startsWith (String.ofList (tgidLine tgid)) "Tgid:" = true := by
  have key : "Tgid:\t".toList = "Tgid:".toList ++ ['\t'] := by
    decide
  have text : (String.ofList (tgidLine tgid)).toList = tgidLine tgid := String.toList_ofList
  rw [startsWith, text, List.isPrefixOf_iff_prefix, tgidLine, key, List.append_assoc]
  exact List.prefix_append _ _

/-- The first line with the key is read. -/
theorem getTgid_of_lines {text : String} {front rest : List String} {tgid : Nat}
    (split : lines text = front ++ String.ofList (tgidLine tgid) :: rest)
    (others : ∀ line ∈ front, startsWith line "Tgid:" = false) (bound : tgid < 2 ^ 31) :
    getTgid (some text) = some (Int32.ofNat tgid) := by
  have found : (lines text).find? (startsWith · "Tgid:") = some (String.ofList (tgidLine tgid)) := by
    rw [List.find?_eq_some_iff_append]
    exact ⟨startsWith_tgidLine tgid, front, rest, split,
      fun line member => by simp [others line member]⟩
  have words : (splitWhitespace (String.ofList (tgidLine tgid)))[1]? =
      some (String.ofList (Nat.toDigits 10 tgid)) := by
    have solid : ∀ c ∈ Nat.toDigits 10 tgid, isWhitespace c = false :=
      fun c member => isWhitespace_of_digit (digit_of_mem_toDigits member)
    have letters : ("Tgid:".toList.all fun c => !isWhitespace c) = true := by
      decide
    have oneWord : ∀ c ∈ "Tgid:".toList, isWhitespace c = false := by
      intro c member
      simpa using List.all_eq_true.mp letters c member
    have key : "Tgid:\t".toList = "Tgid:".toList ++ ['\t'] := by
      decide
    rw [splitWhitespace, String.toList_ofList, tgidLine, key, List.append_assoc,
      List.singleton_append, splitWhitespaceChars_word (by decide) _ _ (by decide) oneWord,
      splitWhitespaceChars_last _ Nat.toDigits_ne_nil solid]
    rfl
  simp only [getTgid, Option.bind_eq_bind, Option.bind_some, found, words, parseI32,
    String.toList_ofList]
  exact parseI32Chars_toDigits bound

end AnanicyRs.Platform.Procfs
