import AnanicyRs.Lib.Utf8

/-!
Contract: the names `get_command_from_pid` of `crates/ananicy-platform/src/procfs.rs`
makes of what it reads.

Owns `arg_basename`, `resolve_argv_name` and `strip_deleted_suffix`, the two arguments
taken from `/proc/<pid>/cmdline`, the file name of an `exe` link and the name in `comm`.
Arguments and links are bytes and are decoded lossily; `comm` is text when it was read at
all.

Does not own the decision which of the three is used.
-/

set_option autoImplicit false

namespace AnanicyRs.Platform.CommandName

open AnanicyRs.Lib
open AnanicyRs.Lib.Utf8

/-! ## Names of arguments -/

/-- A Windows path has its separators turned; anything else may hold a backslash. -/
def turned (arg : List Char) : List Char :=
  if ".exe".toList.isSuffixOf arg then arg.map fun c => if c = '\\' then '/' else c else arg

/-- `arg_basename`. The slice starts behind an ASCII character, so it is always there. -/
def argBasename (arg : List Char) : List Char :=
  let name := turned arg
  match Text.rfind '/' name with
  | some slash => (Text.sliceFrom name (slash + 1)).getD []
  | none => name

/-- `resolve_argv_name`. -/
def resolveArgvName (argv0 : List Char) (script comm : Option (List Char)) : List Char :=
  let name := argBasename argv0
  match script, comm with
  | some script, some comm =>
      let comm := Text.trimChars comm
      if comm ≠ [] ∧ comm ≠ name ∧ comm.isPrefixOf (argBasename script) = true then
        argBasename script
      else name
  | _, _ => name

/-- The first two arguments that are not empty. -/
def firstArgs (cmdline : List UInt8) : List (List UInt8) :=
  ((cmdline.splitOn 0).filter (· ≠ [])).take 2

/-- The name from the command line; `comm` is read only where there is a second argument. -/
def nameFromCmdline (cmdline : Option (List UInt8)) (comm : Option String) : Option String :=
  match cmdline with
  | none => none
  | some bytes =>
      match firstArgs bytes with
      | [] => none
      | argv0 :: rest =>
          let script := rest.head?.map fun bytes => (fromUtf8Lossy bytes).toList
          let comm := script.map fun _ => (comm.getD "").toList
          some (String.ofList (resolveArgvName (fromUtf8Lossy argv0).toList script comm))

/-! ## Names of executables -/

/-- The text before the first occurrence of `needle`. -/
def cutAt (needle : List Char) : List Char → List Char
  | [] => []
  | c :: rest => if needle.isPrefixOf (c :: rest) then [] else c :: cutAt needle rest

def deletedMarker : List Char := " (deleted)".toList

def stripDeletedSuffix (name : List Char) : List Char := cutAt deletedMarker name

/-- `Path::file_name`, on the bytes of a path. -/
def fileName (path : List UInt8) : Option (List UInt8) :=
  ((path.splitOn 0x2F).filter fun part => part ≠ [] ∧ part ≠ [0x2E]).getLast?.filter
    (· ≠ [0x2E, 0x2E])

/-- The name from the target of `/proc/<pid>/exe`. -/
def nameFromExe (target : List UInt8) : Option String :=
  (fileName target).map fun name =>
    String.ofList (stripDeletedSuffix (fromUtf8Lossy name).toList)

/-- The name from `/proc/<pid>/comm`. -/
def nameFromComm (comm : Option String) : String :=
  match comm with
  | some text => if Text.trim text ≠ "" then Text.trim text else "<unknown>"
  | none => "<unknown>"

/-! ## What the names are -/

section Basename

variable {arg : List Char}

theorem argBasename_of_slash {left right : List Char} (split : turned arg = left ++ '/' :: right)
    (fresh : '/' ∉ right) : argBasename arg = right := by
  have slashSize : Text.byteLen ['/'] = 1 := by
    decide
  have sliced := Text.sliceFrom_append (left ++ ['/']) right
  rw [List.append_assoc, List.singleton_append, Text.byteLen_append, slashSize] at sliced
  simp only [argBasename, split, Text.rfind_append fresh left, sliced, Option.getD_some]

theorem argBasename_of_noSlash (fresh : '/' ∉ turned arg) : argBasename arg = turned arg := by
  cases found : Text.rfind '/' (turned arg) with
  | none => simp only [argBasename, found]
  | some offset =>
      obtain ⟨left, right, split, _, _⟩ := Text.rfind_eq_some found
      exact absurd (by simp [split]) fresh

theorem slash_notMem_argBasename (arg : List Char) : '/' ∉ argBasename arg := by
  cases found : Text.rfind '/' (turned arg) with
  | none =>
      have fresh := Text.rfind_eq_some.rfind_eq_none found
      rw [argBasename_of_noSlash fresh]
      exact fresh
  | some offset =>
      obtain ⟨left, right, split, fresh, _⟩ := Text.rfind_eq_some found
      rw [argBasename_of_slash split fresh]
      exact fresh

end Basename

/-- The script names the process only where `comm` names the script. -/
theorem resolveArgvName_cases (argv0 : List Char) (script comm : Option (List Char)) :
    resolveArgvName argv0 script comm = argBasename argv0 ∨
      ∃ text name, script = some text ∧ comm = some name ∧ Text.trimChars name ≠ [] ∧
        Text.trimChars name <+: argBasename text ∧
          resolveArgvName argv0 script comm = argBasename text := by
  unfold resolveArgvName
  split
  next text name =>
    by_cases named : Text.trimChars name ≠ [] ∧ Text.trimChars name ≠ argBasename argv0 ∧
        (Text.trimChars name).isPrefixOf (argBasename text) = true
    · right
      exact ⟨text, name, rfl, rfl, named.1, List.isPrefixOf_iff_prefix.mp named.2.2, if_pos named⟩
    · left
      exact if_neg named
  next => exact .inl rfl

theorem firstArgs_one {arg : List UInt8} (nonempty : arg ≠ []) (noNul : 0 ∉ arg) :
    firstArgs (arg ++ [0]) = [arg] := by
  rw [firstArgs, List.splitOn_append_cons_self_of_not_mem noNul, List.splitOn_nil]
  simp [nonempty]

/-- A program started by its path alone is named by its file name. -/
theorem nameFromCmdline_path {arg left name : List Char} (split : turned arg = left ++ '/' :: name)
    (fresh : '/' ∉ name) (noNul : Char.ofNat 0 ∉ arg) (comm : Option String) :
    nameFromCmdline (some (encode arg ++ [0])) comm = some (String.ofList name) := by
  have nonempty : encode arg ≠ [] := by
    intro empty
    have isEmpty : arg = [] := by
      cases arg with
      | nil => rfl
      | cons c rest =>
          rw [encode_cons, List.append_eq_nil_iff] at empty
          exact absurd empty.1 String.utf8EncodeChar_ne_nil
    simp [isEmpty, turned] at split
  have noNulByte : (0 : UInt8) ∉ encode arg := by
    intro member
    exact noNul (mem_of_ascii_mem_encode member (by decide))
  have named : resolveArgvName (fromUtf8Lossy (encode arg)).toList none none = name := by
    rw [fromUtf8Lossy_encode, String.toList_ofList]
    exact argBasename_of_slash split fresh
  simp only [nameFromCmdline, firstArgs_one nonempty noNulByte]
  exact congrArg (fun chars => some (String.ofList chars)) named

/-- The text before an occurrence is kept when the needle occurs in it nowhere and cannot
overlap itself. -/
theorem cutAt_append {first : Char} {others : List Char} (single : first ∉ others)
    (right : List Char) :
    ∀ {text : List Char}, Text.containsChars (first :: others) text = false →
      cutAt (first :: others) (text ++ (first :: others ++ right)) = text
  | [], _ => by
      simp [cutAt]
  | c :: rest, absent => by
      rw [Text.containsChars, Bool.or_eq_false_iff] at absent
      have notHere : (first :: others).isPrefixOf (c :: rest ++ (first :: others ++ right)) =
          false := by
        rw [Bool.eq_false_iff]
        intro isPrefix
        have here := List.isPrefixOf_iff_prefix.mp isPrefix
        have before : c :: rest <+: c :: rest ++ (first :: others ++ right) :=
          List.prefix_append _ _
        rcases Nat.le_total (first :: others).length (c :: rest).length with fits | overlaps
        · have inText := List.prefix_of_prefix_length_le here before fits
          rw [List.isPrefixOf_iff_prefix.mpr inText] at absent
          exact absurd absent.1 (by decide)
        · obtain ⟨tail, isNeedle⟩ := List.prefix_of_prefix_length_le before here overlaps
          rw [← isNeedle, List.prefix_append_right_inj, isNeedle] at here
          cases tail with
          | nil =>
              rw [List.append_nil] at isNeedle
              have whole : (first :: others).isPrefixOf (c :: rest) = true := by
                rw [isNeedle]
                exact List.isPrefixOf_iff_prefix.mpr (List.prefix_refl _)
              rw [whole] at absent
              exact absurd absent.1 (by decide)
          | cons head others' =>
              have again : head = first := (List.cons_prefix_cons.mp here).1
              have isOthers : rest ++ head :: others' = others := (List.cons.inj isNeedle).2
              apply single
              rw [← isOthers, again]
              simp
      rw [List.cons_append] at notHere ⊢
      rw [cutAt, notHere, cutAt_append single right absent.2]
      rfl

theorem stripDeletedSuffix_append {name : List Char}
    (absent : Text.containsChars deletedMarker name = false) (right : List Char) :
    stripDeletedSuffix (name ++ (deletedMarker ++ right)) = name := by
  have single : ' ' ∉ "(deleted)".toList := by
    decide
  exact cutAt_append single right absent

theorem fileName_append {last : List UInt8} (noSlash : 0x2F ∉ last) (notEmpty : last ≠ [])
    (notDot : last ≠ [0x2E]) (notDots : last ≠ [0x2E, 0x2E]) (left : List UInt8) :
    fileName (left ++ 0x2F :: last) = some last := by
  rw [fileName, List.splitOn_append_cons_self, List.splitOn_eq_singleton noSlash,
    List.filter_append]
  simp [notEmpty, notDot, notDots]

/-- The executable of a process that outlived its file is named as it was. -/
theorem nameFromExe_deleted {left name : List Char} (fresh : '/' ∉ name)
    (absent : Text.containsChars deletedMarker name = false) :
    nameFromExe (encode (left ++ '/' :: (name ++ deletedMarker))) = some (String.ofList name) := by
  have isSlash : String.utf8EncodeChar '/' = [0x2F] := rfl
  have blank : (0x20 : UInt8) ∈ encode (name ++ deletedMarker) := by
    rw [encode_append]
    exact List.mem_append_right _ (by decide)
  have noSlash : (0x2F : UInt8) ∉ encode (name ++ deletedMarker) := by
    intro member
    rcases List.mem_append.mp (mem_of_ascii_mem_encode member (by decide)) with inName | inMarker
    · exact fresh inName
    · exact absurd inMarker (by decide)
  have last : fileName (encode (left ++ '/' :: (name ++ deletedMarker))) =
      some (encode (name ++ deletedMarker)) := by
    have notEmpty : encode (name ++ deletedMarker) ≠ [] := List.ne_nil_of_mem blank
    have notDot : encode (name ++ deletedMarker) ≠ [0x2E] := by
      intro isDot
      rw [isDot] at blank
      exact absurd blank (by decide)
    have notDots : encode (name ++ deletedMarker) ≠ [0x2E, 0x2E] := by
      intro isDots
      rw [isDots] at blank
      exact absurd blank (by decide)
    rw [encode_append, encode_cons, isSlash, List.singleton_append]
    exact fileName_append noSlash notEmpty notDot notDots (encode left)
  rw [nameFromExe, last, Option.map_some, fromUtf8Lossy_encode, String.toList_ofList,
    ← List.append_nil deletedMarker, stripDeletedSuffix_append absent []]

end AnanicyRs.Platform.CommandName
