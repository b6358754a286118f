import AnanicyRs.Platform.Service

/-!
Contract: the daemon's readers of `/proc/<pid>/cgroup` lines, in `src/systemd.rs` and
`src/debug.rs`, and their agreement with the reader of `service.rs`.

Owns `own_cgroup_path` as the loop over the lines that it is, `cgroup_path_from_line` and
`get_cgroup_for_pid`. `scanLines_eq` says what the loop picks;
`ownCgroupPath_picks_iff` when that is what its description promises, which a root path in
front of a better one breaks. `readers_agree_iff` says on which lines the three readers
find the same path: two of them cut at the last colon, the third at the second.

Does not own the detection of a service manager that uses the path.
-/

set_option autoImplicit false

namespace AnanicyRs.Daemon.OwnCgroup

open AnanicyRs.Lib
open AnanicyRs.Platform

/-! ## Readers -/

def managerController : List Char := "name=systemd".toList

/-- The loop of `own_cgroup_path`, with its two candidates. -/
def scanLines : List (List Char) → Option (List Char) → Option (List Char) → Option (List Char)
  | [], manager, anyController => manager.or anyController
  | line :: rest, manager, anyController =>
      match Text.splitnChars ':' 3 line with
      | [hierarchy, controllers, path] =>
          if (Text.parseU32Chars hierarchy).isNone || path.isEmpty then
            scanLines rest manager anyController
          -- The unified hierarchy is what the service manager itself uses.
          else if controllers.isEmpty then some path
          else if (controllers.splitOn ',').any (· == managerController) then
            scanLines rest (some path) anyController
          else if anyController.isNone then scanLines rest manager (some path)
          else scanLines rest manager anyController
      | _ => scanLines rest manager anyController

def ownCgroupPath (content : String) : Option String :=
  (scanLines (Text.linesChars content.toList) none none).map String.ofList

/-- `cgroup_path_from_line` of `debug.rs`. -/
def cgroupPathFromLine (line : List Char) : String :=
  if line.isEmpty then "<empty>"
  else
    match Text.rfind ':' line with
    | some idx => String.ofList ((Text.sliceFrom line (idx + 1)).getD [])
    | none => String.ofList line

/-- `get_cgroup_for_pid`, on what reading `/proc/<pid>/cgroup` gave. -/
def getCgroupForPid (cgroup : Option String) : String :=
  match cgroup with
  | none => "<empty>"
  | some content => cgroupPathFromLine ((Text.linesChars content.toList).headD [])

/-! ## Well-formed lines -/

/-- What a well-formed line says beside its number. -/
structure Entry where
  controllers : List Char
  path : List Char
deriving DecidableEq, Repr

/-- The line is `hierarchy:controllers:path`, numbered and with a path. -/
def Reads (line : List Char) (entry : Entry) : Prop :=
  ∃ hierarchy, line = hierarchy ++ ':' :: (entry.controllers ++ ':' :: entry.path) ∧
    (Text.parseU32Chars hierarchy).isSome ∧ ':' ∉ entry.controllers ∧ entry.path ≠ []

def entryOf (line : List Char) : Option Entry :=
  match Text.splitnChars ':' 3 line with
  | [hierarchy, controllers, path] =>
      if (Text.parseU32Chars hierarchy).isNone || path.isEmpty then none
      else some ⟨controllers, path⟩
  | _ => none

theorem colon_notMem_of_parseU32 {hierarchy : List Char}
    (numbered : (Text.parseU32Chars hierarchy).isSome) : ':' ∉ hierarchy := by
  obtain ⟨value, parsed⟩ := Option.isSome_iff_exists.mp numbered
  intro member
  rcases Text.mem_of_parseU32Chars parsed member with isPlus | isDigit
  · exact absurd isPlus (by decide)
  · exact absurd isDigit (by decide)

theorem entryOf_eq_some_iff {line : List Char} {entry : Entry} :
    entryOf line = some entry ↔ Reads line entry := by
  unfold entryOf
  constructor
  · intro read
    split at read
    next hierarchy controllers path fields =>
      rw [Option.ite_none_left_eq_some, Option.some.injEq] at read
      obtain ⟨accepted, rfl⟩ := read
      obtain ⟨split, _, oneList⟩ := Text.splitnChars_three_iff.mp fields
      simp only [Bool.or_eq_true, not_or, Bool.not_eq_true, List.isEmpty_eq_false_iff] at accepted
      exact ⟨hierarchy, split, by simpa using accepted.1, oneList, accepted.2⟩
    next => simp at read
  · rintro ⟨hierarchy, split, numbered, oneList, hasPath⟩
    have fields : Text.splitnChars ':' 3 line = [hierarchy, entry.controllers, entry.path] :=
      Text.splitnChars_three_iff.mpr ⟨split, colon_notMem_of_parseU32 numbered, oneList⟩
    rw [fields]
    simp [Option.isNone_iff_eq_none, Option.isSome_iff_ne_none.mp numbered, hasPath]

/-- The well-formed lines of a text, in their order. -/
def entries (content : String) : List Entry :=
  (Text.linesChars content.toList).filterMap entryOf

def Entry.isUnified (entry : Entry) : Bool := entry.controllers.isEmpty

def Entry.listsManager (entry : Entry) : Bool :=
  (entry.controllers.splitOn ',').any (· == managerController)

def Entry.isPlain (entry : Entry) : Bool := !entry.isUnified && !entry.listsManager

/-! ## What the loop picks -/

/-- One pass of the loop, on a line that is read. -/
theorem scanLines_entry {line : List Char} {entry : Entry} (read : entryOf line = some entry)
    (rest : List (List Char)) (manager anyController : Option (List Char)) :
    scanLines (line :: rest) manager anyController =
      if entry.isUnified then some entry.path
      else if entry.listsManager then scanLines rest (some entry.path) anyController
      else scanLines rest manager (anyController.or (some entry.path)) := by
  unfold entryOf at read
  rw [scanLines]
  split at read
  next hierarchy controllers path fields =>
    rw [Option.ite_none_left_eq_some, Option.some.injEq] at read
    obtain ⟨accepted, rfl⟩ := read
    simp only [if_neg accepted, Entry.isUnified, Entry.listsManager]
    cases anyController <;> rfl
  next => simp at read

theorem scanLines_skip {line : List Char} (notRead : entryOf line = none)
    (rest : List (List Char)) (manager anyController : Option (List Char)) :
    scanLines (line :: rest) manager anyController = scanLines rest manager anyController := by
  unfold entryOf at notRead
  rw [scanLines]
  split at notRead
  next =>
    split at notRead
    next skipped => rw [if_pos skipped]
    next => simp at notRead
  next => rfl

/-- The first unified line, else the last of the manager, else the first of the others. -/
theorem scanLines_eq (lines : List (List Char)) (manager anyController : Option (List Char)) :
    scanLines lines manager anyController =
      (((lines.filterMap entryOf).find? Entry.isUnified).map Entry.path).or
        (((((lines.filterMap entryOf).filter Entry.listsManager).getLast?.map Entry.path).or
          manager).or
        (anyController.or (((lines.filterMap entryOf).find? Entry.isPlain).map Entry.path))) := by
  induction lines generalizing manager anyController with
  | nil => simp [scanLines]
  | cons line rest inductionHypothesis =>
      cases read : entryOf line with
      | none =>
          rw [scanLines_skip read, List.filterMap_cons_none read]
          exact inductionHypothesis manager anyController
      | some entry =>
          rw [scanLines_entry read, List.filterMap_cons_some read, List.find?_cons, List.filter_cons,
            List.find?_cons]
          cases unified : entry.isUnified with
          | true => simp
          | false =>
              cases listed : entry.listsManager with
              | true =>
                  have notPlain : entry.isPlain = false := by
                    simp [Entry.isPlain, listed]
                  simp only [Bool.false_eq_true, if_false, if_true, inductionHypothesis, notPlain,
                    List.getLast?_cons]
                  cases (((rest.filterMap entryOf).filter Entry.listsManager).getLast?) <;> simp
              | false =>
                  have plain : entry.isPlain = true := by
                    simp [Entry.isPlain, unified, listed]
                  simp only [Bool.false_eq_true, if_false, inductionHypothesis, plain]
                  cases anyController <;> simp

/-! ## The path of the service manager -/

def rootPath : List Char := ['/']

/-- What the description of `own_cgroup_path` promises: the unified path if present,
otherwise one of the manager's own controller, otherwise a non-root one if any controller
reports one. -/
structure PicksManagersPath (content : String) : Prop where
  unified : ∀ before entry after, entries content = before ++ entry :: after →
    entry.isUnified = true → (∀ other ∈ before, other.isUnified = false) →
      ownCgroupPath content = some (String.ofList entry.path)
  manager : (∀ entry ∈ entries content, entry.isUnified = false) →
    (∃ entry ∈ entries content, entry.listsManager = true) →
      ∃ entry ∈ entries content, entry.listsManager = true ∧
        ownCgroupPath content = some (String.ofList entry.path)
  nonRoot : (∀ entry ∈ entries content, entry.isPlain = true) →
    (∃ entry ∈ entries content, entry.path ≠ rootPath) →
      ∃ entry ∈ entries content, entry.path ≠ rootPath ∧
        ownCgroupPath content = some (String.ofList entry.path)
  nothing : ownCgroupPath content = none → entries content = []

/-- No line is unified or the manager's, the first one reports the root, and another one
does not. -/
def RootComesFirst (content : String) : Prop :=
  (∀ entry ∈ entries content, entry.isPlain = true) ∧
    (∃ first rest, entries content = first :: rest ∧ first.path = rootPath) ∧
    ∃ entry ∈ entries content, entry.path ≠ rootPath

section Pick

variable {content : String}

theorem ownCgroupPath_eq (content : String) :
    ownCgroupPath content =
      (((entries content).find? Entry.isUnified).or
        ((((entries content).filter Entry.listsManager).getLast?).or
          ((entries content).find? Entry.isPlain))).map fun entry => String.ofList entry.path := by
  rw [ownCgroupPath, scanLines_eq, ← entries]
  cases (entries content).find? Entry.isUnified <;>
    cases ((entries content).filter Entry.listsManager).getLast? <;>
      cases (entries content).find? Entry.isPlain <;> rfl

theorem find_unified_eq_none (noUnified : ∀ entry ∈ entries content, entry.isUnified = false) :
    (entries content).find? Entry.isUnified = none := by
  rw [List.find?_eq_none]
  intro entry member
  rw [noUnified entry member]
  decide

/-- Where every line is an ordinary controller's, the first one is picked. -/
theorem ownCgroupPath_of_plain (plain : ∀ entry ∈ entries content, entry.isPlain = true) :
    ownCgroupPath content =
      (entries content).head?.map fun entry => String.ofList entry.path := by
  have noUnified : ∀ entry ∈ entries content, entry.isUnified = false := by
    intro entry member
    have isPlain := plain entry member
    rw [Entry.isPlain, Bool.and_eq_true] at isPlain
    simpa using isPlain.1
  have noManager : (entries content).filter Entry.listsManager = [] := by
    rw [List.filter_eq_nil_iff]
    intro entry member
    have isPlain := plain entry member
    rw [Entry.isPlain, Bool.and_eq_true] at isPlain
    simpa using isPlain.2
  rw [ownCgroupPath_eq, find_unified_eq_none noUnified, noManager]
  cases found : entries content with
  | nil => rfl
  | cons first rest =>
      rw [List.find?_cons_of_pos (plain first (by simp [found]))]
      rfl

theorem ownCgroupPath_unified {before after : List Entry} {entry : Entry}
    (split : entries content = before ++ entry :: after) (unified : entry.isUnified = true)
    (first : ∀ other ∈ before, other.isUnified = false) :
    ownCgroupPath content = some (String.ofList entry.path) := by
  have found : (entries content).find? Entry.isUnified = some entry := by
    rw [List.find?_eq_some_iff_append]
    exact ⟨unified, before, after, split, fun other member => by simp [first other member]⟩
  rw [ownCgroupPath_eq, found]
  rfl

theorem ownCgroupPath_manager (noUnified : ∀ entry ∈ entries content, entry.isUnified = false)
    (listed : ∃ entry ∈ entries content, entry.listsManager = true) :
    ∃ entry ∈ entries content, entry.listsManager = true ∧
      ownCgroupPath content = some (String.ofList entry.path) := by
  obtain ⟨entry, member, lists⟩ := listed
  have inFilter : entry ∈ (entries content).filter Entry.listsManager :=
    List.mem_filter.mpr ⟨member, lists⟩
  cases last : ((entries content).filter Entry.listsManager).getLast? with
  | none =>
      rw [List.getLast?_eq_none_iff.mp last] at inFilter
      exact absurd inFilter List.not_mem_nil
  | some picked =>
      have isPicked := List.mem_filter.mp (List.mem_of_getLast? last)
      refine ⟨picked, isPicked.1, isPicked.2, ?_⟩
      rw [ownCgroupPath_eq, find_unified_eq_none noUnified, last]
      rfl

theorem entries_eq_nil_of_none (nothing : ownCgroupPath content = none) : entries content = [] := by
  rw [ownCgroupPath_eq, Option.map_eq_none_iff, Option.or_eq_none_iff, Option.or_eq_none_iff] at nothing
  obtain ⟨noUnified, noManager, noPlain⟩ := nothing
  rw [List.find?_eq_none] at noUnified noPlain
  rw [List.getLast?_eq_none_iff, List.filter_eq_nil_iff] at noManager
  rw [List.eq_nil_iff_forall_not_mem]
  intro entry member
  have notPlain := noPlain entry member
  rw [Entry.isPlain] at notPlain
  simp [noUnified entry member, noManager entry member] at notPlain

end Pick

/-- For every content of the file, the path is the one promised unless the root comes
first. -/
theorem ownCgroupPath_picks_iff (content : String) :
    PicksManagersPath content ↔ ¬ RootComesFirst content := by
  constructor
  · intro picks rootFirst
    obtain ⟨plain, ⟨first, rest, isFirst, isRoot⟩, other⟩ := rootFirst
    obtain ⟨picked, _, notRoot, isPicked⟩ := picks.nonRoot plain other
    rw [ownCgroupPath_of_plain plain, isFirst, List.head?_cons, Option.map_some,
      Option.some.injEq] at isPicked
    exact notRoot ((String.ofList_injective isPicked).symm.trans isRoot)
  · intro notRootFirst
    refine ⟨fun _ _ _ => ownCgroupPath_unified, ownCgroupPath_manager, ?_, entries_eq_nil_of_none⟩
    intro plain other
    cases found : entries content with
    | nil =>
        obtain ⟨entry, member, _⟩ := other
        rw [found] at member
        exact absurd member List.not_mem_nil
    | cons first rest =>
        refine ⟨first, List.mem_cons_self, ?_, ?_⟩
        · intro isRoot
          exact notRootFirst ⟨plain, ⟨first, rest, found, isRoot⟩, other⟩
        · rw [ownCgroupPath_of_plain plain, found]
          rfl

/-- A host without a service manager: the cpu controller knows only the root, the memory
controller has the session. -/
def rootFirst : String := "2:cpu:/\n1:memory:/user.slice/session-2.scope\n"

theorem root_hides_session :
    entries rootFirst = [⟨"cpu".toList, rootPath⟩,
      ⟨"memory".toList, "/user.slice/session-2.scope".toList⟩] ∧
    ownCgroupPath rootFirst = some "/" ∧ ¬ PicksManagersPath rootFirst := by
  have read : entries rootFirst = [⟨"cpu".toList, rootPath⟩,
      ⟨"memory".toList, "/user.slice/session-2.scope".toList⟩] := by
    decide +kernel
  have plain : ∀ entry ∈ entries rootFirst, entry.isPlain = true := by
    rw [read]
    decide
  have isRoot : ownCgroupPath rootFirst = some "/" := by
    rw [ownCgroupPath_of_plain plain, read]
    rfl
  refine ⟨read, isRoot, fun picks => ?_⟩
  have other : ∃ entry ∈ entries rootFirst, entry.path ≠ rootPath := by
    rw [read]
    decide
  obtain ⟨entry, _, notRoot, isPath⟩ := picks.nonRoot plain other
  rw [isRoot, Option.some.injEq] at isPath
  apply notRoot
  rw [← String.toList_ofList (l := entry.path), ← isPath]
  rfl

/-! ## One line, three readers -/

/-- One `h:c:p` record, on a line of its own. -/
structure Record where
  hierarchy : List Char
  controllers : List Char
  path : List Char
  numbered : hierarchy ≠ [] ∧ ∀ c ∈ hierarchy, '0' ≤ c ∧ c ≤ '9'
  oneList : ':' ∉ controllers
  absolute : path.head? = some '/'
  oneLine : '\n' ∉ controllers ∧ '\n' ∉ path

namespace Record

def line (record : Record) : List Char :=
  record.hierarchy ++ ':' :: (record.controllers ++ ':' :: record.path)

/-- The file that holds this one line, with its line break or without. -/
def content (record : Record) (terminated : Bool) : String :=
  String.ofList (if terminated then record.line ++ ['\n'] else record.line)

def pathText (record : Record) : String := String.ofList record.path

/-- The line as the readers of a file get it. -/
def shown (record : Record) (terminated : Bool) : List Char :=
  if terminated then Text.stripReturn record.line else record.line

def number (record : Record) : Nat := Nat.ofDigitChars 10 record.hierarchy 0

variable (record : Record)

theorem path_ne_nil : record.path ≠ [] := by
  intro isNil
  have absolute := record.absolute
  rw [isNil] at absolute
  exact absurd absolute (by simp)

theorem pathText_ne_empty : record.pathText ≠ "" := by
  intro isEmpty
  apply record.path_ne_nil
  rw [← String.toList_ofList (l := record.path), ← pathText, isEmpty]
  rfl

theorem line_split : record.line =
    (record.hierarchy ++ ':' :: record.controllers) ++ ':' :: record.path := by
  simp [line]

theorem break_notMem_line : '\n' ∉ record.line := by
  have noBreak : '\n' ∉ record.hierarchy := by
    intro member
    exact absurd (record.numbered.2 '\n' member) (by decide)
  simp only [line, List.mem_append, List.mem_cons, not_or]
  exact ⟨noBreak, by decide, record.oneLine.1, by decide, record.oneLine.2⟩

theorem line_ne_nil : record.line ≠ [] := by
  simp [line]

theorem linesChars_content (terminated : Bool) :
    Text.linesChars (record.content terminated).toList = [record.shown terminated] := by
  rw [content, String.toList_ofList, shown]
  cases terminated with
  | false => exact Text.linesChars_unterminated record.line record.line_ne_nil record.break_notMem_line
  | true => exact Text.linesChars_terminated [] record.line record.break_notMem_line

theorem getLast?_line : record.line.getLast? = record.path.getLast? := by
  rw [line_split, List.getLast?_append, List.getLast?_cons]
  cases last : record.path.getLast? with
  | none => exact absurd (List.getLast?_eq_none_iff.mp last) record.path_ne_nil
  | some c => rfl

/-- A file shows the line as it is, unless its line break takes a `\r` with it. -/
theorem shown_eq_iff (terminated : Bool) :
    record.shown terminated = record.line ↔
      ¬ (terminated = true ∧ record.path.getLast? = some '\r') := by
  rw [shown, ← record.getLast?_line]
  cases terminated with
  | false => simp
  | true =>
      rcases Text.stripReturn_cases record.line with ⟨notReturn, kept⟩ | cut
      · simp [kept, notReturn]
      · have isReturn : record.line.getLast? = some '\r' := by
          rw [cut, List.getLast?_concat]
        have shorter : Text.stripReturn record.line ≠ record.line := by
          intro same
          have lengths := congrArg List.length cut
          rw [List.length_append, same, List.length_singleton] at lengths
          omega
        simp [isReturn, shorter]

theorem parse_hierarchy :
    (Text.parseU32Chars record.hierarchy).isSome ↔ record.number < 2 ^ 32 := by
  have digits := Text.parseDigits_digits 0 record.hierarchy record.numbered.2
  have notEmpty : ¬ record.hierarchy.isEmpty = true := by
    rw [List.isEmpty_iff]
    exact record.numbered.1
  unfold Text.parseU32Chars
  split
  next rest isPlus =>
    have plusDigit := record.numbered.2 '+' (by simp [isPlus])
    exact absurd plusDigit (by decide)
  next =>
    rw [if_neg notEmpty, digits, Option.bind_some, number]
    split <;> simp_all

theorem entryOf_line (bound : record.number < 2 ^ 32) :
    entryOf record.line = some ⟨record.controllers, record.path⟩ :=
  entryOf_eq_some_iff.mpr
    ⟨record.hierarchy, rfl, record.parse_hierarchy.mpr bound, record.oneList, record.path_ne_nil⟩

end Record

/-- The path every reader takes from the line, and the unit name made of it. -/
structure ReadersAgree (record : Record) (terminated : Bool) : Prop where
  service : Service.readOwnCgroupPath (some (record.content terminated)) = some record.pathText
  debug : cgroupPathFromLine record.line = record.pathText
  systemd : ownCgroupPath (record.content terminated) = some record.pathText
  unit : ∀ name, Service.DeepestUnit record.pathText name →
    Service.getUnitNameHeuristic (some (record.content terminated)) = name
  noUnit : (∀ name, ¬ Service.DeepestUnit record.pathText name) →
    Service.getUnitNameHeuristic (some (record.content terminated)) = "<empty>"

section OneLine

variable (record : Record)

theorem service_of_plain (terminated : Bool) (noColon : ':' ∉ record.path)
    (asPrinted : record.shown terminated = record.line) :
    Service.readOwnCgroupPath (some (record.content terminated)) = some record.pathText := by
  rw [Service.readOwnCgroupPath_eq_some_iff (record.linesChars_content terminated), asPrinted]
  have text : record.pathText.toList = record.path := String.toList_ofList
  rw [text]
  exact ⟨_, record.line_split, noColon, record.pathText_ne_empty⟩

theorem debug_of_plain (noColon : ':' ∉ record.path) :
    cgroupPathFromLine record.line = record.pathText := by
  have colon : Text.byteLen [':'] = 1 := by
    decide
  have sliced := Text.sliceFrom_append
    ((record.hierarchy ++ ':' :: record.controllers) ++ [':']) record.path
  rw [Text.byteLen_append, colon, List.append_assoc, List.singleton_append,
    ← record.line_split] at sliced
  have last := Text.rfind_append noColon (record.hierarchy ++ ':' :: record.controllers)
  rw [← record.line_split] at last
  have notEmpty : ¬ record.line.isEmpty = true := by
    rw [List.isEmpty_iff]
    exact record.line_ne_nil
  rw [cgroupPathFromLine, if_neg notEmpty, last]
  simp only [sliced, Option.getD_some]
  rfl

theorem systemd_of_numbered (terminated : Bool) (bound : record.number < 2 ^ 32)
    (asPrinted : record.shown terminated = record.line) :
    ownCgroupPath (record.content terminated) = some record.pathText := by
  rw [ownCgroupPath, record.linesChars_content, asPrinted, scanLines_entry (record.entryOf_line bound)]
  simp only [scanLines, Option.none_or, Option.or_none]
  split
  · rfl
  · split <;> rfl

theorem number_lt_of_systemd {terminated : Bool} (asPrinted : record.shown terminated = record.line)
    (found : ownCgroupPath (record.content terminated) ≠ none) : record.number < 2 ^ 32 := by
  by_contra unbounded
  apply found
  have notRead : entryOf record.line = none := by
    cases read : entryOf record.line with
    | none => rfl
    | some entry =>
        obtain ⟨hierarchy, split, numbered, _, _⟩ := entryOf_eq_some_iff.mp read
        have noColon : ':' ∉ record.hierarchy := by
          intro member
          exact absurd (record.numbered.2 ':' member) (by decide)
        have outer := (Text.splitOnceChars_eq_some_iff record.line).mpr ⟨rfl, noColon⟩
        have sameOuter := (Text.splitOnceChars_eq_some_iff record.line).mpr
          ⟨split, colon_notMem_of_parseU32 numbered⟩
        rw [outer, Option.some.injEq, Prod.mk.injEq] at sameOuter
        rw [← sameOuter.1] at numbered
        exact absurd (record.parse_hierarchy.mp numbered) unbounded
  rw [ownCgroupPath, record.linesChars_content, asPrinted, scanLines_skip notRead]
  rfl

/-- Behind the last colon stands what the first reader takes. -/
theorem plain_of_service {terminated : Bool}
    (read : Service.readOwnCgroupPath (some (record.content terminated)) = some record.pathText) :
    ':' ∉ record.path ∧ record.shown terminated = record.line := by
  obtain ⟨front, isShown, noColon, _⟩ :=
    (Service.readOwnCgroupPath_eq_some_iff (record.linesChars_content terminated)).mp read
  have text : record.pathText.toList = record.path := String.toList_ofList
  rw [text] at isShown noColon
  refine ⟨noColon, ?_⟩
  rw [Record.shown_eq_iff]
  rintro ⟨rfl, isReturn⟩
  rw [← record.getLast?_line] at isReturn
  -- The line ends in a `\r` that the shown one lacks, and both end in the path.
  have cut : record.line = record.shown true ++ ['\r'] := by
    rcases Text.stripReturn_cases record.line with ⟨notReturn, _⟩ | cut
    · exact absurd isReturn notReturn
    · exact cut
  have twice : (record.hierarchy ++ ':' :: record.controllers) ++ ':' :: record.path =
      front ++ ':' :: (record.path ++ ['\r']) := by
    rw [← record.line_split, cut, isShown, List.append_assoc, List.cons_append]
  have noColonBefore : ':' ∉ record.path ++ ['\r'] := by
    simp [noColon]
  have lengths := congrArg List.length (Text.split_last_unique noColon noColonBefore twice).2
  rw [List.length_append, List.length_singleton] at lengths
  omega

end OneLine

/-- For every line `h:c:p`, the three readers take `p`, and the unit name is that of `p`,
exactly when `p` has no colon, `h` is a number of 32 bits and no `\r` at the end of `p` is
lost to the line break. -/
theorem readers_agree_iff (record : Record) (terminated : Bool) :
    ReadersAgree record terminated ↔
      ':' ∉ record.path ∧ record.number < 2 ^ 32 ∧
        ¬ (terminated = true ∧ record.path.getLast? = some '\r') := by
  rw [← Record.shown_eq_iff]
  constructor
  · intro agree
    obtain ⟨noColon, asPrinted⟩ := plain_of_service record agree.service
    refine ⟨noColon, ?_, asPrinted⟩
    apply number_lt_of_systemd record asPrinted
    rw [agree.systemd]
    simp
  · rintro ⟨noColon, bound, asPrinted⟩
    have service := service_of_plain record terminated noColon asPrinted
    refine ⟨service, debug_of_plain record noColon,
      systemd_of_numbered record terminated bound asPrinted, ?_, ?_⟩
    · intro name deepest
      rw [Service.getUnitNameHeuristic, service]
      simp only [Service.unitNameFromCgroupPath_eq_some_iff.mpr deepest, Option.getD_some]
    · intro noUnit
      rw [Service.getUnitNameHeuristic, service]
      simp only [Service.unitNameFromCgroupPath_eq_none noUnit, Option.getD_none]

/-- A service that the message bus started carries the bus name of its caller. -/
def colonPath : Record where
  hierarchy := "0".toList
  controllers := []
  path := "/system.slice/dbus-:1.2-org.example@0.service".toList
  numbered := ⟨by decide, List.forall_mem_singleton.mpr (by decide)⟩
  oneList := by decide
  absolute := by decide
  oneLine := by decide +kernel

/-- Two readers take what stands behind the colon of the path for the path. -/
theorem colon_path_cut :
    Service.readOwnCgroupPath (some (colonPath.content true)) = some "1.2-org.example@0.service" ∧
      cgroupPathFromLine colonPath.line = "1.2-org.example@0.service" ∧
      ownCgroupPath (colonPath.content true) = some "/system.slice/dbus-:1.2-org.example@0.service" ∧
      ∀ terminated, ¬ ReadersAgree colonPath terminated := by
  refine ⟨by decide +kernel, by decide +kernel, by decide +kernel, ?_⟩
  intro terminated agree
  have noColon := ((readers_agree_iff colonPath terminated).mp agree).1
  exact absurd noColon (by decide)

end AnanicyRs.Daemon.OwnCgroup
