import AnanicyRs.Core.Config
import AnanicyRs.Lib.LastWins

/-!
Contract: what a configuration file says, key by key, and what of it the printed
configuration says again.

A line assigns a trimmed value to a trimmed key, or it says nothing (`entryOf`).
`parseEntry_fst` is all an assignment can do to a snapshot, so every field is written by
its own key alone (`Field`) and holds the last value of that key which can be read.
`parseFile_toConfigString` reads the printed configuration back: every field but
`apply_ioclass`, which is not printed.
-/

set_option autoImplicit false

namespace AnanicyRs.Core.ConfigSnapshot

open AnanicyRs.Lib AnanicyRs.Lib.LastWins

/-! ## Assignments -/

/-- The key and the value of a line that is neither blank nor a comment and has a `=`. -/
def entryOf (line : String) : Option (String × String) :=
  let trimmed := Text.trim line
  if trimmed.isEmpty || Text.startsWithChar trimmed '#' then none
  else (Text.splitOnce trimmed '=').map fun parts => (Text.trim parts.1, Text.trim parts.2)

def entries (content : String) : List (String × String) :=
  (Text.lines content).filterMap entryOf

/-- `u32` literals other than zero. -/
def positiveFreq (value : String) : Option UInt32 :=
  (Text.parseU32 value).bind fun freq => if freq = 0 then none else some (UInt32.ofNat freq)

/-- The keys every value of which is accepted. -/
def plainKeys : List String :=
  ["cgroup_load", "check_disks_schedulers", "type_load", "rule_load", "apply_nice",
    "apply_latnice", "apply_ioclass", "apply_ionice", "apply_sched", "apply_oom_score_adj",
    "apply_cgroup", "apply_cpuset", "apply_cpu_weight", "cgroup_realtime_workaround", "x3d_mode",
    "log_applied_rule"]

/-- The report on an assignment that is not taken as it stands. -/
def refusal (entry : String × String) : Option ConfigDiagnostic :=
  if entry.1 = "check_freq" then
    if (positiveFreq entry.2).isSome then none
    else if Text.parseU32 entry.2 = some 0 then
      some (.error ("Invalid check_freq value: 0 (the full scan interval must be " ++
        "at least 1 second)"))
    else some (.error ("Invalid check_freq value: " ++ entry.2))
  else if entry.1 = "loglevel" then
    if (LogLevel.parseWithStatus entry.2).2 then none
    else some (.warn ("Unknown loglevel '" ++ entry.2 ++ "', falling back to info"))
  else if entry.1 ∈ plainKeys then none
  else some (.warn ("Unknown config key: " ++ entry.1))

theorem parseCheckFreq_eq (value : String) (config : ConfigSnapshot) :
    parseCheckFreq value config =
      ({ config with checkFreq := (positiveFreq value).getD config.checkFreq },
        (refusal ("check_freq", value)).toList) := by
  rw [parseCheckFreq, refusal, if_pos rfl, positiveFreq]
  cases read : Text.parseU32 value with
  | none => rfl
  | some freq =>
      by_cases zero : freq = 0
      · subst zero
        rfl
      · simp [zero]

theorem parseLoglevel_eq (value : String) (config : ConfigSnapshot) :
    parseLoglevel value config =
      ({ config with loglevel := (LogLevel.parseWithStatus value).1 },
        (refusal ("loglevel", value)).toList) := by
  have notFreq : ¬ "loglevel" = "check_freq" := by
    decide
  rw [parseLoglevel, refusal, if_neg notFreq, if_pos rfl]
  cases (LogLevel.parseWithStatus value).2 with
  | false => rfl
  | true => rfl

/-- All an assignment can do to a snapshot, and what is reported on it. -/
theorem parseEntry_eq (key value : String) (config : ConfigSnapshot) :
    parseEntry key value config =
      ({ checkFreq := if key = "check_freq" then (positiveFreq value).getD config.checkFreq
            else config.checkFreq
         checkDisksSchedulers := if key = "check_disks_schedulers" then value == "true"
            else config.checkDisksSchedulers
         cgroupLoad := if key = "cgroup_load" then value == "true" else config.cgroupLoad
         typeLoad := if key = "type_load" then value == "true" else config.typeLoad
         ruleLoad := if key = "rule_load" then value == "true" else config.ruleLoad
         applyNice := if key = "apply_nice" then value == "true" else config.applyNice
         applyLatnice := if key = "apply_latnice" then value == "true" else config.applyLatnice
         applyIoclass := if key = "apply_ioclass" then value == "true" else config.applyIoclass
         applyIonice := if key = "apply_ionice" then value == "true" else config.applyIonice
         applySched := if key = "apply_sched" then value == "true" else config.applySched
         applyOomScoreAdj := if key = "apply_oom_score_adj" then value == "true"
            else config.applyOomScoreAdj
         applyCgroups := if key = "apply_cgroup" then value == "true" else config.applyCgroups
         applyCpuset := if key = "apply_cpuset" then value == "true" else config.applyCpuset
         applyCpuWeight := if key = "apply_cpu_weight" then value == "true"
            else config.applyCpuWeight
         cgroupRealtimeWorkaround := if key = "cgroup_realtime_workaround" then value == "true"
            else config.cgroupRealtimeWorkaround
         x3dMode := if key = "x3d_mode" then value else config.x3dMode
         logAppliedRule := if key = "log_applied_rule" then value == "true"
            else config.logAppliedRule
         loglevel := if key = "loglevel" then (LogLevel.parseWithStatus value).1
            else config.loglevel },
        (refusal (key, value)).toList) := by
  unfold parseEntry
  split
  case h_1 => simp [parseCheckFreq_eq]
  case h_18 => simp [parseLoglevel_eq]
  case h_19 => simp_all [refusal, plainKeys]
  all_goals simp [refusal, plainKeys]

/-! ## Whole files -/

theorem parseLine_eq (line : String) (config : ConfigSnapshot) :
    parseLine line config =
      (entryOf line).elim (config, []) fun entry => parseEntry entry.1 entry.2 config := by
  rw [parseLine, entryOf]
  split
  next => rfl
  next =>
    cases Text.splitOnce (Text.trim line) '=' with
    | none => rfl
    | some parts => rfl

theorem foldl_parseLine (lines : List String) :
    ∀ parsed : ConfigSnapshot × List ConfigDiagnostic,
      lines.foldl (fun parsed line =>
          ((parseLine line parsed.1).1, parsed.2 ++ (parseLine line parsed.1).2)) parsed =
        ((lines.filterMap entryOf).foldl (fun config entry =>
            (parseEntry entry.1 entry.2 config).1) parsed.1,
          parsed.2 ++ (lines.filterMap entryOf).filterMap refusal) := by
  induction lines with
  | nil => simp
  | cons line rest inductionHypothesis =>
      intro parsed
      rw [List.foldl_cons, inductionHypothesis, parseLine_eq]
      cases found : entryOf line with
      | none => simp [found]
      | some entry =>
          have reported : (parseEntry entry.1 entry.2 parsed.1).2 = (refusal entry).toList := by
            rw [parseEntry_eq]
          rw [Option.elim_some, reported, List.filterMap_cons_some found, List.foldl_cons,
            List.filterMap_cons]
          cases refusal entry with
          | none => simp
          | some report => simp

theorem parseFile_eq (content : String) :
    parseFileWithDiagnostics content =
      ((entries content).foldl (fun config entry => (parseEntry entry.1 entry.2 config).1) default,
        (entries content).filterMap refusal) :=
  (foldl_parseLine (Text.lines content) (default, [])).trans (by rw [List.nil_append]; rfl)

/-! ## Fields -/

/-- A field of a snapshot: the key it is read under, and how. -/
structure Field (β : Type) where
  key : String
  get : ConfigSnapshot → β
  read : String → Option β
  written : ∀ (key' value : String) (config : ConfigSnapshot),
    get (parseEntry key' value config).1 =
      if key' = key then (read value).getD (get config) else get config

namespace Field

/-- A flag is set by `true` and cleared by anything else. -/
def flag (key : String) (get : ConfigSnapshot → Bool)
    (written : ∀ (key' value : String) (config : ConfigSnapshot),
      get (parseEntry key' value config).1 = if key' = key then value == "true" else get config) :
    Field Bool :=
  ⟨key, get, fun value => some (value == "true"), written⟩

def readLevel (value : String) : Option LogLevel := some (LogLevel.parseWithStatus value).1

/-- The last value of the field's key that can be read, or the default. -/
def last {β : Type} (field : Field β) (content : String) : β :=
  ((valuesOf (entries content) field.key).filterMap field.read).getLast?.getD
    (field.get ConfigSnapshot.default)

theorem get_parseFile {β : Type} (field : Field β) (content : String) :
    field.get (parseFileWithDiagnostics content).1 = field.last content := by
  rw [parseFile_eq]
  exact field_foldl (fun config entry => field.written entry.1 entry.2 config) _ _

end Field

def checkFreqField : Field UInt32 :=
  ⟨"check_freq", checkFreq, positiveFreq, fun key value config => by rw [parseEntry_eq]⟩

def loglevelField : Field LogLevel :=
  ⟨"loglevel", loglevel, Field.readLevel, fun key value config => by rw [parseEntry_eq]; rfl⟩

def x3dModeField : Field String :=
  ⟨"x3d_mode", x3dMode, some, fun key value config => by rw [parseEntry_eq]; rfl⟩

def applyIoclassField : Field Bool :=
  .flag "apply_ioclass" applyIoclass fun key value config => by rw [parseEntry_eq]

/-- All fields of a snapshot. -/
def fields : List (Sigma Field) :=
  [⟨_, checkFreqField⟩, ⟨_, loglevelField⟩, ⟨_, x3dModeField⟩, ⟨_, applyIoclassField⟩,
    ⟨_, .flag "check_disks_schedulers" checkDisksSchedulers fun key value config => by rw [parseEntry_eq]⟩,
    ⟨_, .flag "cgroup_load" cgroupLoad fun key value config => by rw [parseEntry_eq]⟩,
    ⟨_, .flag "type_load" typeLoad fun key value config => by rw [parseEntry_eq]⟩,
    ⟨_, .flag "rule_load" ruleLoad fun key value config => by rw [parseEntry_eq]⟩,
    ⟨_, .flag "apply_nice" applyNice fun key value config => by rw [parseEntry_eq]⟩,
    ⟨_, .flag "apply_latnice" applyLatnice fun key value config => by rw [parseEntry_eq]⟩,
    ⟨_, .flag "apply_ionice" applyIonice fun key value config => by rw [parseEntry_eq]⟩,
    ⟨_, .flag "apply_sched" applySched fun key value config => by rw [parseEntry_eq]⟩,
    ⟨_, .flag "apply_oom_score_adj" applyOomScoreAdj fun key value config => by rw [parseEntry_eq]⟩,
    ⟨_, .flag "apply_cgroup" applyCgroups fun key value config => by rw [parseEntry_eq]⟩,
    ⟨_, .flag "apply_cpuset" applyCpuset fun key value config => by rw [parseEntry_eq]⟩,
    ⟨_, .flag "apply_cpu_weight" applyCpuWeight fun key value config => by rw [parseEntry_eq]⟩,
    ⟨_, .flag "cgroup_realtime_workaround" cgroupRealtimeWorkaround fun key value config => by rw [parseEntry_eq]⟩,
    ⟨_, .flag "log_applied_rule" logAppliedRule fun key value config => by rw [parseEntry_eq]⟩]

/-- The fields leave nothing of a snapshot out. -/
theorem ext_fields {left right : ConfigSnapshot}
    (same : ∀ field ∈ fields, field.2.get left = field.2.get right) : left = right := by
  simp only [fields, List.mem_cons, List.not_mem_nil, or_false, forall_eq_or_imp, forall_eq,
    checkFreqField, loglevelField, x3dModeField, applyIoclassField, Field.flag] at same
  cases left
  cases right
  simp_all

/-! ## Independence -/

/-- The lines that assign to a key. -/
def assigns (key line : String) : Bool := (entryOf line).any fun entry => entry.1 == key

theorem valuesOf_entries (key content : String) :
    valuesOf (entries content) key =
      ((Text.lines content).filter (assigns key)).filterMap fun line => (entryOf line).map Prod.snd := by
  rw [entries]
  induction Text.lines content with
  | nil => rfl
  | cons line rest inductionHypothesis =>
      cases found : entryOf line with
      | none =>
          have other : ¬ assigns key line = true := by
            simp [assigns, found]
          rw [List.filterMap_cons_none found, List.filter_cons_of_neg other, inductionHypothesis]
      | some entry =>
          rw [List.filterMap_cons_some found]
          by_cases same : entry.1 = key
          · have assigned : assigns key line = true := by
              simp [assigns, found, same]
            rw [List.filter_cons_of_pos assigned, List.filterMap_cons_some (b := entry.2) (by rw [found]; rfl),
              ← inductionHypothesis, valuesOf, valuesOf, List.filter_cons_of_pos (by simpa using same)]
            rfl
          · have other : ¬ assigns key line = true := by
              simp [assigns, found, same]
            rw [List.filter_cons_of_neg other, ← inductionHypothesis, valuesOf, valuesOf,
              List.filter_cons_of_neg (by simpa using same)]

/-- A field does not depend on the lines of other keys, nor on comments and blanks. -/
theorem Field.last_congr {β : Type} (field : Field β) {left right : String}
    (sameLines : (Text.lines left).filter (assigns field.key) =
      (Text.lines right).filter (assigns field.key)) : field.last left = field.last right := by
  rw [last, last, valuesOf_entries, valuesOf_entries, sameLines]

theorem ne_zero_of_positiveFreq {value : String} {freq : UInt32}
    (read : positiveFreq value = some freq) : 1 ≤ freq.toNat := by
  obtain ⟨n, literal, positive⟩ := Option.bind_eq_some_iff.mp read
  have small := Text.lt_of_parseU32Chars literal
  by_cases zero : n = 0
  · simp [zero] at positive
  · rw [if_neg zero] at positive
    rw [← Option.some.inj positive, UInt32.toNat_ofNat_of_lt' small]
    omega

theorem checkFreq_parseFile (content : String) :
    1 ≤ (parseFileWithDiagnostics content).1.checkFreq.toNat := by
  have isLast : (parseFileWithDiagnostics content).1.checkFreq = checkFreqField.last content :=
    checkFreqField.get_parseFile content
  rw [isLast, Field.last]
  cases found : ((valuesOf (entries content) checkFreqField.key).filterMap
      checkFreqField.read).getLast? with
  | none => decide
  | some freq =>
      obtain ⟨value, _, read⟩ := List.mem_filterMap.mp (List.mem_of_getLast? found)
      exact ne_zero_of_positiveFreq read

/-- The keys the parser knows. -/
theorem keys_fields (key : String) :
    (∀ field ∈ fields, field.2.key ≠ key) ↔
      key ≠ "check_freq" ∧ key ≠ "loglevel" ∧ key ∉ plainKeys := by
  simp only [fields, List.mem_cons, List.not_mem_nil, or_false, forall_eq_or_imp, forall_eq,
    checkFreqField, loglevelField, x3dModeField, applyIoclassField, Field.flag, plainKeys, not_or]
  grind

theorem refusal_isSome_iff (entry : String × String) :
    (refusal entry).isSome = true ↔
      (entry.1 = "check_freq" ∧ positiveFreq entry.2 = none) ∨
      (entry.1 = "loglevel" ∧ (LogLevel.parseWithStatus entry.2).2 = false) ∨
      ∀ field ∈ fields, field.2.key ≠ entry.1 := by
  rw [keys_fields, refusal]
  by_cases isFreq : entry.1 = "check_freq"
  · have notLevel : ¬ entry.1 = "loglevel" := by
      rw [isFreq]
      decide
    rw [if_pos isFreq]
    cases positiveFreq entry.2 with
    | none =>
        split
        next given => exact absurd given (by simp)
        next => split <;> simp [isFreq]
    | some freq => simp [isFreq]
  · rw [if_neg isFreq]
    by_cases isLevel : entry.1 = "loglevel"
    · rw [if_pos isLevel]
      cases (LogLevel.parseWithStatus entry.2).2 with
      | false => simp [isLevel]
      | true => simp [isLevel]
    · rw [if_neg isLevel]
      by_cases known : entry.1 ∈ plainKeys
      · simp [isFreq, isLevel, known]
      · simp [isFreq, isLevel, known]

/-- Every field holds the last value of its key that can be read, whatever the other lines
say; what is reported is what was refused, in file order. -/
theorem parseFile_is_per_key_and_last_wins (content : String) :
    (∀ field ∈ fields,
      field.2.get (parseFileWithDiagnostics content).1 = field.2.last content) ∧
    (∀ left right : ConfigSnapshot,
      (∀ field ∈ fields, field.2.get left = field.2.get right) → left = right) ∧
    (∀ other : String, ∀ field ∈ fields,
      (Text.lines content).filter (assigns field.2.key) =
        (Text.lines other).filter (assigns field.2.key) →
      field.2.get (parseFileWithDiagnostics content).1 =
        field.2.get (parseFileWithDiagnostics other).1) ∧
    1 ≤ (parseFileWithDiagnostics content).1.checkFreq.toNat ∧
    (parseFileWithDiagnostics content).2 = (entries content).filterMap refusal ∧
    ∀ entry : String × String, (refusal entry).isSome = true ↔
      (entry.1 = "check_freq" ∧ positiveFreq entry.2 = none) ∨
      (entry.1 = "loglevel" ∧ (LogLevel.parseWithStatus entry.2).2 = false) ∨
      ∀ field ∈ fields, field.2.key ≠ entry.1 := by
  refine ⟨fun field _ => field.2.get_parseFile content, fun left right same => ext_fields same,
    fun other field _ sameLines => ?_, checkFreq_parseFile content, ?_, refusal_isSome_iff⟩
  · rw [field.2.get_parseFile, field.2.get_parseFile, field.2.last_congr sameLines]
  · rw [parseFile_eq]

/-! ## The printed configuration -/

/-- The assignments `to_config_string` writes, in its order. -/
def printedEntries (config : ConfigSnapshot) : List (String × String) :=
  [("apply_nice", toString config.applyNice), ("apply_sched", toString config.applySched),
    ("apply_ionice", toString config.applyIonice),
    ("apply_oom_score_adj", toString config.applyOomScoreAdj),
    ("apply_latnice", toString config.applyLatnice),
    ("log_applied_rule", toString config.logAppliedRule),
    ("cgroup_load", toString config.cgroupLoad), ("type_load", toString config.typeLoad),
    ("rule_load", toString config.ruleLoad),
    ("cgroup_realtime_workaround", toString config.cgroupRealtimeWorkaround),
    ("apply_cgroup", toString config.applyCgroups), ("apply_cpuset", toString config.applyCpuset),
    ("apply_cpu_weight", toString config.applyCpuWeight), ("x3d_mode", config.x3dMode),
    ("loglevel", config.loglevel.display), ("check_freq", toString config.checkFreq.toNat),
    ("check_disks_schedulers", toString config.checkDisksSchedulers)]

def printLine (entry : String × String) : String := entry.1 ++ "=" ++ entry.2 ++ "\n"

theorem foldl_printLine (printed : List (String × String)) :
    ∀ text : String,
      printed.foldl (fun text entry => text ++ (entry.1 ++ "=") ++ entry.2 ++ "\n") text =
        text ++ String.join (printed.map printLine) := by
  induction printed with
  | nil => simp
  | cons entry rest inductionHypothesis =>
      intro text
      rw [List.foldl_cons, inductionHypothesis, List.map_cons, String.join_cons, printLine]
      simp only [String.append_assoc]

theorem toConfigString_eq (config : ConfigSnapshot) :
    config.toConfigString =
      "# Generated by ananicy-rs\n" ++ String.join ((printedEntries config).map printLine) := by
  have folded : config.toConfigString = (printedEntries config).foldl
      (fun text entry => text ++ (entry.1 ++ "=") ++ entry.2 ++ "\n")
      "# Generated by ananicy-rs\n" := rfl
  rw [folded, foldl_printLine]

/-- A key that a line can begin with. -/
structure PlainKey (key : List Char) : Prop where
  nonempty : key ≠ []
  solid : ∀ c ∈ key, Text.isWhitespace c = false
  noSign : '=' ∉ key
  noComment : key.head? ≠ some '#'

/-- A value that a line can end with. -/
structure PlainValue (value : List Char) : Prop where
  trimmed : Text.trimChars value = value
  noBreak : '\n' ∉ value

theorem PlainValue.of_solid {value : List Char} (solid : ∀ c ∈ value, Text.isWhitespace c = false) :
    PlainValue value where
  trimmed := Text.trimChars_solid solid
  noBreak member := absurd (solid '\n' member) (by decide)

/-- As a `Bool`, so that it is decided along the text. -/
theorem PlainValue.of_all {value : List Char}
    (solid : (value.all fun c => !Text.isWhitespace c) = true) : PlainValue value := by
  apply PlainValue.of_solid
  intro c member
  exact (Bool.not_eq_true' _).mp (List.all_eq_true.mp solid c member)

section Printed

variable {key value : List Char} (plainKey : PlainKey key) (plainValue : PlainValue value)

include plainValue in
theorem last_printed (c : Char) (isLast : (key ++ '=' :: value).getLast? = some c) :
    Text.isWhitespace c = false := by
  rw [List.getLast?_append, List.getLast?_cons] at isLast
  cases ending : value.getLast? with
  | none =>
      rw [ending] at isLast
      obtain rfl : '=' = c := by
        simpa using isLast
      decide
  | some d =>
      rw [ending] at isLast
      obtain rfl : d = c := by
        simpa using isLast
      rw [← plainValue.trimmed] at ending
      exact Text.getLast?_trimChars ending

include plainKey plainValue

theorem trimChars_printed : Text.trimChars (key ++ '=' :: value) = key ++ '=' :: value := by
  refine Text.trimChars_of_ends (fun c isFirst => ?_) (last_printed plainValue)
  cases key with
  | nil => exact absurd rfl plainKey.nonempty
  | cons first rest =>
      obtain rfl : first = c := by
        simpa using isFirst
      exact plainKey.solid first List.mem_cons_self

theorem linesChars_printed (rest : List Char) :
    Text.linesChars (key ++ '=' :: value ++ '\n' :: rest) =
      (key ++ '=' :: value) :: Text.linesChars rest := by
  have noBreak : '\n' ∉ key ++ '=' :: value := by
    have notKey : '\n' ∉ key := fun member => absurd (plainKey.solid '\n' member) (by decide)
    simp [notKey, plainValue.noBreak]
  obtain ⟨first, split, rfl | withReturn⟩ := Text.linesChars_line rest (key ++ '=' :: value) noBreak
  · exact split
  · -- The line would end in a blank.
    have isLast : (key ++ '=' :: value).getLast? = some '\r' := by
      rw [withReturn, List.getLast?_concat]
    exact absurd (last_printed plainValue '\r' isLast) (by decide)

theorem entryOf_printed :
    entryOf (String.ofList (key ++ '=' :: value)) = some (String.ofList key, String.ofList value) := by
  have trimmed : Text.trim (String.ofList (key ++ '=' :: value)) =
      String.ofList (key ++ '=' :: value) := by
    rw [Text.trim, String.toList_ofList, trimChars_printed plainKey plainValue]
  have isEntry : ((String.ofList (key ++ '=' :: value)).isEmpty ||
      Text.startsWithChar (String.ofList (key ++ '=' :: value)) '#') = false := by
    have noComment := plainKey.noComment
    cases key with
    | nil => exact absurd rfl plainKey.nonempty
    | cons first rest => simpa [Text.startsWithChar] using noComment
  have cut : Text.splitOnceChars '=' (key ++ '=' :: value) = some (key, value) :=
    (Text.splitOnceChars_eq_some_iff _).mpr ⟨rfl, plainKey.noSign⟩
  rw [entryOf, trimmed]
  simp only [isEntry, Bool.false_eq_true, if_false, Text.splitOnce, String.toList_ofList, cut,
    Option.map_some, Text.trim, Text.trimChars_solid plainKey.solid, plainValue.trimmed]

end Printed

theorem linesChars_join {printed : List (String × String)}
    (plain : ∀ entry ∈ printed, PlainKey entry.1.toList ∧ PlainValue entry.2.toList) :
    ((Text.linesChars (String.join (printed.map printLine)).toList).map String.ofList).filterMap
      entryOf = printed := by
  induction printed with
  | nil => rfl
  | cons entry rest inductionHypothesis =>
      obtain ⟨plainKey, plainValue⟩ := plain entry List.mem_cons_self
      have others := inductionHypothesis fun other member => plain other (List.mem_cons_of_mem _ member)
      have text : (String.join ((entry :: rest).map printLine)).toList =
          entry.1.toList ++ '=' :: entry.2.toList ++
            '\n' :: (String.join (rest.map printLine)).toList := by
        have sign : "=".toList = ['='] := rfl
        have newline : "\n".toList = ['\n'] := rfl
        simp [printLine, sign, newline]
      rw [text, linesChars_printed plainKey plainValue, List.map_cons,
        List.filterMap_cons_some (entryOf_printed plainKey plainValue), others,
        String.ofList_toList, String.ofList_toList]

theorem plainKey_printedEntries (config : ConfigSnapshot) :
    ∀ entry ∈ printedEntries config, PlainKey entry.1.toList := by
  have checked : ∀ key ∈ (printedEntries ConfigSnapshot.default).map Prod.fst,
      key.toList ≠ [] ∧ (key.toList.all fun c => !Text.isWhitespace c) = true ∧
        '=' ∉ key.toList ∧ key.toList.head? ≠ some '#' := by
    decide +kernel
  intro entry member
  have isKey : entry.1 ∈ (printedEntries config).map Prod.fst := List.mem_map_of_mem member
  obtain ⟨nonempty, solid, noSign, noComment⟩ := checked entry.1 isKey
  exact ⟨nonempty, fun c inKey => (Bool.not_eq_true' _).mp (List.all_eq_true.mp solid c inKey), noSign,
    noComment⟩

theorem plainValue_bool (flag : Bool) : PlainValue (toString flag).toList := by
  cases flag with
  | false => exact .of_all (by decide)
  | true => exact .of_all (by decide)

theorem plainValue_display (level : LogLevel) : PlainValue level.display.toList := by
  cases level with
  | trace => exact .of_all (by decide)
  | debug => exact .of_all (by decide)
  | info => exact .of_all (by decide)
  | warn => exact .of_all (by decide)
  | error => exact .of_all (by decide)
  | critical => exact .of_all (by decide)

theorem plainValue_nat (n : Nat) : PlainValue (toString n).toList := by
  apply PlainValue.of_solid
  intro c member
  have digits : (toString n).toList = Nat.toDigits 10 n := String.toList_ofList
  rw [digits] at member
  exact Text.isWhitespace_of_digit (Text.digit_of_mem_toDigits member)

theorem plainValue_printedEntries {config : ConfigSnapshot}
    (plainMode : PlainValue config.x3dMode.toList) :
    ∀ entry ∈ printedEntries config, PlainValue entry.2.toList := by
  simp only [printedEntries, List.mem_cons, List.not_mem_nil, or_false, forall_eq_or_imp, forall_eq,
    plainValue_bool, plainValue_display, plainValue_nat, plainMode, and_self]

theorem entries_toConfigString {config : ConfigSnapshot}
    (plainMode : PlainValue config.x3dMode.toList) :
    entries config.toConfigString = printedEntries config := by
  have first : "# Generated by ananicy-rs\n".toList = "# Generated by ananicy-rs".toList ++ ['\n'] :=
    rfl
  have comment : entryOf (String.ofList "# Generated by ananicy-rs".toList) = none := by
    decide +kernel
  have plain := plainKey_printedEntries config
  have others := linesChars_join fun entry member =>
    ⟨plain entry member, plainValue_printedEntries plainMode entry member⟩
  rw [entries, Text.lines, toConfigString_eq, String.toList_append, first, List.append_assoc,
    List.singleton_append, Text.linesChars_plain (by decide) (by decide), List.map_cons,
    List.filterMap_cons_none comment, others]

/-! ## Reading it back -/

theorem parse_display (level : LogLevel) : LogLevel.parseWithStatus level.display = (level, true) := by
  cases level with
  | trace => decide +kernel
  | debug => decide +kernel
  | info => decide +kernel
  | warn => decide +kernel
  | error => decide +kernel
  | critical => decide +kernel

theorem toString_beq_true (flag : Bool) : (toString flag == "true") = flag := by
  cases flag with
  | false => rfl
  | true => rfl

theorem positiveFreq_toString {freq : UInt32} (positive : 1 ≤ freq.toNat) :
    positiveFreq (toString freq.toNat) = some freq := by
  have digits : (toString freq.toNat).toList = Nat.toDigits 10 freq.toNat := String.toList_ofList
  have notZero : ¬ freq.toNat = 0 := by
    omega
  rw [positiveFreq, Text.parseU32, digits, Text.parseU32Chars_toDigits freq.toNat_lt,
    Option.bind_some, if_neg notZero, UInt32.ofNat_toNat]

/-- Every printed assignment is read back. -/
theorem foldl_printedEntries {config : ConfigSnapshot} (positive : 1 ≤ config.checkFreq.toNat) :
    (printedEntries config).foldl (fun config entry => (parseEntry entry.1 entry.2 config).1) default =
      { config with applyIoclass := true } := by
  simp only [printedEntries, List.foldl_cons, List.foldl_nil, parseEntry_eq, String.reduceEq,
    if_true, if_false, toString_beq_true, parse_display, positiveFreq_toString positive,
    Option.getD_some]
  rfl

/-- No printed assignment is refused. -/
theorem refusal_printedEntries {config : ConfigSnapshot} (positive : 1 ≤ config.checkFreq.toNat) :
    (printedEntries config).filterMap refusal = [] := by
  have kinds : ∀ entry ∈ printedEntries config, entry.1 ∈ plainKeys ∨
      entry = ("loglevel", config.loglevel.display) ∨
      entry = ("check_freq", toString config.checkFreq.toNat) := by
    simp [printedEntries, plainKeys]
  have plainOthers : ∀ key ∈ plainKeys, key ≠ "check_freq" ∧ key ≠ "loglevel" := by
    decide +kernel
  rw [List.filterMap_eq_nil_iff]
  intro entry member
  rcases kinds entry member with plain | rfl | rfl
  · obtain ⟨notFreq, notLevel⟩ := plainOthers entry.1 plain
    rw [refusal, if_neg notFreq, if_neg notLevel, if_pos plain]
  · have notFreq : ¬ "loglevel" = "check_freq" := by
      decide
    rw [refusal, if_neg notFreq, if_pos rfl, parse_display, if_pos rfl]
  · rw [refusal, if_pos rfl, positiveFreq_toString positive, Option.isSome_some, if_pos rfl]

theorem parseFile_toConfigString {config : ConfigSnapshot}
    (plainMode : PlainValue config.x3dMode.toList) (positive : 1 ≤ config.checkFreq.toNat) :
    parseFileWithDiagnostics config.toConfigString = ({ config with applyIoclass := true }, []) := by
  rw [parseFile_eq, entries_toConfigString plainMode, foldl_printedEntries positive,
    refusal_printedEntries positive]

theorem plainValue_of_entryOf {line key value : String} (noBreak : '\n' ∉ line.toList)
    (found : entryOf line = some (key, value)) : PlainValue value.toList := by
  rw [entryOf, Option.ite_none_left_eq_some] at found
  obtain ⟨parts, cut, same⟩ := Option.map_eq_some_iff.mp found.2
  obtain ⟨chars, cutChars, rfl⟩ := Option.map_eq_some_iff.mp cut
  obtain ⟨_, rfl⟩ := Prod.mk.inj same
  rw [Text.trim, String.toList_ofList, String.toList_ofList]
  refine ⟨Text.trimChars_trimChars _, fun member => noBreak ?_⟩
  have inRight := Text.mem_of_mem_trimChars member
  have isText := ((Text.splitOnceChars_eq_some_iff _).mp cutChars).1
  rw [Text.trim, String.toList_ofList] at isText
  apply Text.mem_of_mem_trimChars
  rw [isText]
  simp [inRight]

theorem plainMode_parseFile (content : String) :
    PlainValue (parseFileWithDiagnostics content).1.x3dMode.toList := by
  have isLast : (parseFileWithDiagnostics content).1.x3dMode = x3dModeField.last content :=
    x3dModeField.get_parseFile content
  rw [isLast, Field.last]
  cases found : ((valuesOf (entries content) x3dModeField.key).filterMap
      x3dModeField.read).getLast? with
  | none => exact .of_all (by decide)
  | some mode =>
      obtain ⟨value, isValue, read⟩ := List.mem_filterMap.mp (List.mem_of_getLast? found)
      obtain rfl : value = mode := Option.some.inj read
      obtain ⟨entry, member, rfl⟩ := List.mem_map.mp isValue
      obtain ⟨line, isLine, isEntry⟩ := List.mem_filterMap.mp (List.mem_of_mem_filter member)
      obtain ⟨chars, isChars, rfl⟩ := List.mem_map.mp isLine
      have assigned : entryOf (String.ofList chars) = some (entry.1, entry.2) := isEntry
      refine plainValue_of_entryOf ?_ assigned
      rw [String.toList_ofList]
      exact Text.notMem_of_mem_linesChars _ chars isChars

theorem applyIoclass_parseFile (content : String) :
    (parseFileWithDiagnostics content).1.applyIoclass = true ↔
      ∀ value, (valuesOf (entries content) "apply_ioclass").getLast? = some value → value = "true" := by
  have isLast : (parseFileWithDiagnostics content).1.applyIoclass = applyIoclassField.last content :=
    applyIoclassField.get_parseFile content
  have readAll : ∀ values : List String,
      values.filterMap applyIoclassField.read = values.map fun value => value == "true" :=
    fun values => congrFun List.filterMap_eq_map values
  rw [isLast, Field.last, readAll, List.getLast?_map]
  change ((((valuesOf (entries content) "apply_ioclass").getLast?).map _).getD true) = true ↔ _
  cases (valuesOf (entries content) "apply_ioclass").getLast? with
  | none => simp
  | some value => simp

/-- A configuration that was read from a file is read back from its own text, unless the
file sets `apply_ioclass` to anything but `true`: that key is not printed. -/
theorem parseFile_toConfigString_iff (content : String) :
    (parseFileWithDiagnostics (parseFileWithDiagnostics content).1.toConfigString =
      ((parseFileWithDiagnostics content).1, [])) ↔
      ∀ value, (valuesOf (entries content) "apply_ioclass").getLast? = some value → value = "true" := by
  rw [parseFile_toConfigString (plainMode_parseFile content) (checkFreq_parseFile content),
    ← applyIoclass_parseFile]
  generalize (parseFileWithDiagnostics content).1 = config
  constructor
  · intro same
    rw [← (Prod.mk.inj same).1]
  · intro isSet
    rw [← isSet]

theorem apply_ioclass_is_lost :
    ¬ ∀ content : String,
      parseFileWithDiagnostics (parseFileWithDiagnostics content).1.toConfigString =
        ((parseFileWithDiagnostics content).1, []) := by
  intro holds
  have reread := holds "apply_ioclass=false"
  rw [parseFile_toConfigString (plainMode_parseFile _) (checkFreq_parseFile _)] at reread
  have kept := congrArg applyIoclass (Prod.mk.inj reread).1
  exact absurd kept (by decide +kernel)

end AnanicyRs.Core.ConfigSnapshot
