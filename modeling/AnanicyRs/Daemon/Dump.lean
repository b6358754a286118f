import AnanicyRs.Core.Directory
import AnanicyRs.Core.Worker

/-!
Contract: `dump proc` of `src/dump.rs`, and the worker it reports on.

Owns the model of `get_process_info_map` and the comparison of the rule it names for a
process with the rule the worker applies. The two look up different names: the dump
takes the name of the process as it is, the worker strips it of its wrapper first.

The fields that `ProcessInfo::from_parts` itself reads from procfs are left out.
-/

set_option autoImplicit false

namespace AnanicyRs.Daemon

open AnanicyRs.Lib
open AnanicyRs.Lib.Json
open AnanicyRs.Lib.LastWins
open AnanicyRs.Core
open AnanicyRs.Core.Rules

variable {ρ κ σ : Type}

/-! ## The dump -/

/-- What the dump reads below `/proc/<pid>`: `none` where a read fails. -/
structure ProcReadings where
  exe : Int32 → Option String
  cmdline : Int32 → Option String
  oomScoreAdj : Int32 → Option String
  task : Int32 → Option (List String)

/-- `ProcessInfo`, as far as the dump fills it in. -/
structure ProcessInfo where
  pid : Int32
  tpid : Int32
  exe : Option String
  cmd : String
  cmdline : List String
  oomScoreAdj : Int32
  rule : Option String
deriving DecidableEq, Repr

/-- The `rule` of a process: no rule and a rule without a name are both none. -/
def reportedRule (crates : Crates ρ κ) (p : Process) : StateM (Rules ρ κ) (Option String) :=
  fun rules =>
    let (found, rules) := getRule crates p.name rules
    let ruleName := (found.map Prod.fst).getD ""
    (if ruleName.isEmpty then none else some ruleName, rules)

def arguments (text : String) : List String :=
  ((text.toList.splitOn '\x00').map Text.trimChars).filterMap fun argument =>
    if argument.isEmpty then none else some (String.ofList argument)

/-- The entries of one scanned process, one for each of its threads. -/
def processEntries (crates : Crates ρ κ) (proc : ProcReadings) (p : Process) :
    StateM (Rules ρ κ) (List (String × ProcessInfo)) := do
  let rule ← reportedRule crates p
  let tids := ((proc.task p.pid).getD []).filterMap Text.parseI32
  return tids.map fun tid =>
    (toString tid,
      { pid := p.pid
        tpid := tid
        exe := proc.exe p.pid
        cmd := p.name
        cmdline := arguments ((proc.cmdline p.pid).getD "")
        oomScoreAdj :=
          (Text.parseI32 (Text.trim ((proc.oomScoreAdj p.pid).getD ""))).getD 0
        rule })

def collectEntries (crates : Crates ρ κ) (proc : ProcReadings) :
    List Process → (AList fun _ : String => ProcessInfo) →
      StateM (Rules ρ κ) (AList fun _ : String => ProcessInfo)
  | [], processMap => pure processMap
  | p :: rest, processMap => do
      let entries ← processEntries crates proc p
      collectEntries crates proc rest (insertAll entries processMap)

/-- `get_process_info_map`, over the processes the scan sends. -/
def getProcessInfoMap (crates : Crates ρ κ) (proc : ProcReadings) (scanned : List Process) :
    StateM (Rules ρ κ) (AList fun _ : String => ProcessInfo) :=
  collectEntries crates proc scanned ∅

/-! ## The names of the rules -/

def named (ruleName : Option String) : Option String :=
  if ruleName = some "" then none else ruleName

theorem reportedRule_eq (crates : Crates ρ κ) (p : Process) (rules : Rules ρ κ) :
    (reportedRule crates p rules).1 = named ((getRule crates p.name rules).1.map Prod.fst) ∧
      (reportedRule crates p rules).2 = (getRule crates p.name rules).2 := by
  refine ⟨?_, rfl⟩
  unfold reportedRule named
  cases found : (getRule crates p.name rules).1.map Prod.fst with
  | none => simp [found]
  | some ruleName => by_cases blank : ruleName = "" <;> simp [found, blank]

theorem handle_ruleName (worker : Worker) (crates : Crates ρ κ) (platform : Platform σ)
    (cfg : ConfigSnapshot) {p : Process} (authoritative : p.nameIsAuthoritative = true)
    (state : σ) (rules : Rules ρ κ) :
    (worker.handle crates platform cfg p (state, rules)).1.map Worker.Handled.ruleName =
      if p.pid = 0 then none
      else (getRule crates (lookupName p.name) rules).1.map Prod.fst := by
  have resolved : Worker.resolveName platform p state = (p, state) := by
    unfold Worker.resolveName
    rw [if_pos authoritative]
    rfl
  unfold Worker.handle
  by_cases idle : p.pid = 0
  · rw [if_pos idle, if_pos idle]
    rfl
  · rw [if_neg idle, if_neg idle, resolved]
    simp only
    cases (getRule crates (lookupName p.name) rules).1 with
    | none => rfl
    | some answer => rfl

/-- When the dump and the worker name the same rule for a process, in terms of the
definitions in load order, its name and its name without the wrapper. -/
inductive NamedAlike (crates : Crates ρ κ) (definitions : List (String × Document))
    (p : Process) : Prop
  -- The worker skips the idle task, so the dump must have nothing to name either.
  | idle (pid : p.pid = 0) (noRule : p.name ∉ definitions.map Prod.fst)
      (noPattern : named (patternRule crates definitions p.name) = none)
  -- Both look up the same name, and its rule has a name to report.
  | unwrapped (pid : p.pid ≠ 0) (sameName : lookupName p.name = p.name)
      (hasName : p.name ∈ definitions.map Prod.fst ∨
        patternRule crates definitions p.name ≠ some "")
  -- Only the full name is a rule's own, and the stripped one has a pattern of that rule.
  | fullName (pid : p.pid ≠ 0) (wrapped : lookupName p.name ≠ p.name)
      (isRule : p.name ∈ definitions.map Prod.fst)
      (noRule : lookupName p.name ∉ definitions.map Prod.fst)
      (byPattern : patternRule crates definitions (lookupName p.name) = some p.name)
  -- Only the stripped name is a rule's own, and the full one has a pattern of that rule.
  | strippedName (pid : p.pid ≠ 0) (wrapped : lookupName p.name ≠ p.name)
      (noRule : p.name ∉ definitions.map Prod.fst)
      (isRule : lookupName p.name ∈ definitions.map Prod.fst)
      (byPattern : patternRule crates definitions p.name = some (lookupName p.name))
  -- Neither is a rule's own, and the patterns of one rule take both, or none does.
  | patterns (pid : p.pid ≠ 0) (wrapped : lookupName p.name ≠ p.name)
      (noRule : p.name ∉ definitions.map Prod.fst)
      (noStrippedRule : lookupName p.name ∉ definitions.map Prod.fst)
      (samePattern : named (patternRule crates definitions p.name) =
        patternRule crates definitions (lookupName p.name))

theorem lookupName_ne_empty {name : String} (wrapped : lookupName name ≠ name) :
    lookupName name ≠ "" := by
  intro blank
  rcases lookupSlice_cases name.toList with whole | ⟨base, ⟨_, _, nonempty, _⟩, stripped⟩
  · apply wrapped
    simp [lookupName, whole]
  · apply nonempty
    simpa [lookupName, stripped] using blank

theorem named_of_ne {name : String} (nonempty : name ≠ "") : named (some name) = some name := by
  simp [named, nonempty]

theorem namedAlike_iff (crates : Crates ρ κ) (definitions : List (String × Document))
    {p : Process} (nonempty : p.name ≠ "") :
    named (selected crates definitions p.name) =
        (if p.pid = 0 then none else selected crates definitions (lookupName p.name)) ↔
      NamedAlike crates definitions p := by
  have own : ∀ {name}, name ∈ definitions.map Prod.fst →
      selected crates definitions name = some name := fun isRule => if_pos isRule
  have byPattern : ∀ {name}, name ∉ definitions.map Prod.fst →
      selected crates definitions name = patternRule crates definitions name :=
    fun noRule => if_neg noRule
  constructor
  · intro same
    by_cases pid : p.pid = 0
    · rw [if_pos pid] at same
      by_cases isRule : p.name ∈ definitions.map Prod.fst
      · rw [own isRule, named_of_ne nonempty] at same
        exact absurd same (by simp)
      · exact .idle pid isRule (byPattern isRule ▸ same)
    · rw [if_neg pid] at same
      by_cases sameName : lookupName p.name = p.name
      · rw [sameName] at same
        apply NamedAlike.unwrapped pid sameName
        by_cases isRule : p.name ∈ definitions.map Prod.fst
        · exact .inl isRule
        · refine .inr fun blank => ?_
          rw [byPattern isRule, blank] at same
          exact absurd same (by simp [named])
      -- A wrapped name: what each lookup selects depends on which of the two names is
      -- a rule's own, and two different own names never agree.
      · by_cases isRule : p.name ∈ definitions.map Prod.fst <;>
          by_cases isStripped : lookupName p.name ∈ definitions.map Prod.fst
        · rw [own isRule, own isStripped, named_of_ne nonempty] at same
          exact absurd (Option.some.inj same).symm sameName
        · rw [own isRule, byPattern isStripped, named_of_ne nonempty] at same
          exact .fullName pid sameName isRule isStripped same.symm
        · rw [byPattern isRule, own isStripped] at same
          apply NamedAlike.strippedName pid sameName isRule isStripped
          unfold named at same
          split at same
          · exact absurd same (by simp)
          · exact same
        · rw [byPattern isRule, byPattern isStripped] at same
          exact .patterns pid sameName isRule isStripped same
  · intro alike
    cases alike with
    | idle pid noRule noPattern => rw [if_pos pid, byPattern noRule, noPattern]
    | unwrapped pid sameName hasName =>
        rw [if_neg pid, sameName]
        by_cases isRule : p.name ∈ definitions.map Prod.fst
        · rw [own isRule, named_of_ne nonempty]
        · have notBlank := hasName.resolve_left isRule
          rw [byPattern isRule, named, if_neg notBlank]
    | fullName pid wrapped isRule noRule matched =>
        rw [if_neg pid, own isRule, byPattern noRule, matched, named_of_ne nonempty]
    | strippedName pid wrapped noRule isRule matched =>
        rw [if_neg pid, byPattern noRule, own isRule, matched,
          named_of_ne (lookupName_ne_empty wrapped)]
    | patterns pid wrapped noRule noStrippedRule samePattern =>
        rw [if_neg pid, byPattern noRule, byPattern noStrippedRule, samePattern]

/-! ## The dump against the worker -/

section Loaded

variable (crates : Crates ρ κ) (flags : LoadFlags) (tree : RuleTree)

/-- After any lookups, the dump reports the rule that the name of the process selects. -/
theorem reportedRule_loaded (order : IterationOrder) (names : NameTable) (looked : List String)
    (p : Process) :
    (reportedRule crates p (afterLookups crates looked
        (loaded crates flags order tree names))).1 =
      named (selected crates (programLines crates (directoryLines flags tree)) p.name) := by
  rw [(reportedRule_eq crates p _).1, name_getRule (tracks_loaded crates flags order tree names)
    (coherent_loaded crates flags order tree names)]

/-- An entry that the receive loop adds is of a process it received, and names the rule
reported for that process. -/
theorem lookup_collectEntries (order : IterationOrder) (names : NameTable) (proc : ProcReadings)
    (scanned : List Process) (processMap : AList fun _ : String => ProcessInfo)
    (looked : List String) {tid : String} {info : ProcessInfo}
    (listed : (collectEntries crates proc scanned processMap (afterLookups crates looked
      (loaded crates flags order tree names))).1.lookup tid = some info) :
    processMap.lookup tid = some info ∨ ∃ p ∈ scanned, info.pid = p.pid ∧ info.cmd = p.name ∧
      info.rule = (reportedRule crates p (loaded crates flags order tree names)).1 := by
  induction scanned generalizing processMap looked with
  | nil => exact .inl listed
  | cons p rest inductionHypothesis =>
      let store := afterLookups crates looked (loaded crates flags order tree names)
      have nextStore : (processEntries crates proc p store).2 =
          afterLookups crates (looked ++ [p.name]) (loaded crates flags order tree names) := by
        rw [afterLookups, List.foldl_append]
        exact (reportedRule_eq crates p store).2
      have unfolded : collectEntries crates proc (p :: rest) processMap store =
          collectEntries crates proc rest
            (insertAll (processEntries crates proc p store).1 processMap)
            (processEntries crates proc p store).2 := rfl
      rw [unfolded, nextStore] at listed
      rcases inductionHypothesis _ _ listed with held | ⟨other, member, reported⟩
      · rw [lookup_insertAll, Option.or_eq_some_iff] at held
        rcases held with added | ⟨_, before⟩
        · have isEntry := (inForce_sublist _).subset ((mem_inForce _ _ _).mpr added)
          obtain ⟨_, _, isInfo⟩ := List.mem_map.mp isEntry
          rw [Prod.mk.injEq] at isInfo
          refine .inr ⟨p, by simp, ?_⟩
          rw [← isInfo.2]
          have sameRule := (reportedRule_loaded crates flags tree order names looked p).trans
            (reportedRule_loaded crates flags tree order names [] p).symm
          exact ⟨rfl, rfl, sameRule⟩
        · exact .inl before
      · exact .inr ⟨other, by simp [member], reported⟩

/-- Every entry of the map is of a scanned process, and names the rule reported for it. -/
theorem lookup_getProcessInfoMap (order : IterationOrder) (names : NameTable)
    (proc : ProcReadings) (scanned : List Process) {tid : String} {info : ProcessInfo}
    (listed : (getProcessInfoMap crates proc scanned
      (loaded crates flags order tree names)).1.lookup tid = some info) :
    ∃ p ∈ scanned, info.pid = p.pid ∧ info.cmd = p.name ∧
      info.rule = (reportedRule crates p (loaded crates flags order tree names)).1 := by
  rcases lookup_collectEntries crates flags tree order names proc scanned ∅ [] listed with
    absurdly | reported
  · exact absurd absurdly (by simp)
  · exact reported

/-- On any loaded rule set and after any lookups, the rule that the dump names for a
process is the one the worker applies to it exactly when `NamedAlike` holds of them. -/
theorem reportedRule_eq_handled_iff (dumpOrder workerOrder : IterationOrder)
    (dumpNames workerNames : NameTable) (dumpLooked workerLooked : List String)
    (worker : Worker) (platform : Platform σ) (cfg : ConfigSnapshot) (state : σ) (p : Process)
    (authoritative : p.nameIsAuthoritative = true) (nonempty : p.name ≠ "") :
    (reportedRule crates p (afterLookups crates dumpLooked
          (loaded crates flags dumpOrder tree dumpNames))).1 =
        (worker.handle crates platform cfg p (state, afterLookups crates workerLooked
          (loaded crates flags workerOrder tree workerNames))).1.map Worker.Handled.ruleName ↔
      NamedAlike crates (programLines crates (directoryLines flags tree)) p := by
  rw [← namedAlike_iff crates _ nonempty, reportedRule_loaded,
    handle_ruleName worker crates platform cfg authoritative,
    name_getRule (tracks_loaded crates flags workerOrder tree workerNames)
      (coherent_loaded crates flags workerOrder tree workerNames)]

end Loaded

def obedientPlatform : Platform Unit where
  isRealtime _ := pure false
  getProcessName _ := pure "<unknown>"
  getTids pid := pure (.ok [pid])
  isCgroupV2 := true
  getMaxCores := 4
  perform _ := pure (.ok ())

def plainWorker : Worker := ⟨∅, fun _ => 100⟩

/-- A process under the name of its rule: dump and worker name the same one. -/
theorem reportedRule_eq_handled_firefox :
    (reportedRule (literalCrates browserDefinitions) ⟨7, "firefox", true⟩ (loaded
        (literalCrates browserDefinitions) everyFlag listedOrder browserTree .empty)).1 =
      (plainWorker.handle (literalCrates browserDefinitions) obedientPlatform .default
        ⟨7, "firefox", true⟩ ((), loaded (literalCrates browserDefinitions) everyFlag listedOrder
          browserTree .empty)).1.map Worker.Handled.ruleName :=
  (reportedRule_eq_handled_iff (literalCrates browserDefinitions) everyFlag browserTree listedOrder
    listedOrder .empty .empty [] [] plainWorker obedientPlatform .default () ⟨7, "firefox", true⟩
    rfl (by decide)).mpr (.unwrapped (by decide) (by decide +kernel) (.inl (by decide +kernel)))

/-- A wrapped executable: the dump reports no rule, the worker applies one. -/
theorem reportedRule_wrapped :
    (reportedRule (literalCrates browserDefinitions) ⟨7, ".firefox-wrapped", true⟩ (loaded
        (literalCrates browserDefinitions) everyFlag listedOrder browserTree .empty)).1 = none ∧
      (plainWorker.handle (literalCrates browserDefinitions) obedientPlatform .default
        ⟨7, ".firefox-wrapped", true⟩ ((), loaded (literalCrates browserDefinitions) everyFlag
          listedOrder browserTree .empty)).1.map Worker.Handled.ruleName = some "firefox" ∧
      (reportedRule (literalCrates browserDefinitions) ⟨7, ".firefox-wrapped", true⟩ (loaded
          (literalCrates browserDefinitions) everyFlag listedOrder browserTree .empty)).1 ≠
        (plainWorker.handle (literalCrates browserDefinitions) obedientPlatform .default
          ⟨7, ".firefox-wrapped", true⟩ ((), loaded (literalCrates browserDefinitions) everyFlag
            listedOrder browserTree .empty)).1.map Worker.Handled.ruleName := by
  decide +kernel

end AnanicyRs.Daemon
