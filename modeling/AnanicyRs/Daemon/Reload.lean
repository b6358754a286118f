import AnanicyRs.Daemon.Startup

/-!
Contract: a reload against a restart (`Reload::apply` of `src/signals.rs`).

Owns the reload, the runs of a daemon between start and stop (reloads on any contents
of the disk, lookups of the worker in between), and the comparison of what the last
reload leaves with a daemon started at that moment. The two agree on the snapshot and
on the rules; they agree on the log level exactly when `LevelFollows` holds, because
the override of `--verbose` is computed once, from the level at start-up.

Left out: the cgroups a reload creates, and its log lines.
-/

set_option autoImplicit false

namespace AnanicyRs.Daemon

open AnanicyRs.Core
open AnanicyRs.Core.Rules

variable {ρ κ : Type}

/-! ## Reloads and runs -/

def reloadConfig (moment : Moment) (running : Running ρ κ) : Running ρ κ :=
  match moment.config.reloadFileWithDiagnostics moment.latniceSupported with
  | .ok (snapshot, _) =>
      { running with
        config := snapshot
        logLevel := running.levelOverride.getD snapshot.loglevel.toLevel }
  | .error _ => running

/-- The rules part of `Reload::apply`; the name table of the process stays. -/
def reloadRules (crates : Crates ρ κ) (moment : Moment) (running : Running ρ κ) : Running ρ κ :=
  if running.config.ruleLoad then
    { running with rules := loadRules crates running.config moment running.rules.names }
  else running

def reload (crates : Crates ρ κ) (moment : Moment) (running : Running ρ κ) : Running ρ κ :=
  reloadRules crates moment (reloadConfig moment running)

/-- What happens to a running daemon: a `SIGUSR1`, or a process the worker looks up. -/
inductive Event where
  | reload (moment : Moment)
  | lookup (name : String)

def step (crates : Crates ρ κ) (event : Event) (running : Running ρ κ) : Running ρ κ :=
  match event with
  | .reload moment => reload crates moment running
  | .lookup name => { running with rules := (getRule crates name running.rules).2 }

def run (crates : Crates ρ κ) (events : List Event) (running : Running ρ κ) : Running ρ κ :=
  events.foldl (fun current event => step crates event current) running

/-! ## What no event changes -/

theorem reloadRules_frame (crates : Crates ρ κ) (moment : Moment) (running : Running ρ κ) :
    ∃ rules, reloadRules crates moment running = { running with rules := rules } := by
  unfold reloadRules
  split
  · exact ⟨_, rfl⟩
  · exact ⟨running.rules, rfl⟩

theorem levelOverride_reload (crates : Crates ρ κ) (moment : Moment) (running : Running ρ κ) :
    (reload crates moment running).levelOverride = running.levelOverride := by
  obtain ⟨rules, framed⟩ := reloadRules_frame crates moment (reloadConfig moment running)
  rw [reload, framed]
  unfold reloadConfig
  cases moment.config.reloadFileWithDiagnostics moment.latniceSupported <;> rfl

theorem levelOverride_run (crates : Crates ρ κ) (events : List Event) (running : Running ρ κ) :
    (run crates events running).levelOverride = running.levelOverride := by
  induction events generalizing running with
  | nil => rfl
  | cons event rest inductionHypothesis =>
      have kept : (step crates event running).levelOverride = running.levelOverride := by
        cases event with
        | reload moment => exact levelOverride_reload crates moment running
        | lookup name => rfl
      exact (inductionHypothesis (step crates event running)).trans kept

/-- A configuration that cannot be read changes neither the snapshot nor the level. -/
theorem reload_unreadable (crates : Crates ρ κ) {moment : Moment} {reason : IoError}
    (unreadable : moment.config.read = .error reason) (running : Running ρ κ) :
    (reload crates moment running).config = running.config ∧
      (reload crates moment running).logLevel = running.logLevel := by
  have kept : reloadConfig moment running = running := by
    rw [reloadConfig, ConfigFile.reloadFileWithDiagnostics, unreadable]
  obtain ⟨rules, framed⟩ := reloadRules_frame crates moment running
  rw [reload, kept, framed]
  exact ⟨rfl, rfl⟩

/-! ## The last reload -/

/-- The same files and the same probe; the files may be listed in another order. -/
structure SameDisk (left right : Moment) : Prop where
  config : left.config = right.config
  isDir : left.tree.isDir = right.tree.isDir
  files : left.tree.files.Perm right.tree.files
  latniceSupported : left.latniceSupported = right.latniceSupported

/-- The same snapshot, the same log level, and rules that no caller can tell apart. -/
structure SameDaemon (crates : Crates ρ κ) (left right : Running ρ κ) : Prop where
  config : left.config = right.config
  logLevel : left.logLevel = right.logLevel
  rules : Indistinguishable crates left.rules right.rules

/-- The level at start-up and the level read last are raised to the same one, or the
command line does not ask for more. -/
def LevelFollows (args : Args) (startup last : LogLevel) : Prop :=
  args.verbose = true → args.forceTrace = false →
    moreVerboseThan startup.toLevel = moreVerboseThan last.toLevel

instance (args : Args) (startup last : LogLevel) : Decidable (LevelFollows args startup last) :=
  inferInstanceAs (Decidable (_ → _ → _))

theorem overridden_eq_iff (args : Args) (startup last : LogLevel) :
    (logLevelOverride startup args).getD last.toLevel = effectiveLogLevel last args ↔
      LevelFollows args startup last := by
  unfold effectiveLogLevel logLevelOverride LevelFollows
  cases args.forceTrace <;> cases args.verbose <;> simp

/-- The snapshot that a readable configuration states on a machine. -/
def statedConfig (moment : Moment) (content : String) : ConfigSnapshot :=
  (ConfigSnapshot.parseFileWithDiagnostics content).1.withLatnice moment.latniceSupported

theorem loadConfig_readable {moment : Moment} {content : String}
    (readable : moment.config.read = .ok content) :
    (loadConfig moment).snapshot = statedConfig moment content := by
  rw [loadConfig, ConfigFile.loadFileWithDiagnostics, readable]
  rfl

theorem reload_readable (crates : Crates ρ κ) {moment : Moment} {content : String}
    (readable : moment.config.read = .ok content)
    (ruleLoad : (statedConfig moment content).ruleLoad = true) (running : Running ρ κ) :
    reload crates moment running =
      { config := statedConfig moment content
        logLevel := running.levelOverride.getD (statedConfig moment content).loglevel.toLevel
        levelOverride := running.levelOverride
        rules := loadRules crates (statedConfig moment content) moment running.rules.names } := by
  have reread : reloadConfig moment running =
      { running with
        config := statedConfig moment content
        logLevel := running.levelOverride.getD (statedConfig moment content).loglevel.toLevel } := by
    rw [reloadConfig, ConfigFile.reload_eq_load readable, ConfigFile.loadFileWithDiagnostics,
      readable]
    rfl
  rw [reload, reread, reloadRules, if_pos ruleLoad]

/-- Rules loaded from the same files in two processes are the same to every caller. -/
theorem loadRules_indistinguishable (crates : Crates ρ κ) (config : ConfigSnapshot)
    {left right : Moment} (sameDisk : SameDisk left right) (leftNames rightNames : NameTable)
    (leftNotFull : (loadRules crates config left leftNames).names.NotFull)
    (rightNotFull : (loadRules crates config right rightNames).names.NotFull) :
    Indistinguishable crates (loadRules crates config left leftNames)
      (loadRules crates config right rightNames) := by
  refine indistinguishable_of_view (coherent_loaded crates _ _ _ _) (coherent_loaded crates _ _ _ _)
    ?_
  apply (view_loaded crates _ _ _ _ leftNotFull).trans
  rw [directoryLines_eq_of_perm sameDisk.isDir sameDisk.files]
  exact (view_loaded crates _ _ _ _ rightNotFull).symm

/-- After any history, a reload that reads a configuration with `rule_load` leaves the
daemon a restart would give, exactly when `--verbose` is not in force or asks for the
same level as it did at start-up; and a reload that cannot read its configuration
leaves the snapshot and the log level as they were. -/
theorem reload_eq_restart_iff (crates : Crates ρ κ) (args : Args) (startup last fresh : Moment)
    (events : List Event) (content : String) (readable : last.config.read = .ok content)
    (ruleLoad : (statedConfig last content).ruleLoad = true) (sameDisk : SameDisk last fresh)
    (notFull : (reload crates last
      (run crates events (start crates args startup))).rules.names.NotFull)
    (freshNotFull : (start crates args fresh).rules.names.NotFull) :
    (SameDaemon crates (reload crates last (run crates events (start crates args startup)))
        (start crates args fresh) ↔
      LevelFollows args (loadConfig startup).snapshot.loglevel
        (statedConfig last content).loglevel) ∧
    ∀ (moment : Moment) (reason : IoError) (running : Running ρ κ),
      moment.config.read = .error reason →
        (reload crates moment running).config = running.config ∧
          (reload crates moment running).logLevel = running.logLevel := by
  refine ⟨?_, fun _ _ running unreadable => reload_unreadable crates unreadable running⟩
  have freshConfig : (loadConfig fresh).snapshot = statedConfig last content := by
    rw [loadConfig_readable (sameDisk.config ▸ readable), statedConfig, statedConfig,
      sameDisk.latniceSupported]
  have started : start crates args fresh =
      { config := statedConfig last content
        logLevel := effectiveLogLevel (statedConfig last content).loglevel args
        levelOverride := logLevelOverride (statedConfig last content).loglevel args
        rules := loadRules crates (statedConfig last content) fresh .empty } := by
    rw [start, freshConfig]
  -- No event touches the override, so the one in force is that of the start-up level.
  have override : (run crates events (start crates args startup)).levelOverride =
      logLevelOverride (loadConfig startup).snapshot.loglevel args :=
    levelOverride_run crates events _
  rw [reload_readable crates readable ruleLoad, override] at notFull ⊢
  rw [started] at freshNotFull ⊢
  rw [← overridden_eq_iff]
  constructor
  · exact fun same => same.logLevel
  · intro sameLevel
    exact ⟨rfl, sameLevel,
      loadRules_indistinguishable crates _ sameDisk _ _ notFull freshNotFull⟩

def momentWith (content : String) : Moment where
  config :=
    { path := "/etc/ananicy.d/ananicy.conf"
      read := .ok content
      parent := some ("/etc/ananicy.d", true)
      createDir := .ok ()
      write := .ok () }
  tree := browserTree
  latniceSupported := true
  order := listedOrder

/-- Started with `--verbose`, a reload that changes a flag and leaves the level is the
restart it stands for. -/
theorem reload_eq_restart_sameLevel :
    SameDaemon (literalCrates browserDefinitions)
      (reload (literalCrates browserDefinitions) (momentWith "loglevel=INFO\napply_nice=false")
        (run (literalCrates browserDefinitions) [.lookup "firefox"]
          (start (literalCrates browserDefinitions) ⟨true, false⟩ (momentWith "loglevel=info"))))
      (start (literalCrates browserDefinitions) ⟨true, false⟩
        (momentWith "loglevel=INFO\napply_nice=false")) :=
  (reload_eq_restart_iff (literalCrates browserDefinitions) ⟨true, false⟩
    (momentWith "loglevel=info") (momentWith "loglevel=INFO\napply_nice=false")
    (momentWith "loglevel=INFO\napply_nice=false") [.lookup "firefox"]
    "loglevel=INFO\napply_nice=false" rfl (by decide +kernel) ⟨rfl, rfl, .refl _, rfl⟩
    (by decide +kernel) (by decide +kernel)).1.mpr (by decide +kernel)

/-- Started with `--verbose` at `info`, a reload that reads `warn` stays at `debug`,
where a restart would come up at `info`. -/
theorem reload_keeps_override :
    (reload (literalCrates browserDefinitions) (momentWith "loglevel=warn")
        (start (literalCrates browserDefinitions) ⟨true, false⟩
          (momentWith "loglevel=info"))).logLevel = .debug ∧
      (start (literalCrates browserDefinitions) ⟨true, false⟩
        (momentWith "loglevel=warn")).logLevel = .info ∧
      ¬ SameDaemon (literalCrates browserDefinitions)
        (reload (literalCrates browserDefinitions) (momentWith "loglevel=warn")
          (start (literalCrates browserDefinitions) ⟨true, false⟩ (momentWith "loglevel=info")))
        (start (literalCrates browserDefinitions) ⟨true, false⟩ (momentWith "loglevel=warn")) := by
  have reloaded : (reload (literalCrates browserDefinitions) (momentWith "loglevel=warn")
      (start (literalCrates browserDefinitions) ⟨true, false⟩
        (momentWith "loglevel=info"))).logLevel = .debug := by
    decide +kernel
  have restarted : (start (literalCrates browserDefinitions) ⟨true, false⟩
      (momentWith "loglevel=warn")).logLevel = .info := by
    decide +kernel
  refine ⟨reloaded, restarted, fun same => ?_⟩
  have sameLevel := same.logLevel
  rw [reloaded, restarted] at sameLevel
  exact absurd sameLevel (by decide)

end AnanicyRs.Daemon
