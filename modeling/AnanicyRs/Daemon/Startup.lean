import AnanicyRs.Core.Config
import AnanicyRs.Core.Directory

/-!
Contract: the state `src/main.rs` and `src/startup.rs` build before the daemon runs.

Owns the log level that the configuration and the command line ask for, the
configuration and the rules read at start-up, and the started daemon. What the file
system, the latency-nice probe and the hash maps answer at one moment is an argument
(`Moment`).

Left out: the logging back end (its filter is the level), topology, and everything
that happens after the rules are loaded.
-/

set_option autoImplicit false

namespace AnanicyRs.Daemon

open AnanicyRs.Core
open AnanicyRs.Core.Rules

variable {ρ κ : Type}

/-! ## Log levels -/

def moreVerboseThan : Level → Level
  | .error => .warn
  | .warn => .info
  | .info => .debug
  | .debug => .trace
  | .trace => .trace

/-- The command-line switches that decide the log level; `debug` forces a trace. -/
structure Args where
  verbose : Bool
  forceTrace : Bool
deriving DecidableEq, Repr

def logLevelOverride (configLevel : LogLevel) (args : Args) : Option Level :=
  if args.forceTrace then some .trace
  else if args.verbose then some (moreVerboseThan configLevel.toLevel)
  else none

def effectiveLogLevel (configLevel : LogLevel) (args : Args) : Level :=
  (logLevelOverride configLevel args).getD configLevel.toLevel

/-! ## Start-up -/

/-- What is on disk, and what the machine answers, at one moment. -/
structure Moment where
  config : ConfigFile
  tree : RuleTree
  latniceSupported : Bool
  order : IterationOrder

structure LoadedConfig where
  snapshot : ConfigSnapshot
  err : Option String
  diagnostics : List ConfigDiagnostic

def loadConfig (moment : Moment) : LoadedConfig :=
  match moment.config.loadFileWithDiagnostics moment.latniceSupported with
  | .ok (snapshot, diagnostics) => ⟨snapshot, none, diagnostics⟩
  | .error reason =>
      ⟨ConfigSnapshot.default.withLatnice moment.latniceSupported,
        some ("Failed to load config from " ++ moment.config.path ++ ": " ++ reason.message ++
          ". Using default."), []⟩

/-- `load_rules`, in a process whose name table is `names`. -/
def loadRules (crates : Crates ρ κ) (config : ConfigSnapshot) (moment : Moment)
    (names : NameTable) : Rules ρ κ :=
  loadDirectory crates config.loadFlags moment.order moment.tree (new crates names)

structure Running (ρ κ : Type) where
  config : ConfigSnapshot
  logLevel : Level
  /-- `Reload::log_level_override`, computed once by `main`. -/
  levelOverride : Option Level
  rules : Rules ρ κ

/-- `main`, up to the point where the signal handler is installed. -/
def start (crates : Crates ρ κ) (args : Args) (moment : Moment) : Running ρ κ :=
  let config := (loadConfig moment).snapshot
  { config
    logLevel := effectiveLogLevel config.loglevel args
    levelOverride := logLevelOverride config.loglevel args
    rules := loadRules crates config moment .empty }

end AnanicyRs.Daemon
