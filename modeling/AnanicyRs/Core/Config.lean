import AnanicyRs.Lib.Text
import AnanicyRs.Core.Rules

/-!
Contract: the configuration of `crates/ananicy-core/src/config.rs`.

Owns `ConfigSnapshot` with its parser and its printer, the diagnostics both paths
hand back, and the two ways a snapshot is taken from a file: at start-up, where a
missing file is replaced by the defaults, and on a reload, where it is an error.

What the file system answers is an argument (`ConfigFile`).
-/

set_option autoImplicit false

namespace AnanicyRs.Core

open AnanicyRs.Lib

/-! ## Log levels -/

inductive LogLevel where
  | trace
  | debug
  | info
  | warn
  | error
  | critical
deriving DecidableEq, Repr

inductive Level where
  | trace
  | debug
  | info
  | warn
  | error
deriving DecidableEq, Repr

namespace LogLevel

def parseWithStatus (s : String) : LogLevel × Bool :=
  match Text.toLowercase s with
  | "trace" => (.trace, true)
  | "debug" => (.debug, true)
  | "info" => (.info, true)
  | "warn" => (.warn, true)
  | "error" => (.error, true)
  | "critical" => (.critical, true)
  | "fatal" => (.critical, true)
  | _ => (.info, false)

def toLevel : LogLevel → Level
  | .trace => .trace
  | .debug => .debug
  | .info => .info
  | .warn => .warn
  | .error => .error
  | .critical => .error

def display : LogLevel → String
  | .trace => "trace"
  | .debug => "debug"
  | .info => "info"
  | .warn => "warn"
  | .error => "error"
  | .critical => "critical"

end LogLevel

/-! ## Snapshots -/

inductive ConfigDiagnostic where
  | info (message : String)
  | warn (message : String)
  | error (message : String)
deriving DecidableEq, Repr

structure ConfigSnapshot where
  checkFreq : UInt32
  checkDisksSchedulers : Bool
  cgroupLoad : Bool
  typeLoad : Bool
  ruleLoad : Bool
  applyNice : Bool
  applyLatnice : Bool
  applyIoclass : Bool
  applyIonice : Bool
  applySched : Bool
  applyOomScoreAdj : Bool
  applyCgroups : Bool
  applyCpuset : Bool
  applyCpuWeight : Bool
  cgroupRealtimeWorkaround : Bool
  x3dMode : String
  logAppliedRule : Bool
  loglevel : LogLevel
deriving DecidableEq, Repr

namespace ConfigSnapshot

def default : ConfigSnapshot where
  checkFreq := 60
  checkDisksSchedulers := true
  cgroupLoad := true
  typeLoad := true
  ruleLoad := true
  applyNice := true
  applyLatnice := true
  applyIoclass := true
  applyIonice := true
  applySched := true
  applyOomScoreAdj := true
  applyCgroups := true
  applyCpuset := true
  applyCpuWeight := true
  cgroupRealtimeWorkaround := true
  x3dMode := "auto"
  logAppliedRule := false
  loglevel := .info

def loadFlags (config : ConfigSnapshot) : LoadFlags where
  ruleLoad := config.ruleLoad
  typeLoad := config.typeLoad
  cgroupLoad := config.cgroupLoad

/-! ## Parsing -/

/-- The `check_freq` arm: a zero interval is refused like one that does not parse. -/
def parseCheckFreq (value : String) (config : ConfigSnapshot) :
    ConfigSnapshot × List ConfigDiagnostic :=
  match Text.parseU32 value with
  | some 0 =>
      (config, [.error ("Invalid check_freq value: 0 (the full scan interval must be " ++
        "at least 1 second)")])
  | some freq => ({ config with checkFreq := UInt32.ofNat freq }, [])
  | none => (config, [.error ("Invalid check_freq value: " ++ value)])

/-- The `loglevel` arm: an unknown level is replaced and reported. -/
def parseLoglevel (value : String) (config : ConfigSnapshot) :
    ConfigSnapshot × List ConfigDiagnostic :=
  let parsed := LogLevel.parseWithStatus value
  ({ config with loglevel := parsed.1 },
    if parsed.2 then []
    else [.warn ("Unknown loglevel '" ++ value ++ "', falling back to info")])

def parseEntry (key value : String) (config : ConfigSnapshot) :
    ConfigSnapshot × List ConfigDiagnostic :=
  match key with
  | "check_freq" => parseCheckFreq value config
  | "cgroup_load" => ({ config with cgroupLoad := value == "true" }, [])
  | "check_disks_schedulers" => ({ config with checkDisksSchedulers := value == "true" }, [])
  | "type_load" => ({ config with typeLoad := value == "true" }, [])
  | "rule_load" => ({ config with ruleLoad := value == "true" }, [])
  | "apply_nice" => ({ config with applyNice := value == "true" }, [])
  | "apply_latnice" => ({ config with applyLatnice := value == "true" }, [])
  | "apply_ioclass" => ({ config with applyIoclass := value == "true" }, [])
  | "apply_ionice" => ({ config with applyIonice := value == "true" }, [])
  | "apply_sched" => ({ config with applySched := value == "true" }, [])
  | "apply_oom_score_adj" => ({ config with applyOomScoreAdj := value == "true" }, [])
  | "apply_cgroup" => ({ config with applyCgroups := value == "true" }, [])
  | "apply_cpuset" => ({ config with applyCpuset := value == "true" }, [])
  | "apply_cpu_weight" => ({ config with applyCpuWeight := value == "true" }, [])
  | "cgroup_realtime_workaround" =>
      ({ config with cgroupRealtimeWorkaround := value == "true" }, [])
  | "x3d_mode" => ({ config with x3dMode := value }, [])
  | "log_applied_rule" => ({ config with logAppliedRule := value == "true" }, [])
  | "loglevel" => parseLoglevel value config
  | _ => (config, [.warn ("Unknown config key: " ++ key)])

/-- One line: a comment and a line without a `=` say nothing. -/
def parseLine (line : String) (config : ConfigSnapshot) :
    ConfigSnapshot × List ConfigDiagnostic :=
  let trimmed := Text.trim line
  if trimmed.isEmpty || Text.startsWithChar trimmed '#' then (config, [])
  else
    match Text.splitOnce trimmed '=' with
    | some (key, value) => parseEntry (Text.trim key) (Text.trim value) config
    | none => (config, [])

/-- `ConfigSnapshot::parse_file_with_diagnostics`, on the text of the file. -/
def parseFileWithDiagnostics (content : String) : ConfigSnapshot × List ConfigDiagnostic :=
  (Text.lines content).foldl (fun parsed line =>
    let next := parseLine line parsed.1
    (next.1, parsed.2 ++ next.2)) (default, [])

def toConfigString (config : ConfigSnapshot) : String :=
  "# Generated by ananicy-rs\n" ++
  "apply_nice=" ++ toString config.applyNice ++ "\n" ++
  "apply_sched=" ++ toString config.applySched ++ "\n" ++
  "apply_ionice=" ++ toString config.applyIonice ++ "\n" ++
  "apply_oom_score_adj=" ++ toString config.applyOomScoreAdj ++ "\n" ++
  "apply_latnice=" ++ toString config.applyLatnice ++ "\n" ++
  "log_applied_rule=" ++ toString config.logAppliedRule ++ "\n" ++
  "cgroup_load=" ++ toString config.cgroupLoad ++ "\n" ++
  "type_load=" ++ toString config.typeLoad ++ "\n" ++
  "rule_load=" ++ toString config.ruleLoad ++ "\n" ++
  "cgroup_realtime_workaround=" ++ toString config.cgroupRealtimeWorkaround ++ "\n" ++
  "apply_cgroup=" ++ toString config.applyCgroups ++ "\n" ++
  "apply_cpuset=" ++ toString config.applyCpuset ++ "\n" ++
  "apply_cpu_weight=" ++ toString config.applyCpuWeight ++ "\n" ++
  "x3d_mode=" ++ config.x3dMode ++ "\n" ++
  "loglevel=" ++ config.loglevel.display ++ "\n" ++
  "check_freq=" ++ toString config.checkFreq.toNat ++ "\n" ++
  "check_disks_schedulers=" ++ toString config.checkDisksSchedulers ++ "\n"

/-- What a kernel without latency nice makes of a snapshot. -/
def withLatnice (latniceSupported : Bool) (config : ConfigSnapshot) : ConfigSnapshot :=
  if latniceSupported then config else { config with applyLatnice := false }

end ConfigSnapshot

/-! ## Files -/

/-- `std::io::Error`, as far as the daemon tells errors apart and prints them. -/
structure IoError where
  notFound : Bool
  message : String
deriving DecidableEq, Repr

/-- A configuration file, and what the file system answers about it. -/
structure ConfigFile where
  path : String
  read : Except IoError String
  /-- `path.parent()`, and whether it exists. -/
  parent : Option (String × Bool)
  createDir : Except IoError Unit
  write : Except IoError Unit

namespace ConfigFile

/-- The reports on the defaults written in place of a missing file. -/
def defaultDiagnostics (file : ConfigFile) (configString : String) : List ConfigDiagnostic :=
  let announced : List ConfigDiagnostic :=
    [.info ("Configuration file " ++ file.path ++ " does not exist; using defaults"),
      .info ("Default config:\n" ++ configString),
      .info ("Writing default config to " ++ file.path)]
  let created : List ConfigDiagnostic :=
    match file.parent, file.createDir with
    | some (parent, false), .error reason =>
        [.error ("Cannot create config directory " ++ parent ++ ": " ++ reason.message)]
    | _, _ => []
  let written : List ConfigDiagnostic :=
    match file.write with
    | .error reason => [.error ("Cannot write config to " ++ file.path ++ ": " ++ reason.message)]
    | .ok () => []
  announced ++ created ++ written

def loadFileWithDiagnostics (file : ConfigFile) (latniceSupported : Bool) :
    Except IoError (ConfigSnapshot × List ConfigDiagnostic) :=
  match file.read with
  | .ok content =>
      let parsed := ConfigSnapshot.parseFileWithDiagnostics content
      .ok (parsed.1.withLatnice latniceSupported, parsed.2)
  | .error reason =>
      if reason.notFound then
        -- The defaults are masked before they are written, and again on the way out.
        let snapshot := ConfigSnapshot.default.withLatnice latniceSupported
        .ok (snapshot.withLatnice latniceSupported,
          file.defaultDiagnostics snapshot.toConfigString)
      else .error reason

/-- `Config::reload_file_with_diagnostics`: the snapshot to store. -/
def reloadFileWithDiagnostics (file : ConfigFile) (latniceSupported : Bool) :
    Except IoError (ConfigSnapshot × List ConfigDiagnostic) :=
  match file.read with
  | .ok content =>
      let parsed := ConfigSnapshot.parseFileWithDiagnostics content
      .ok (parsed.1.withLatnice latniceSupported, parsed.2)
  | .error reason => .error reason

/-- A file that can be read is taken the same way at start-up and on a reload. -/
theorem reload_eq_load {file : ConfigFile} {content : String} (readable : file.read = .ok content)
    (latniceSupported : Bool) :
    file.reloadFileWithDiagnostics latniceSupported =
      file.loadFileWithDiagnostics latniceSupported := by
  rw [reloadFileWithDiagnostics, loadFileWithDiagnostics, readable]

end ConfigFile

end AnanicyRs.Core
