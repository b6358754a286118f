import AnanicyRs.Core.Rule
import AnanicyRs.Platform.Cgroup.Manager

/-!
Contract: the settings of a `.cgroups` rule (`settings_from_rule` of `src/runtime.rs`), up
to the control files they are written to.

A value crosses three widths on its way: the `u64` of the JSON integer, the `u32` of the
settings, and the `u64` of the bandwidth. `ClampsSettings` says what the documentation asks
for: the value that reaches the file is the written one, clamped once. The product of the
bandwidth never saturates; the cast to `u32` is what wraps, and the main theorem says for
which integers that shows in the file.

Does not own the `f32` scaling of a v1 weight.
-/

set_option autoImplicit false

namespace AnanicyRs.Daemon

open AnanicyRs.Core
open AnanicyRs.Lib AnanicyRs.Lib.Json AnanicyRs.Lib.UnixPath AnanicyRs.Lib.FileSystem
open AnanicyRs.Platform.Cgroup

/-! ## Settings of a rule -/

/-- The `number` closure of `settings_from_rule`: `as_u64`, then `as u32`. -/
def settingNumber (rule : Value) (key : String) : Option Nat :=
  ((rule.get key).bind Rule.u32Of).map UInt32.toNat

def settingsFromRule (rule : Value) : CgroupSettings where
  cpuQuota := settingNumber rule "CPUQuota"
  cpuWeight := settingNumber rule "CPUWeight"

/-! ## What is to be written -/

def periodUs : CgroupVersion → Nat
  | .v2 => v2PeriodUs
  | _ => v1PeriodUs

/-- One bandwidth, written the way the hierarchy takes it; outside the delegated root
nothing is. -/
def writeBandwidth (manager : CgroupManager) (machine : Machine) (target : String)
    (bandwidth : Nat) : Host Bool := do
  if ownership manager target = .foreign then pure false
  else if manager.info.version = .v2 then
    writeControl machine (join (components target) "cpu.max")
      (toString bandwidth ++ " " ++ toString v2PeriodUs ++ "\n")
  else if ← writeControl machine (join (components target) "cpu.cfs_period_us")
      (toString v1PeriodUs ++ "\n") then
    writeControl machine (join (components target) "cpu.cfs_quota_us")
      (toString bandwidth ++ "\n")
  else pure false

def writeWeight (machine : Machine) (target : String) (weight : Nat) : Host Bool :=
  writeControl machine (join (components target) "cpu.weight") (toString weight ++ "\n")

/-- On a machine with `cores` CPUs, each integer member of the rule reaches its file clamped
to the range of the file, and a member of any other kind is no setting. -/
structure ClampsSettings (version : CgroupVersion) (cores : Nat) (rule : Value) : Prop where
  quota : ∀ q : UInt64, rule.get "CPUQuota" = some (.number (.posInt q)) →
    ∃ quota, (settingsFromRule rule).cpuQuota = some quota ∧
      ∀ (manager : CgroupManager) (machine : Machine) (target : String),
        manager.info.version = version → machine.logicalCores = cores →
          setCpuMax manager machine target quota =
            writeBandwidth manager machine target (periodUs version * cores * min q.toNat 100 / 100)
  weight : version = .v2 → ∀ w : UInt64, rule.get "CPUWeight" = some (.number (.posInt w)) →
    ∃ weight, (settingsFromRule rule).cpuWeight = some weight ∧
      ∀ (manager : CgroupManager) (machine : Machine) (target : String),
        manager.info.version = version → machine.logicalCores = cores →
          setCpuWeight manager machine target weight =
            writeWeight machine target (min (max w.toNat 1) 10000)
  quotaIgnored : (∀ q, rule.get "CPUQuota" ≠ some (.number (.posInt q))) →
    (settingsFromRule rule).cpuQuota = none
  weightIgnored : (∀ w, rule.get "CPUWeight" ≠ some (.number (.posInt w))) →
    (settingsFromRule rule).cpuWeight = none

/-! ## The cast -/

theorem settingNumber_integer {rule : Value} {key : String} {q : UInt64}
    (written : rule.get key = some (.number (.posInt q))) :
    settingNumber rule key = some (q.toNat % 2 ^ 32) := by
  simp [settingNumber, written, Rule.u32Of, Number.asU64]

theorem settingNumber_other {rule : Value} {key : String}
    (other : ∀ q, rule.get key ≠ some (.number (.posInt q))) : settingNumber rule key = none := by
  rw [settingNumber, Option.map_eq_none_iff, Option.bind_eq_none_iff]
  intro value member
  cases value with
  | number number =>
      cases number with
      | posInt q => exact absurd member (other q)
      | negInt value => rfl
      | float bits => rfl
  | _ => rfl

/-! ## The product -/

theorem saturatingMul_of_le {a b : Nat} (fits : a * b ≤ 2 ^ 64 - 1) : saturatingMul a b = a * b :=
  min_eq_left fits

/-- Below `2^32` CPUs neither product leaves 64 bits, at the longer period too. -/
theorem bandwidthUs_exact {cores period : Nat} (quota : Nat) (few : cores < 2 ^ 32)
    (short : period ≤ v1PeriodUs) :
    bandwidthUs cores (min quota 100) period = period * cores * min quota 100 / 100 := by
  have perPeriod : period * cores ≤ v1PeriodUs * (2 ^ 32 - 1) :=
    Nat.mul_le_mul short (by omega)
  have whole : period * cores * min quota 100 ≤ v1PeriodUs * (2 ^ 32 - 1) * 100 :=
    Nat.mul_le_mul perPeriod (min_le_right quota 100)
  rw [v1PeriodUs] at perPeriod whole
  have inner : saturatingMul period cores = period * cores := saturatingMul_of_le (by omega)
  rw [bandwidthUs, inner, min_assoc, min_self, saturatingMul_of_le (by omega)]

theorem setCpuMax_eq_writeBandwidth {version : CgroupVersion} {manager : CgroupManager}
    {machine : Machine} (target : String) (quota : Nat) (isVersion : manager.info.version = version)
    (few : machine.logicalCores < 2 ^ 32) :
    setCpuMax manager machine target quota =
      writeBandwidth manager machine target
        (periodUs version * machine.logicalCores * min quota 100 / 100) := by
  subst isVersion
  unfold setCpuMax writeBandwidth
  by_cases isV2 : manager.info.version = .v2
  · simp only [isV2, if_true, periodUs]
    rw [bandwidthUs_exact quota few (by decide)]
  · have isV1 : periodUs manager.info.version = v1PeriodUs := by
      cases at_ : manager.info.version with
      | v2 => exact absurd at_ isV2
      | v1 => rfl
      | none => rfl
    simp only [isV2, if_false, isV1]
    rw [bandwidthUs_exact quota few le_rfl]

theorem setCpuWeight_eq_writeWeight {manager : CgroupManager} (machine : Machine) (target : String)
    (weight : Nat) (isV2 : manager.info.version = .v2) :
    setCpuWeight manager machine target weight =
      writeWeight machine target (min (max weight 1) 10000) := by
  have oneClamp : max 1 (min weight 10000) = min (max weight 1) 10000 := by omega
  rw [setCpuWeight, if_pos isV2, oneClamp]
  rfl

/-! ## Different values write different texts -/

/-- A tree in which every path is a file, so that no write is held up. -/
def everyFile : World where
  fs := ⟨fun _ => some (.file "")⟩
  log := []

def acceptingMachine (cores : Nat) : Machine where
  kernel := Kernel.permissive
  logicalCores := cores
  scaledShares := id

/-- A manager that owns the whole tree. -/
def rootManager (version : CgroupVersion) : CgroupManager where
  info := { version, mountPoint := "/" }
  delegatedRoot := some "/"

theorem rootManager_ownership (version : CgroupVersion) :
    ownership (rootManager version) "/" ≠ .foreign := by
  cases version <;> decide

/-- The texts written in a run, in order. -/
def writtenTexts (world : World) : List String :=
  world.log.filterMap fun effect =>
    match effect.action with
    | .write _ text => some text
    | .createDir _ => none

theorem writtenTexts_bandwidth (version : CgroupVersion) (cores bandwidth : Nat) :
    writtenTexts (writeBandwidth (rootManager version) (acceptingMachine cores) "/" bandwidth
        everyFile).2 =
      if version = .v2 then [toString bandwidth ++ " " ++ toString v2PeriodUs ++ "\n"]
      else [toString v1PeriodUs ++ "\n", toString bandwidth ++ "\n"] := by
  unfold writeBandwidth
  rw [if_neg (rootManager_ownership version)]
  cases version with
  | v2 => rfl
  | v1 => rfl
  | none => rfl

theorem writeBandwidth_inj {version : CgroupVersion} {cores left right : Nat}
    (same : writeBandwidth (rootManager version) (acceptingMachine cores) "/" left =
      writeBandwidth (rootManager version) (acceptingMachine cores) "/" right) : left = right := by
  have texts := writtenTexts_bandwidth version cores left
  rw [same, writtenTexts_bandwidth] at texts
  split at texts
  · have same := (List.cons.inj texts).1
    rw [String.append_left_inj, String.append_left_inj, String.append_left_inj] at same
    exact (Text.toString_inj same).symm
  · have same := (List.cons.inj (List.cons.inj texts).2).1
    rw [String.append_left_inj] at same
    exact (Text.toString_inj same).symm

theorem writeWeight_inj {cores left right : Nat}
    (same : writeWeight (acceptingMachine cores) "/" left =
      writeWeight (acceptingMachine cores) "/" right) : left = right := by
  have runs := congrArg (fun run => writtenTexts (run everyFile).2) same
  have texts : [toString left ++ "\n"] = [toString right ++ "\n"] := runs
  rw [List.cons.injEq, String.append_left_inj] at texts
  exact Text.toString_inj texts.1

/-- Both periods are whole percents, so the quotient tells percentages apart. -/
theorem bandwidth_inj {cores left right : Nat} (version : CgroupVersion) (some_ : 0 < cores)
    (same : periodUs version * cores * left / 100 = periodUs version * cores * right / 100) :
    left = right := by
  obtain ⟨percent, isPercent, positive⟩ :
      ∃ percent, periodUs version = 100 * percent ∧ 0 < percent := by
    cases version with
    | v2 => exact ⟨1000, by decide, by decide⟩
    | v1 => exact ⟨10000, by decide, by decide⟩
    | none => exact ⟨10000, by decide, by decide⟩
  have whole : ∀ n, periodUs version * cores * n / 100 = percent * cores * n := by
    intro n
    rw [isPercent, Nat.mul_assoc, Nat.mul_assoc, Nat.mul_div_cancel_left _ (by decide),
      Nat.mul_assoc]
  rw [whole, whole] at same
  exact Nat.eq_of_mul_eq_mul_left (Nat.mul_pos positive some_) same

/-! ## Which integers are clamped -/

theorem quota_clamped_iff {version : CgroupVersion} {cores : Nat} (some_ : 0 < cores)
    (few : cores < 2 ^ 32) (q : Nat) :
    (∀ (manager : CgroupManager) (machine : Machine) (target : String),
        manager.info.version = version → machine.logicalCores = cores →
          setCpuMax manager machine target (q % 2 ^ 32) =
            writeBandwidth manager machine target (periodUs version * cores * min q 100 / 100)) ↔
      q < 2 ^ 32 ∨ 100 ≤ q % 2 ^ 32 := by
  have sameClamp : min (q % 2 ^ 32) 100 = min q 100 ↔ q < 2 ^ 32 ∨ 100 ≤ q % 2 ^ 32 := by omega
  rw [← sameClamp]
  constructor
  · intro always
    have same := always (rootManager version) (acceptingMachine cores) "/" rfl rfl
    have written : setCpuMax (rootManager version) (acceptingMachine cores) "/" (q % 2 ^ 32) =
        writeBandwidth (rootManager version) (acceptingMachine cores) "/"
          (periodUs version * cores * min (q % 2 ^ 32) 100 / 100) :=
      setCpuMax_eq_writeBandwidth "/" _ rfl few
    exact bandwidth_inj version some_ (writeBandwidth_inj (written.symm.trans same))
  · intro same manager machine target isVersion isCores
    subst isCores
    rw [setCpuMax_eq_writeBandwidth target _ isVersion few, same]

theorem weight_clamped_iff (cores w : Nat) :
    (∀ (manager : CgroupManager) (machine : Machine) (target : String),
        manager.info.version = .v2 → machine.logicalCores = cores →
          setCpuWeight manager machine target (w % 2 ^ 32) =
            writeWeight machine target (min (max w 1) 10000)) ↔
      w < 2 ^ 32 ∨ 10000 ≤ w % 2 ^ 32 := by
  have sameClamp : min (max (w % 2 ^ 32) 1) 10000 = min (max w 1) 10000 ↔
      w < 2 ^ 32 ∨ 10000 ≤ w % 2 ^ 32 := by omega
  rw [← sameClamp]
  constructor
  · intro always
    have same := always (rootManager .v2) (acceptingMachine cores) "/" rfl rfl
    rw [setCpuWeight_eq_writeWeight _ _ _ rfl] at same
    exact writeWeight_inj same
  · intro same manager machine target isV2 _
    rw [setCpuWeight_eq_writeWeight _ _ _ isV2, same]

section Rule

variable {version : CgroupVersion} {cores : Nat} {rule : Value}

theorem ClampsSettings.quota_kept (clamps : ClampsSettings version cores rule) (some_ : 0 < cores)
    (few : cores < 2 ^ 32) {q : UInt64}
    (written : rule.get "CPUQuota" = some (.number (.posInt q))) :
    q.toNat < 2 ^ 32 ∨ 100 ≤ q.toNat % 2 ^ 32 := by
  obtain ⟨quota, isQuota, writes⟩ := clamps.quota q written
  have narrowed : quota = q.toNat % 2 ^ 32 :=
    Option.some.inj (isQuota.symm.trans (settingNumber_integer written))
  rw [narrowed] at writes
  exact (quota_clamped_iff some_ few q.toNat).mp writes

theorem ClampsSettings.weight_kept (clamps : ClampsSettings .v2 cores rule) {w : UInt64}
    (written : rule.get "CPUWeight" = some (.number (.posInt w))) :
    w.toNat < 2 ^ 32 ∨ 10000 ≤ w.toNat % 2 ^ 32 := by
  obtain ⟨weight, isWeight, writes⟩ := clamps.weight rfl w written
  have narrowed : weight = w.toNat % 2 ^ 32 :=
    Option.some.inj (isWeight.symm.trans (settingNumber_integer written))
  rw [narrowed] at writes
  exact (weight_clamped_iff cores w.toNat).mp writes

/-- The settings of a rule are clamped exactly when no integer of it that is too large for
32 bits wraps below the upper end of the file's range. -/
theorem clampsSettings_iff (some_ : 0 < cores) (few : cores < 2 ^ 32) :
    ClampsSettings version cores rule ↔
      (∀ q : UInt64, rule.get "CPUQuota" = some (.number (.posInt q)) →
          q.toNat < 2 ^ 32 ∨ 100 ≤ q.toNat % 2 ^ 32) ∧
        (version = .v2 → ∀ w : UInt64, rule.get "CPUWeight" = some (.number (.posInt w)) →
          w.toNat < 2 ^ 32 ∨ 10000 ≤ w.toNat % 2 ^ 32) := by
  constructor
  · intro clamps
    refine ⟨fun q written => clamps.quota_kept some_ few written, ?_⟩
    rintro rfl w written
    exact clamps.weight_kept written
  · rintro ⟨quotaKept, weightKept⟩
    exact {
      quota := by
        intro q written
        exact ⟨_, settingNumber_integer written,
          (quota_clamped_iff some_ few q.toNat).mpr (quotaKept q written)⟩
      weight := by
        rintro rfl w written
        exact ⟨_, settingNumber_integer written,
          (weight_clamped_iff cores w.toNat).mpr (weightKept rfl w written)⟩
      quotaIgnored := settingNumber_other
      weightIgnored := settingNumber_other }

end Rule

def wrappingRule : Value := .object [("CPUQuota", .number (.posInt 4294967296))]

def ordinaryRule : Value :=
  .object [
    ("CPUQuota", .number (.posInt 80)),
    ("CPUWeight", .number (.posInt 18446744073709551615))]

theorem clampsSettings_ordinaryRule : ClampsSettings .v2 430 ordinaryRule := by
  apply (clampsSettings_iff (by decide) (by decide)).mpr
  constructor
  · intro q written
    have isQuota : q = 80 := by
      injection written with written
      injection written with written
      injection written with written
      exact written.symm
    subst isQuota
    decide
  · intro _ w written
    have isWeight : w = 18446744073709551615 := by
      injection written with written
      injection written with written
      injection written with written
      exact written.symm
    subst isWeight
    decide

/-- 2^32 percent is written as no bandwidth at all, not as the whole machine. -/
theorem not_clampsSettings_wrappingRule : ¬ ClampsSettings .v2 4 wrappingRule := by
  intro clamps
  have kept := clamps.quota_kept (by decide) (by decide) (q := 4294967296) rfl
  revert kept
  decide

end AnanicyRs.Daemon
