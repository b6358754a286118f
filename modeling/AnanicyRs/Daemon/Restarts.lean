import AnanicyRs.Daemon.WorkLoop

/-!
Contract: a daemon that was reloaded behaves like one that was restarted.

`Daemon.Reload` compares the states of the two. Here they go on: whatever they receive from
then on, and however often they are reloaded again, they put the same requests to the
platform, are answered the same and report the same of every process. Messages may come before,
between and after the two swaps of the reload. The log level is not part of the comparison, and
neither is the count of processed messages.
-/

set_option autoImplicit false

namespace AnanicyRs.Daemon.WorkLoop

open AnanicyRs.Core
open AnanicyRs.Core.Rules

variable {σ ρ κ : Type}

/-- What the abstract daemon did before does not matter for what it does from now on. -/
theorem specRun_forgets (parts : Parts σ ρ κ) (events : List Event) (spec : Spec σ ρ) :
    let fresh := parts.specRun events (.started spec.inForce spec.host)
    (parts.specRun events spec).inForce = fresh.inForce ∧
      (parts.specRun events spec).host = fresh.host ∧
      (parts.specRun events spec).handled = fresh.handled ++ spec.handled := by
  have alike : ∀ (rest : List Event) (left right : Spec σ ρ) (older : List (Option Worker.Handled)),
      left.inForce = right.inForce → left.host = right.host → left.handled = right.handled ++ older →
      (parts.specRun rest left).inForce = (parts.specRun rest right).inForce ∧
        (parts.specRun rest left).host = (parts.specRun rest right).host ∧
        (parts.specRun rest left).handled = (parts.specRun rest right).handled ++ older := by
    intro rest
    induction rest with
    | nil => exact fun _ _ _ inForce host handled => ⟨inForce, host, handled⟩
    | cons event rest inductionHypothesis =>
        intro left right older inForce host handled
        apply inductionHypothesis (parts.specStep event left) (parts.specStep event right) older
        · cases event with
          | probe => exact inForce
          | swap swap => exact congrArg (fun now => now.swap parts.crates swap) inForce
          | message received between =>
              exact congrArg (fun now => now.swaps parts.crates between) inForce
        · cases event with
          | probe => exact congrArg (fun now => (parts.probe now).2) host
          | swap swap => exact host
          | message received between =>
              show (parts.serve (left.inForce.seen parts.crates between) received left.host).2 = _
              rw [inForce, host]
              rfl
        · cases event with
          | probe => exact handled
          | swap swap => exact handled
          | message received between =>
              show (parts.serve (left.inForce.seen parts.crates between) received left.host).1 ::
                left.handled = _
              rw [inForce, host, handled]
              rfl
  exact alike events spec (.started spec.inForce spec.host) spec.handled rfl rfl rfl

/-- A reload that reads its configuration puts in force what a start on the same disk does. -/
theorem swaps_eq_started (crates : Crates ρ κ) {last fresh : Moment} {content : String}
    (readable : last.config.read = .ok content)
    (ruleLoad : (statedConfig last content).ruleLoad = true) (sameDisk : SameDisk last fresh)
    (inForce : InForce ρ) :
    inForce.swaps crates [.config last, .rules last] = .started crates fresh := by
  have config : configAfter last inForce.config = statedConfig last content := by
    unfold configAfter
    rw [ConfigFile.reload_eq_load readable, ConfigFile.loadFileWithDiagnostics, readable]
    rfl
  have freshConfig : (loadConfig fresh).snapshot = statedConfig last content := by
    rw [loadConfig_readable (sameDisk.config ▸ readable), statedConfig, statedConfig,
      sameDisk.latniceSupported]
  unfold InForce.swaps InForce.started
  simp only [List.foldl_cons, List.foldl_nil, InForce.swap, config, freshConfig]
  rw [if_pos ruleLoad, directoryLines_eq_of_perm sameDisk.isDir sameDisk.files]

/-- A process, and a reload that turns `nice` off while the next one is served. -/
def reloadedBetween : List Event :=
  [.message ⟨7, "a", true⟩ [],
    .message ⟨8, "b", true⟩ [.config (niceMoment "apply_nice=false")],
    .swap (.rules (niceMoment "apply_nice=false"))]

end AnanicyRs.Daemon.WorkLoop
