import AnanicyRs.Core.PlatformInvariant
import AnanicyRs.Core.RuleApplication
import AnanicyRs.Daemon.Reload
import AnanicyRs.Lib.StateInvariant

/-!
Contract: the worker's loop beside reloads (`Worker::work_loop` of
`crates/ananicy-core/src/worker.rs`, `Reload::apply` of `src/signals.rs`).

Owns the runs of a started daemon in which the worker and the signal thread go on side by
side. A reload is no single step of them: it probes the kernel, swaps the configuration, and
only after it has read the directory swaps the rules. The worker in turn takes the rules of a
message first and its configuration later, so swaps may fall between the two, and a message
may be served by a new configuration with old rules.

Over them stands a daemon that has no cache, no numbered names and no iteration order: it
keeps the configuration and the store that the lines last read state. `run_refines` says
that nobody outside can tell the two apart, and `run_requests` what a run asks of the
platform.

The channel is the order of the messages. A probe is an event between two of them; one that
falls into a message is, like anything else on the machine, part of what the platform answers,
which may be anything. What the probe answered itself is part of the moment of the swap after
it. The time a run takes is left out.
-/

set_option autoImplicit false

namespace AnanicyRs.Daemon.WorkLoop

open AnanicyRs.Core
open AnanicyRs.Core.Rules
open AnanicyRs.Lib.CallLog
open AnanicyRs.Lib.StateInvariant

variable {σ ρ κ : Type}

/-! ## The loop -/

/-- What a reload puts in place of the old one, when it has read it. -/
inductive Swap where
  | config (moment : Moment)
  | rules (moment : Moment)

def Swap.apply (crates : Crates ρ κ) : Swap → Running ρ κ → Running ρ κ
  | .config moment, running => reloadConfig moment running
  | .rules moment, running => reloadRules crates moment running

def swaps (crates : Crates ρ κ) (swapped : List Swap) (running : Running ρ κ) : Running ρ κ :=
  swapped.foldl (fun now swap => swap.apply crates now) running

/-- A reload that nothing comes between. -/
theorem reload_eq_swaps (crates : Crates ρ κ) (moment : Moment) (running : Running ρ κ) :
    reload crates moment running = swaps crates [.config moment, .rules moment] running := rfl

inductive Event where
  /-- A reload starts with `test_latnice_support`. -/
  | probe
  | swap (swap : Swap)
  /-- The worker receives a process; the swaps fall between its `rules.get()` and its
  `config.get()`. -/
  | message (received : Process) (between : List Swap)

/-- The processes of a run, in the order of the channel. -/
def messages (events : List Event) : List Process :=
  events.filterMap fun
    | .message received _ => some received
    | _ => none

/-- The swaps of a run, in their order. -/
def swapsOf (events : List Event) : List Swap :=
  events.flatMap fun
    | .probe => []
    | .swap swap => [swap]
    | .message _ between => between

/-- A message that no swap falls into. -/
def Event.alone (received : Process) : Event := .message received []

structure State (σ ρ κ : Type) where
  running : Running ρ κ
  host : σ
  /-- What became of every message, the last one first. -/
  handled : List (Option Worker.Handled)
  processedCount : Nat
  shutdownFlag : Bool

/-- A worker that is about to receive its first process. -/
def State.started (running : Running ρ κ) (host : σ) : State σ ρ κ :=
  ⟨running, host, [], 0, false⟩

/-- Everything of the daemon that does not change while it runs. -/
structure Parts (σ ρ κ : Type) where
  worker : Worker
  crates : Crates ρ κ
  platform : Platform σ
  /-- `test_latnice_support`, on the signal thread. -/
  probe : StateM σ Bool
  benchmarkCount : Option Nat

namespace Parts

variable (parts : Parts σ ρ κ)

def limitReached (processedCount : Nat) : Bool :=
  match parts.benchmarkCount with
  | some limit => decide (limit ≤ processedCount)
  | none => false

/-- One pass of `work_loop`. The process is counted before it is looked at. The rules are
those of the start of the pass, whatever has been swapped since. -/
def receive (received : Process) (between : List Swap) (state : State σ ρ κ) : State σ ρ κ :=
  let processedCount := state.processedCount + 1
  let (outcome, host, rules) := parts.worker.handle parts.crates parts.platform
    (swaps parts.crates between state.running).config received (state.host, state.running.rules)
  { running := swaps parts.crates between { state.running with rules }
    host
    handled := outcome :: state.handled
    processedCount
    shutdownFlag := state.shutdownFlag || parts.limitReached processedCount }

def step (event : Event) (state : State σ ρ κ) : State σ ρ κ :=
  match event with
  | .probe => { state with host := (parts.probe state.host).2 }
  | .swap swap => { state with running := swap.apply parts.crates state.running }
  | .message received between => parts.receive received between state

def run (events : List Event) (state : State σ ρ κ) : State σ ρ κ :=
  events.foldl (fun now event => parts.step event now) state

end Parts

/-! ## The abstract daemon -/

/-- What is in force: a configuration, and the store of the lines that were read. -/
structure InForce (ρ : Type) where
  config : ConfigSnapshot
  store : StoreView ρ

/-- The configuration a reload leaves: one that cannot be read changes nothing. -/
def configAfter (moment : Moment) (config : ConfigSnapshot) : ConfigSnapshot :=
  match moment.config.reloadFileWithDiagnostics moment.latniceSupported with
  | .ok (snapshot, _) => snapshot
  | .error _ => config

/-- What a swap puts in force. The store stays where the configuration does not want the rules
loaded again. -/
def InForce.swap (crates : Crates ρ κ) (inForce : InForce ρ) : Swap → InForce ρ
  | .config moment => { inForce with config := configAfter moment inForce.config }
  | .rules moment =>
      { inForce with store :=
          if inForce.config.ruleLoad then
            specStore crates (directoryLines inForce.config.loadFlags moment.tree)
          else inForce.store }

def InForce.swaps (crates : Crates ρ κ) (swapped : List Swap) (inForce : InForce ρ) : InForce ρ :=
  swapped.foldl (fun now swap => now.swap crates swap) inForce

/-- What serves a message that these swaps fall into: the rules from before them, under the
configuration after them. -/
def InForce.seen (crates : Crates ρ κ) (between : List Swap) (inForce : InForce ρ) : InForce ρ :=
  ⟨(inForce.swaps crates between).config, inForce.store⟩

/-- What a start puts in force. -/
def InForce.started (crates : Crates ρ κ) (moment : Moment) : InForce ρ :=
  let config := (loadConfig moment).snapshot
  ⟨config, specStore crates (directoryLines config.loadFlags moment.tree)⟩

/-- The rule that was found for a message, and everything its requests depend on. -/
structure Matched where
  ruleName : String
  situation : Situation

structure Spec (σ ρ : Type) where
  inForce : InForce ρ
  host : σ
  handled : List (Option Worker.Handled)
  processedCount : Nat
  shutdownFlag : Bool

def Spec.started (inForce : InForce ρ) (host : σ) : Spec σ ρ := ⟨inForce, host, [], 0, false⟩

namespace Parts

variable (parts : Parts σ ρ κ)

/-- What a message is matched to: nothing for pid 0 or a name without a rule. -/
def matched (inForce : InForce ρ) (received : Process) : StateM σ (Option Matched) :=
  if received.pid = 0 then pure none
  else do
    let p ← Worker.resolveName parts.platform received
    let isRealtime ← parts.platform.isRealtime p.pid
    match inForce.store.lookup parts.crates (lookupName p.name) with
    | none => pure none
    | some (ruleName, view) =>
        let tids ← Worker.threadsOf parts.platform p
        pure (some ⟨ruleName, Situation.of parts.worker parts.platform p tids view.accessors
          inForce.config isRealtime parts.platform.isCgroupV2⟩)

/-- Applies the rule of a match. -/
def applyMatched (found : Matched) : StateM σ (Except PlatformError RuleApplication) :=
  found.situation.worker.applyRule parts.platform found.situation.process found.situation.tids
    found.situation.rule found.situation.cfg found.situation.isRealtime
    found.situation.isAffectedByCgroupBug

def serve (inForce : InForce ρ) (received : Process) : StateM σ (Option Worker.Handled) := do
  match ← parts.matched inForce received with
  | none => pure none
  | some found => return some ⟨found.ruleName, ← parts.applyMatched found⟩

def specStep (event : Event) (spec : Spec σ ρ) : Spec σ ρ :=
  match event with
  | .probe => { spec with host := (parts.probe spec.host).2 }
  | .swap swap => { spec with inForce := spec.inForce.swap parts.crates swap }
  | .message received between =>
      let served := parts.serve (spec.inForce.seen parts.crates between) received spec.host
      { inForce := spec.inForce.swaps parts.crates between
        host := served.2
        handled := served.1 :: spec.handled
        processedCount := spec.processedCount + 1
        shutdownFlag := spec.shutdownFlag || parts.limitReached (spec.processedCount + 1) }

def specRun (events : List Event) (spec : Spec σ ρ) : Spec σ ρ :=
  events.foldl (fun now event => parts.specStep event now) spec

end Parts

/-! ## One message -/

/-- The running daemon holds what is in force, whatever its cache and its names are. -/
structure Implements (crates : Crates ρ κ) (inForce : InForce ρ) (running : Running ρ κ) :
    Prop where
  config : running.config = inForce.config
  store : running.rules.view running.rules.names = inForce.store
  coherent : CacheCoherent crates running.rules

section Messages

variable {parts : Parts σ ρ κ} {inForce : InForce ρ}

/-- A message changes nothing of the rules but the cache. -/
theorem names_handle (config : ConfigSnapshot) (received : Process) (host : σ)
    (rules : Rules ρ κ) :
    (parts.worker.handle parts.crates parts.platform config received (host, rules)).2.2.names =
      rules.names := by
  unfold Worker.handle
  split
  · rfl
  · cases Worker.resolveName parts.platform received host with
    | mk p named =>
        obtain ⟨cache, onlyCache, _⟩ := getRule_snd parts.crates (lookupName p.name) rules
        simp only [onlyCache]
        cases (getRule parts.crates (lookupName p.name) rules).1 <;> rfl

theorem handle_eq_serve {running : Running ρ κ}
    (implements : Implements parts.crates inForce running) (received : Process) (host : σ) :
    ∃ cache, Implements parts.crates inForce
        { running with rules := { running.rules with resolvedCache := cache } } ∧
      parts.worker.handle parts.crates parts.platform running.config received
          (host, running.rules) =
        ((parts.serve inForce received host).1, ((parts.serve inForce received host).2,
          { running.rules with resolvedCache := cache })) := by
  unfold Worker.handle Parts.serve Parts.matched
  by_cases idle : received.pid = 0
  · rw [if_pos idle, if_pos idle]
    exact ⟨running.rules.resolvedCache, implements, rfl⟩
  · rw [if_neg idle, if_neg idle]
    cases resolved : Worker.resolveName parts.platform received host with
    | mk p named =>
        obtain ⟨cache, onlyCache, coherent⟩ :=
          getRule_snd parts.crates (lookupName p.name) running.rules
        refine ⟨cache, ⟨implements.config, implements.store, coherent implements.coherent⟩, ?_⟩
        have seen := getRule_view implements.coherent running.rules.names (lookupName p.name)
        rw [implements.store] at seen
        simp only [bind, StateT.bind, resolved, onlyCache, ← seen]
        cases (getRule parts.crates (lookupName p.name) running.rules).1 with
        | none => rfl
        | some answer =>
            simp only [Option.map_some, Rule.accessors_eq_view, implements.config]
            rfl

end Messages

/-! ## Swaps -/

section Swaps

variable (crates : Crates ρ κ)

theorem config_reloadConfig (moment : Moment) (running : Running ρ κ) :
    (reloadConfig moment running).config = configAfter moment running.config := by
  unfold reloadConfig configAfter
  cases moment.config.reloadFileWithDiagnostics moment.latniceSupported <;> rfl

theorem rules_reloadConfig (moment : Moment) (running : Running ρ κ) :
    (reloadConfig moment running).rules = running.rules := by
  unfold reloadConfig
  cases moment.config.reloadFileWithDiagnostics moment.latniceSupported <;> rfl

theorem config_reloadRules (moment : Moment) (running : Running ρ κ) :
    (reloadRules crates moment running).config = running.config := by
  unfold reloadRules
  split <;> rfl

theorem names_swap (swap : Swap) (running : Running ρ κ) :
    NameTable.Grows running.rules.names (swap.apply crates running).rules.names := by
  cases swap with
  | config moment =>
      rw [Swap.apply, rules_reloadConfig]
      exact NameTable.Grows.refl _
  | rules moment =>
      rw [Swap.apply, reloadRules]
      split
      · exact loaded_grows crates _ _ _ _
      · exact NameTable.Grows.refl _

theorem names_swaps (swapped : List Swap) (running : Running ρ κ) :
    NameTable.Grows running.rules.names (swaps crates swapped running).rules.names := by
  induction swapped generalizing running with
  | nil => exact NameTable.Grows.refl _
  | cons swap rest inductionHypothesis =>
      exact (names_swap crates swap running).trans (inductionHypothesis (swap.apply crates running))

/-- The configuration a swap leaves does not depend on the rules. -/
theorem config_swap {inForce : InForce ρ} {running : Running ρ κ}
    (config : running.config = inForce.config) (swap : Swap) :
    (swap.apply crates running).config = (inForce.swap crates swap).config := by
  cases swap with
  | config moment =>
      rw [Swap.apply, config_reloadConfig, config]
      rfl
  | rules moment => exact (config_reloadRules crates moment running).trans config

theorem config_swaps {inForce : InForce ρ} {running : Running ρ κ}
    (config : running.config = inForce.config) (swapped : List Swap) :
    (swaps crates swapped running).config = (inForce.swaps crates swapped).config := by
  induction swapped generalizing inForce running with
  | nil => exact config
  | cons swap rest inductionHypothesis => exact inductionHypothesis (config_swap crates config swap)

theorem implements_swap {inForce : InForce ρ} {running : Running ρ κ}
    (implements : Implements crates inForce running) (swap : Swap)
    (notFull : (swap.apply crates running).rules.names.NotFull) :
    Implements crates (inForce.swap crates swap) (swap.apply crates running) := by
  have config := config_swap crates implements.config swap
  cases swap with
  | config moment =>
      have sameRules : (reloadConfig moment running).rules = running.rules :=
        rules_reloadConfig moment running
      refine ⟨config, ?_, ?_⟩
      · rw [Swap.apply, sameRules]
        exact implements.store
      · rw [Swap.apply, sameRules]
        exact implements.coherent
  | rules moment =>
      refine ⟨config, ?_, ?_⟩
      · rw [Swap.apply, reloadRules, implements.config] at notFull ⊢
        rw [InForce.swap]
        split at notFull
        next ruleLoad =>
          simp only [if_pos ruleLoad]
          exact view_loaded crates _ _ _ _ notFull
        next noRuleLoad =>
          simp only [if_neg noRuleLoad]
          exact implements.store
      · rw [Swap.apply, reloadRules]
        split
        · exact coherent_loaded crates _ _ _ _
        · exact implements.coherent

theorem implements_swaps {inForce : InForce ρ} {running : Running ρ κ}
    (implements : Implements crates inForce running) (swapped : List Swap)
    (notFull : (swaps crates swapped running).rules.names.NotFull) :
    Implements crates (inForce.swaps crates swapped) (swaps crates swapped running) := by
  induction swapped generalizing inForce running with
  | nil => exact implements
  | cons swap rest inductionHypothesis =>
      have swapNotFull : (swap.apply crates running).rules.names.NotFull :=
        (names_swaps crates rest (swap.apply crates running)).notFull notFull
      exact inductionHypothesis (implements_swap crates implements swap swapNotFull) notFull

theorem implements_start (args : Args) (moment : Moment)
    (notFull : (start crates args moment).rules.names.NotFull) :
    Implements crates (.started crates moment) (start crates args moment) where
  config := rfl
  store := view_loaded crates _ _ _ _ notFull
  coherent := coherent_loaded crates _ _ _ _

end Swaps

/-! ## Runs -/

section Runs

variable {parts : Parts σ ρ κ}

/-- The states of the two daemons after the same events. -/
structure Related (parts : Parts σ ρ κ) (spec : Spec σ ρ) (state : State σ ρ κ) : Prop where
  implements : Implements parts.crates spec.inForce state.running
  host : state.host = spec.host
  handled : state.handled = spec.handled
  processedCount : state.processedCount = spec.processedCount
  shutdownFlag : state.shutdownFlag = spec.shutdownFlag

theorem names_step (event : Event) (state : State σ ρ κ) :
    NameTable.Grows state.running.rules.names (parts.step event state).running.rules.names := by
  cases event with
  | probe => exact NameTable.Grows.refl _
  | swap swap => exact names_swap parts.crates swap state.running
  | message received between =>
      have grown := names_swaps parts.crates between
        { state.running with
          rules := (parts.worker.handle parts.crates parts.platform
            (swaps parts.crates between state.running).config received
            (state.host, state.running.rules)).2.2 }
      rw [names_handle] at grown
      exact grown

theorem names_run (events : List Event) (state : State σ ρ κ) :
    NameTable.Grows state.running.rules.names (parts.run events state).running.rules.names := by
  induction events generalizing state with
  | nil => exact NameTable.Grows.refl _
  | cons event rest inductionHypothesis =>
      exact (names_step event state).trans (inductionHypothesis (parts.step event state))

theorem host_step_maintains {inv : σ → Prop} (keeps : parts.platform.Keeps inv) (event : Event)
    (probed : event = .probe → Maintains inv parts.probe) {state : State σ ρ κ}
    (holds : inv state.host) : inv (parts.step event state).host := by
  cases event with
  | probe => exact probed rfl state.host holds
  | swap swap => exact holds
  | message received between =>
      exact Worker.handle_maintains parts.worker (swaps parts.crates between state.running).config
        keeps parts.crates received state.running.rules holds

/-- What every answer of the platform keeps, a run keeps, if its probes do. -/
theorem host_run_maintains {inv : σ → Prop} (keeps : parts.platform.Keeps inv)
    {events : List Event} (probed : .probe ∈ events → Maintains inv parts.probe)
    {state : State σ ρ κ} (holds : inv state.host) : inv (parts.run events state).host := by
  induction events generalizing state with
  | nil => exact holds
  | cons event rest inductionHypothesis =>
      apply inductionHypothesis fun later => probed (List.mem_cons_of_mem event later)
      exact host_step_maintains keeps event
        (fun isProbe => probed (isProbe ▸ List.mem_cons_self)) holds

theorem related_step {spec : Spec σ ρ} {state : State σ ρ κ} (related : Related parts spec state)
    (event : Event) (notFull : (parts.step event state).running.rules.names.NotFull) :
    Related parts (parts.specStep event spec) (parts.step event state) := by
  cases event with
  | probe =>
      refine ⟨related.implements, ?_, related.handled, related.processedCount,
        related.shutdownFlag⟩
      show (parts.probe state.host).2 = (parts.probe spec.host).2
      rw [related.host]
  | swap swap =>
      exact ⟨implements_swap parts.crates related.implements swap notFull, related.host,
        related.handled, related.processedCount, related.shutdownFlag⟩
  | message received between =>
      have seen : Implements parts.crates (spec.inForce.seen parts.crates between)
          { state.running with config := (swaps parts.crates between state.running).config } :=
        ⟨config_swaps parts.crates related.implements.config between, related.implements.store,
          related.implements.coherent⟩
      obtain ⟨cache, implements, served⟩ := handle_eq_serve seen received state.host
      have handled : parts.worker.handle parts.crates parts.platform
          (swaps parts.crates between state.running).config received
          (state.host, state.running.rules) =
          ((parts.serve (spec.inForce.seen parts.crates between) received state.host).1,
            ((parts.serve (spec.inForce.seen parts.crates between) received state.host).2,
              { state.running.rules with resolvedCache := cache })) := served
      have stepped : parts.step (.message received between) state =
          { running := swaps parts.crates between
              { state.running with
                rules := { state.running.rules with resolvedCache := cache } }
            host := (parts.serve (spec.inForce.seen parts.crates between) received state.host).2
            handled := (parts.serve (spec.inForce.seen parts.crates between) received
              state.host).1 :: state.handled
            processedCount := state.processedCount + 1
            shutdownFlag := state.shutdownFlag ||
              parts.limitReached (state.processedCount + 1) } := by
        simp only [Parts.step, Parts.receive, handled]
      rw [stepped] at notFull ⊢
      rw [related.host, related.handled, related.processedCount, related.shutdownFlag]
      -- The pass changed the cache of the rules it took, which the swaps leave or drop.
      have cached : Implements parts.crates spec.inForce
          { state.running with rules := { state.running.rules with resolvedCache := cache } } :=
        ⟨related.implements.config, implements.store, implements.coherent⟩
      exact ⟨implements_swaps parts.crates cached between notFull, rfl, rfl, rfl, rfl⟩

theorem related_run {spec : Spec σ ρ} {state : State σ ρ κ} (related : Related parts spec state)
    (events : List Event) (notFull : (parts.run events state).running.rules.names.NotFull) :
    Related parts (parts.specRun events spec) (parts.run events state) := by
  induction events generalizing spec state with
  | nil => exact related
  | cons event rest inductionHypothesis =>
      have stepNotFull : (parts.step event state).running.rules.names.NotFull :=
        (names_run rest (parts.step event state)).notFull notFull
      exact inductionHypothesis (related_step related event stepNotFull) notFull

/-- A start is related to the abstract one, if there is still room for names after some events. -/
theorem related_started (parts : Parts σ ρ κ) (args : Args) (startup : Moment) (host : σ)
    {events : List Event}
    (notFull : (parts.run events
      (.started (start parts.crates args startup) host)).running.rules.names.NotFull) :
    Related parts (.started (.started parts.crates startup) host)
      (.started (start parts.crates args startup) host) :=
  ⟨implements_start parts.crates args startup ((names_run events _).notFull notFull), rfl, rfl, rfl,
    rfl⟩

theorem messages_message (received : Process) (between : List Swap) (rest : List Event) :
    messages (.message received between :: rest) = received :: messages rest := rfl

theorem limitReached_mono {count later : Nat} (atMost : count ≤ later)
    (reached : parts.limitReached count = true) : parts.limitReached later = true := by
  unfold Parts.limitReached at reached ⊢
  split at reached
  · rw [decide_eq_true_eq] at reached ⊢
    omega
  · exact absurd reached (by decide)

/-- The abstract daemon counts its messages; the flag goes up when the count reaches the
limit and never down. -/
theorem counts_specRun (events : List Event) (spec : Spec σ ρ) :
    (parts.specRun events spec).processedCount =
        spec.processedCount + (messages events).length ∧
      ((parts.specRun events spec).shutdownFlag = true ↔ spec.shutdownFlag = true ∨
        messages events ≠ [] ∧
          parts.limitReached (spec.processedCount + (messages events).length) = true) := by
  induction events generalizing spec with
  | nil => simp [Parts.specRun, messages]
  | cons event rest inductionHypothesis =>
      obtain ⟨counted, flagged⟩ := inductionHypothesis (parts.specStep event spec)
      have unfolded : parts.specRun (event :: rest) spec =
          parts.specRun rest (parts.specStep event spec) := rfl
      rw [unfolded, counted, flagged]
      cases event with
      | probe => exact ⟨rfl, Iff.rfl⟩
      | swap swap => exact ⟨rfl, Iff.rfl⟩
      | message received between =>
          have shifted :
              spec.processedCount + (messages (.message received between :: rest)).length =
                spec.processedCount + 1 + (messages rest).length := by
            rw [messages_message, List.length_cons]
            omega
          have stepCount : (parts.specStep (.message received between) spec).processedCount =
              spec.processedCount + 1 := rfl
          rw [shifted, stepCount]
          refine ⟨rfl, ?_⟩
          show (spec.shutdownFlag || parts.limitReached (spec.processedCount + 1)) = true ∨ _ ↔ _
          rw [Bool.or_eq_true, or_assoc, messages_message]
          apply or_congr_right
          -- A count that has reached the limit stays beyond it.
          have later : parts.limitReached (spec.processedCount + 1) = true →
              parts.limitReached (spec.processedCount + 1 + (messages rest).length) = true :=
            limitReached_mono (Nat.le_add_right _ _)
          cases remaining : messages rest with
          | nil => simp
          | cons first others =>
              rw [remaining] at later
              simpa using or_iff_right_of_imp later

end Runs

/-- A disk with the one rule `{"name":"a","nice":5}` and this configuration. -/
def niceMoment (content : String) : Moment :=
  { momentWith content with
    tree :=
      { isDir := true
        files := [⟨["a.rules"], some "\x7b\"name\":\"a\",\"nice\":5\x7d"⟩]
        distinct := by decide } }

def quietPlatform : Platform Unit where
  isRealtime _ := pure false
  getProcessName _ := pure "<unknown>"
  getTids pid := pure (.ok [pid, pid + 1])
  isCgroupV2 := false
  getMaxCores := 4
  perform _ := pure (.ok ())

def niceParts : Parts Unit String (List (String × Option String)) where
  worker := ⟨∅, fun _ => 100⟩
  crates := literalCrates redefinition
  platform := quietPlatform
  probe := pure true
  benchmarkCount := some 3

/-- A process with a rule, a reload that turns `nice` off while the process is served again,
and one that no rule is for. -/
def niceEvents : List Event :=
  [.message ⟨7, "a", true⟩ [], .probe,
    .message ⟨7, "a", true⟩ [.config (niceMoment "apply_nice=false")],
    .swap (.rules (niceMoment "apply_nice=false")), .message ⟨8, "b", true⟩ []]

/-- The daemon with a log of what its platform was asked to set. -/
def Parts.logged (parts : Parts σ ρ κ) : Parts (σ × Log Setter PlatformError) ρ κ where
  worker := parts.worker
  crates := parts.crates
  platform := parts.platform.logged
  probe held := ((parts.probe held.1).1, ((parts.probe held.1).2, held.2))
  benchmarkCount := parts.benchmarkCount

/-- A message with what it was matched to when its turn came. -/
structure Turn where
  received : Process
  matched : Option Matched

def Turn.planned (turn : Turn) : List Setter :=
  match turn.matched with
  | none => []
  | some found => found.situation.planned

theorem Turn.planned_of_matched {turn : Turn} {found : Matched}
    (isFound : turn.matched = some found) : turn.planned = found.situation.planned := by
  rw [Turn.planned, isFound]

/-- The turns of a run, each under what serves its message. -/
def Parts.turns (parts : Parts σ ρ κ) : List Event → Spec σ ρ → List Turn
  | [], _ => []
  | .probe :: rest, spec => parts.turns rest (parts.specStep .probe spec)
  | .swap swap :: rest, spec => parts.turns rest (parts.specStep (.swap swap) spec)
  | .message received between :: rest, spec =>
      ⟨received,
          (parts.matched (spec.inForce.seen parts.crates between) received spec.host).1⟩ ::
        parts.turns rest (parts.specStep (.message received between) spec)

/-- The received process under the name it is looked up by. Only a guessed name is asked for
again. -/
structure Resolves (received p : Process) : Prop where
  pid : p.pid = received.pid
  authoritative : received.nameIsAuthoritative = true → p = received

/-- The threads the platform listed for a process, or the process alone. -/
def Lists (parts : Parts σ ρ κ) (p : Process) (tids : List Int32) : Prop :=
  tids = [p.pid] ∨ tids ≠ [] ∧ ∃ host, (parts.platform.getTids p.pid host).1 = .ok tids

/-- A match is of the process that was received, under what is in force. -/
structure Matched.Sound (parts : Parts σ ρ κ) (inForce : InForce ρ) (received : Process)
    (found : Matched) : Prop where
  notIdle : received.pid ≠ 0
  resolves : Resolves received found.situation.process
  rule : ∃ view, found.situation.rule = view.accessors ∧
    inForce.store.lookup parts.crates (lookupName found.situation.process.name) =
      some (found.ruleName, view)
  cfg : found.situation.cfg = inForce.config
  threads : Lists parts found.situation.process found.situation.tids
  isCgroupV2 : parts.platform.isCgroupV2 = found.situation.isCgroupV2
  maxCores : parts.platform.getMaxCores = found.situation.maxCores

/-- There is nothing to apply to the idle task and to a process no rule in force is for. -/
def Unmatched (parts : Parts σ ρ κ) (inForce : InForce ρ) (received : Process) : Prop :=
  received.pid = 0 ∨ ∃ p, Resolves received p ∧
    inForce.store.lookup parts.crates (lookupName p.name) = none

section Requests

variable (parts : Parts σ ρ κ) (inForce : InForce ρ) (received : Process)
  (log : Log Setter PlatformError)

/-- Asking about a process is not in the log. -/
theorem resolveName_ensures :
    Ensures (fun held : σ × Log Setter PlatformError => held.2 = log)
      (Worker.resolveName parts.logged.platform received)
      fun p held => held.2 = log ∧ Resolves received p := by
  unfold Worker.resolveName
  refine ensures_ite (fun _ => ensures_pure fun _ kept => ⟨kept, rfl, fun _ => rfl⟩)
    fun guessed => ?_
  have asked : Ensures (fun held : σ × Log Setter PlatformError => held.2 = log)
      (parts.logged.platform.getProcessName received.pid) fun _ held => held.2 = log :=
    fun _ kept => kept
  refine ensures_bind asked fun fullName => ?_
  exact ensures_ite
    (fun _ => ensures_pure fun _ kept => ⟨kept, rfl, fun given => absurd given guessed⟩)
    fun _ => ensures_pure fun _ kept => ⟨kept, rfl, fun _ => rfl⟩

theorem threadsOf_ensures (p : Process) :
    Ensures (fun held : σ × Log Setter PlatformError => held.2 = log)
      (Worker.threadsOf parts.logged.platform p)
      fun tids held => held.2 = log ∧ Lists parts p tids := by
  unfold Worker.threadsOf
  have asked : Ensures (fun held : σ × Log Setter PlatformError => held.2 = log)
      (parts.logged.platform.getTids p.pid) fun answer held =>
        held.2 = log ∧ ∃ host, (parts.platform.getTids p.pid host).1 = answer :=
    fun held kept => ⟨kept, held.1, rfl⟩
  refine ensures_bind asked fun answer => ?_
  split
  · exact ensures_pure fun _ kept => ⟨kept.1, .inl rfl⟩
  next nonempty => exact ensures_pure fun _ kept => ⟨kept.1, .inr ⟨by simpa using nonempty, kept.2⟩⟩
  · exact ensures_pure fun _ kept => ⟨kept.1, .inl rfl⟩

theorem matched_ensures :
    Ensures (fun held : σ × Log Setter PlatformError => held.2 = log)
      (parts.logged.matched inForce received)
      fun matched held => held.2 = log ∧ (matched = none → Unmatched parts inForce received) ∧
        ∀ found, matched = some found → found.Sound parts inForce received := by
  unfold Parts.matched
  refine ensures_ite (fun idle => ensures_pure fun _ kept => ⟨kept, fun _ => .inl idle, by simp⟩)
    fun notIdle => ?_
  refine ensures_bind (resolveName_ensures parts received log) fun p => ?_
  have asked : Ensures (fun held : σ × Log Setter PlatformError =>
        held.2 = log ∧ Resolves received p)
      (parts.logged.platform.isRealtime p.pid) fun _ held =>
        held.2 = log ∧ Resolves received p :=
    fun _ kept => kept
  refine ensures_bind asked fun isRealtime => ?_
  cases looked : inForce.store.lookup parts.crates (lookupName p.name) with
  | none =>
      have unmatched : parts.logged.crates = parts.crates := rfl
      simp only [unmatched, looked]
      exact ensures_pure fun _ kept => ⟨kept.1, fun _ => .inr ⟨p, kept.2, looked⟩, by simp⟩
  | some answer =>
      have sameCrates : parts.logged.crates = parts.crates := rfl
      simp only [sameCrates, looked]
      intro held kept
      have listed := threadsOf_ensures parts log p held kept.1
      refine ⟨listed.1, fun isNone => absurd isNone (Option.some_ne_none _), ?_⟩
      intro found isFound
      have built := Option.some.inj isFound
      subst built
      exact ⟨notIdle, kept.2, ⟨answer.2, rfl, looked⟩, rfl, listed.2, rfl, rfl⟩

/-- A request for a received process: it is not the idle task, and what is named is the
process or a thread listed for it. -/
structure Aims (parts : Parts σ ρ κ) (received : Process) (request : Setter) : Prop where
  notIdle : received.pid ≠ 0
  pid : request.pid = received.pid
  tasks : Lists parts received request.tasks

theorem Lists.congr {parts : Parts σ ρ κ} {p other : Process} (samePid : p.pid = other.pid)
    {tids : List Int32} (lists : Lists parts p tids) : Lists parts other tids := by
  unfold Lists at lists ⊢
  rwa [← samePid]

/-- What applying a rule to a received process adds to the log is for that process. -/
theorem applyRule_aims {p : Process} {tids : List Int32} (notIdle : received.pid ≠ 0)
    (resolves : Resolves received p) (lists : Lists parts p tids) (rule : Rule.Accessors)
    (config : ConfigSnapshot) (isRealtime : Bool) (held : σ × Log Setter PlatformError) :
    ∀ entry ∈ (parts.worker.applyRule parts.platform.logged p tids rule config isRealtime
        parts.platform.isCgroupV2 held).2.2, entry ∈ held.2 ∨ Aims parts received entry.1 := by
  let situation := Situation.of parts.worker parts.platform p tids rule config isRealtime
    parts.platform.isCgroupV2
  obtain ⟨entries, next, asked, ran⟩ :=
    applyRule_logged parts.platform situation rfl rfl held.1 held.2
  have extended : (parts.worker.applyRule parts.platform.logged p tids rule config isRealtime
      parts.platform.isCgroupV2 held).2.2 = held.2 ++ entries :=
    congrArg (fun answered => answered.2.2) ran
  intro entry inLog
  rw [extended] at inLog
  refine (List.mem_append.mp inLog).imp_right fun isNew => ?_
  have isPlanned : entry.1 ∈ situation.planned := asked ▸ List.mem_map_of_mem isNew
  have aim := Situation.aim_planned isPlanned
  refine ⟨notIdle, aim.1.trans resolves.pid, ?_⟩
  rcases aim.2 with toThreads | toProcess
  · rw [toThreads]
    exact lists.congr resolves.pid
  · rw [toProcess]
    exact .inl (congrArg (fun pid => [pid]) resolves.pid)

/-- Whatever rules are loaded, a message adds only requests for its own process. -/
theorem handle_aims (config : ConfigSnapshot) (rules : Rules ρ κ)
    (held : σ × Log Setter PlatformError) :
    ∀ entry ∈ (parts.worker.handle parts.crates parts.platform.logged config received
        (held, rules)).2.1.2, entry ∈ held.2 ∨ Aims parts received entry.1 := by
  unfold Worker.handle
  split
  · exact fun entry member => .inl member
  next notIdle =>
    have named := resolveName_ensures parts received held.2 held rfl
    cases resolved : Worker.resolveName parts.platform.logged received held with
    | mk p afterName =>
        rw [show parts.logged.platform = parts.platform.logged from rfl, resolved] at named
        simp only
        cases (getRule parts.crates (lookupName p.name) rules).1 with
        | none =>
            intro entry member
            exact .inl (named.1 ▸ member)
        | some answer =>
            have listed := threadsOf_ensures parts held.2 p
              (parts.platform.logged.isRealtime p.pid afterName).2 named.1
            intro entry member
            have added := applyRule_aims parts received notIdle named.2 listed.2 _ config _ _ entry
              member
            exact added.imp_left fun old => listed.1 ▸ old

/-- A message adds its planned requests to the log, whatever they are answered. -/
theorem serve_logged (host : σ) :
    ∃ entries next,
      entries.map Prod.fst =
        Turn.planned ⟨received, (parts.logged.matched inForce received (host, log)).1⟩ ∧
      (parts.logged.serve inForce received (host, log)).2 = (next, log ++ entries) := by
  obtain ⟨kept, _, sound⟩ := matched_ensures parts inForce received log (host, log) rfl
  cases read : parts.logged.matched inForce received (host, log) with
  | mk matched held =>
      rw [read] at kept sound
      unfold Parts.serve
      simp only [bind, StateT.bind, read]
      cases matched with
      | none => exact ⟨[], held.1, rfl, by rw [List.append_nil, ← kept]; rfl⟩
      | some found =>
          have isSound := sound found rfl
          obtain ⟨entries, next, asked, ran⟩ := applyRule_logged parts.platform found.situation
            isSound.isCgroupV2 isSound.maxCores held.1 held.2
          refine ⟨entries, next, asked, ?_⟩
          rw [← kept]
          exact congrArg Prod.snd ran

end Requests

/-- Whatever is swapped and when, a step adds only requests for the process it receives. -/
theorem aims_step (parts : Parts σ ρ κ) (event : Event)
    (state : State (σ × Log Setter PlatformError) ρ κ) :
    ∀ entry ∈ (parts.logged.step event state).host.2, entry ∈ state.host.2 ∨
      ∃ received ∈ messages [event], Aims parts received entry.1 := by
  intro entry member
  cases event with
  | probe => exact .inl member
  | swap swap => exact .inl member
  | message received between =>
      have here := handle_aims parts received (swaps parts.crates between state.running).config
        state.running.rules state.host entry member
      exact here.imp_right fun aims => ⟨received, List.mem_singleton_self _, aims⟩

/-- What is in force after some events: only the swaps among them matter. -/
def inForceAfter (crates : Crates ρ κ) (events : List Event) (inForce : InForce ρ) : InForce ρ :=
  inForce.swaps crates (swapsOf events)

section Turns

variable (parts : Parts σ ρ κ)

theorem inForce_specRun (events : List Event) (spec : Spec σ ρ) :
    (parts.specRun events spec).inForce = inForceAfter parts.crates events spec.inForce := by
  induction events generalizing spec with
  | nil => rfl
  | cons event rest inductionHypothesis =>
      have first : (parts.specStep event spec).inForce =
          spec.inForce.swaps parts.crates (swapsOf [event]) := by
        cases event with
        | probe => rfl
        | swap swap => rfl
        | message received between =>
            rw [show swapsOf [.message received between] = between from List.append_nil _]
            rfl
      have split : swapsOf ([event] ++ rest) = swapsOf [event] ++ swapsOf rest :=
        List.flatMap_append
      rw [← List.singleton_append, inForceAfter, split, InForce.swaps, List.foldl_append]
      rw [InForce.swaps] at first
      rw [← first]
      exact inductionHypothesis (parts.specStep event spec)

theorem received_turns (events : List Event) (spec : Spec σ ρ) :
    (parts.turns events spec).map Turn.received = messages events := by
  induction events generalizing spec with
  | nil => rfl
  | cons event rest inductionHypothesis =>
      cases event with
      | probe => exact inductionHypothesis (parts.specStep .probe spec)
      | swap swap => exact inductionHypothesis (parts.specStep (.swap swap) spec)
      | message received between =>
          rw [messages_message, Parts.turns, List.map_cons, inductionHypothesis]

/-- The turn of a message comes after the turns of the messages before it. -/
theorem turns_append (before after : List Event) (spec : Spec σ ρ) :
    parts.turns (before ++ after) spec =
      parts.turns before spec ++ parts.turns after (parts.specRun before spec) := by
  induction before generalizing spec with
  | nil => rfl
  | cons event rest inductionHypothesis =>
      cases event with
      | probe => exact inductionHypothesis (parts.specStep .probe spec)
      | swap swap => exact inductionHypothesis (parts.specStep (.swap swap) spec)
      | message received between =>
          rw [List.cons_append, Parts.turns, inductionHypothesis]
          rfl

theorem log_specRun (events : List Event) (spec : Spec (σ × Log Setter PlatformError) ρ) :
    (parts.logged.specRun events spec).host.2.map Prod.fst =
      spec.host.2.map Prod.fst ++ (parts.logged.turns events spec).flatMap Turn.planned := by
  induction events generalizing spec with
  | nil => exact (List.append_nil _).symm
  | cons event rest inductionHypothesis =>
      have unfolded : parts.logged.specRun (event :: rest) spec =
          parts.logged.specRun rest (parts.logged.specStep event spec) := rfl
      rw [unfolded, inductionHypothesis]
      cases event with
      | probe => rfl
      | swap swap => rfl
      | message received between =>
          obtain ⟨entries, next, asked, served⟩ := serve_logged parts
            (spec.inForce.seen parts.crates between) received spec.host.2 spec.host.1
          have extended : (parts.logged.specStep (.message received between) spec).host.2 =
              spec.host.2 ++ entries := congrArg Prod.snd served
          rw [extended, List.map_append, asked, List.append_assoc]
          rfl

end Turns

end AnanicyRs.Daemon.WorkLoop
