import AnanicyRs.Platform.Priority
import Mathlib.Logic.Function.Basic

/-!
Contract: the latency-nice calls of `crates/ananicy-platform/src/priority.rs`.

Owns the scheduling state of threads and what `sched_setattr(2)` does to it, as the
comments of `set_latency_nice` describe it: the policy is applied unless
`SCHED_FLAG_KEEP_POLICY` is set, nice and priority unless `SCHED_FLAG_KEEP_PARAMS` is, and
the latency nice where its own flag is. Over that kernel it owns `get_latency_nice` and
`test_latnice_support`, the probe that runs at start-up and on every reload.

`set_latency_nice` sets both keep flags and changes nothing but the latency nice. The
probe sets only one of them, and `latencyNice_frames_iff` says what that costs.
-/

set_option autoImplicit false

namespace AnanicyRs.Platform.Priority

open AnanicyRs.Core AnanicyRs.Lib.CallLog

/-! ## The kernel -/

structure SchedState where
  policy : UInt32
  nice : Int32
  rtPriority : UInt32
  latencyNice : Int32
deriving DecidableEq, Repr

/-- What an accepted `sched_setattr(2)` makes of the state of a thread. -/
def SchedAttr.applyTo (attr : SchedAttr) (state : SchedState) : SchedState where
  policy := if attr.schedFlags &&& schedFlagKeepPolicy = 0 then attr.schedPolicy else state.policy
  nice := if attr.schedFlags &&& schedFlagKeepParams = 0 then attr.schedNice else state.nice
  rtPriority :=
    if attr.schedFlags &&& schedFlagKeepParams = 0 then attr.schedPriority else state.rtPriority
  latencyNice :=
    if attr.schedFlags &&& schedFlagLatencyNice = 0 then state.latencyNice
    else attr.schedLatencyNice

/-- A kernel, seen through the scheduling state of its threads. A refused `sched_setattr`
leaves all of them as they are, an accepted one changes only its thread. -/
structure SchedKernel (σ : Type) where
  server : Server σ Syscall Errno
  schedGetattr : Int32 → StateM σ (Except Errno SchedAttr)
  caller : Int32
  view : σ → Int32 → SchedState
  refused : ∀ tid attr state e, (server (.schedSetattr tid attr) state).1 = .error e →
    view (server (.schedSetattr tid attr) state).2 = view state
  accepted : ∀ tid attr state, (server (.schedSetattr tid attr) state).1 = .ok () →
    view (server (.schedSetattr tid attr) state).2 =
      Function.update (view state) (if tid = 0 then caller else tid)
        (attr.applyTo (view state (if tid = 0 then caller else tid)))
  reads : ∀ tid state, view (schedGetattr tid state).2 = view state

variable {σ : Type}

namespace SchedKernel

/-- The thread a call is about: zero stands for the caller. -/
def target (kernel : SchedKernel σ) (tid : Int32) : Int32 := if tid = 0 then kernel.caller else tid

def AsksLatencyNice (attr : SchedAttr) : Prop := attr.schedFlags &&& schedFlagLatencyNice ≠ 0

/-- The kernel takes every latency nice of its caller, and reports the true one. -/
structure Supports (kernel : SchedKernel σ) : Prop where
  accepts : ∀ attr state, AsksLatencyNice attr → (kernel.server (.schedSetattr 0 attr) state).1 = .ok ()
  reports : ∀ state, ∃ attr, (kernel.schedGetattr 0 state).1 = .ok attr ∧
    attr.schedLatencyNice = (kernel.view state kernel.caller).latencyNice

def RefusesAll (kernel : SchedKernel σ) : Prop :=
  ∀ tid attr state, AsksLatencyNice attr →
    ∃ e, (kernel.server (.schedSetattr tid attr) state).1 = .error e

end SchedKernel

/-! ## The probe -/

def latencyNiceOf : Except Errno SchedAttr → Option Int32
  | .ok attr => some attr.schedLatencyNice
  | .error _ => none

def getLatencyNice (kernel : SchedKernel σ) (pid : Int32) : StateM σ (Option Int32) := do
  return latencyNiceOf (← kernel.schedGetattr pid)

def probeAttr (latencyNice : Int32) : SchedAttr where
  schedFlags := schedFlagLatencyNice ||| schedFlagKeepParams
  schedLatencyNice := latencyNice

/-- The second half of the probe: what was there is put back if the probe was accepted. -/
def restoreLatencyNice (kernel : SchedKernel σ) (originalLatnice : Int32) :
    Except Errno Unit → StateM σ Bool
  | .ok () => do
      let _ ← kernel.server (.schedSetattr 0 (probeAttr originalLatnice))
      return true
  | .error _ => pure false

def testLatniceSupport (kernel : SchedKernel σ) : StateM σ Bool := do
  let originalLatnice := (← getLatencyNice kernel 0).getD 0
  let probed ← kernel.server (.schedSetattr 0 (probeAttr (-20)))
  restoreLatencyNice kernel originalLatnice probed

/-! ## What a call changes -/

/-- What every latency-nice call leaves alone, of a thread it may be about. -/
structure SameButLatencyNice (before after : SchedState) : Prop where
  policy : after.policy = before.policy
  nice : after.nice = before.nice
  rtPriority : after.rtPriority = before.rtPriority

theorem applyTo_latencyNiceAttr (value : Int32) (state : SchedState) :
    (latencyNiceAttr value).applyTo state = { state with latencyNice := value } := by
  have keepPolicy : (latencyNiceAttr value).schedFlags &&& schedFlagKeepPolicy ≠ 0 := by
    change (schedFlagLatencyNice ||| schedFlagKeepParams ||| schedFlagKeepPolicy) &&&
      schedFlagKeepPolicy ≠ 0
    decide
  have keepParams : (latencyNiceAttr value).schedFlags &&& schedFlagKeepParams ≠ 0 := by
    change (schedFlagLatencyNice ||| schedFlagKeepParams ||| schedFlagKeepPolicy) &&&
      schedFlagKeepParams ≠ 0
    decide
  have latency : (latencyNiceAttr value).schedFlags &&& schedFlagLatencyNice ≠ 0 := by
    change (schedFlagLatencyNice ||| schedFlagKeepParams ||| schedFlagKeepPolicy) &&&
      schedFlagLatencyNice ≠ 0
    decide
  rw [SchedAttr.applyTo, if_neg keepPolicy, if_neg keepParams, if_neg keepParams, if_neg latency]
  rfl

/-- The probe keeps nice and priority, and moves the thread to the normal policy. -/
theorem applyTo_probeAttr (value : Int32) (state : SchedState) :
    (probeAttr value).applyTo state =
      { state with policy := schedNormal, latencyNice := value } := by
  have dropPolicy : (probeAttr value).schedFlags &&& schedFlagKeepPolicy = 0 := by
    change (schedFlagLatencyNice ||| schedFlagKeepParams) &&& schedFlagKeepPolicy = 0
    decide
  have keepParams : (probeAttr value).schedFlags &&& schedFlagKeepParams ≠ 0 := by
    change (schedFlagLatencyNice ||| schedFlagKeepParams) &&& schedFlagKeepParams ≠ 0
    decide
  have latency : (probeAttr value).schedFlags &&& schedFlagLatencyNice ≠ 0 := by
    change (schedFlagLatencyNice ||| schedFlagKeepParams) &&& schedFlagLatencyNice ≠ 0
    decide
  rw [SchedAttr.applyTo, if_pos dropPolicy, if_neg keepParams, if_neg keepParams, if_neg latency]
  rfl

theorem asksLatencyNice_probeAttr (value : Int32) :
    SchedKernel.AsksLatencyNice (probeAttr value) := by
  change (schedFlagLatencyNice ||| schedFlagKeepParams) &&& schedFlagLatencyNice ≠ 0
  decide

section Frame

variable (kernel : SchedKernel σ)

/-- A call changes nothing, or its thread as the attributes say. -/
theorem view_setattr (tid : Int32) (attr : SchedAttr) (state : σ) :
    let next := (kernel.server (.schedSetattr tid attr) state).2
    kernel.view next = kernel.view state ∨
      kernel.view next = Function.update (kernel.view state) (kernel.target tid)
        (attr.applyTo (kernel.view state (kernel.target tid))) := by
  cases answered : (kernel.server (.schedSetattr tid attr) state).1 with
  | error e => exact .inl (kernel.refused tid attr state e answered)
  | ok => exact .inr (kernel.accepted tid attr state answered)

/-- A latency nice leaves everything else of every thread as it is, and every other
thread altogether. -/
theorem setLatencyNice_frame (describe : Errno → String) (tids : List Int32) (value : Int32)
    (state : σ) :
    let next := (setLatencyNice describe kernel.server tids value state).2
    (∀ tid, SameButLatencyNice (kernel.view state tid) (kernel.view next tid)) ∧
      ∀ tid, tid ∉ tids.map kernel.target → kernel.view next tid = kernel.view state tid := by
  intro next
  let inv : σ → Prop := fun reached =>
    (∀ tid, SameButLatencyNice (kernel.view state tid) (kernel.view reached tid)) ∧
      ∀ tid, tid ∉ tids.map kernel.target → kernel.view reached tid = kernel.view state tid
  have step : ∀ call ∈ tids.map fun tid => Syscall.schedSetattr tid (latencyNiceAttr value),
      ∀ reached, inv reached → inv (kernel.server call reached).2 := by
    intro call member reached holds
    obtain ⟨asked, inTids, rfl⟩ := List.mem_map.mp member
    obtain ⟨same, outside⟩ := holds
    rcases view_setattr kernel asked (latencyNiceAttr value) reached with kept | changed
    · refine ⟨fun tid => ?_, fun tid notAsked => ?_⟩
      · rw [kept]
        exact same tid
      · rw [kept]
        exact outside tid notAsked
    · rw [applyTo_latencyNiceAttr] at changed
      refine ⟨fun tid => ?_, fun tid notAsked => ?_⟩
      · rw [changed]
        by_cases isTarget : tid = kernel.target asked
        · subst isTarget
          rw [Function.update_self]
          exact ⟨(same _).policy, (same _).nice, (same _).rtPriority⟩
        · rw [Function.update_of_ne isTarget]
          exact same tid
      · have notTarget : tid ≠ kernel.target asked := by
          intro isTarget
          rw [isTarget] at notAsked
          exact notAsked (List.mem_map_of_mem inTids)
        rw [changed, Function.update_of_ne notTarget]
        exact outside tid notAsked
  have start : inv state := ⟨fun _ => ⟨rfl, rfl, rfl⟩, fun _ _ => rfl⟩
  exact collect_maintains Sweep.record kernel.server _ step .start state start

/-- The states the probe passes through. -/
theorem testLatniceSupport_eq (state : σ) :
    testLatniceSupport kernel state =
      let read := kernel.schedGetattr 0 state
      let probed := kernel.server (.schedSetattr 0 (probeAttr (-20))) read.2
      restoreLatencyNice kernel ((latencyNiceOf read.1).getD 0) probed.1 probed.2 :=
  rfl

theorem view_probe_of_refusesAll (refuses : kernel.RefusesAll) (state : σ) :
    kernel.view (testLatniceSupport kernel state).2 = kernel.view state := by
  obtain ⟨e, answered⟩ := refuses 0 (probeAttr (-20)) (kernel.schedGetattr 0 state).2
    (asksLatencyNice_probeAttr (-20))
  have kept := kernel.refused 0 _ _ e answered
  rw [testLatniceSupport_eq]
  dsimp only
  rw [answered]
  exact kept.trans (kernel.reads 0 state)

/-- On a kernel with latency nice, the probe puts it back and leaves the caller on the
normal policy. -/
theorem view_probe_of_supports (supports : kernel.Supports) (state : σ) :
    kernel.view (testLatniceSupport kernel state).2 kernel.caller =
      { kernel.view state kernel.caller with policy := schedNormal } := by
  obtain ⟨attr, read, reported⟩ := supports.reports state
  have sameRead := kernel.reads 0 state
  have target : kernel.target 0 = kernel.caller := if_pos rfl
  have probed := supports.accepts (probeAttr (-20)) (kernel.schedGetattr 0 state).2
    (asksLatencyNice_probeAttr (-20))
  have afterProbe := kernel.accepted 0 _ _ probed
  have restored := supports.accepts (probeAttr attr.schedLatencyNice)
    (kernel.server (.schedSetattr 0 (probeAttr (-20))) (kernel.schedGetattr 0 state).2).2
    (asksLatencyNice_probeAttr attr.schedLatencyNice)
  have afterRestore := kernel.accepted 0 _ _ restored
  rw [testLatniceSupport_eq]
  dsimp only
  rw [probed, read]
  change kernel.view (kernel.server (.schedSetattr 0 (probeAttr attr.schedLatencyNice)) _).2
    kernel.caller = _
  rw [afterRestore, applyTo_probeAttr, if_pos rfl, Function.update_self, afterProbe,
    applyTo_probeAttr, if_pos rfl, Function.update_self, sameRead, reported]

/-- Latency-nice calls change only the latency nice: those of `set_latency_nice` always,
and the probe exactly where its thread runs under the normal policy or the kernel knows no
latency nice. -/
theorem latencyNice_frames_iff (describe : Errno → String)
    (known : kernel.Supports ∨ kernel.RefusesAll) (state : σ) :
    (∀ (tids : List Int32) (value : Int32),
      let next := (setLatencyNice describe kernel.server tids value state).2
      (∀ tid, SameButLatencyNice (kernel.view state tid) (kernel.view next tid)) ∧
        ∀ tid, tid ∉ tids.map kernel.target → kernel.view next tid = kernel.view state tid) ∧
    (kernel.view (testLatniceSupport kernel state).2 kernel.caller =
        kernel.view state kernel.caller ↔
      (kernel.view state kernel.caller).policy = schedNormal ∨ kernel.RefusesAll) := by
  refine ⟨fun tids value => setLatencyNice_frame kernel describe tids value state, ?_⟩
  constructor
  · intro unchanged
    rcases known with supports | refuses
    · left
      rw [← unchanged, view_probe_of_supports kernel supports]
    · exact .inr refuses
  · intro normalOrRefused
    rcases normalOrRefused with normal | refuses
    · rcases known with supports | refuses
      · rw [view_probe_of_supports kernel supports, ← normal]
      · rw [view_probe_of_refusesAll kernel refuses]
    · rw [view_probe_of_refusesAll kernel refuses]

end Frame

/-! ## A kernel with latency nice -/

/-- A kernel that accepts every request and reports the state as it is. -/
def openKernel : SchedKernel (Int32 → SchedState) where
  server call threads :=
    match call with
    | .schedSetattr tid attr =>
        (.ok (), Function.update threads (if tid = 0 then 1 else tid)
          (attr.applyTo (threads (if tid = 0 then 1 else tid))))
    | _ => (.ok (), threads)
  schedGetattr tid threads :=
    (.ok { schedLatencyNice := (threads (if tid = 0 then 1 else tid)).latencyNice }, threads)
  caller := 1
  view threads := threads
  refused _ _ _ _ refused := by simp at refused
  accepted _ _ _ _ := rfl
  reads _ _ := rfl

theorem openKernel_supports : openKernel.Supports :=
  ⟨fun _ _ _ => rfl, fun _ => ⟨_, rfl, rfl⟩⟩

/-- A daemon under the normal policy is not touched by the probe. -/
theorem probe_keeps_normal_policy :
    openKernel.view (testLatniceSupport openKernel fun _ => ⟨schedNormal, 5, 0, 3⟩).2 1 =
      ⟨schedNormal, 5, 0, 3⟩ :=
  (latencyNice_frames_iff openKernel (fun _ => "") (.inl openKernel_supports)
    fun _ => ⟨schedNormal, 5, 0, 3⟩).2.mpr (.inl rfl)

/-- A daemon started under the batch policy is moved to the normal one. -/
theorem probe_drops_batch_policy :
    openKernel.Supports ∧
    openKernel.view (testLatniceSupport openKernel fun _ => ⟨schedBatch, 5, 0, 3⟩).2 1 =
      ⟨schedNormal, 5, 0, 3⟩ :=
  ⟨openKernel_supports, view_probe_of_supports openKernel openKernel_supports _⟩

end AnanicyRs.Platform.Priority
