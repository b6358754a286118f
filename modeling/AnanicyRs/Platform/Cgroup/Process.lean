import AnanicyRs.Lib.Cache
import AnanicyRs.Platform.Cgroup.Manager
import AnanicyRs.Platform.Procfs

/-!
Contract: the process-cgroup resolvers of `crates/ananicy-platform/src/cgroup/process.rs`.

Owns `LinuxCgroupResolver::resolve` on the text of `/proc/<pid>/cgroup`, and
`CachingCgroupResolver::resolve` as a machine: each call goes through its reads one by
one, and calls, process exits and the clock interleave freely. The machine keeps a
record of everything a call read, stored and returned.

`resolve_returns_own_cgroup` is the law of the cache: an answer was read from the
kernel between two readings of the start time that this call itself began with.

The inner resolver is generic: its answers are part of a step's reply.
-/

set_option autoImplicit false

namespace AnanicyRs.Platform.Cgroup

open AnanicyRs.Lib
open AnanicyRs.Lib.Cache
open AnanicyRs.Lib.FileSystem (IoError)
open AnanicyRs.Lib.StateInvariant
open AnanicyRs.Platform.Procfs

/-! ## The resolver of the kernel's answer -/

structure LinuxCgroupResolver where
  version : CgroupVersion
deriving DecidableEq, Repr

/-- The unified path in `/proc/<pid>/cgroup`, without the mark of a removed cgroup. -/
def unifiedPath (content : String) : Option String :=
  ((Text.lines content).find? (Text.startsWith · "0::")).map fun line =>
    Text.trimEndMatches (String.ofList (line.toList.drop 3)) " (deleted)"

def LinuxCgroupResolver.resolve (resolver : LinuxCgroupResolver) (read : Except IoError String) :
    Except IoError (Option String) :=
  if resolver.version = .none ∨ resolver.version = .v1 then .ok none
  else match read with
    | .error .notFound => .ok none
    | .error reason => .error reason
    | .ok content =>
        match unifiedPath content with
        | none => .ok none
        -- A path that leaves the cgroup namespace is no answer.
        | some path => if Text.startsWith path "/../" then .ok none else .ok (some path)

example : (LinuxCgroupResolver.mk .v2).resolve (.ok "0::/user.slice/a.scope (deleted)\n") =
    .ok (some "/user.slice/a.scope") := by decide

/-! ## The caching resolver -/

section Caching

variable {κ ι : Type}

structure CacheEntry (ι : Type) where
  startTime : Nat
  identity : Option ι
  timestamp : Nat
deriving DecidableEq, Repr

/-- Where a call of `resolve` is. Each position is named after what comes next. -/
inductive Phase (ι : Type) where
  | beginning (pid : Int)
  | looking (pid : Int) (startTime : Nat)
  | resolving (pid : Int) (startTime : Nat)
  | rechecking (pid : Int) (startTime : Nat) (resolved : Option ι)
  | storing (pid : Int) (startTime : Nat) (resolved : Option ι)
  | finished

inductive Observation (ι : Type) where
  /-- The start time read at the beginning of the call. -/
  | began (pid : Int) (startTime : Option Nat)
  | resolved (pid : Int) (answer : Except IoError (Option ι))
  | rechecked (pid : Int) (startTime : Option Nat)
  | stored (pid : Int) (entry : CacheEntry ι)
  | returned (pid : Int) (moment : Nat) (answer : Except IoError (Option ι))

structure Record (ι : Type) where
  call : Nat
  seen : Observation ι

/-- Everything the rest of the system may answer at one step of a call. -/
structure Reply (ι : Type) where
  /-- What reading `/proc/<pid>/stat` gives. -/
  stat : Option String
  /-- The cache lock is poisoned. -/
  poisoned : Bool
  inner : Except IoError (Option ι)

structure Resolver (κ ι : Type) where
  cache : κ
  calls : Nat → Option (Phase ι)
  log : List (Record ι)
  now : Nat

/-- What one step of a call leaves: its next position, what it saw, and the cache. -/
structure Outcome (κ ι : Type) where
  next : Phase ι
  seen : List (Observation ι)
  cache : κ

/-- One step of `CachingCgroupResolver::resolve`. -/
def advance (lru : LossyCache κ Int (CacheEntry ι)) (ttl now : Nat) (reply : Reply ι)
    (cache : κ) : Phase ι → Outcome κ ι
  | .beginning pid =>
      match getStartTime reply.stat with
      | none => ⟨.finished, [.began pid none, .returned pid now (.ok none)], cache⟩
      | some startTime => ⟨.looking pid startTime, [.began pid (some startTime)], cache⟩
  | .looking pid startTime =>
      if reply.poisoned then ⟨.finished, [.returned pid now (.error .other)], cache⟩
      else match lru.get pid cache with
        | (some entry, touched) =>
            if entry.startTime = startTime ∧ now - entry.timestamp < ttl then
              ⟨.finished, [.returned pid now (.ok entry.identity)], touched⟩
            else ⟨.resolving pid startTime, [], touched⟩
        | (none, touched) => ⟨.resolving pid startTime, [], touched⟩
  | .resolving pid startTime =>
      match reply.inner with
      | .error reason =>
          ⟨.finished, [.resolved pid (.error reason), .returned pid now (.error reason)], cache⟩
      | .ok resolved =>
          ⟨.rechecking pid startTime resolved, [.resolved pid (.ok resolved)], cache⟩
  | .rechecking pid startTime resolved =>
      let after := getStartTime reply.stat
      if after = some startTime then
        ⟨.storing pid startTime resolved, [.rechecked pid after], cache⟩
      else ⟨.finished, [.rechecked pid after, .returned pid now (.ok none)], cache⟩
  | .storing pid startTime resolved =>
      if reply.poisoned then ⟨.finished, [.returned pid now (.error .other)], cache⟩
      else
        let entry := ⟨startTime, resolved, now⟩
        ⟨.finished, [.stored pid entry, .returned pid now (.ok resolved)],
          lru.put pid entry cache⟩
  | .finished => ⟨.finished, [], cache⟩

inductive Event (ι : Type) where
  | call (id : Nat) (pid : Int)
  | advance (id : Nat) (reply : Reply ι)
  | wait (elapsed : Nat)

/-- One step of the whole: a call number is used once, and only a call that has begun
advances. -/
def step (lru : LossyCache κ Int (CacheEntry ι)) (ttl : Nat) (event : Event ι)
    (resolver : Resolver κ ι) : Resolver κ ι :=
  match event with
  | .call id pid =>
      if (resolver.calls id).isSome then resolver
      else { resolver with calls := Function.update resolver.calls id (some (.beginning pid)) }
  | .advance id reply =>
      match resolver.calls id with
      | none => resolver
      | some phase =>
          let outcome := advance lru ttl resolver.now reply resolver.cache phase
          { resolver with
            cache := outcome.cache
            calls := Function.update resolver.calls id (some outcome.next)
            log := resolver.log ++ outcome.seen.map fun seen => ⟨id, seen⟩ }
  | .wait elapsed => { resolver with now := resolver.now + elapsed }

def Resolver.new (lru : LossyCache κ Int (CacheEntry ι)) : Resolver κ ι :=
  ⟨lru.empty, fun _ => none, [], 0⟩

/-! ## The record of one call -/

/-- What call `id` has seen, in order. -/
def seenBy (log : List (Record ι)) (id : Nat) : List (Observation ι) :=
  (log.filter (·.call = id)).map Record.seen

theorem seenBy_append (log more : List (Record ι)) (id : Nat) :
    seenBy (log ++ more) id = seenBy log id ++ seenBy more id := by
  simp [seenBy]

theorem seenBy_self (id : Nat) (seen : List (Observation ι)) :
    seenBy (seen.map fun one => ⟨id, one⟩) id = seen := by
  induction seen with
  | nil => rfl
  | cons one more inductionHypothesis => simpa [seenBy] using inductionHypothesis

theorem seenBy_other {id other : Nat} (different : other ≠ id) (seen : List (Observation ι)) :
    seenBy (seen.map fun one => ⟨other, one⟩) id = [] := by
  simp [seenBy, List.filter_eq_nil_iff, different]

theorem mem_seenBy {log : List (Record ι)} {id : Nat} {seen : Observation ι} :
    seen ∈ seenBy log id ↔ ⟨id, seen⟩ ∈ log := by
  simp only [seenBy, List.mem_map, List.mem_filter, decide_eq_true_eq]
  constructor
  · rintro ⟨⟨_, _⟩, ⟨member, rfl⟩, rfl⟩
    exact member
  · exact fun member => ⟨_, ⟨member, rfl⟩, rfl⟩

theorem seenBy_sublist (log : List (Record ι)) (id : Nat) :
    ((seenBy log id).map fun seen => ⟨id, seen⟩).Sublist log := by
  have same : ((seenBy log id).map fun seen => ⟨id, seen⟩) = log.filter (·.call = id) := by
    rw [seenBy, List.map_map]
    refine (List.map_congr_left ?_).trans (List.map_id _)
    intro record member
    have isCall : record.call = id := by simpa using (List.mem_filter.mp member).2
    subst isCall
    rfl
  rw [same]
  exact List.filter_sublist

/-- What a call can have seen by the time it is where it is. -/
inductive Trace : Option (Phase ι) → List (Observation ι) → Prop where
  | idle : Trace none []
  | beginning (pid : Int) : Trace (some (.beginning pid)) []
  | looking (pid : Int) (startTime : Nat) :
      Trace (some (.looking pid startTime)) [.began pid (some startTime)]
  | resolving (pid : Int) (startTime : Nat) :
      Trace (some (.resolving pid startTime)) [.began pid (some startTime)]
  | rechecking (pid : Int) (startTime : Nat) (resolved : Option ι) :
      Trace (some (.rechecking pid startTime resolved))
        [.began pid (some startTime), .resolved pid (.ok resolved)]
  | storing (pid : Int) (startTime : Nat) (resolved : Option ι) :
      Trace (some (.storing pid startTime resolved))
        [.began pid (some startTime), .resolved pid (.ok resolved),
          .rechecked pid (some startTime)]
  | gone (pid : Int) (moment : Nat) :
      Trace (some .finished) [.began pid none, .returned pid moment (.ok none)]
  | answered (pid : Int) (startTime moment : Nat) (answer : Except IoError (Option ι)) :
      Trace (some .finished) [.began pid (some startTime), .returned pid moment answer]
  | failed (pid : Int) (startTime moment : Nat) (reason : IoError) :
      Trace (some .finished)
        [.began pid (some startTime), .resolved pid (.error reason),
          .returned pid moment (.error reason)]
  | changed (pid : Int) (startTime moment : Nat) (resolved : Option ι) (after : Option Nat)
      (differs : after ≠ some startTime) :
      Trace (some .finished)
        [.began pid (some startTime), .resolved pid (.ok resolved), .rechecked pid after,
          .returned pid moment (.ok none)]
  | unstored (pid : Int) (startTime moment : Nat) (resolved : Option ι) :
      Trace (some .finished)
        [.began pid (some startTime), .resolved pid (.ok resolved),
          .rechecked pid (some startTime), .returned pid moment (.error .other)]
  | stored (pid : Int) (startTime moment : Nat) (resolved : Option ι) :
      Trace (some .finished)
        [.began pid (some startTime), .resolved pid (.ok resolved),
          .rechecked pid (some startTime), .stored pid ⟨startTime, resolved, moment⟩,
          .returned pid moment (.ok resolved)]

theorem Trace.of_idle {seen : List (Observation ι)} (trace : Trace none seen) : seen = [] := by
  cases trace
  rfl

theorem Trace.of_looking {pid : Int} {startTime : Nat} {seen : List (Observation ι)}
    (trace : Trace (some (.looking pid startTime)) seen) :
    seen = [.began pid (some startTime)] := by
  cases trace
  rfl

theorem Trace.of_storing {pid : Int} {startTime : Nat} {resolved : Option ι}
    {seen : List (Observation ι)} (trace : Trace (some (.storing pid startTime resolved)) seen) :
    seen = [.began pid (some startTime), .resolved pid (.ok resolved),
      .rechecked pid (some startTime)] := by
  cases trace
  rfl

section Steps

variable {lru : LossyCache κ Int (CacheEntry ι)} {ttl now : Nat} {reply : Reply ι} {cache : κ}

variable (lru ttl now reply cache) in
theorem advance_trace {phase : Phase ι} {seen : List (Observation ι)}
    (trace : Trace (some phase) seen) :
    Trace (some (advance lru ttl now reply cache phase).next)
      (seen ++ (advance lru ttl now reply cache phase).seen) := by
  cases phase with
  | beginning pid =>
      cases trace
      simp only [advance]
      split
      · exact .gone pid now
      next startTime _ => exact .looking pid startTime
  | looking pid startTime =>
      cases trace
      simp only [advance]
      split
      · exact .answered pid startTime now _
      · split
        · split
          · exact .answered pid startTime now _
          · exact .resolving pid startTime
        · exact .resolving pid startTime
  | resolving pid startTime =>
      cases trace
      simp only [advance]
      split
      next reason _ => exact .failed pid startTime now reason
      next resolved _ => exact .rechecking pid startTime resolved
  | rechecking pid startTime resolved =>
      cases trace
      simp only [advance]
      split
      next same =>
        rw [same]
        exact .storing pid startTime resolved
      next differs => exact .changed pid startTime now resolved _ differs
  | storing pid startTime resolved =>
      cases trace
      simp only [advance]
      split
      · exact .unstored pid startTime now resolved
      · exact .stored pid startTime now resolved
  | finished =>
      simpa [advance] using trace

/-- A step adds at most one entry to the cache, the one it says it stores. -/
theorem advance_holds {phase : Phase ι} {pid : Int} {entry : CacheEntry ι}
    (held : lru.Holds (advance lru ttl now reply cache phase).cache pid entry) :
    lru.Holds cache pid entry ∨
      ∃ startTime resolved, phase = .storing pid startTime resolved ∧
        entry = ⟨startTime, resolved, now⟩ ∧
        (advance lru ttl now reply cache phase).seen =
          [.stored pid entry, .returned pid now (.ok resolved)] := by
  cases phase with
  | beginning other =>
      apply Or.inl
      simp only [advance] at held
      split at held <;> exact held
  | looking other startTime =>
      apply Or.inl
      simp only [advance] at held
      split at held
      · exact held
      · split at held
        next found touched isGet =>
          apply lru.get_keeps other cache
          rw [isGet]
          split at held <;> exact held
        next touched isGet =>
          apply lru.get_keeps other cache
          rw [isGet]
          exact held
  | resolving other startTime =>
      apply Or.inl
      simp only [advance] at held
      split at held <;> exact held
  | rechecking other startTime resolved =>
      apply Or.inl
      simp only [advance] at held
      split at held <;> exact held
  | storing other startTime resolved =>
      simp only [advance] at held ⊢
      split at held
      · exact .inl held
      next usable =>
        rcases lru.put_holds other _ cache pid entry held with ⟨rfl, rfl⟩ | ⟨_, before⟩
        · refine .inr ⟨startTime, resolved, rfl, rfl, ?_⟩
          rw [if_neg usable]
        · exact .inl before
  | finished => exact .inl held

/-- A step returns an identity from an entry that is fresh, or from what it stores. -/
theorem advance_returned {phase : Phase ι} {pid : Int} {moment : Nat} {identity : ι}
    (returned : .returned pid moment (.ok (some identity)) ∈
      (advance lru ttl now reply cache phase).seen) :
    moment = now ∧
      ((∃ entry, phase = .looking pid entry.startTime ∧ lru.Holds cache pid entry ∧
          now - entry.timestamp < ttl ∧ entry.identity = some identity) ∨
        ∃ startTime, phase = .storing pid startTime (some identity) ∧
          (advance lru ttl now reply cache phase).seen =
            [.stored pid ⟨startTime, some identity, now⟩,
              .returned pid now (.ok (some identity))]) := by
  cases phase with
  | beginning other =>
      simp only [advance] at returned
      split at returned <;> simp at returned
  | looking other startTime =>
      simp only [advance] at returned
      split at returned
      · simp at returned
      · split at returned
        next entry touched isGet =>
          split at returned
          next fresh =>
            simp only [List.mem_singleton, Observation.returned.injEq, Except.ok.injEq] at returned
            obtain ⟨rfl, rfl, isIdentity⟩ := returned
            refine ⟨rfl, .inl ⟨entry, by rw [fresh.1], ?_, fresh.2, isIdentity.symm⟩⟩
            apply lru.get_holds
            rw [isGet]
          · simp at returned
        · simp at returned
  | resolving other startTime =>
      simp only [advance] at returned
      split at returned <;> simp at returned
  | rechecking other startTime resolved =>
      simp only [advance] at returned
      split at returned <;> simp at returned
  | storing other startTime resolved =>
      simp only [advance] at returned ⊢
      split at returned
      · simp at returned
      next usable =>
        rw [List.mem_cons] at returned
        rcases returned with isStored | isReturned
        · cases isStored
        · simp only [List.mem_singleton, Observation.returned.injEq, Except.ok.injEq] at isReturned
          obtain ⟨rfl, rfl, rfl⟩ := isReturned
          refine ⟨rfl, .inr ⟨startTime, rfl, ?_⟩⟩
          rw [if_neg usable]
  | finished => simp [advance] at returned

end Steps

/-! ## The law of the cache -/

/-- Call `id` read the start time of the entry, then the identity of the entry, then the
same start time again, and then stored the entry. -/
def Bracketed (log : List (Record ι)) (id : Nat) (pid : Int) (entry : CacheEntry ι) : Prop :=
  List.Sublist
    ([.began pid (some entry.startTime), .resolved pid (.ok entry.identity),
      .rechecked pid (some entry.startTime), .stored pid entry].map fun seen => ⟨id, seen⟩) log

/-- The identity that call `id` returned at `moment` is bracketed by the start time that
is the first thing the call read, and is its own or less than `ttl` old. -/
def Answered (ttl : Nat) (log : List (Record ι)) (id : Nat) (pid : Int) (moment : Nat)
    (identity : ι) : Prop :=
  ∃ startTime other stored, (seenBy log id).head? = some (.began pid (some startTime)) ∧
    Bracketed log other pid ⟨startTime, some identity, stored⟩ ∧
    (other = id ∨ stored ≤ moment ∧ moment - stored < ttl)

theorem Bracketed.append {log : List (Record ι)} {id : Nat} {pid : Int} {entry : CacheEntry ι}
    (bracketed : Bracketed log id pid entry) (more : List (Record ι)) :
    Bracketed (log ++ more) id pid entry :=
  bracketed.trans (List.sublist_append_left log more)

theorem Answered.append {ttl : Nat} {log : List (Record ι)} {id : Nat} {pid : Int} {moment : Nat}
    {identity : ι} (answered : Answered ttl log id pid moment identity)
    (more : List (Record ι)) : Answered ttl (log ++ more) id pid moment identity := by
  obtain ⟨startTime, other, stored, began, bracketed, age⟩ := answered
  refine ⟨startTime, other, stored, ?_, bracketed.append more, age⟩
  rw [seenBy_append, List.head?_append, began]
  rfl

/-- A call that stored an entry saw nothing else than what brackets it. -/
theorem Trace.bracketed {phase : Option (Phase ι)} {log : List (Record ι)} {id : Nat}
    (trace : Trace phase (seenBy log id)) {pid : Int} {entry : CacheEntry ι}
    (stored : .stored pid entry ∈ seenBy log id) :
    Bracketed log id pid entry ∧
      (∀ other answer, .resolved other answer ∈ seenBy log id → answer = .ok entry.identity) ∧
      ∀ other after, .rechecked other after ∈ seenBy log id → after = some entry.startTime := by
  have own := seenBy_sublist log id
  generalize seenBy log id = seen at trace stored own
  cases trace with
  | stored other startTime moment resolved =>
      simp only [List.mem_cons, Observation.stored.injEq, List.not_mem_nil, or_false,
        reduceCtorEq, false_or] at stored
      obtain ⟨rfl, rfl⟩ := stored
      refine ⟨List.Sublist.trans ?_ own, by simp, by simp⟩
      simp
  | _ => simp at stored

structure Sound (lru : LossyCache κ Int (CacheEntry ι)) (ttl : Nat) (resolver : Resolver κ ι) :
    Prop where
  traces : ∀ id, Trace (resolver.calls id) (seenBy resolver.log id)
  entries : ∀ pid entry, lru.Holds resolver.cache pid entry →
    entry.timestamp ≤ resolver.now ∧ ∃ id, Bracketed resolver.log id pid entry
  returns : ∀ id pid moment identity,
    ⟨id, .returned pid moment (.ok (some identity))⟩ ∈ resolver.log →
      Answered ttl resolver.log id pid moment identity

section Run

variable {lru : LossyCache κ Int (CacheEntry ι)} {ttl : Nat} {resolver : Resolver κ ι}

theorem sound_new : Sound lru ttl (.new lru) where
  traces _ := .idle
  entries pid entry held := absurd held (lru.empty_holds pid entry)
  returns _ _ _ _ member := absurd member List.not_mem_nil

theorem sound_advance (sound : Sound lru ttl resolver) {id : Nat} {phase : Phase ι}
    (here : resolver.calls id = some phase) (reply : Reply ι) :
    Sound lru ttl (step lru ttl (.advance id reply) resolver) := by
  have own := sound.traces id
  rw [here] at own
  have traced := advance_trace lru ttl resolver.now reply resolver.cache own
  simp only [step, here]
  -- The record of the calling call after the step, and that of every other call.
  have ownSeen : seenBy (resolver.log ++
        (advance lru ttl resolver.now reply resolver.cache phase).seen.map fun seen => ⟨id, seen⟩)
        id = seenBy resolver.log id ++
          (advance lru ttl resolver.now reply resolver.cache phase).seen := by
    rw [seenBy_append, seenBy_self]
  rw [← ownSeen] at traced
  constructor
  · intro other
    dsimp only
    by_cases same : other = id
    · subst same
      rw [Function.update_self]
      exact traced
    · rw [Function.update_of_ne same, seenBy_append, seenBy_other (Ne.symm same), List.append_nil]
      exact sound.traces other
  · intro pid entry held
    rcases advance_holds held with old | ⟨startTime, resolved, _, isEntry, seen⟩
    · obtain ⟨age, other, bracketed⟩ := sound.entries pid entry old
      exact ⟨age, other, bracketed.append _⟩
    · refine ⟨by rw [isEntry], id, (traced.bracketed ?_).1⟩
      rw [ownSeen, seen]
      simp
  · intro other pid moment identity member
    rcases List.mem_append.mp member with old | new
    · exact (sound.returns other pid moment identity old).append _
    · obtain ⟨seen, returned, isRecord⟩ := List.mem_map.mp new
      obtain ⟨rfl, rfl⟩ := Record.mk.inj isRecord
      obtain ⟨rfl, hit | ⟨startTime, isStoring, stored⟩⟩ := advance_returned returned
      · obtain ⟨entry, isLooking, held, fresh, isIdentity⟩ := hit
        obtain ⟨age, storer, bracketed⟩ := sound.entries pid entry held
        refine ⟨entry.startTime, storer, entry.timestamp, ?_, ?_, .inr ⟨age, fresh⟩⟩
        · rw [isLooking] at own
          rw [ownSeen, own.of_looking]
          rfl
        · rw [← isIdentity]
          exact bracketed.append _
      · have storedHere : .stored pid ⟨startTime, some identity, resolver.now⟩ ∈ seenBy
            (resolver.log ++ (advance lru ttl resolver.now reply resolver.cache phase).seen.map
              fun seen => ⟨id, seen⟩) id := by
          rw [ownSeen, stored]
          simp
        refine ⟨startTime, id, resolver.now, ?_, (traced.bracketed storedHere).1, .inl rfl⟩
        rw [isStoring] at own
        rw [ownSeen, own.of_storing]
        rfl

theorem sound_step (event : Event ι) (sound : Sound lru ttl resolver) :
    Sound lru ttl (step lru ttl event resolver) := by
  cases event with
  | call id pid =>
      simp only [step]
      split
      · exact sound
      next unused =>
        have idle : resolver.calls id = none := by simpa using unused
        have nothing : seenBy resolver.log id = [] := by
          have trace := sound.traces id
          rw [idle] at trace
          exact trace.of_idle
        refine ⟨?_, sound.entries, sound.returns⟩
        intro other
        dsimp only
        by_cases same : other = id
        · subst same
          rw [Function.update_self, nothing]
          exact .beginning pid
        · rw [Function.update_of_ne same]
          exact sound.traces other
  | advance id reply =>
      cases here : resolver.calls id with
      | none =>
          simp only [step, here]
          exact sound
      | some phase => exact sound_advance sound here reply
  | wait elapsed =>
      refine ⟨sound.traces, ?_, sound.returns⟩
      intro pid entry held
      obtain ⟨age, bracketed⟩ := sound.entries pid entry held
      exact ⟨Nat.le_trans age (Nat.le_add_right _ _), bracketed⟩

end Run

/-- In every state of every run of interleaved calls, whatever the inner resolver, the
clock and the evictions do: an identity that was returned was read between two readings
of the start time its call began with, and was stored by that call or less than `ttl`
before; and a call that stored an entry met no error and no other start time. -/
theorem resolve_returns_own_cgroup (lru : LossyCache κ Int (CacheEntry ι)) (ttl : Nat)
    (events : List (Event ι)) :
    ∀ reached ∈ states (step lru ttl) events (Resolver.new lru),
      (∀ id pid moment identity,
        ⟨id, .returned pid moment (.ok (some identity))⟩ ∈ reached.log →
          Answered ttl reached.log id pid moment identity) ∧
      ∀ id pid entry, ⟨id, .stored pid entry⟩ ∈ reached.log →
        Bracketed reached.log id pid entry ∧
          (∀ other answer, ⟨id, .resolved other answer⟩ ∈ reached.log →
            answer = .ok entry.identity) ∧
          ∀ other after, ⟨id, .rechecked other after⟩ ∈ reached.log →
            after = some entry.startTime := by
  intro reached member
  have sound : Sound lru ttl reached :=
    invariant_of_step (fun _ event => sound_step event) events _ sound_new reached member
  refine ⟨sound.returns, fun id pid entry stored => ?_⟩
  have bracketed := (sound.traces id).bracketed (mem_seenBy.mpr stored)
  simpa only [mem_seenBy] using bracketed

/-- What process 7, started at 42 and in `/app.slice`, shows to every read. -/
def steadyReply : Reply String where
  stat := some "7 (sh) S 1 7 7 0 -1 4194304 0 0 0 0 0 0 0 0 20 0 1 0 42 0"
  poisoned := false
  inner := .ok (some "/app.slice")

/-- A call that stores what it resolves, and a second one that is answered from the cache. -/
def askedTwice : List (Event String) :=
  [.call 0 7, .advance 0 steadyReply, .advance 0 steadyReply, .advance 0 steadyReply,
   .advance 0 steadyReply, .advance 0 steadyReply, .wait 3, .call 1 7, .advance 1 steadyReply,
   .advance 1 steadyReply]

def afterAskedTwice : Resolver (List (Int × CacheEntry String)) String :=
  askedTwice.foldl (fun resolver event => step (lru 8) 5 event resolver) (Resolver.new (lru 8))

theorem askedTwice_answered :
    afterAskedTwice.log.getLast? = some ⟨1, .returned 7 3 (.ok (some "/app.slice"))⟩ ∧
      Answered 5 afterAskedTwice.log 1 7 3 "/app.slice" := by
  have started : getStartTime steadyReply.stat = some 42 := by
    decide +kernel
  have unpoisoned : steadyReply.poisoned = false := rfl
  have resolved : steadyReply.inner = .ok (some "/app.slice") := rfl
  have last : afterAskedTwice.log.getLast? =
      some ⟨1, .returned 7 3 (.ok (some "/app.slice"))⟩ := by
    simp [afterAskedTwice, askedTwice, step, advance, Resolver.new, started, unpoisoned, resolved,
      lru, Function.update]
  refine ⟨last, ?_⟩
  apply (resolve_returns_own_cgroup (lru 8) 5 askedTwice _ (foldl_mem_states _ _ _)).1
  exact List.mem_of_getLast? last

end Caching

end AnanicyRs.Platform.Cgroup
