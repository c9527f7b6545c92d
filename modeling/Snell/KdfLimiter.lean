/-
`snell-runtime/src/kdf.rs`: key derivation is admitted by two Tokio
semaphores, one for the work that runs, one for the callers that wait.

A call of `derive` is a party that steps at every operation on a semaphore, at
every `await` and at every event of its blocking work; calls come and step in
any order. A call may be dropped where it awaits. Its work is not: once
spawned, it keeps the running permit to its end.

A permit that is released is available until somebody takes it. Tokio hands it
to the first waiter at once; that is one of the orders.
-/
import Snell.Parties
import Snell.SessionError

namespace Snell

def kdfMaxInflight : Nat := 8
def kdfMaxQueued : Nat := 32

/-- The permits available of each semaphore. -/
structure KdfLimiter where
  running : Nat
  queue : Nat
  deriving DecidableEq, Repr

namespace KdfLimiter

def withLimits (inflight queued : Nat) : KdfLimiter := ⟨inflight, queued⟩

def new (availableParallelism : Option Nat) : KdfLimiter :=
  withLimits (max 1 (min (availableParallelism.getD 1) kdfMaxInflight)) kdfMaxQueued

/-- A new limiter lets between one and eight derivations run. -/
theorem new_limits (availableParallelism : Option Nat) :
    ∃ inflight, 1 ≤ inflight ∧ inflight ≤ kdfMaxInflight ∧
      new availableParallelism = withLimits inflight kdfMaxQueued := by
  refine ⟨_, Nat.le_max_left _ _, ?_, rfl⟩
  exact Nat.max_le.mpr ⟨by decide, Nat.min_le_right _ _⟩

/-! ## A call of `derive` -/

/-- How blocking work ended: with what the closure returned, in a panic, or
never started because the runtime went down. -/
inductive WorkEnd (T : Type) where
  | returned (r : Except Error T)
  | panicked
  | lost

/-- Blocking work; it owns a running permit until it has ended. -/
inductive Work (T : Type) where
  | queued
  | executing
  | ended (e : WorkEnd T)

inductive Call (T : Type) where
  /-- Not polled yet. -/
  | arrived
  /-- `running.try_acquire_owned` failed. -/
  | noPermit
  /-- `_waiting` is held, `running.acquire_owned` not polled yet. -/
  | enqueued
  | waiting
  /-- The permit came, the call has not been polled since. -/
  | granted
  /-- `acquire_owned` returned, `_waiting` is still held. -/
  | acquired
  /-- With the running permit in hand. -/
  | admitted
  /-- Awaiting its work. -/
  | joining (work : Work T)
  /-- Dropped at `acquire_owned`, `_waiting` still held. -/
  | leaving
  | dropped
  /-- Dropped while its work was under way. -/
  | detached (work : Work T)
  | returned (r : Except SessionError T)

/-- `map_err(|_| Cancelled)?`, then `derived?`. -/
def WorkEnd.result {T : Type} : WorkEnd T → Except SessionError T
  | .returned (.ok x) => .ok x
  | .returned (.error e) => .error (.ofProtocol e)
  | .panicked | .lost => .error .cancelled

inductive Act (T : Type) where
  | tryRunning
  | tryQueue
  /-- The first poll of `acquire_owned`. -/
  | pollAcquire
  | grant
  /-- The poll after the permit came. -/
  | resume
  | dropWaiting
  | spawnBlocking
  | start
  | finish (e : WorkEnd T)
  | join
  /-- The call is dropped at an `await`. -/
  | cancel

variable {T : Type}

def takeRunning (s : KdfLimiter) : KdfLimiter := { s with running := s.running - 1 }

def releaseRunning (s : KdfLimiter) : KdfLimiter := { s with running := s.running + 1 }

def takeQueue (s : KdfLimiter) : KdfLimiter := { s with queue := s.queue - 1 }

def releaseQueue (s : KdfLimiter) : KdfLimiter := { s with queue := s.queue + 1 }

/-- An event of blocking work: it starts; it ends, in a panic too, and drops
its permit; it is dropped unstarted. -/
def workStep (s : KdfLimiter) : Work T → Act T → Option (KdfLimiter × Work T)
  | .queued, .start => some (s, .executing)
  | .executing, .finish (.returned r) => some (s.releaseRunning, .ended (.returned r))
  | .executing, .finish .panicked => some (s.releaseRunning, .ended .panicked)
  | .queued, .finish .lost => some (s.releaseRunning, .ended .lost)
  | _, _ => none

def callStep (s : KdfLimiter) : Call T → Act T → Option (KdfLimiter × Call T)
  | .arrived, .tryRunning => some (if 0 < s.running then (s.takeRunning, .admitted) else (s, .noPermit))
  | .noPermit, .tryQueue =>
    some (if 0 < s.queue then (s.takeQueue, .enqueued) else (s, .returned (.error .kdfQueueFull)))
  | .enqueued, .pollAcquire => some (if 0 < s.running then (s.takeRunning, .acquired) else (s, .waiting))
  | .waiting, .grant => if 0 < s.running then some (s.takeRunning, .granted) else none
  | .granted, .resume => some (s, .acquired)
  | .acquired, .dropWaiting => some (s.releaseQueue, .admitted)
  | .admitted, .spawnBlocking => some (s, .joining .queued)
  | .joining (.ended e), .join => some (s, .returned e.result)
  | .arrived, .cancel => some (s, .dropped)
  | .waiting, .cancel => some (s, .leaving)
  | .granted, .cancel => some (s.releaseRunning, .leaving)
  | .leaving, .dropWaiting => some (s.releaseQueue, .dropped)
  | .joining work, .cancel => some (s, .detached work)
  | .joining work, a => (workStep s work a).map fun r => (r.1, .joining r.2)
  | .detached work, a => (workStep s work a).map fun r => (r.1, .detached r.2)
  | _, _ => none

/-- Any number of calls on one limiter. -/
def system (T : Type) : Parties.System KdfLimiter (Call T) (Act T) Unit Unit where
  enter _ := .arrived
  step s c a := (callStep s c a).map fun r => ((), r.1, r.2)

abbrev Move (T : Type) := Parties.Move (Act T) Unit

/-- The limiter and its calls after an interleaving from a new one. -/
def run (inflight queued : Nat) (moves : List (Move T)) : Parties.World KdfLimiter (Call T) :=
  (system T).run ⟨withLimits inflight queued, []⟩ moves

/-! ## Who holds a permit -/

namespace Work

/-- Running permits the work owns. -/
def permits : Work T → Nat
  | .queued | .executing => 1
  | .ended _ => 0

end Work

namespace Call

/-- The derivation is executing. -/
def executing : Call T → Bool
  | .joining .executing | .detached .executing => true
  | _ => false

/-- The call waits for a running permit. -/
def waits : Call T → Bool
  | .enqueued | .waiting | .granted => true
  | _ => false

/-- No work is left: the call is over, or was not polled since its work was, and
what it spawned is over too. -/
def ended : Call T → Bool
  | .dropped | .joining (.ended _) | .detached (.ended _) | .returned _ => true
  | _ => false

/-- Running permits the call and its work own. -/
def running : Call T → Nat
  | .granted | .acquired | .admitted => 1
  | .joining work | .detached work => work.permits
  | _ => 0

/-- Queue permits the call owns. -/
def queue : Call T → Nat
  | .enqueued | .waiting | .granted | .acquired | .leaving => 1
  | _ => 0

theorem executing_running (c : Call T) (h : c.executing = true) : 1 ≤ c.running := by
  match c with
  | .joining .executing | .detached .executing => exact Nat.le_refl 1

theorem waits_queue (c : Call T) (h : c.waits = true) : 1 ≤ c.queue := by
  match c with
  | .enqueued | .waiting | .granted => exact Nat.le_refl 1

theorem ended_none {c : Call T} (h : c.ended = true) : c.running = 0 ∧ c.queue = 0 := by
  match c with
  | .dropped | .joining (.ended _) | .detached (.ended _) | .returned _ => exact ⟨rfl, rfl⟩

end Call

theorem workStep_permits {s s' : KdfLimiter} {work work' : Work T} {a : Act T} (h : workStep s work a = some (s', work')) :
    s'.running + work'.permits = s.running + work.permits ∧ s'.queue = s.queue := by
  unfold workStep at h
  split at h <;> cases h
  · exact ⟨rfl, rfl⟩
  · exact ⟨rfl, rfl⟩
  · exact ⟨rfl, rfl⟩
  · exact ⟨rfl, rfl⟩

/-- **One step moves permits**: what a semaphore has less, the call has more. -/
theorem callStep_permits {s s' : KdfLimiter} {c c' : Call T} {a : Act T} (h : callStep s c a = some (s', c')) :
    s'.running + c'.running = s.running + c.running ∧ s'.queue + c'.queue = s.queue + c.queue := by
  unfold callStep at h
  split at h
  case h_1 | h_3 =>
    split at h <;> cases h
    · exact ⟨Nat.sub_add_cancel ‹_›, rfl⟩
    · exact ⟨rfl, rfl⟩
  case h_2 =>
    split at h <;> cases h
    · exact ⟨rfl, Nat.sub_add_cancel ‹_›⟩
    · exact ⟨rfl, rfl⟩
  case h_4 =>
    split at h <;> cases h
    exact ⟨Nat.sub_add_cancel ‹_›, rfl⟩
  case h_14 work a _ | h_15 work a =>
    obtain ⟨⟨s₁, work'⟩, hw, heq⟩ := Option.map_eq_some_iff.mp h
    cases heq
    obtain ⟨h₁, h₂⟩ := workStep_permits hw
    exact ⟨h₁, by rw [h₂]; rfl⟩
  all_goals first | (cases h; exact ⟨rfl, rfl⟩) | cases h

/-! ## Every interleaving -/

/-- Permits are neither lost nor made. -/
def Conserved (inflight queued : Nat) (w : Parties.World KdfLimiter (Call T)) : Prop :=
  w.shared.running + Parties.held Call.running w.parties = inflight ∧
    w.shared.queue + Parties.held Call.queue w.parties = queued

theorem Conserved.enter {inflight queued : Nat} {w : Parties.World KdfLimiter (Call T)} (h : Conserved inflight queued w) :
    Conserved inflight queued { w with parties := w.parties ++ [.arrived] } := by
  unfold Conserved
  rw [Parties.held_concat, Parties.held_concat]
  exact h

theorem Conserved.act {inflight queued i : Nat} {w : Parties.World KdfLimiter (Call T)} {a : Act T} {c c' : Call T}
    {s' : KdfLimiter} (h : Conserved inflight queued w) (hc : w.parties[i]? = some c)
    (hstep : callStep w.shared c a = some (s', c')) : Conserved inflight queued ⟨s', w.parties.set i c'⟩ := by
  obtain ⟨hr, hq⟩ := h
  obtain ⟨hr', hq'⟩ := callStep_permits hstep
  have hheld := Parties.held_set Call.running hc c'
  have hheld' := Parties.held_set Call.queue hc c'
  constructor
  · show s'.running + Parties.held Call.running (w.parties.set i c') = inflight
    omega
  · show s'.queue + Parties.held Call.queue (w.parties.set i c') = queued
    omega

theorem system_step {s s' : KdfLimiter} {c c' : Call T} {a : Act T} {e : Unit}
    (h : (system T).step s c a = some (e, s', c')) : callStep s c a = some (s', c') := by
  obtain ⟨⟨s₁, c₁⟩, hstep, heq⟩ := Option.map_eq_some_iff.mp h
  cases heq
  exact hstep

theorem run_conserved (inflight queued : Nat) (moves : List (Move T)) :
    Conserved inflight queued (run inflight queued moves) := by
  refine Parties.System.run_invariant (Conserved inflight queued) ?_ ?_ moves ⟨rfl, rfl⟩
  · intro w b hw
    exact hw.enter
  · intro w i a c e s' c' hw hc hstep
    exact hw.act hc (system_step hstep)

/-- A closure's error is never taken for a full queue. -/
theorem WorkEnd.result_ne_full (e : WorkEnd T) : e.result ≠ .error .kdfQueueFull := by
  intro h
  match e with
  | .returned (.ok x) => cases h
  | .returned (.error err) => cases err <;> cases h
  | .panicked | .lost => cases h

theorem callStep_full {s s' : KdfLimiter} {c : Call T} {a : Act T}
    (h : callStep s c a = some (s', .returned (.error .kdfQueueFull))) : c = .noPermit ∧ a = .tryQueue ∧ s.queue = 0 := by
  unfold callStep at h
  split at h
  case h_2 =>
    by_cases hq : 0 < s.queue
    · rw [if_pos hq] at h; cases h
    · exact ⟨rfl, rfl, by omega⟩
  case h_8 e =>
    simp only [Option.some.injEq, Prod.mk.injEq, Call.returned.injEq] at h
    exact absurd h.2 e.result_ne_full
  case h_14 | h_15 =>
    obtain ⟨_, -, heq⟩ := Option.map_eq_some_iff.mp h
    cases heq
  all_goals first | cases h | (split at h <;> cases h)

theorem callStep_noPermit {s s' : KdfLimiter} {c : Call T} {a : Act T} (h : callStep s c a = some (s', .noPermit)) :
    c = .arrived ∧ a = .tryRunning ∧ s.running = 0 ∧ s' = s := by
  unfold callStep at h
  split at h
  case h_1 =>
    by_cases hr : 0 < s.running
    · rw [if_pos hr] at h; cases h
    · rw [if_neg hr] at h; cases h
      exact ⟨rfl, rfl, by omega, rfl⟩
  case h_14 | h_15 =>
    obtain ⟨_, -, heq⟩ := Option.map_eq_some_iff.mp h
    cases heq
  all_goals first | cases h | (split at h <;> cases h)

/-- The call found no running permit, and then no place in the queue. Each is
looked at in a step of its own; when nothing else steps in between, both were
so at once. -/
def FoundFull (inflight queued : Nat) (moves : List (Move T)) (i : Nat) : Prop :=
  ∃ moves₁ moves₂ moves₃, moves = moves₁ ++ .act i .tryRunning :: (moves₂ ++ .act i .tryQueue :: moves₃) ∧
    (run inflight queued moves₁).shared.running = 0 ∧
    (run inflight queued (moves₁ ++ .act i .tryRunning :: moves₂)).shared.queue = 0 ∧
    (moves₂ = [] → (run inflight queued moves₁).shared.queue = 0)

theorem foundFull {inflight queued i : Nat} {moves : List (Move T)}
    (h : (run inflight queued moves).parties[i]? = some (.returned (.error .kdfQueueFull))) :
    FoundFull inflight queued moves i := by
  -- the step that returned the error, and before it the one that found no permit
  obtain ⟨before, a, moves₃, c, e, s', c', rfl, hc, -, hstep, rfl⟩ :=
    Parties.System.party_became (· = .returned (.error .kdfQueueFull)) (fun _ h => by cases h) moves h rfl
  obtain ⟨rfl, rfl, hqueue⟩ := callStep_full (system_step hstep)
  obtain ⟨moves₁, a, moves₂, c, e, s', c', rfl, hc', -, hstep', rfl⟩ :=
    Parties.System.party_became (· = .noPermit) (fun _ h => by cases h) before hc rfl
  obtain ⟨rfl, rfl, hrunning, rfl⟩ := callStep_noPermit (system_step hstep')
  refine ⟨moves₁, moves₂, moves₃, by simp, hrunning, hqueue, ?_⟩
  rintro rfl
  have hafter : (run inflight queued (moves₁ ++ [.act i .tryRunning])).shared = (run inflight queued moves₁).shared := by
    unfold run
    rw [Parties.System.run_concat, Parties.System.move, Parties.System.act_of_step hc' hstep']
  exact hafter ▸ hqueue

/-- **Admission stays bounded under cancellation.** -/
theorem admission_bounded (inflight queued : Nat) (moves : List (Move T)) :
    (run inflight queued moves).parties.countP Call.executing ≤ inflight ∧
      (run inflight queued moves).parties.countP Call.waits ≤ queued ∧
      (∀ i, (run inflight queued moves).parties[i]? = some (.returned (.error .kdfQueueFull)) →
        FoundFull inflight queued moves i) ∧
      ((∀ c ∈ (run inflight queued moves).parties, c.ended = true) →
        (run inflight queued moves).shared = withLimits inflight queued) := by
  obtain ⟨hrunning, hqueue⟩ := run_conserved inflight queued moves
  refine ⟨?_, ?_, fun i => foundFull, ?_⟩
  · have := Parties.countP_le_held Call.running Call.executing_running (run inflight queued moves).parties
    omega
  · have := Parties.countP_le_held Call.queue Call.waits_queue (run inflight queued moves).parties
    omega
  · intro hover
    rw [Parties.held_eq_zero Call.running fun c hc => (Call.ended_none (hover c hc)).1] at hrunning
    rw [Parties.held_eq_zero Call.queue fun c hc => (Call.ended_none (hover c hc)).2] at hqueue
    show (⟨_, _⟩ : KdfLimiter) = ⟨_, _⟩
    rw [KdfLimiter.mk.injEq]
    exact ⟨hrunning, hqueue⟩

/-- With one permit each: the first call runs, the second waits, the third is
refused; then the first two are dropped and the first one's work ends. -/
def crowded : List (Move Nat) :=
  [.enter (), .act 0 .tryRunning, .act 0 .spawnBlocking, .act 0 .start,
    .enter (), .act 1 .tryRunning, .act 1 .tryQueue, .act 1 .pollAcquire,
    .enter (), .act 2 .tryRunning, .act 2 .tryQueue,
    .act 0 .cancel, .act 1 .cancel, .act 1 .dropWaiting, .act 0 (.finish (.returned (.ok 7)))]

theorem admission_bounded_crowded :
    FoundFull 1 1 crowded 2 ∧ (run 1 1 crowded).shared = withLimits 1 1 ∧
      (run 1 1 (crowded.take 12)).parties.countP Call.executing = 1 ∧
      (run 1 1 (crowded.take 12)).shared = withLimits 0 0 := by
  obtain ⟨-, -, hfull, hover⟩ := admission_bounded 1 1 crowded
  refine ⟨hfull 2 rfl, hover ?_, rfl, rfl⟩
  intro c hc
  rcases List.mem_cons.mp hc with rfl | hc
  · rfl
  rcases List.mem_cons.mp hc with rfl | hc
  · rfl
  rcases List.mem_cons.mp hc with rfl | hc
  · rfl
  · cases hc

end KdfLimiter

end Snell
