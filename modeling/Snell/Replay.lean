/-
The replay cache (`snell-runtime/src/replay.rs`).

`insert` reads the clock, takes the lock, expires, looks the salt up, evicts
and records. The reading is an argument: calls one after another make it
non-decreasing, sessions that race for the lock do not.
-/
import Snell.Record
import Snell.SessionError
import Snell.Runs
import Snell.ExpiringQueue
import Mathlib.Data.Finset.Basic

namespace Snell

open ExpiringQueue

def replayCacheCapacity : Nat := 4096
def replayCacheTtlSecs : Nat := 3600

namespace ReplayCache

/-- `Inner`: the live salts with the time they were recorded at, the oldest
first, and an index of them. Times are in nanoseconds. -/
structure Inner where
  seen : Finset Salt
  order : List (Salt × Nat)
  deriving DecidableEq

end ReplayCache

structure ReplayCache where
  inner : ReplayCache.Inner
  cap : Nat
  ttl : Nat
  deriving DecidableEq

namespace ReplayCache

def withLimits (cap ttl : Nat) : ReplayCache := ⟨⟨∅, []⟩, cap, ttl⟩

def new : ReplayCache := withLimits replayCacheCapacity (replayCacheTtlSecs * 10 ^ 9)

/-- The `while let` at the start of the locked section. `duration_since` is
zero for a time that is still to come. -/
def expireLoop (ttl now : Nat) (seen : Finset Salt) : List (Salt × Nat) → Inner
  | [] => ⟨seen, []⟩
  | (old, t) :: order =>
    if ttl ≤ now - t then expireLoop ttl now (seen.erase old) order else ⟨seen, (old, t) :: order⟩

def expired (c : ReplayCache) (now : Nat) : Inner := expireLoop c.ttl now c.inner.seen c.inner.order

/-- Make room for one more: drop the oldest if there are `cap`. -/
def Inner.popFull (s : Inner) (cap : Nat) : Inner :=
  if s.order.length = cap then
    match s.order with
    | [] => s
    | (oldest, _) :: order => ⟨s.seen.erase oldest, order⟩
  else s

/-- The locked section of `insert`, with the reading `now`. -/
def insertLocked (c : ReplayCache) (now : Nat) (salt : Salt) : Except SessionError Unit × ReplayCache :=
  let left := c.expired now
  if salt ∈ left.seen then (.error .replayDuplicate, { c with inner := left })
  else
    let room := Inner.popFull ⟨insert salt left.seen, left.order⟩ c.cap
    (.ok (), { c with inner := ⟨room.seen, room.order ++ [(salt, now)]⟩ })

/-- `insert`, reading `now`. -/
def insert (c : ReplayCache) (now : Nat) (salt : Salt) : Except SessionError Unit × ReplayCache :=
  if c.cap = 0 then (.ok (), c) else c.insertLocked now salt

/-! ## The index -/

/-- `seen` indexes `order`, which holds every salt once. -/
structure Inner.Indexed (s : Inner) : Prop where
  seen_eq : s.seen = (s.order.map Prod.fst).toFinset
  nodup : (s.order.map Prod.fst).Nodup

theorem Inner.Indexed.mem_iff {s : Inner} (h : s.Indexed) (salt : Salt) :
    salt ∈ s.seen ↔ salt ∈ s.order.map Prod.fst := by
  rw [h.seen_eq, List.mem_toFinset]

/-- Erasing the front of the queue from the index. -/
theorem Inner.Indexed.pop {seen : Finset Salt} {old : Salt} {t : Nat} {order : List (Salt × Nat)}
    (h : Indexed ⟨seen, (old, t) :: order⟩) : Indexed ⟨seen.erase old, order⟩ := by
  obtain ⟨hseen, hnodup⟩ := h
  obtain ⟨hold, hrest⟩ := List.nodup_cons.mp hnodup
  refine ⟨?_, hrest⟩
  simp only at hseen
  rw [hseen, List.map_cons, List.toFinset_cons, Finset.erase_insert (by rwa [List.mem_toFinset])]

theorem expireLoop_order (ttl now : Nat) (seen : Finset Salt) (order : List (Salt × Nat)) :
    (expireLoop ttl now seen order).order = expire ttl now order := by
  induction order generalizing seen with
  | nil => rfl
  | cons x order ih =>
    obtain ⟨old, t⟩ := x
    by_cases h : ttl ≤ now - t
    · rw [expireLoop, if_pos h, ih, expire, expire, List.dropWhile_cons_of_pos (expired_iff.mpr h)]
    · rw [expireLoop, if_neg h, expire, List.dropWhile_cons_of_neg (mt expired_iff.mp h)]

theorem expireLoop_indexed (ttl now : Nat) {seen : Finset Salt} {order : List (Salt × Nat)}
    (h : Inner.Indexed ⟨seen, order⟩) : (expireLoop ttl now seen order).Indexed := by
  induction order generalizing seen with
  | nil => exact h
  | cons x order ih =>
    obtain ⟨old, t⟩ := x
    rw [expireLoop]
    split
    · exact ih h.pop
    · exact h

theorem popFull_order (s : Inner) (cap : Nat) : (s.popFull cap).order = evict cap s.order := by
  obtain ⟨seen, order⟩ := s
  unfold Inner.popFull evict
  split
  · cases order <;> rfl
  · rfl

variable {c : ReplayCache}

theorem expired_order (now : Nat) : (c.expired now).order = expire c.ttl now c.inner.order := expireLoop_order ..

theorem expired_indexed (now : Nat) (h : c.inner.Indexed) : (c.expired now).Indexed := expireLoop_indexed _ _ h

/-- Recording a salt that is not there, once there is room. -/
theorem Inner.Indexed.record {s : Inner} {salt : Salt} (h : s.Indexed) (hnew : salt ∉ s.order.map Prod.fst)
    (cap now : Nat) :
    Indexed ⟨(Inner.popFull ⟨Insert.insert salt s.seen, s.order⟩ cap).seen,
      (Inner.popFull ⟨Insert.insert salt s.seen, s.order⟩ cap).order ++ [(salt, now)]⟩ := by
  obtain ⟨seen, order⟩ := s
  have hpush : ∀ {seen : Finset Salt} {order : List (Salt × Nat)}, Indexed ⟨seen, order⟩ → salt ∉ order.map Prod.fst →
      Indexed ⟨Insert.insert salt seen, order ++ [(salt, now)]⟩ := by
    rintro seen order ⟨hseen, hnodup⟩ hnew
    refine ⟨?_, ?_⟩
    · simp only at hseen
      ext x
      simp only [hseen, List.map_append, List.map_cons, List.map_nil, Finset.mem_insert, List.mem_toFinset,
        List.mem_append, List.mem_singleton, or_comm]
    · simp only [List.map_append, List.map_cons, List.map_nil]
      exact hnodup.append (List.nodup_singleton _) (List.disjoint_singleton.mpr hnew)
  unfold Inner.popFull
  split
  · cases order with
    | nil => exact hpush h hnew
    | cons x order =>
      obtain ⟨old, t⟩ := x
      simp only [List.map_cons, List.mem_cons, not_or] at hnew
      -- the oldest is another salt, so it may be erased before or after
      simp only [Finset.erase_insert_of_ne hnew.1]
      exact hpush h.pop hnew.2
  · exact hpush h hnew

/-- A locked section, by whether the salt is still there when the expired ones
are gone. -/
theorem insertLocked_cases (h : c.inner.Indexed) (now : Nat) (salt : Salt) :
    (salt ∈ (expire c.ttl now c.inner.order).map Prod.fst ∧
      c.insertLocked now salt = (.error .replayDuplicate, { c with inner := c.expired now })) ∨
    (salt ∉ (expire c.ttl now c.inner.order).map Prod.fst ∧ ∃ inner, inner.Indexed ∧
      inner.order = evict c.cap (expire c.ttl now c.inner.order) ++ [(salt, now)] ∧
      c.insertLocked now salt = (.ok (), { c with inner })) := by
  have hleft := expired_indexed now h
  have hmem := hleft.mem_iff salt
  rw [expired_order] at hmem
  unfold insertLocked
  by_cases hin : salt ∈ (c.expired now).seen
  · exact .inl ⟨hmem.mp hin, if_pos hin⟩
  · have hnew := mt hmem.mpr hin
    rw [← expired_order] at hnew
    refine .inr ⟨mt hmem.mpr hin, _, hleft.record hnew c.cap now, ?_, if_neg hin⟩
    rw [popFull_order, expired_order]

theorem insertLocked_indexed (h : c.inner.Indexed) (now : Nat) (salt : Salt) :
    (c.insertLocked now salt).2.inner.Indexed := by
  rcases insertLocked_cases h now salt with ⟨_, heq⟩ | ⟨_, inner, hinner, _, heq⟩
  · rw [heq]; exact expired_indexed now h
  · rw [heq]; exact hinner

/-! ## Calls one after another -/

/-- Calls with the readings they make. -/
def machine : Runs.Machine ReplayCache (Nat × Salt) (Except SessionError Unit) where
  step c call := c.insert call.1 call.2
  returns _ := true

/-- The salts recorded along a run, with their times. -/
def accepted (trace : List ((Nat × Salt) × Except SessionError Unit)) : List (Salt × Nat) :=
  trace.filterMap fun x => match x.2 with
    | .ok () => some (x.1.2, x.1.1)
    | .error _ => none

theorem accepted_cons (call : Nat × Salt) (r : Except SessionError Unit) (trace) :
    accepted ((call, r) :: trace) = (match r with | .ok () => [(call.2, call.1)] | .error _ => []) ++ accepted trace := by
  cases r <;> rfl

/-- The queue is what is left of all that was recorded. -/
structure Tracks (c : ReplayCache) (cap ttl last : Nat) (history : List (Salt × Nat)) : Prop where
  cap_eq : c.cap = cap
  ttl_eq : c.ttl = ttl
  indexed : c.inner.Indexed
  window : Window cap ttl last history c.inner.order

variable {cap ttl last : Nat} {history : List (Salt × Nat)}

theorem withLimits_tracks (cap ttl : Nat) : Tracks (withLimits cap ttl) cap ttl 0 [] :=
  ⟨rfl, rfl, ⟨rfl, List.nodup_nil⟩, .nil _ _ _⟩

/-- One call: what it answers, and what it leaves. -/
theorem Tracks.insert (h : Tracks c cap ttl last history) {now : Nat} (hle : last ≤ now) (salt : Salt) :
    (Holds cap ttl now history salt ∧ (c.insert now salt).1 = .error .replayDuplicate ∧
        (c.insert now salt).2.inner.order = c.inner.order.filter (fun x => now - x.2 < ttl) ∧
        Tracks (c.insert now salt).2 cap ttl now history) ∨
      (¬ Holds cap ttl now history salt ∧ (c.insert now salt).1 = .ok () ∧
        Tracks (c.insert now salt).2 cap ttl now (history ++ [(salt, now)])) := by
  obtain ⟨rfl, rfl, hindexed, hwindow⟩ := h
  have hexpired := hwindow.expire hle
  have hmem := hexpired.mem_iff (hwindow.queue_ordered.expire_fresh c.ttl now) salt
  unfold ReplayCache.insert
  split
  · next hcap =>
    -- without capacity every call is accepted and nothing is recorded
    have hnil : c.inner.order = [] := List.eq_nil_of_length_eq_zero (by have := hwindow.length_le; omega)
    refine .inr ⟨?_, rfl, rfl, rfl, hindexed, ⟨_, (List.append_nil _).symm.trans (by rw [hnil]), .inr (by omega)⟩,
      hindexed.nodup, ?_, ?_, hwindow.length_le⟩
    · rintro ⟨_, _, _, _, _, _, hlt⟩; omega
    · refine List.pairwise_append.mpr ⟨hwindow.ordered, List.pairwise_singleton _ _, fun y hy z hz => ?_⟩
      rw [List.eq_of_mem_singleton hz]
      exact Nat.le_trans (hwindow.past y hy) hle
    · intro y hy
      rcases List.mem_append.mp hy with hy | hy
      · exact Nat.le_trans (hwindow.past y hy) hle
      · rw [List.eq_of_mem_singleton hy]
  · next hcap =>
    rcases insertLocked_cases hindexed now salt with ⟨hin, heq⟩ | ⟨hout, inner, hinner, horder, heq⟩
    · rw [heq]
      refine .inl ⟨hmem.mp hin, rfl, ?_, rfl, rfl, expired_indexed now hindexed, ?_⟩
      · simp only [expired_order, hwindow.queue_ordered.expire_eq_filter]
        refine List.filter_congr fun x _ => ?_
        simp only [ExpiringQueue.expired, ← decide_not, Nat.not_le]
      · simp only [expired_order]; exact hexpired
    · rw [heq]
      refine .inr ⟨mt hmem.mpr hout, rfl, rfl, rfl, hinner, ?_⟩
      simp only [horder]
      exact hexpired.push (Nat.pos_of_ne_zero hcap) hout

/-- A run with non-decreasing readings. -/
theorem Tracks.run (h : Tracks c cap ttl last history) (calls : List (Nat × Salt)) (now : Nat) (hnow : last ≤ now)
    (hcalls : ∀ x ∈ calls, last ≤ x.1 ∧ x.1 ≤ now) (hordered : (calls.map Prod.fst).Pairwise (· ≤ ·)) :
    ∃ last' ≤ now, Tracks (machine.run c calls).2 cap ttl last' (history ++ accepted (machine.run c calls).1) := by
  induction calls generalizing c last history with
  | nil => exact ⟨last, hnow, by rw [show accepted (machine.run c []).1 = [] from rfl, List.append_nil]; exact h⟩
  | cons call calls ih =>
    obtain ⟨hfirst, hrest⟩ := List.pairwise_cons.mp hordered
    obtain ⟨hle, hle'⟩ := hcalls call List.mem_cons_self
    have hcalls' : ∀ x ∈ calls, call.1 ≤ x.1 ∧ x.1 ≤ now := fun x hx =>
      ⟨hfirst x.1 (List.mem_map_of_mem hx), (hcalls x (List.mem_cons_of_mem _ hx)).2⟩
    rw [Runs.Machine.run_cons (M := machine) rfl]
    simp only [accepted_cons, machine]
    rcases h.insert hle call.2 with ⟨_, hr, _, hnext⟩ | ⟨_, hr, hnext⟩
    · rw [hr]; exact ih hnext hle' hcalls' hrest
    · obtain ⟨last', hlast, htracks⟩ := ih hnext hle' hcalls' hrest
      rw [hr]
      exact ⟨last', hlast, by rw [← List.append_assoc]; exact htracks⟩

/-- **The decision rule.** After calls with non-decreasing readings, the next
one finds a duplicate exactly when the salt was last recorded less than `ttl`
before and fewer than `cap` were since. The queue holds every salt once, by
time, within `cap`, with `seen` its index; a refused call takes only expired
entries from it. -/
theorem insert_decision_rule (cap ttl : Nat) (calls : List (Nat × Salt)) (now : Nat) (salt : Salt)
    (h : ((calls ++ [(now, salt)]).map Prod.fst).Pairwise (· ≤ ·)) :
    let r := machine.run (withLimits cap ttl) calls
    let s := r.2.inner
    let next := r.2.insert now salt
    (next.1 = .error .replayDuplicate ↔ Holds cap ttl now (accepted r.1) salt) ∧
      (¬ Holds cap ttl now (accepted r.1) salt → next.1 = .ok ()) ∧
      (s.seen = (s.order.map Prod.fst).toFinset ∧ (s.order.map Prod.fst).Nodup ∧ Ordered s.order ∧ s.order.length ≤ cap) ∧
      (next.1 = .error .replayDuplicate → next.2.inner.order = s.order.filter fun x => now - x.2 < ttl) := by
  intro r s next
  rw [List.map_append, List.map_cons, List.map_nil] at h
  obtain ⟨hordered, _, hnow⟩ := List.pairwise_append.mp h
  obtain ⟨last, hlast, htracks⟩ := (withLimits_tracks cap ttl).run calls now (Nat.zero_le _)
    (fun x hx => ⟨Nat.zero_le _, hnow x.1 (List.mem_map_of_mem hx) now List.mem_cons_self⟩) hordered
  rw [List.nil_append] at htracks
  refine ⟨?_, ?_, ⟨htracks.indexed.seen_eq, htracks.indexed.nodup, htracks.window.queue_ordered,
    htracks.window.length_le⟩, ?_⟩
  all_goals rcases htracks.insert hlast salt with ⟨hholds, hr, horder, _⟩ | ⟨hholds, hr, _⟩
  · exact ⟨fun _ => hholds, fun _ => hr⟩
  · exact ⟨fun h => (nomatch hr.symm.trans h), fun h => absurd h hholds⟩
  · exact fun h => absurd hholds h
  · exact fun _ => hr
  · exact fun _ => horder
  · exact fun h => nomatch hr.symm.trans h

theorem insert_decision_rule_recent :
    let a : Salt := .replicate saltLen 1
    let b : Salt := .replicate saltLen 2
    ((machine.run (withLimits 2 10) [(0, a), (3, b)]).2.insert 9 a).1 = .error .replayDuplicate := by
  intro a b
  have hsince : a ∉ [(b, 3)].map Prod.fst := by decide
  exact (insert_decision_rule 2 10 [(0, a), (3, b)] 9 a (by decide)).1.mpr
    ⟨[], 0, [(b, 3)], rfl, hsince, by decide, by decide⟩

end ReplayCache

/-! ## Sessions racing for the lock -/

/-- Sessions that have read the clock and wait for the lock, with their salts
and readings. -/
structure ReplaySystem where
  clock : Nat
  waiting : List (Salt × Nat)
  cache : ReplayCache

/-- Time passes, a session begins an `insert` and reads the clock, or one that
waits gets the lock. -/
inductive ReplayStep where
  | tick (n : Nat)
  | read (salt : Salt)
  | lock (i : Nat)
  deriving DecidableEq

/-- What a step did. `locked` is a locked section run with the reading `now`:
what the expiry loop left, and what the call returned. -/
inductive ReplayEvent where
  | ticked
  | reading (now : Nat)
  | returned
  | locked (now : Nat) (left : ReplayCache.Inner) (result : Except SessionError Unit)
  | idle
  deriving DecidableEq

namespace ReplaySystem

def new (cap ttl : Nat) : ReplaySystem := ⟨0, [], .withLimits cap ttl⟩

def step (s : ReplaySystem) : ReplayStep → ReplayEvent × ReplaySystem
  | .tick n => (.ticked, { s with clock := s.clock + n })
  | .read salt =>
    if s.cache.cap = 0 then (.returned, s)
    else (.reading s.clock, { s with waiting := s.waiting ++ [(salt, s.clock)] })
  | .lock i =>
    match s.waiting[i]? with
    | none => (.idle, s)
    | some (salt, now) =>
      let r := s.cache.insertLocked now salt
      (.locked now (s.cache.expired now) r.1, { s with waiting := s.waiting.eraseIdx i, cache := r.2 })

def machine : Runs.Machine ReplaySystem ReplayStep ReplayEvent where
  step := step
  returns _ := true

end ReplaySystem

namespace ReplayEvent

/-- Every salt still indexed after the expiry loop was recorded less than
`ttl` before the reading. -/
def Fresh (ttl : Nat) : ReplayEvent → Prop
  | .locked now left _ => ∀ salt ∈ left.seen, ∃ t, (salt, t) ∈ left.order ∧ now - t < ttl
  | _ => True

/-- The reading an insert was recorded with. -/
def recorded : ReplayEvent → Option Nat
  | .locked now _ (.ok ()) => some now
  | _ => none

end ReplayEvent

namespace ReplaySystem

/-- An insert is recorded with a reading no earlier than the last recorded. -/
def InOrder (last : Nat) (_ : ReplayStep) (event : ReplayEvent) : Prop := ∀ now ∈ event.recorded, last ≤ now

instance (last : Nat) (op : ReplayStep) (event : ReplayEvent) : Decidable (InOrder last op event) :=
  inferInstanceAs (Decidable (∀ now ∈ event.recorded, last ≤ now))

/-- The reading recorded last. -/
def latest (last : Nat) (_ : ReplayStep) (event : ReplayEvent) : Nat := event.recorded.getD last

/-- The queue is in order, and behind what was recorded last. -/
structure Inv (ttl last : Nat) (s : ReplaySystem) : Prop where
  ttl_eq : s.cache.ttl = ttl
  indexed : s.cache.inner.Indexed
  ordered : Ordered s.cache.inner.order
  past : ∀ x ∈ s.cache.inner.order, x.2 ≤ last

variable {ttl last : Nat} {s : ReplaySystem}

theorem Inv.fresh (h : Inv ttl last s) (now : Nat) (result : Except SessionError Unit) :
    (ReplayEvent.locked now (s.cache.expired now) result).Fresh ttl := by
  obtain ⟨rfl, hindexed, hordered, _⟩ := h
  intro salt hsalt
  rw [(ReplayCache.expired_indexed now hindexed).mem_iff, ReplayCache.expired_order] at hsalt
  obtain ⟨⟨_, t⟩, hmem, rfl⟩ := List.mem_map.mp hsalt
  exact ⟨t, by rw [ReplayCache.expired_order]; exact hmem, hordered.expire_fresh _ now _ hmem⟩

/-- A step keeps the queue in order if what it records is. -/
theorem Inv.step (h : Inv ttl last s) (op : ReplayStep) (hok : InOrder last op (s.step op).1) :
    (s.step op).1.Fresh ttl ∧ Inv ttl (latest last op (s.step op).1) (s.step op).2 := by
  cases op with
  | tick n => exact ⟨trivial, h.ttl_eq, h.indexed, h.ordered, h.past⟩
  | read salt =>
    simp only [ReplaySystem.step]
    split
    · exact ⟨trivial, h⟩
    · exact ⟨trivial, h.ttl_eq, h.indexed, h.ordered, h.past⟩
  | lock i =>
    simp only [ReplaySystem.step] at hok ⊢
    split at hok
    · exact ⟨trivial, h⟩
    · next salt now _ =>
      have hfresh := h.fresh now
      obtain ⟨rfl, hindexed, hordered, hpast⟩ := h
      have hexpire := expire_suffix s.cache.ttl now s.cache.inner.order
      rcases ReplayCache.insertLocked_cases hindexed now salt with ⟨_, heq⟩ | ⟨_, inner, hinner, horder, heq⟩
      · simp only [heq]
        refine ⟨hfresh _, rfl, ReplayCache.expired_indexed now hindexed, ?_, ?_⟩
        · simp only [ReplayCache.expired_order]
          exact hordered.sublist hexpire.sublist
        · simp only [ReplayCache.expired_order]
          exact fun x hx => hpast x (hexpire.subset hx)
      · simp only [heq] at hok ⊢
        have hle : last ≤ now := hok now rfl
        have hsuffix := (evict_suffix s.cache.cap _).trans hexpire
        refine ⟨hfresh _, rfl, hinner, ?_, ?_⟩
        · simp only [horder]
          refine List.pairwise_append.mpr ⟨hordered.sublist hsuffix.sublist, List.pairwise_singleton _ _,
            fun x hx y hy => ?_⟩
          rw [List.eq_of_mem_singleton hy]
          exact Nat.le_trans (hpast x (hsuffix.subset hx)) hle
        · simp only [horder, latest, ReplayEvent.recorded, Option.getD_some]
          intro x hx
          rcases List.mem_append.mp hx with hx | hx
          · exact Nat.le_trans (hpast x (hsuffix.subset hx)) hle
          · rw [List.eq_of_mem_singleton hx]

/-- Whatever order sessions lock in, the index and the queue agree. -/
theorem run_indexed (cap ttl : Nat) (steps : List ReplayStep) :
    (machine.run (new cap ttl) steps).2.cache.inner.Indexed ∧ (machine.run (new cap ttl) steps).2.cache.ttl = ttl := by
  refine machine.run_invariant (fun s => s.cache.inner.Indexed ∧ s.cache.ttl = ttl) ?_ steps
    ⟨⟨rfl, List.nodup_nil⟩, rfl⟩
  rintro s op ⟨hindexed, httl⟩ -
  cases op with
  | tick n => exact ⟨hindexed, httl⟩
  | read salt =>
    simp only [machine, ReplaySystem.step]
    split <;> exact ⟨hindexed, httl⟩
  | lock i =>
    simp only [machine, ReplaySystem.step]
    split
    · exact ⟨hindexed, httl⟩
    · next salt now _ =>
      refine ⟨ReplayCache.insertLocked_indexed hindexed now salt, ?_⟩
      rcases ReplayCache.insertLocked_cases hindexed now salt with ⟨_, heq⟩ | ⟨_, _, _, _, heq⟩ <;> simp only [heq, httl]

/-- The expiry loop leaves only fresh salts at every reading exactly while the
queue is in order. -/
theorem always_fresh_iff_ordered {cap ttl : Nat} (hpos : 0 < ttl) (steps : List ReplayStep) (result) :
    let c := (machine.run (new cap ttl) steps).2.cache
    (∀ now, (ReplayEvent.locked now (c.expired now) result).Fresh ttl) ↔ Ordered c.inner.order := by
  intro c
  obtain ⟨hindexed, httl⟩ := run_indexed cap ttl steps
  rw [← expire_fresh_iff hpos]
  refine forall_congr' fun now => ?_
  have hleft := ReplayCache.expired_indexed now hindexed
  have horder : (c.expired now).order = expire ttl now c.inner.order := by rw [ReplayCache.expired_order, httl]
  constructor
  · intro h x hx
    rw [← horder] at hx
    obtain ⟨t, hmem, ht⟩ := h x.1 ((hleft.mem_iff _).mpr (List.mem_map_of_mem hx))
    have heq := List.inj_on_of_nodup_map hleft.nodup hx hmem rfl
    rw [heq]; exact ht
  · intro h salt hsalt
    obtain ⟨⟨_, t⟩, hmem, rfl⟩ := List.mem_map.mp ((hleft.mem_iff _).mp hsalt)
    exact ⟨t, hmem, h _ (by rw [← horder]; exact hmem)⟩

theorem new_inv (cap ttl : Nat) : Inv ttl 0 (new cap ttl) :=
  ⟨rfl, ⟨rfl, List.nodup_nil⟩, List.Pairwise.nil, nofun⟩

/-- **Expiry under concurrency.** If inserts are recorded in the order of their
readings, then along every interleaving each locked section's expiry loop
leaves only salts recorded less than `ttl` before its reading. -/
theorem expiry_leaves_fresh (cap ttl : Nat) (steps : List ReplayStep)
    (h : Runs.Machine.Meets InOrder latest 0 (machine.run (new cap ttl) steps).1) :
    ∀ x ∈ (machine.run (new cap ttl) steps).1, x.2.Fresh ttl :=
  machine.run_meets (fun _ event => event.Fresh ttl) (fun _ _ op hinv hok => hinv.step op hok) steps
    (new_inv cap ttl) h

/-- Three sessions that lock in the order in which they read. -/
theorem expiry_leaves_fresh_in_order :
    let a : Salt := .replicate saltLen 1
    let b : Salt := .replicate saltLen 2
    let steps : List ReplayStep := [.tick 5, .read a, .tick 5, .read b, .lock 0, .lock 0, .tick 2, .read a, .lock 0]
    ∀ x ∈ (machine.run (new 8 6) steps).1, x.2.Fresh 6 := by
  intro a b steps
  exact expiry_leaves_fresh 8 6 steps (by decide +kernel)

/-- Two sessions read 5 and 10 and lock the other way round. At 12, with a time
to live of 6, the first one's salt is still indexed and refused. -/
theorem expiry_leaves_stale :
    let a : Salt := .replicate saltLen 1
    let b : Salt := .replicate saltLen 2
    let steps : List ReplayStep := [.tick 5, .read a, .tick 5, .read b, .lock 1, .lock 0, .tick 2, .read a, .lock 0]
    ∃ x ∈ (machine.run (new 8 6) steps).1,
      x.2 = .locked 12 ⟨{a, b}, [(b, 10), (a, 5)]⟩ (.error .replayDuplicate) ∧ ¬ x.2.Fresh 6 := by
  intro a b steps
  have hab : a ≠ b := by decide
  refine ⟨(.lock 0, .locked 12 ⟨{a, b}, [(b, 10), (a, 5)]⟩ (.error .replayDuplicate)), by decide +kernel, rfl, fun h => ?_⟩
  obtain ⟨t, hmem, ht⟩ := h a (Finset.mem_insert_self _ _)
  rcases List.mem_cons.mp hmem with heq | hmem
  · exact hab (congrArg Prod.fst heq)
  · cases List.mem_singleton.mp hmem
    omega

end ReplaySystem

end Snell
