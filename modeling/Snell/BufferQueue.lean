/-
`Buffer` is a bounded byte queue.

A run is any sequence of the buffer's public operations and of reservations
made in it by one encoder. Whatever is compacted, replaced or truncated on
the way, the live bytes are those of a queue (`QueueStep`) that is appended to
at the back and dropped from at the front, and every result is the one the
queue decides.
-/
import Snell.Runs
import Snell.V4Encode
import Snell.UnshapedEncode
import Snell.ShapedEncode

namespace Snell

open RecordEncoder

/-! ## Runs -/

/-- One call on a buffer, or one reservation in it. -/
inductive BufferOp where
  | extendFromSlice (bytes : Bytes)
  | reserveZeroed (n : Nat)
  /-- `spare_capacity_mut(min)`, `data` written into the slice as far as it
  goes, and `commit` of what was written. -/
  | fill (min : Nat) (data : Bytes)
  | consume (n : Nat)
  | replaceStorage (block : Bytes)
  | takeEmptyStorage
  | record (a : Attempt)
  deriving DecidableEq

/-- What a call returned. `storage` is what the `Vec` returned holds. -/
inductive BufferEvent where
  | done
  | wrote (n : Nat)
  | refused (e : Error)
  | storage (bytes : Option Bytes)
  | attempted (r : Attempted)
  | stopped (f : Fault)

def BufferEvent.returns : BufferEvent → Bool
  | .attempted r => r.returns
  | .stopped _ => false
  | _ => true

namespace Buffer

/-- A call's result as an event, and the buffer it leaves. -/
def event {α : Type} (ok : BufferEvent) : Res α × Buffer → BufferEvent × Buffer
  | (.ok _, b) => (ok, b)
  | (.error (.err e), b) => (.refused e, b)
  | (.error f, b) => (.stopped f, b)

/-- `spare_capacity_mut`, a write into its slice, and `commit`. -/
def fill (b : Buffer) (min : Nat) (data : Bytes) : BufferEvent × Buffer :=
  match b.spareCapacityMut min with
  | (.ok (), b) =>
    let written := data.take b.writable
    event (.wrote written.length) ((b.writeSpare written).commit written.length)
  | (.error f, b) => event .done ((.error f : Res Unit), b)

end Buffer

section Run

variable {E : Type} [RecordEncoder E]

def BufferOp.run (op : BufferOp) (e : E) (b : Buffer) : BufferEvent × E × Buffer :=
  let keep (r : BufferEvent × Buffer) : BufferEvent × E × Buffer := (r.1, e, r.2)
  match op with
  | .extendFromSlice bytes => keep (Buffer.event .done (b.extendFromSlice bytes))
  | .reserveZeroed n => keep (Buffer.event .done (b.reserveZeroed n))
  | .fill min data => keep (b.fill min data)
  | .consume n => keep (Buffer.event .done (b.consume n))
  | .replaceStorage block => keep (Buffer.event .done (b.replaceStorage block))
  | .takeEmptyStorage =>
    match b.takeEmptyStorage with
    | some ((bytes, _), b) => (.storage (some bytes), e, b)
    | none => (.storage none, e, b)
  | .record a =>
    let r := a.run e b
    (.attempted r.1, r.2)

/-- An encoder and its output buffer. -/
def bufferMachine (E : Type) [RecordEncoder E] : Runs.Machine (E × Buffer) BufferOp BufferEvent where
  step s op := op.run s.1 s.2
  returns := BufferEvent.returns

/-- What was called and returned, in order, and the state after. A call that
does not return ends the run. -/
def bufferRun (e : E) (b : Buffer) (ops : List BufferOp) : List (BufferOp × BufferEvent) × E × Buffer :=
  (bufferMachine E).run (e, b) ops

end Run

/-! ## The queue -/

/-- How many bytes an append asks for. -/
def BufferOp.asks : BufferOp → Option Nat
  | .extendFromSlice bytes => some bytes.length
  | .reserveZeroed n => some n
  | .fill min _ => some min
  | _ => none

/-- What an append adds, and returns. More than was asked for may be written
where there is room. -/
def BufferOp.Appends (op : BufferOp) (xs : Bytes) (event : BufferEvent) : Prop :=
  match op with
  | .extendFromSlice bytes => xs = bytes ∧ event = .done
  | .reserveZeroed n => xs = List.replicate n 0 ∧ event = .done
  | .fill min data => (∃ room, min ≤ room ∧ xs = data.take room) ∧ event = .wrote xs.length
  | _ => False

/-- One step of the queue. -/
inductive QueueStep (q : BoundedQueue UInt8) : BufferOp → BufferEvent → BoundedQueue UInt8 → Prop
  | appended {op n xs event} : op.asks = some n → q.refusal n = none → op.Appends xs event →
      (h : q.refusal xs.length = none) → QueueStep q op event (q.append xs h)
  | refused {op n r} : op.asks = some n → q.refusal n = some r →
      QueueStep q op (.refused (Buffer.refusalError q n r)) q
  | consumed {n} : n ≤ q.length → QueueStep q (.consume n) .done (q.drop n)
  | unconsumed {n} : q.length < n → QueueStep q (.consume n) (.refused (.bufferTooSmall n q.length)) q
  | replaced {block} : (h : q.length ≤ block.length) →
      QueueStep q (.replaceStorage block) .done (q.withCapacity block.length h)
  | unreplaced {block} : block.length < q.length →
      QueueStep q (.replaceStorage block) (.refused (.bufferTooSmall q.length block.length)) q
  | taken : (h : q.items = []) → QueueStep q .takeEmptyStorage (.storage (some [])) (.empty 0 q.limit)
  | kept : q.items ≠ [] → QueueStep q .takeEmptyStorage (.storage none) q
  | attempted {a r} : r.returns = true → (h : q.refusal r.left.length = none) →
      QueueStep q (.record a) (.attempted r) (q.append r.left h)

theorem QueueStep.returns {q q' : BoundedQueue UInt8} {op : BufferOp} {event : BufferEvent}
    (h : QueueStep q op event q') : event.returns = true := by
  cases h with
  | appended _ _ ha _ =>
    unfold BufferOp.Appends at ha
    split at ha
    · rw [ha.2]; rfl
    · rw [ha.2]; rfl
    · rw [ha.2]; rfl
    · exact ha.elim
  | attempted hr _ => exact hr
  | _ => rfl

def QueueRun : BoundedQueue UInt8 → List (BufferOp × BufferEvent) → BoundedQueue UInt8 → Prop :=
  Runs.Machine.AbstractRun QueueStep

/-! ## The buffer's calls are the queue's steps -/

/-- What every run keeps: the buffer is well formed, and with nothing live it
starts at the front of its allocation. -/
structure Buffer.Sound (b : Buffer) : Prop where
  wf : b.Wf
  start_empty : b.filled = [] → b.start = 0

theorem Buffer.Sound.kept {b b' : Buffer} {xs : Bytes} (h : b.Sound) (hk : Buffer.Kept b b')
    (hf : b'.filled = b.filled ++ xs) : b'.Sound := by
  refine ⟨hk.wf, fun he => ?_⟩
  rw [hf] at he
  rcases hk.start with hs | hs
  · rw [hs]; exact h.start_empty (List.append_eq_nil_iff.mp he).1
  · exact hs

def Refines (b : Buffer) (hb : b.Sound) (op : BufferOp) (event : BufferEvent) (b' : Buffer) : Prop :=
  ∃ hb' : b'.Sound, QueueStep (b.queue hb.wf) op event (b'.queue hb'.wf)

section Refines

variable {b : Buffer} {op : BufferOp} {n : Nat}

theorem Refines.appended {b' : Buffer} {xs : Bytes} {event : BufferEvent} (hb : b.Sound) (hn : op.asks = some n)
    (hr : (b.queue hb.wf).refusal n = none) (ha : op.Appends xs event) (hk : Buffer.Kept b b')
    (hf : b'.filled = b.filled ++ xs) : Refines b hb op event b' := by
  obtain ⟨hx, hq⟩ := hk.queue_append hb.wf hf
  refine ⟨hb.kept hk hf, ?_⟩
  rw [hq]
  exact .appended hn hr ha hx

theorem Refines.refused {r : BoundedQueue.Refusal} (hb : b.Sound) (hn : op.asks = some n)
    (hr : (b.queue hb.wf).refusal n = some r) :
    Refines b hb op (.refused (Buffer.refusalError (b.queue hb.wf) n r)) b := ⟨hb, .refused hn hr⟩

end Refines

namespace Buffer

variable {b : Buffer}

theorem extendFromSlice_refines (hb : b.Sound) (bytes : Bytes) :
    Refines b hb (.extendFromSlice bytes) (event .done (b.extendFromSlice bytes)).1
      (event .done (b.extendFromSlice bytes)).2 := by
  cases hr : (b.queue hb.wf).refusal bytes.length with
  | some r =>
    rw [extendFromSlice_refused hb.wf hr]
    exact .refused hb rfl hr
  | none =>
    obtain ⟨b', he, hf, hk⟩ := extendFromSlice_made _ hb.wf hr
    rw [he]
    exact .appended hb rfl hr ⟨rfl, rfl⟩ hk hf

theorem reserveZeroed_made {n : Nat} (hw : b.Wf) (h : (b.queue hw).refusal n = none) :
    ∃ i b', b.reserveZeroed n = (.ok i, b') ∧ b'.filled = b.filled ++ List.replicate n 0 ∧ Kept b b' := by
  by_cases h0 : n = 0
  · subst h0; exact ⟨_, b, if_pos rfl, (List.append_nil _).symm, .refl hw⟩
  · obtain ⟨b₁, hs, hf, hk, hr⟩ := spareCapacityMut_made hw h
    have hroom : b₁.Room (List.replicate n (0 : UInt8)).length := by rwa [List.length_replicate]
    obtain ⟨hk', hf'⟩ := hroom.committed hk.wf
    rw [hf] at hf'
    rw [List.length_replicate] at hk' hf'
    refine ⟨b₁.storage.length, _, ?_, hf', hk.trans hk'⟩
    simp only [reserveZeroed, if_neg h0, hs, zeroed, extendZeroed_room hr.spare]

theorem reserveZeroed_refused {n : Nat} {r : BoundedQueue.Refusal} (hw : b.Wf)
    (h : (b.queue hw).refusal n = some r) :
    b.reserveZeroed n = (.error (.err (refusalError (b.queue hw) n r)), b) := by
  by_cases h0 : n = 0
  · subst h0; rw [BoundedQueue.refusal_zero] at h; cases h
  · simp only [reserveZeroed, if_neg h0, spareCapacityMut_refused hw h]

theorem reserveZeroed_refines (hb : b.Sound) (n : Nat) :
    Refines b hb (.reserveZeroed n) (event .done (b.reserveZeroed n)).1 (event .done (b.reserveZeroed n)).2 := by
  cases hr : (b.queue hb.wf).refusal n with
  | some r =>
    rw [reserveZeroed_refused hb.wf hr]
    exact .refused hb rfl hr
  | none =>
    obtain ⟨i, b', he, hf, hk⟩ := reserveZeroed_made hb.wf hr
    rw [he]
    exact .appended hb rfl hr ⟨rfl, rfl⟩ hk hf

theorem fill_made {min : Nat} (hw : b.Wf) (h : (b.queue hw).refusal min = none) (data : Bytes) :
    ∃ room b', b.fill min data = (.wrote (data.take room).length, b') ∧ min ≤ room ∧
      b'.filled = b.filled ++ data.take room ∧ Kept b b' := by
  obtain ⟨b₁, hs, hf, hk, hroom⟩ := spareCapacityMut_made hw h
  have hlen := hk.wf.len_le
  have hxs : b₁.Room (data.take b₁.writable).length := by
    constructor <;> rw [List.length_take] <;> simp only [writable, capacity] <;> omega
  obtain ⟨b₂, hc, hf₂, hk₂⟩ := commit_writeSpare hk.wf hxs
  rw [hf] at hf₂
  refine ⟨b₁.writable, b₂, ?_, hroom.writable, hf₂, hk.trans hk₂⟩
  simp only [fill, hs, hc, event]

theorem fill_refused {min : Nat} {r : BoundedQueue.Refusal} (hw : b.Wf) (h : (b.queue hw).refusal min = some r)
    (data : Bytes) : b.fill min data = (.refused (refusalError (b.queue hw) min r), b) := by
  simp only [fill, spareCapacityMut_refused hw h, event]

theorem fill_refines (hb : b.Sound) (min : Nat) (data : Bytes) :
    Refines b hb (.fill min data) (b.fill min data).1 (b.fill min data).2 := by
  cases hr : (b.queue hb.wf).refusal min with
  | some r =>
    rw [fill_refused hb.wf hr]
    exact .refused hb rfl hr
  | none =>
    obtain ⟨room, b', h, hroom, hf, hk⟩ := fill_made hb.wf hr data
    rw [h]
    exact .appended hb rfl hr ⟨⟨room, hroom, rfl⟩, rfl⟩ hk hf

theorem consume_start {b' : Buffer} {n : Nat} (hw : b.Wf) (h : b.consume n = (.ok (), b')) (he : b'.filled = []) :
    b'.start = 0 := by
  have h₁ := hw.start_le
  simp only [consume] at h
  split at h
  · cases h
  · split at h
    · cases h; rfl
    · cases h
      simp only [filled, List.drop_eq_nil_iff] at he
      omega

theorem consume_refines (hb : b.Sound) (n : Nat) :
    Refines b hb (.consume n) (event .done (b.consume n)).1 (event .done (b.consume n)).2 := by
  by_cases hn : n ≤ b.len
  · obtain ⟨b', h⟩ := consume_fits hn
    obtain ⟨_, hf, hm, hc, hw⟩ := consume_ok hb.wf h
    rw [h]
    refine ⟨⟨hw, consume_start hb.wf h⟩, ?_⟩
    have hq : b'.queue hw = (b.queue hb.wf).drop n := BoundedQueue.ext hf hc hm
    simp only [event]
    rw [hq]
    exact .consumed (by rw [queue_length]; exact hn)
  · have hlt : b.len < n := by omega
    rw [consume_refused hlt]
    refine ⟨hb, ?_⟩
    have := QueueStep.unconsumed (q := b.queue hb.wf) (n := n) (by rw [queue_length]; exact hlt)
    rw [queue_length] at this
    exact this

theorem replaceStorage_refines (hb : b.Sound) (block : Bytes) :
    Refines b hb (.replaceStorage block) (event .done (b.replaceStorage block)).1
      (event .done (b.replaceStorage block)).2 := by
  have h₁ := hb.wf.start_le; have h₂ := hb.wf.len_le
  unfold replaceStorage
  split
  · next hlt =>
    refine ⟨hb, ?_⟩
    have hshort : block.length < (b.queue hb.wf).length := by rw [queue_length]; exact hlt
    have := QueueStep.unreplaced hshort
    rw [queue_length] at this
    exact this
  · next hge =>
    have hle : (b.queue hb.wf).length ≤ block.length := by rw [queue_length]; omega
    have hcap : b.filled.length + (block.drop b.len).length = block.length := by
      rw [filled_length, List.length_drop]; omega
    have hw : Wf { b with storage := b.filled, spare := block.drop b.len, start := 0 } := by
      refine ⟨Nat.zero_le _, ?_⟩
      simp only [filled_length, len]; omega
    have hq : queue _ hw = (b.queue hb.wf).withCapacity block.length hle := BoundedQueue.ext rfl hcap rfl
    refine ⟨⟨hw, fun _ => rfl⟩, ?_⟩
    simp only [event]
    rw [hq]
    exact .replaced hle

theorem takeEmptyStorage_some (hb : b.Sound) (he : b.filled = []) :
    b.takeEmptyStorage = some (([], b.spare), { b with storage := [], spare := [], start := 0 }) := by
  have hs : b.storage = [] := by
    have h := b.storage_eq
    rwa [he, hb.start_empty he, List.take_zero, List.append_nil] at h
  rw [takeEmptyStorage, if_pos ((isEmpty_iff hb.wf).mpr he), hs]

theorem takeEmptyStorage_none (hb : b.Sound) (he : b.filled ≠ []) : b.takeEmptyStorage = none :=
  if_neg fun h => he ((isEmpty_iff hb.wf).mp h)

end Buffer

section Runs

variable {E : Type} [RecordEncoder E] [EncoderSpec E]

theorem BufferOp.run_refines {b : Buffer} (hb : b.Sound) (op : BufferOp) (e : E)
    (hret : ∀ a, op = .record a → (op.run e b).1.returns = true) :
    Refines b hb op (op.run e b).1 (op.run e b).2.2 := by
  cases op with
  | extendFromSlice bytes => exact Buffer.extendFromSlice_refines hb bytes
  | reserveZeroed n => exact Buffer.reserveZeroed_refines hb n
  | fill min data => exact Buffer.fill_refines hb min data
  | consume n => exact Buffer.consume_refines hb n
  | replaceStorage block => exact Buffer.replaceStorage_refines hb block
  | takeEmptyStorage =>
    simp only [BufferOp.run]
    by_cases he : b.filled = []
    · rw [Buffer.takeEmptyStorage_some hb he]
      exact ⟨⟨⟨Nat.le_refl _, Nat.zero_le _⟩, fun _ => rfl⟩, .taken he⟩
    · rw [Buffer.takeEmptyStorage_none hb he]
      exact ⟨hb, .kept he⟩
  | record a =>
    obtain ⟨stale, hr, _, hf, hk⟩ := a.run_spec e hb.wf
    replace hret := hret a rfl
    simp only [BufferOp.run, BufferEvent.returns] at hret ⊢
    rw [hr] at hret
    have hk := hk hret; have hf := hf hret
    rw [← hr] at hf hret
    obtain ⟨hx, hq⟩ := hk.queue_append hb.wf hf
    refine ⟨hb.kept hk hf, ?_⟩
    rw [hq]
    exact .attempted hret hx

/-- A sound buffer holds the queue. -/
def Holds (s : E × Buffer) (q : BoundedQueue UInt8) : Prop := ∃ hb : s.2.Sound, q = s.2.queue hb.wf

theorem bufferRun_refines (ops : List BufferOp) (e : E) {b : Buffer} (hb : b.Sound) :
    ∃ q, QueueRun (b.queue hb.wf) (bufferRun e b ops).1 q ∧ Holds (bufferRun e b ops).2 q := by
  refine (bufferMachine E).run_refines QueueStep Holds ?_ ops ⟨hb, rfl⟩
  rintro ⟨e, b⟩ _ op ⟨hb, rfl⟩ hret
  obtain ⟨hb', hstep⟩ := op.run_refines hb e fun _ _ => hret
  exact ⟨_, hstep, hb', rfl⟩

omit [EncoderSpec E] in
/-- A refused call leaves the buffer as it was, position included. -/
theorem BufferOp.run_refused {op : BufferOp} {e : E} {b : Buffer} {err : Error} (hb : b.Sound)
    (h : (op.run e b).1 = .refused err) : (op.run e b).2.2 = b := by
  cases op with
  | extendFromSlice bytes =>
    simp only [BufferOp.run] at h ⊢
    cases hr : (b.queue hb.wf).refusal bytes.length with
    | some r => rw [Buffer.extendFromSlice_refused hb.wf hr]; rfl
    | none =>
      obtain ⟨b', hmade, -⟩ := Buffer.extendFromSlice_made bytes hb.wf hr
      rw [hmade] at h
      cases h
  | reserveZeroed n =>
    simp only [BufferOp.run] at h ⊢
    cases hr : (b.queue hb.wf).refusal n with
    | some r => rw [Buffer.reserveZeroed_refused hb.wf hr]; rfl
    | none =>
      obtain ⟨i, b', hmade, -⟩ := Buffer.reserveZeroed_made hb.wf hr
      rw [hmade] at h
      cases h
  | consume n =>
    simp only [BufferOp.run] at h ⊢
    by_cases hn : n ≤ b.len
    · obtain ⟨b', hfits⟩ := Buffer.consume_fits hn
      rw [hfits] at h
      cases h
    · rw [Buffer.consume_refused (Nat.lt_of_not_le hn)]; rfl
  | replaceStorage block =>
    simp only [BufferOp.run, Buffer.replaceStorage] at h ⊢
    split at h
    · next hshort => rw [if_pos hshort]; rfl
    · cases h
  | fill min data =>
    simp only [BufferOp.run] at h ⊢
    cases hr : (b.queue hb.wf).refusal min with
    | some r => rw [Buffer.fill_refused hb.wf hr]
    | none =>
      obtain ⟨room, b', hfill, _⟩ := Buffer.fill_made hb.wf hr data
      rw [hfill] at h
      cases h
  | takeEmptyStorage =>
    simp only [BufferOp.run] at h
    split at h <;> cases h
  | record a => cases h

/-- The buffer's own calls return. -/
theorem BufferOp.run_returns {op : BufferOp} {e : E} {b : Buffer} (hb : b.Sound) (hop : ∀ a, op ≠ .record a) :
    (op.run e b).1.returns = true := by
  obtain ⟨_, hstep⟩ := op.run_refines hb e fun a ha => absurd ha (hop a)
  exact hstep.returns

/-- All that is said of a run from a buffer with nothing live: the indices are
in order, the calls and their results are a run of the queue that ends in the
live bytes, a call that is refused moves nothing, and the buffer's own calls
return. -/
def RunsAsQueue (e : E) (b : Buffer) (ops : List BufferOp) : Prop :=
  let r := bufferRun e b ops
  let e' := r.2.1
  let b' := r.2.2
  (b'.start ≤ b'.storage.length ∧ b'.storage.length ≤ min b'.capacity b'.max) ∧
    (∃ q, QueueRun (.empty b.capacity b.max) r.1 q ∧ q.items = b'.filled ∧ q.capacity = b'.capacity ∧ q.limit = b'.max) ∧
    ∀ op : BufferOp, (∀ err, (op.run e' b').1 = .refused err → (op.run e' b').2.2 = b') ∧
      ((∀ a, op ≠ .record a) → (op.run e' b').1.returns = true)

theorem bufferRun_runsAsQueue (e : E) {b : Buffer} (hb : b.Sound) (he : b.filled = []) (ops : List BufferOp) :
    RunsAsQueue e b ops := by
  obtain ⟨_, hrun, hb', rfl⟩ := bufferRun_refines ops e hb
  have hq : b.queue hb.wf = .empty b.capacity b.max := BoundedQueue.ext he rfl rfl
  rw [hq] at hrun
  refine ⟨⟨hb'.wf.start_le, Nat.le_min.mpr ⟨Nat.le_add_right _ _, hb'.wf.len_le⟩⟩, ⟨_, hrun, rfl, rfl, rfl⟩, ?_⟩
  intro op
  exact ⟨fun err h => BufferOp.run_refused hb' h, BufferOp.run_returns hb'⟩

end Runs

theorem Buffer.new_sound (max : Nat) : (Buffer.new max).Sound := ⟨Buffer.new_wf max, fun _ => rfl⟩

theorem Buffer.empty_sound (max : Nat) : (Buffer.empty max).Sound := ⟨Buffer.empty_wf max, fun _ => rfl⟩

/-- **A buffer is a bounded byte queue**, whichever encoder seals into it. -/
theorem buffer_refines_queue (C : Crypto) (ε : Type) [Entropy ε] (max : Nat) (ops : List BufferOp) :
    (∀ e : V4Encoder C ε, RunsAsQueue e (.new max) ops ∧ RunsAsQueue e (.empty max) ops) ∧
      (∀ e : V6UnshapedEncoder C, RunsAsQueue e (.new max) ops ∧ RunsAsQueue e (.empty max) ops) ∧
      ∀ e : V6ShapedEncoder C, RunsAsQueue e (.new max) ops ∧ RunsAsQueue e (.empty max) ops := by
  have hnew := Buffer.new_sound max
  have hempty := Buffer.empty_sound max
  refine ⟨fun e => ⟨?_, ?_⟩, fun e => ⟨?_, ?_⟩, fun e => ⟨?_, ?_⟩⟩
  all_goals first
    | exact bufferRun_runsAsQueue e hnew rfl ops
    | exact bufferRun_runsAsQueue e hempty rfl ops

end Snell
