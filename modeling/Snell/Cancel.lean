/-
Cancelled records. A reserve that returned an error and a reservation dropped
unsealed can be erased from a run: with v4 and with unshaped v6 the rest of the
run is what it was. The shaped encoder's chunk window is moved by `reserve`
itself, so there it takes that no datagram is sealed, and the clock does not go
back, before the next stream record.
-/
import Snell.Reservations

namespace Snell

open RecordEncoder

/-! ## What the memory held -/

namespace Attempt

/-- The contract of `seal_init`: the bytes it seals were written. -/
def Initialised (a : Attempt) : Prop :=
  match a.close with
  | .sealInit n _ => ∃ data, .payloadUninit data ∈ a.accesses ∧ n ≤ data.length
  | _ => True

end Attempt

theorem getElem?_overwrite (data region : Bytes) (i : Nat) :
    (overwrite data region)[i]? = if i < region.length ∧ i < data.length then data[i]? else region[i]? := by
  simp only [overwrite, List.getElem?_append, List.length_take, List.getElem?_take, List.getElem?_drop]
  split
  · rw [if_pos (by omega), if_pos (by omega)]
  · rw [if_neg (by omega)]
    by_cases h : i < region.length
    · rw [Nat.add_sub_cancel' (by omega)]
    · rw [List.getElem?_eq_none (by omega), List.getElem?_eq_none (by omega)]

namespace Draft

/-- Two drafts that differ at most in memory behind the first `n` bytes. -/
structure Alike (n : Nat) (d₁ d₂ : Draft) : Prop where
  content : d₁.content = d₂.content
  length : d₁.uninit.length = d₂.uninit.length
  uninit : d₁.content = [] → ∀ i < n, d₁.uninit[i]? = d₂.uninit[i]?

variable {n : Nat} {d₁ d₂ : Draft}

theorem Alike.start (capacity : Nat) (stale₁ stale₂ : Bytes) :
    Alike 0 (Draft.start capacity stale₁) (Draft.start capacity stale₂) :=
  ⟨rfl, by simp only [Draft.start, length_overwrite], fun _ i hi => absurd hi (Nat.not_lt_zero i)⟩

theorem Alike.access (h : Alike n d₁ d₂) (capacity : Nat) (a : Access) :
    Alike n (d₁.access capacity a) (d₂.access capacity a) := by
  obtain ⟨hc, hl, hu⟩ := h
  cases a with
  | payloadMut data =>
    refine ⟨by simp only [Draft.access, hc], hl, fun hnil => hu ?_⟩
    have hlen := congrArg List.length hnil
    simp only [Draft.access, length_overwrite, List.length_append, List.length_nil] at hlen
    exact List.eq_nil_of_length_eq_zero (by omega)
  | payloadUninit data =>
    simp only [Draft.access, ← hc]
    split
    · next hnil =>
      refine ⟨rfl, by simp only [length_overwrite, hl], fun _ i hi => ?_⟩
      simp only [getElem?_overwrite, hl, hu hnil i hi]
    · exact ⟨hc, hl, hu⟩

theorem Alike.accesses (h : Alike n d₁ d₂) (capacity : Nat) (as : List Access) :
    Alike n (d₁.accesses capacity as) (d₂.accesses capacity as) := by
  induction as generalizing d₁ d₂ with
  | nil => exact h
  | cons a as ih => exact ih (h.access capacity a)

/-- What is written through `payload_uninit` does not depend on what was
there. -/
theorem Alike.written (h : Alike 0 d₁ d₂) (capacity : Nat) {data : Bytes} (hn : n ≤ data.length) :
    Alike n (d₁.access capacity (.payloadUninit data)) (d₂.access capacity (.payloadUninit data)) := by
  obtain ⟨hc, hl, _⟩ := h
  simp only [Draft.access, ← hc]
  split
  · refine ⟨rfl, by simp only [length_overwrite, hl], fun _ i hi => ?_⟩
    simp only [getElem?_overwrite, hl]
    split
    · rfl
    · rw [List.getElem?_eq_none (by omega), List.getElem?_eq_none (by omega)]
  · next hne => exact ⟨hc, hl, fun hnil => absurd hnil hne⟩

theorem Alike.covered (h : Alike 0 d₁ d₂) (capacity : Nat) {data : Bytes} (hn : n ≤ data.length) {as : List Access}
    (hm : .payloadUninit data ∈ as) : Alike n (d₁.accesses capacity as) (d₂.accesses capacity as) := by
  induction as generalizing d₁ d₂ with
  | nil => cases hm
  | cons a as ih =>
    rcases List.mem_cons.mp hm with rfl | hm
    · exact (h.written capacity hn).accesses capacity as
    · exact ih (h.access capacity a) hm

theorem Alike.sealMut (h : Alike 0 d₁ d₂) (p : Plan) (pfx : Bytes) (n : Nat) :
    d₁.sealMut p pfx n = d₂.sealMut p pfx n := by
  simp only [Draft.sealMut, h.content]

theorem Alike.sealInit (h : Alike n d₁ d₂) (p : Plan) (pfx : Bytes) :
    d₁.sealInit p pfx n = d₂.sealInit p pfx n := by
  simp only [Draft.sealInit, ← h.content]
  split
  · rfl
  split
  · rfl
  · next hnil =>
    have htake : d₁.uninit.take n = d₂.uninit.take n := by
      refine List.ext_getElem? fun i => ?_
      simp only [List.getElem?_take]
      split
      · next hi => exact h.uninit (not_not.mp hnil) i hi
      · rfl
    rw [htake]

end Draft

section Stale

variable {E : Type} [RecordEncoder E] [EncoderSpec E]

theorem Attempt.spec_stale {a : Attempt} (ha : a.Initialised) (e : E) (q : BoundedQueue UInt8) (stale₁ stale₂ : Bytes) :
    a.spec e q stale₁ = a.spec e q stale₂ := by
  unfold Attempt.spec
  rcases EncoderSpec.plan e a.pfx.length a.size a.now with ⟨r, e₁⟩
  cases r with
  | error f => rfl
  | ok p =>
    simp only
    cases q.refusal p.total with
    | some r => rfl
    | none =>
      have hstart := Draft.Alike.start (p.capacity a.pfx) stale₁ stale₂
      have hall := hstart.accesses (p.capacity a.pfx) a.accesses
      unfold Attempt.Initialised at ha
      cases hc : a.close with
      | sealMut n env => simp only [Close.spec, hall.sealMut]
      | sealInit n env =>
        rw [hc] at ha
        obtain ⟨data, hm, hn⟩ := ha
        simp only [Close.spec, (hstart.covered (p.capacity a.pfx) hn hm).sealInit]
      | drop => rfl
      | forget => simp only [Close.spec, hall.content]

end Stale

/-! ## Erasing them -/

/-- A sender's calls: the bytes `seal_init` seals were written, and no more is
committed than room was asked for. -/
def BufferOp.Sends : BufferOp → Prop
  | .record a => a.Initialised
  | .fill min data => data.length ≤ min
  | _ => True

def BufferEvent.deleted : BufferEvent → Bool
  | .attempted r => r.deleted
  | _ => false

section Erase

variable {E : Type} [RecordEncoder E]

omit [RecordEncoder E] in
theorem Attempted.left_deleted {r : Attempted} (h : r.deleted = true) : r.left = [] := by
  cases r <;> first | rfl | cases h

/-- Something of a reservation and what came of it, along a trace. -/
def atRecord {α : Type} (f : Attempt → Attempted → α) (other : α) : BufferOp → BufferEvent → α
  | .record a, .attempted r => f a r
  | _, _ => other

/-- Without the reserves that returned an error and the reservations that were
dropped, every other call of the run returns what it did, and the same bytes
are in the buffer. -/
def Erases (e : E) (b : Buffer) (ops : List BufferOp) : Prop :=
  let kept := Runs.Machine.visible BufferEvent.deleted (bufferRun e b ops).1
  let r := bufferRun e b (kept.map Prod.fst)
  r.1 = kept ∧ r.2.2.filled = (bufferRun e b ops).2.2.filled

variable [EncoderSpec E]

/-- What has to be known of an encoder: a relation between the encoder of a run
and that of the run with some attempts erased, with a ghost state of type `G`,
which an erased attempt keeps and which any other attempt cannot tell. -/
structure Erasure (E G : Type) [RecordEncoder E] [EncoderSpec E] where
  Rel : G → E → E → Prop
  Ok : G → Attempt → Attempted → Prop
  next : G → E → Attempt → Attempted → G
  deleted : ∀ {g e₁ e₂} (a : Attempt) q stale, Rel g e₁ e₂ → (a.spec e₁ q stale).1.deleted = true →
    Ok g a (a.spec e₁ q stale).1 → Rel (next g e₁ a (a.spec e₁ q stale).1) (a.spec e₁ q stale).2 e₂
  kept : ∀ {g e₁ e₂} (a : Attempt) q stale, Rel g e₁ e₂ → (a.spec e₁ q stale).1.deleted = false →
    Ok g a (a.spec e₁ q stale).1 → (a.spec e₂ q stale).1 = (a.spec e₁ q stale).1 ∧
      Rel (next g e₁ a (a.spec e₁ q stale).1) (a.spec e₁ q stale).2 (a.spec e₂ q stale).2

omit [RecordEncoder E] [EncoderSpec E] in
theorem BufferOp.Appends.unique {op : BufferOp} {xs₁ xs₂ : Bytes} {event₁ event₂ : BufferEvent} (hsends : op.Sends)
    (h₁ : op.Appends xs₁ event₁) (h₂ : op.Appends xs₂ event₂) : xs₁ = xs₂ ∧ event₁ = event₂ := by
  cases op with
  | extendFromSlice bytes => obtain ⟨rfl, rfl⟩ := h₁; obtain ⟨rfl, rfl⟩ := h₂; exact ⟨rfl, rfl⟩
  | reserveZeroed n => obtain ⟨rfl, rfl⟩ := h₁; obtain ⟨rfl, rfl⟩ := h₂; exact ⟨rfl, rfl⟩
  | fill min data =>
    obtain ⟨⟨room₁, hr₁, rfl⟩, rfl⟩ := h₁
    obtain ⟨⟨room₂, hr₂, rfl⟩, rfl⟩ := h₂
    have hlen : data.length ≤ min := hsends
    rw [List.take_of_length_le (by omega), List.take_of_length_le (by omega)]
    exact ⟨rfl, rfl⟩
  | _ => exact h₁.elim

omit [RecordEncoder E] [EncoderSpec E] in
/-- The queue decides a sender's calls. -/
theorem QueueStep.unique {q q₁ q₂ : BoundedQueue UInt8} {op : BufferOp} {event₁ event₂ : BufferEvent}
    (hsends : op.Sends) (hop : ∀ a, op ≠ .record a) (h₁ : QueueStep q op event₁ q₁) (h₂ : QueueStep q op event₂ q₂) :
    event₁ = event₂ ∧ q₁ = q₂ := by
  cases h₁ with
  | appended hn hr ha _ =>
    cases h₂ with
    | appended _ _ ha' _ => obtain ⟨rfl, rfl⟩ := ha.unique hsends ha'; exact ⟨rfl, rfl⟩
    | refused hn' hr' => rw [hn] at hn'; cases hn'; rw [hr] at hr'; cases hr'
    | _ => cases hn
  | refused hn hr =>
    cases h₂ with
    | appended hn' hr' _ _ => rw [hn] at hn'; cases hn'; rw [hr] at hr'; cases hr'
    | refused hn' hr' => rw [hn] at hn'; cases hn'; rw [hr] at hr'; cases hr'; exact ⟨rfl, rfl⟩
    | _ => cases hn
  | consumed h =>
    cases h₂ with
    | appended hn | refused hn => cases hn
    | consumed => exact ⟨rfl, rfl⟩
    | unconsumed h' => omega
  | unconsumed h =>
    cases h₂ with
    | appended hn | refused hn => cases hn
    | consumed h' => omega
    | unconsumed => exact ⟨rfl, rfl⟩
  | replaced h =>
    cases h₂ with
    | appended hn | refused hn => cases hn
    | replaced => exact ⟨rfl, rfl⟩
    | unreplaced h' => omega
  | unreplaced h =>
    cases h₂ with
    | appended hn | refused hn => cases hn
    | replaced h' => omega
    | unreplaced => exact ⟨rfl, rfl⟩
  | taken h =>
    cases h₂ with
    | appended hn | refused hn => cases hn
    | taken => exact ⟨rfl, rfl⟩
    | kept h' => exact absurd h h'
  | kept h =>
    cases h₂ with
    | appended hn | refused hn => cases hn
    | taken h' => exact absurd h' h
    | kept => exact ⟨rfl, rfl⟩
  | attempted => exact absurd rfl (hop _)

omit [RecordEncoder E] [EncoderSpec E] in
theorem QueueStep.not_deleted {q q' : BoundedQueue UInt8} {op : BufferOp} {event : BufferEvent}
    (hop : ∀ a, op ≠ .record a) (h : QueueStep q op event q') : event.deleted = false := by
  cases h with
  | appended _ _ ha _ =>
    unfold BufferOp.Appends at ha
    split at ha
    · rw [ha.2]; rfl
    · rw [ha.2]; rfl
    · rw [ha.2]; rfl
    · exact ha.elim
  | attempted => exact absurd rfl (hop _)
  | _ => rfl

omit [EncoderSpec E] in
theorem BufferOp.run_encoder (op : BufferOp) (e : E) (b : Buffer) (hop : ∀ a, op ≠ .record a) :
    (op.run e b).2.1 = e := by
  cases op with
  | record a => exact absurd rfl (hop a)
  | takeEmptyStorage => simp only [BufferOp.run]; split <;> rfl
  | _ => rfl

/-- An attempt in a buffer that holds `q`. -/
theorem Attempt.run_holds (a : Attempt) {s : E × Buffer} {q : BoundedQueue UInt8} (h : Holds s q) :
    ∃ stale, (a.run s.1 s.2).1 = (a.spec s.1 q stale).1 ∧ ((a.spec s.1 q stale).1.returns = true →
      (a.run s.1 s.2).2.1 = (a.spec s.1 q stale).2 ∧
        ∃ hx, Holds (a.run s.1 s.2).2 (q.append (a.spec s.1 q stale).1.left hx)) := by
  obtain ⟨hb, rfl⟩ := h
  obtain ⟨stale, hr, he, hf, hk⟩ := a.run_spec s.1 hb.wf
  refine ⟨stale, hr, fun hret => ⟨he hret, ?_⟩⟩
  obtain ⟨hx, hq⟩ := (hk hret).queue_append hb.wf (hf hret)
  exact ⟨hx, hb.kept (hk hret) (hf hret), hq.symm⟩

namespace Erasure

variable {G : Type} (R : Erasure E G)

def okOp (g : G) (_ : E × Buffer) : BufferOp → BufferEvent → Prop := atRecord (R.Ok g) True

def nextOp (g : G) (s : E × Buffer) : BufferOp → BufferEvent → G := atRecord (R.next g s.1) g

/-- The condition on a run. -/
def Meets (g : G) (e : E) (b : Buffer) (ops : List BufferOp) : Prop :=
  (bufferMachine E).MeetsFrom R.okOp R.nextOp g (e, b) ops

/-- The encoders are related, and the buffers hold the same queue. -/
def Related (g : G) (s t : E × Buffer) : Prop := R.Rel g s.1 t.1 ∧ ∃ q, Holds s q ∧ Holds t q

variable {R} {g : G} {s t : E × Buffer} {op : BufferOp}

theorem related_deleted (h : R.Related g s t) (hret : (op.run s.1 s.2).1.returns = true)
    (hdel : (op.run s.1 s.2).1.deleted = true) (hok : R.okOp g s op (op.run s.1 s.2).1) :
    R.Related (R.nextOp g s op (op.run s.1 s.2).1) (op.run s.1 s.2).2 t := by
  obtain ⟨hrel, q, hs, ht⟩ := h
  by_cases hop : ∃ a, op = .record a
  · obtain ⟨a, rfl⟩ := hop
    obtain ⟨stale, hr, hspec⟩ := a.run_holds hs
    simp only [BufferOp.run, BufferEvent.returns, BufferEvent.deleted, okOp, nextOp, atRecord] at hret hdel hok ⊢
    rw [hr] at hret hdel hok ⊢
    obtain ⟨he, hx, hq⟩ := hspec hret
    rw [BoundedQueue.append_nil hx (Attempted.left_deleted hdel)] at hq
    exact ⟨by rw [he]; exact R.deleted a q stale hrel hdel hok, q, hq, ht⟩
  · obtain ⟨hb, rfl⟩ := hs
    obtain ⟨_, hstep⟩ := op.run_refines hb s.1 fun a ha => absurd ⟨a, ha⟩ hop
    rw [hstep.not_deleted fun a ha => hop ⟨a, ha⟩] at hdel
    cases hdel

theorem related_kept (hsends : op.Sends) (h : R.Related g s t) (hret : (op.run s.1 s.2).1.returns = true)
    (hdel : (op.run s.1 s.2).1.deleted = false) (hok : R.okOp g s op (op.run s.1 s.2).1) :
    (op.run t.1 t.2).1 = (op.run s.1 s.2).1 ∧
      R.Related (R.nextOp g s op (op.run s.1 s.2).1) (op.run s.1 s.2).2 (op.run t.1 t.2).2 := by
  obtain ⟨hrel, q, hs, ht⟩ := h
  by_cases hop : ∃ a, op = .record a
  · obtain ⟨a, rfl⟩ := hop
    have hinit : a.Initialised := hsends
    obtain ⟨stale, hr, hspec⟩ := a.run_holds hs
    obtain ⟨stale', hr', hspec'⟩ := a.run_holds ht
    rw [Attempt.spec_stale hinit t.1 q stale' stale] at hr' hspec'
    simp only [BufferOp.run, BufferEvent.returns, BufferEvent.deleted, okOp, nextOp, atRecord] at hret hdel hok ⊢
    rw [hr] at hret hdel hok ⊢
    obtain ⟨hevent, hrel'⟩ := R.kept a q stale hrel hdel hok
    obtain ⟨he, hx, hq⟩ := hspec hret
    rw [hevent] at hr' hspec'
    obtain ⟨he', _, hq'⟩ := hspec' hret
    exact ⟨by rw [hr'], by rw [he, he']; exact hrel', _, hq, hq'⟩
  · have hop' : ∀ a, op ≠ .record a := fun a ha => hop ⟨a, ha⟩
    obtain ⟨hb, rfl⟩ := hs
    obtain ⟨hb', hq⟩ := ht
    obtain ⟨hb₁, hstep₁⟩ := op.run_refines hb s.1 fun a ha => absurd ha (hop' a)
    obtain ⟨hb₂, hstep₂⟩ := op.run_refines hb' t.1 fun a ha => absurd ha (hop' a)
    rw [← hq] at hstep₂
    obtain ⟨hevent, hqueue⟩ := hstep₂.unique hsends hop' hstep₁
    refine ⟨hevent, ?_, _, ⟨hb₁, rfl⟩, hb₂, hqueue.symm⟩
    rw [op.run_encoder s.1 s.2 hop', op.run_encoder t.1 t.2 hop']
    cases op with
    | record a => exact absurd rfl (hop' a)
    | _ => exact hrel

/-- **Erasing.** A run that meets the condition goes on as it did without the
attempts nothing came of. -/
theorem erases (R : Erasure E G) {g : G} {e : E} {b : Buffer} (hrel : R.Rel g e e) (hb : b.Sound) {ops : List BufferOp}
    (hops : ∀ op ∈ ops, op.Sends) (hok : R.Meets g e b ops) : Erases e b ops := by
  obtain ⟨hevents, _, _, q, ⟨hb₁, hq₁⟩, hb₂, hq₂⟩ := (bufferMachine E).run_erased R.Related
    (fun _ _ _ _ _ h hret hdel hok => related_deleted h hret hdel hok)
    (fun _ _ _ _ hsends h hret hdel hok => related_kept hsends h hret hdel hok) ops hops
    (⟨hrel, _, ⟨hb, rfl⟩, hb, rfl⟩ : R.Related g (e, b) (e, b)) hok
  exact ⟨hevents, congrArg BoundedQueue.items (hq₂.symm.trans hq₁)⟩

end Erasure

/-- An encoder that planning leaves as it was. -/
def Erasure.still (hplan : ∀ (e : E) n size now, (EncoderSpec.plan e n size now).2 = e) : Erasure E Unit where
  Rel _ e₁ e₂ := e₁ = e₂
  Ok _ _ _ := True
  next _ _ _ _ := ()
  deleted a q stale hrel hdel _ := by rw [Attempt.spec_deleted hdel, hplan, hrel]
  kept a q stale hrel _ _ := by subst hrel; exact ⟨rfl, rfl⟩

theorem Erasure.still_erases (hplan : ∀ (e : E) n size now, (EncoderSpec.plan e n size now).2 = e) (e : E) {b : Buffer}
    (hb : b.Sound) {ops : List BufferOp} (hops : ∀ op ∈ ops, op.Sends) : Erases e b ops := by
  refine (Erasure.still hplan).erases (g := ()) rfl hb hops (.of_forall (fun _ _ op event => ?_) _ _ _)
  unfold okOp atRecord
  split <;> trivial

end Erase

/-! ## The shaped encoder's window -/

namespace V6ShapedEncoder

variable {C : Crypto}

/-- The connection has been idle for long enough to start over. -/
def idleAt (enc : V6ShapedEncoder C) (now : Nat) : Bool :=
  match enc.lastWriteSecs with
  | some last => decide (enc.profile.idleResetSecs < now - last)
  | none => false

theorem chunkSizeAt_eq (enc : V6ShapedEncoder C) (now : Nat) :
    enc.chunkSizeAt now = if enc.chunkSize = 0 ∨ enc.idleAt now then enc.profile.chunkInitial else enc.chunkSize := rfl

theorem idleAt_mono {enc : V6ShapedEncoder C} {t now : Nat} (h : t ≤ now) (hi : enc.idleAt t = true) :
    enc.idleAt now = true := by
  unfold idleAt at hi ⊢
  split at hi
  · simp only [decide_eq_true_eq] at hi ⊢; omega
  · cases hi

/-- `chunkSize` is that of the encoder, or what a stream reservation at `stale`
made of it. -/
def Window (enc : V6ShapedEncoder C) (chunkSize : Nat) : Option Nat → Prop
  | none => chunkSize = enc.chunkSize
  | some t => chunkSize = enc.chunkSize ∨
      (chunkSize = enc.profile.chunkInitial ∧ (enc.chunkSize = 0 ∨ enc.idleAt t = true))

variable {enc : V6ShapedEncoder C} {chunkSize now : Nat} {stale : Option Nat}

theorem Window.later (h : enc.Window chunkSize stale) (ht : ∀ t, stale = some t → t ≤ now) :
    enc.Window chunkSize (some now) := by
  cases stale with
  | none => exact .inl h
  | some t =>
    rcases h with h | ⟨h, h0 | hi⟩
    · exact .inl h
    · exact .inr ⟨h, .inl h0⟩
    · exact .inr ⟨h, .inr (idleAt_mono (ht t rfl) hi)⟩

/-- A stream reservation takes the window to the same place, whether or not an
earlier one was erased. -/
theorem Window.chunkSizeAt (h : enc.Window chunkSize stale) (ht : ∀ t, stale = some t → t ≤ now) :
    { enc with chunkSize }.chunkSizeAt now = enc.chunkSizeAt now := by
  simp only [chunkSizeAt_eq]
  rcases h.later ht with h | ⟨h, hw⟩
  · subst h; rfl
  · rw [if_pos hw]
    split
    · rfl
    · exact h

/-- If it moves the window, it leaves it as one that can be erased. -/
theorem Window.moved (h : enc.Window chunkSize stale) (hmoves : { enc with chunkSize }.chunkSizeAt now ≠ chunkSize) :
    enc.Window ({ enc with chunkSize }.chunkSizeAt now) (some now) := by
  rw [chunkSizeAt_eq] at hmoves ⊢
  split at hmoves
  · next hw =>
    rw [if_pos hw]
    refine .inr ⟨rfl, hw.imp_left fun h0 => ?_⟩
    cases stale with
    | none => exact h.symm.trans h0
    | some t =>
      rcases h with h | ⟨h, _⟩
      · exact h.symm.trans h0
      · exact absurd h.symm hmoves
  · exact absurd rfl hmoves

/-! ### Attempts that do not seal -/

variable {payload : Bytes} {env : SealEnv}

theorem image_unsealed {enc' : V6ShapedEncoder C} {f : Fault} (h : image enc payload env = (.error f, enc')) :
    ∃ nonce state, enc' = { enc with nonce, state } ∧
      ∀ chunkSize, image { enc with chunkSize } payload env = (.error f, { enc' with chunkSize }) := by
  obtain ⟨enc₁, himage⟩ := finished_fault h
  obtain ⟨⟨nonce, rfl⟩, rfl, _⟩ := sealImage_error himage
  unfold image at h
  rw [himage] at h
  cases h
  refine ⟨_, _, rfl, fun chunkSize => ?_⟩
  unfold image
  have hs := sealImage_chunkSize enc chunkSize (enc.paddingOf payload.length) payload env
  rw [himage] at hs
  rw [show paddingOf { enc with chunkSize } payload.length = enc.paddingOf payload.length from rfl, hs]
  rfl

/-- Two results that differ in the window only, which neither moved. -/
def Unsealed (enc : V6ShapedEncoder C) (chunkSize : Nat) (r r' : Attempted × V6ShapedEncoder C) : Prop :=
  r'.1 = r.1 ∧ ∃ nonce state, r.2 = { enc with nonce, state } ∧ r'.2 = { enc with nonce, state, chunkSize }

theorem sealSpec_unsealed {p : Plan} {pfx : Bytes} {taken : Except Error Bytes}
    (h : (sealSpec enc p pfx taken env).1.isSealed = false) (chunkSize : Nat) :
    Unsealed enc chunkSize (sealSpec enc p pfx taken env) (sealSpec { enc with chunkSize } p pfx taken env) := by
  unfold sealSpec at h ⊢
  cases taken with
  | error err => exact ⟨rfl, enc.nonce, .ready, rfl, rfl⟩
  | ok payload =>
    simp only [EncoderSpec.image] at h ⊢
    rcases hi : image enc payload env with ⟨r, enc'⟩
    rw [hi] at h
    cases r with
    | ok r => cases h
    | error f =>
      obtain ⟨nonce, state, rfl, hc⟩ := image_unsealed hi
      simp only [hc]
      exact ⟨rfl, nonce, state, rfl, rfl⟩

theorem close_unsealed {close : Close} {p : Plan} {pfx : Bytes} {d : Draft}
    (h : (close.spec enc p pfx d).1.isSealed = false) (chunkSize : Nat) :
    Unsealed enc chunkSize (close.spec enc p pfx d) (close.spec { enc with chunkSize } p pfx d) := by
  cases close with
  | drop => exact ⟨rfl, enc.nonce, .ready, rfl, rfl⟩
  | forget => exact ⟨rfl, enc.nonce, enc.state, rfl, rfl⟩
  | sealMut n env => exact sealSpec_unsealed h chunkSize
  | sealInit n env => exact sealSpec_unsealed h chunkSize

theorem spec_unsealed {a : Attempt} {q : BoundedQueue UInt8} {stale : Bytes} {len : Nat} (hsize : a.size = .datagram len)
    (h : (a.spec enc q stale).1.isSealed = false) (chunkSize : Nat) :
    Unsealed enc chunkSize (a.spec enc q stale) (a.spec { enc with chunkSize } q stale) := by
  have hsame : roomFor { enc with chunkSize } = enc.roomFor := rfl
  simp only [Attempt.spec, EncoderSpec.plan, hsize, plan_datagram, hsame] at h ⊢
  generalize planWith enc.state maxPacketSizeV6 [] _ _ a.pfx.length (.datagram len) a.now = r at h ⊢
  cases r with
  | error f => exact ⟨rfl, enc.nonce, enc.state, rfl, rfl⟩
  | ok p =>
    simp only at h ⊢
    cases hr : q.refusal p.total with
    | some r => exact ⟨rfl, enc.nonce, enc.state, rfl, rfl⟩
    | none =>
      simp only [hr] at h ⊢
      obtain ⟨he, nonce, state, h₁, h₂⟩ := close_unsealed h chunkSize
      exact ⟨he, nonce, state, h₁, h₂⟩

/-! ### Erasing -/

/-- A stream reservation at `now` moves the window. -/
def movesWindow (enc : V6ShapedEncoder C) (now : Nat) : Bool := enc.state = .ready ∧ enc.chunkSizeAt now ≠ enc.chunkSize

/-- The clock reading of a stream reservation that moved the window and was
erased, until the next one that was not. -/
def nextStale (stale : Option Nat) (enc : V6ShapedEncoder C) (a : Attempt) (r : Attempted) : Option Nat :=
  match a.size with
  | .stream _ => if r.deleted then if enc.movesWindow a.now then some a.now else stale else none
  | .datagram _ => stale

/-- While there is one, no datagram is sealed, and no stream reservation that
is kept is made at an earlier time. -/
def Settled (stale : Option Nat) (a : Attempt) (r : Attempted) : Prop :=
  match a.size with
  | .stream _ => r.deleted = false → ∀ t, stale = some t → t ≤ a.now
  | .datagram _ => r.isSealed = true → stale = none

/-- The encoders differ in the window only. -/
def Rel (stale : Option Nat) (enc₁ enc₂ : V6ShapedEncoder C) : Prop :=
  ∃ chunkSize, enc₁ = { enc₂ with chunkSize } ∧ enc₂.Window chunkSize stale

theorem Rel.refl (enc : V6ShapedEncoder C) : Rel none enc enc := ⟨enc.chunkSize, rfl, rfl⟩

variable {enc₁ enc₂ : V6ShapedEncoder C} {a : Attempt} {q : BoundedQueue UInt8} {mem : Bytes}

theorem Rel.deleted (h : Rel stale enc₁ enc₂) (hdel : (a.spec enc₁ q mem).1.deleted = true) :
    Rel (nextStale stale enc₁ a (a.spec enc₁ q mem).1) (a.spec enc₁ q mem).2 enc₂ := by
  obtain ⟨chunkSize, rfl, hw⟩ := h
  rw [Attempt.spec_deleted hdel]
  unfold nextStale
  simp only [EncoderSpec.plan]
  cases hsize : a.size with
  | datagram len => rw [plan_datagram]; exact ⟨chunkSize, rfl, hw⟩
  | stream hint =>
    simp only [hdel, ↓reduceIte, movesWindow, decide_eq_true_eq]
    by_cases hready : enc₂.state = .ready
    · rw [plan_stream { enc₂ with chunkSize } hready]
      by_cases hmoves : { enc₂ with chunkSize }.chunkSizeAt a.now = chunkSize
      · rw [if_neg fun h => h.2 hmoves]
        exact ⟨_, rfl, by rw [hmoves]; exact hw⟩
      · rw [if_pos ⟨hready, hmoves⟩]
        exact ⟨_, rfl, hw.moved hmoves⟩
    · -- an encoder that is not ready refuses, its window where it was
      obtain ⟨hr, _⟩ | ⟨_, err, he⟩ := enc₂.state.ensureReady_cases
      · exact absurd hr hready
      · rw [if_neg fun h => hready h.1]
        simp only [plan, he]
        exact ⟨chunkSize, rfl, hw⟩

theorem Rel.kept (h : Rel stale enc₁ enc₂) (hdel : (a.spec enc₁ q mem).1.deleted = false)
    (hok : Settled stale a (a.spec enc₁ q mem).1) :
    (a.spec enc₂ q mem).1 = (a.spec enc₁ q mem).1 ∧
      Rel (nextStale stale enc₁ a (a.spec enc₁ q mem).1) (a.spec enc₁ q mem).2 (a.spec enc₂ q mem).2 := by
  obtain ⟨chunkSize, rfl, hw⟩ := h
  unfold Settled at hok
  unfold nextStale
  cases hsize : a.size with
  | datagram len =>
    simp only [hsize] at hok ⊢
    cases hs : (a.spec { enc₂ with chunkSize } q mem).1.isSealed with
    | true =>
      obtain rfl := hok hs
      obtain rfl : chunkSize = enc₂.chunkSize := hw
      exact ⟨rfl, .refl _⟩
    | false =>
      obtain ⟨he, nonce, state, h₁, h₂⟩ := spec_unsealed hsize hs enc₂.chunkSize
      simp only at he h₁ h₂
      rw [h₁]
      refine ⟨he, chunkSize, by rw [h₂], ?_⟩
      rw [h₂]
      exact hw
  | stream hint =>
    simp only [hsize, hdel] at hok ⊢
    replace hok := hok trivial
    by_cases hready : enc₂.state = .ready
    · have hplan : plan { enc₂ with chunkSize } a.pfx.length a.size a.now = plan enc₂ a.pfx.length a.size a.now := by
        rw [hsize, plan_stream enc₂ hready, plan_stream { enc₂ with chunkSize } hready, hw.chunkSizeAt hok]
        rfl
      have hspec : a.spec { enc₂ with chunkSize } q mem = a.spec enc₂ q mem := by
        simp only [Attempt.spec, EncoderSpec.plan, hplan]
      rw [hspec]
      exact ⟨rfl, .refl _⟩
    · -- an encoder that is not ready refuses
      obtain ⟨hr, _⟩ | ⟨_, err, he⟩ := enc₂.state.ensureReady_cases
      · exact absurd hr hready
      · simp only [Attempt.spec, EncoderSpec.plan, plan, he] at hdel
        cases hdel

def erasure (C : Crypto) : Erasure (V6ShapedEncoder C) (Option Nat) where
  Rel := Rel
  Ok := Settled
  next := nextStale
  deleted _ _ _ h hdel _ := h.deleted hdel
  kept _ _ _ := Rel.kept

end V6ShapedEncoder

/-- Between a stream reservation that moved the window and was erased, and the
next one that was not erased, no datagram is sealed, and that one is not made at
an earlier time. -/
@[irreducible] def StreamsSettle {C : Crypto} (enc : V6ShapedEncoder C) (b : Buffer) (ops : List BufferOp) : Prop :=
  (V6ShapedEncoder.erasure C).Meets none enc b ops

/-- **Cancelled records have no side effects** with v4 and unshaped v6, and
with shaped v6 as long as what a cancelled stream reservation did to the window,
if anything, is done again before it is used. -/
theorem cancelled_records_erase (C : Crypto) (ε : Type) [Entropy ε] {b : Buffer} (hb : b.Sound) {ops : List BufferOp}
    (hops : ∀ op ∈ ops, op.Sends) :
    (∀ enc : V4Encoder C ε, Erases enc b ops) ∧ (∀ enc : V6UnshapedEncoder C, Erases enc b ops) ∧
      ∀ enc : V6ShapedEncoder C, StreamsSettle enc b ops → Erases enc b ops :=
  ⟨fun enc => Erasure.still_erases (fun _ _ _ _ => rfl) enc hb hops,
    fun enc => Erasure.still_erases (fun _ _ _ _ => rfl) enc hb hops,
    fun enc hok => (V6ShapedEncoder.erasure C).erases (.refl enc) hb hops (by unfold StreamsSettle at hok; exact hok)⟩

/-- What the clock reads during a reservation. -/
def BufferOp.clock : BufferOp → Option Nat
  | .record a => some a.now
  | _ => none

theorem streamsSettle_from {C : Crypto} {enc : V6ShapedEncoder C} {b : Buffer} {stale : Option Nat} {ops : List BufferOp}
    (hstreams : ∀ a, .record a ∈ ops → ∃ hint, a.size = .stream hint)
    (hclock : (ops.filterMap BufferOp.clock).Pairwise (· ≤ ·))
    (hstale : ∀ t, stale = some t → ∀ now ∈ ops.filterMap BufferOp.clock, t ≤ now) :
    (V6ShapedEncoder.erasure C).Meets stale enc b ops := by
  induction ops generalizing enc b stale with
  | nil => trivial
  | cons op ops ih =>
    have htail : ∀ a, .record a ∈ ops → ∃ hint, a.size = .stream hint :=
      fun a ha => hstreams a (List.mem_cons_of_mem _ ha)
    intro _
    cases op with
    | record a =>
      obtain ⟨hint, hsize⟩ := hstreams a List.mem_cons_self
      simp only [List.filterMap_cons, BufferOp.clock, List.pairwise_cons, List.mem_cons, forall_eq_or_imp] at hclock hstale
      refine ⟨?_, ih htail hclock.2 fun t ht => ?_⟩
      · change V6ShapedEncoder.Settled stale a _
        simp only [V6ShapedEncoder.Settled, hsize]
        exact fun _ t ht => (hstale t ht).1
      · change V6ShapedEncoder.nextStale stale enc a _ = some t at ht
        simp only [V6ShapedEncoder.nextStale, hsize] at ht
        split at ht
        · split at ht
          · cases ht; exact hclock.1
          · exact (hstale t ht).2
        · cases ht
    | _ => exact ⟨trivial, ih htail hclock hstale⟩

/-- With stream records only and a clock that does not go back there is nothing
else to ask for. -/
theorem streamsSettle_of_streams {C : Crypto} (enc : V6ShapedEncoder C) (b : Buffer) {ops : List BufferOp}
    (hstreams : ∀ a, .record a ∈ ops → ∃ hint, a.size = .stream hint)
    (hclock : (ops.filterMap BufferOp.clock).Pairwise (· ≤ ·)) : StreamsSettle enc b ops := by
  unfold StreamsSettle
  exact streamsSettle_from hstreams hclock nofun

/-- A dropped reservation in front of a stream record, with a clock that moves
on and with one that leaves the connection idle. -/
theorem cancelled_records_erase_transparent :
    let psk : Psk := ⟨List.replicate 16 7, by decide⟩
    let salt : Salt := ⟨List.replicate saltLen 1, by decide⟩
    let enc : V6ShapedEncoder Crypto.transparent :=
      ⟨(), Nonce.new, salt, 0, psk.profiled Crypto.transparent, 0, none, .ready⟩
    let dropped (now : Nat) : BufferOp := .record ⟨[], .stream 1, now, [], .drop⟩
    let stream (now : Nat) : BufferOp :=
      .record ⟨[], .stream 1400, now, [.payloadMut [2]], .sealMut 1 ⟨now, false, false, 0⟩⟩
    Erases enc (.new 4096) [dropped 0, stream 1, dropped 1000, stream 1001] := by
  intro psk salt enc dropped stream
  have hsends : ∀ op ∈ [dropped 0, stream 1, dropped 1000, stream 1001], op.Sends := by
    simp [dropped, stream, BufferOp.Sends, Attempt.Initialised]
  have hstreams : ∀ a, .record a ∈ [dropped 0, stream 1, dropped 1000, stream 1001] → ∃ hint, a.size = .stream hint := by
    simp [dropped, stream]
  have hsettle := streamsSettle_of_streams enc (.new 4096) hstreams (by simp [dropped, stream, BufferOp.clock])
  have herase := (cancelled_records_erase Crypto.transparent RepeatEntropy (Buffer.new_sound 4096) hsends).2.2 enc
  exact herase hsettle

set_option maxRecDepth 10000 in
/-- A stream reservation that is dropped, a datagram, and a stream record: the
last one is offered less once the first is erased. -/
theorem cancelled_stream_not_erased :
    let psk : Psk := ⟨List.replicate 16 7, by decide⟩
    let salt : Salt := ⟨List.replicate saltLen 1, by decide⟩
    let enc : V6ShapedEncoder Crypto.transparent :=
      ⟨(), Nonce.new, salt, 0, psk.profiled Crypto.transparent, 0, none, .ready⟩
    let env : SealEnv := ⟨0, false, false, 0⟩
    let dropped : BufferOp := .record ⟨[], .stream 1, 0, [], .drop⟩
    let datagram : BufferOp := .record ⟨[], .datagram 1, 0, [.payloadMut [1]], .sealMut 1 env⟩
    let stream : BufferOp := .record ⟨[], .stream 1400, 0, [.payloadMut [2]], .sealMut 1 env⟩
    let offers (trace : List (BufferOp × BufferEvent)) : List (Option Nat) :=
      trace.map fun s => atRecord (fun _ r => r.offered) none s.1 s.2
    offers (bufferRun enc (.new 4096) [dropped, datagram, stream]).1 = [some 1, some 1, some 1400] ∧
      offers (bufferRun enc (.new 4096) [datagram, stream]).1 = [some 1, some 1335] ∧
      ¬ Erases enc (.new 4096) [dropped, datagram, stream] := by
  intro psk salt enc env dropped datagram stream offers
  -- both runs are evaluated once
  have hrun : offers (bufferRun enc (.new 4096) [dropped, datagram, stream]).1 = [some 1, some 1, some 1400] ∧
      (Runs.Machine.visible BufferEvent.deleted (bufferRun enc (.new 4096) [dropped, datagram, stream]).1).map Prod.fst =
        [datagram, stream] ∧
      offers (Runs.Machine.visible BufferEvent.deleted (bufferRun enc (.new 4096) [dropped, datagram, stream]).1) =
        [some 1, some 1400] := by decide +kernel
  obtain ⟨hall, hcalls, hkept⟩ := hrun
  have hrest : offers (bufferRun enc (.new 4096) [datagram, stream]).1 = [some 1, some 1335] := by decide +kernel
  refine ⟨hall, hrest, fun ⟨hsame, _⟩ => ?_⟩
  rw [hcalls] at hsame
  have hoffers := congrArg offers hsame
  rw [hrest, hkept] at hoffers
  exact absurd hoffers (by decide)

end Snell
