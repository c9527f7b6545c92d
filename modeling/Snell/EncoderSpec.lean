/-
What a record encoder does, its buffer apart.

An encoder is specified by two functions of its own state: `plan`, what a
reservation would be, and `image`, the record a payload is sealed into. Every
implementation follows them in any buffer (`reserve_spec`, `finish_spec`), so
what one reservation comes to is a function of the encoder, of the queue in
the buffer and of what the caller wrote (`Attempt.spec`, `Attempt.run_spec`).
-/
import Snell.EncodeRun
import Snell.ReservationFacts

namespace Snell

open RecordEncoder

/-- What `reserve` comes to, from the encoder's plan. -/
inductive Reserves {E : Type} [RecordEncoder E] (Laid : E → Plan → Slot → Record E → Prop) (b : Buffer) (hw : b.Wf)
    (pfx : Bytes) : Res Plan × E → Res (Slot × Record E) × E × Buffer → Prop
  | unplanned {err e} : Reserves Laid b hw pfx (.error (.err err), e) (.error (.err err), e, b)
  | refused {p e r} : (b.queue hw).refusal p.total = some r →
      Reserves Laid b hw pfx (.ok p, e) (.error (.err (Buffer.refusalError (b.queue hw) p.total r)), e, b)
  | held {p e slot record head b'} : (b.queue hw).refusal p.total = none → slot.maxPayload = p.maxPayload →
      Held slot p.room b.filled head p.fixed pfx [] b' → Buffer.Kept b b' → Laid (setState e .reserving) p slot record →
      Reserves Laid b hw pfx (.ok p, e) (.ok (slot, record), setState e .reserving, b')

class EncoderSpec (E : Type) [RecordEncoder E] where
  /-- What a reservation would be, and the encoder after asking. -/
  plan : E → (prefixLen : Nat) → RecordSize → (now : Nat) → Res Plan × E
  /-- The split and the bytes of the record, and the encoder after sealing. -/
  image : E → Plan → (payload : Bytes) → SealEnv → Res (Nat × Bytes) × E
  /-- The record is in the slot as planned. -/
  Laid : E → Plan → Slot → Record E → Prop
  state_set : ∀ (e : E) s, state (setState e s) = s
  set_set : ∀ (e : E) s s', setState (setState e s) s' = setState e s'
  set_state : ∀ e : E, setState e (state e) = e
  plan_blocked : ∀ {e : E} {f} n size now, (state e).ensureReady = .error f → plan e n size now = (.error f, e)
  plan_state : ∀ (e : E) n size now, state (plan e n size now).2 = state e
  plan_error : ∀ {e e' : E} {n size now f}, plan e n size now = (.error f, e') → ∃ err, f = .err err
  plan_prefix : ∀ {e e' : E} {n size now p}, plan e n size now = (.ok p, e') → n ≤ p.maxPayload
  reserve_spec : ∀ (e : E) (b : Buffer) (hw : b.Wf) pfx size now,
    Reserves Laid b hw pfx (plan e pfx.length size now) (reserve e b pfx size now)
  finish_spec : ∀ {e : E} {b slot record live head pfx content p}, Laid e p slot record →
    Held slot p.room live head p.fixed pfx content b → ∀ {len}, len ≤ (pfx ++ content).length → len ≤ slot.maxPayload →
    ∀ env, Finished live b (image e p ((pfx ++ content).take len) env) (finish e b slot record len env)
  image_ok : ∀ {e e' : E} {p payload env r}, image e p payload env = (.ok r, e') → state e' = .ready
  image_error : ∀ {e e' : E} {p payload env err}, image e p payload env = (.error (.err err), e') →
    state e' ≠ .reserving
  /-- What is sealed does not depend on the size that was asked for. -/
  image_size : ∀ {e e₁ e₂ : E} {n size₁ size₂ now p₁ p₂}, plan e n size₁ now = (.ok p₁, e₁) →
    plan e n size₂ now = (.ok p₂, e₂) → ∀ {payload}, payload.length ≤ p₁.maxPayload → payload.length ≤ p₂.maxPayload →
    ∀ env, (image (setState e₁ .reserving) p₁ payload env).1 = (image (setState e₂ .reserving) p₂ payload env).1

/-! ## What the caller writes -/

/-- The payload behind the prefix: what `payload_mut` committed, and while
that is nothing what is in `payload_uninit`'s slice. -/
structure Draft where
  content : Bytes
  uninit : Bytes

namespace Draft

/-- Nothing is committed, and the slice holds what the memory held. -/
def start (capacity : Nat) (stale : Bytes) : Draft := ⟨[], overwrite stale (List.replicate capacity 0)⟩

def access (capacity : Nat) (d : Draft) : Access → Draft
  | .payloadMut data =>
    { d with content := overwrite data (d.content ++ List.replicate (capacity - d.content.length) 0) }
  | .payloadUninit data => if d.content = [] then { d with uninit := overwrite data d.uninit } else d

def accesses (capacity : Nat) (d : Draft) (as : List Access) : Draft := as.foldl (access capacity) d

/-- The payload `seal` takes, with `n` bytes behind the prefix. -/
def sealMut (d : Draft) (p : Plan) (pfx : Bytes) (n : Nat) : Except Error Bytes :=
  if p.maxPayload < pfx.length + n then .error .payloadTooLarge
  else if d.content.length < n then .error .pendingWire
  else .ok (pfx ++ d.content.take n)

/-- The payload `seal_init` takes. -/
def sealInit (d : Draft) (p : Plan) (pfx : Bytes) (n : Nat) : Except Error Bytes :=
  if p.maxPayload < pfx.length + n then .error .payloadTooLarge
  else if d.content ≠ [] then .error .pendingWire
  else .ok (pfx ++ d.uninit.take n)

theorem sealMut_length {d : Draft} {p : Plan} {pfx payload : Bytes} {n : Nat} (h : d.sealMut p pfx n = .ok payload) :
    payload.length ≤ p.maxPayload := by
  unfold sealMut at h
  split at h
  · cases h
  · split at h
    · cases h
    · cases h; rw [List.length_append, List.length_take]; omega

theorem sealMut_error {d : Draft} {p : Plan} {pfx : Bytes} {n : Nat} {err : Error} (hp : pfx.length ≤ p.maxPayload)
    (h : d.sealMut p pfx n = .error err) :
    (err = .payloadTooLarge ∧ p.capacity pfx < n) ∨ (err = .pendingWire ∧ n ≤ p.capacity pfx) := by
  unfold sealMut at h
  rw [Plan.capacity]
  split at h
  · cases h; exact .inl ⟨rfl, by omega⟩
  · split at h
    · cases h; exact .inr ⟨rfl, by omega⟩
    · cases h

theorem sealInit_length {d : Draft} {p : Plan} {pfx payload : Bytes} {n : Nat} (h : d.sealInit p pfx n = .ok payload) :
    payload.length ≤ p.maxPayload := by
  unfold sealInit at h
  split at h
  · cases h
  · split at h
    · cases h
    · cases h; rw [List.length_append, List.length_take]; omega

theorem sealInit_error {d : Draft} {p : Plan} {pfx : Bytes} {n : Nat} {err : Error} (hp : pfx.length ≤ p.maxPayload)
    (h : d.sealInit p pfx n = .error err) :
    (err = .payloadTooLarge ∧ p.capacity pfx < n) ∨ (err = .pendingWire ∧ n ≤ p.capacity pfx) := by
  unfold sealInit at h
  rw [Plan.capacity]
  split at h
  · cases h; exact .inl ⟨rfl, by omega⟩
  · split at h
    · cases h; exact .inr ⟨rfl, by omega⟩
    · cases h

/-- What `payload_mut` wrote is what `seal` takes. -/
theorem sealMut_payloadMut {p : Plan} {pfx content : Bytes} (stale : Bytes)
    (h : pfx.length + content.length ≤ p.maxPayload) :
    ((Draft.start (p.capacity pfx) stale).accesses (p.capacity pfx) [.payloadMut content]).sealMut p pfx content.length =
      .ok (pfx ++ content) := by
  have hcap : content.length ≤ (List.replicate (p.capacity pfx) (0 : UInt8)).length := by
    rw [List.length_replicate, Plan.capacity]
    omega
  have hdraft : ((Draft.start (p.capacity pfx) stale).accesses (p.capacity pfx) [.payloadMut content]).content =
      overwrite content (List.replicate (p.capacity pfx) 0) := rfl
  have hlen : ¬ (overwrite content (List.replicate (p.capacity pfx) 0)).length < content.length := by
    rw [length_overwrite]
    omega
  rw [Draft.sealMut, hdraft, if_neg (by omega), if_neg hlen, overwrite, List.take_of_length_le hcap, List.take_left]

end Draft

/-- The buffer of an open reservation holds the draft. -/
structure Drafted (slot : Slot) (p : Plan) (live head pfx : Bytes) (d : Draft) (b : Buffer) : Prop where
  held : Held slot p.room live head p.fixed pfx d.content b
  uninit : d.content = [] → b.spare.take slot.capacity = d.uninit

namespace Drafted

variable {slot : Slot} {p : Plan} {live head pfx : Bytes} {d : Draft} {b : Buffer}

theorem start (h : Held slot p.room live head p.fixed pfx [] b) :
    Drafted slot p live head pfx (.start slot.capacity b.spare) b := by
  refine ⟨h, fun _ => ?_⟩
  have h₁ := h.stop; have h₂ := h.capacity; have h₃ := h.prefix_le; have h₄ := h.prefixLen
  simp only [Buffer.stop, List.length_nil] at h₁
  simp only [Buffer.capacity] at h₂
  have hlen : (b.spare.take slot.capacity).length = slot.capacity := by
    rw [List.length_take, Slot.capacity]; omega
  simp only [Draft.start, overwrite, List.length_replicate, hlen, List.drop_replicate, Nat.sub_self,
    List.replicate_zero, List.append_nil]

theorem access (h : Drafted slot p live head pfx d b) (a : Access) :
    ∃ b', slot.access b a = .ok b' ∧ Buffer.Kept b b' ∧ Drafted slot p live head pfx (d.access slot.capacity a) b' := by
  cases a with
  | payloadMut data =>
    obtain ⟨b', hrun, hk, hh⟩ := h.held.payloadMut data
    refine ⟨b', hrun, hk, hh, fun hnil => ?_⟩
    -- nothing was committed, so there was no room for the caller's bytes
    have hzero : slot.capacity = 0 := by
      have hlen := congrArg List.length hnil
      have := h.held.content_le
      simp only [Draft.access, length_overwrite, List.length_append, List.length_replicate, List.length_nil] at hlen
      omega
    have hd : d.content = [] := List.eq_nil_of_length_eq_zero (by have := h.held.content_le; omega)
    have := h.uninit hd
    rw [hzero, List.take_zero] at this ⊢
    exact this
  | payloadUninit data =>
    obtain ⟨b', hrun, hk, hh, hspare⟩ := h.held.payloadUninit data
    refine ⟨b', hrun, hk, ?_⟩
    simp only [Draft.access]
    split
    · next hd => exact ⟨hh, fun _ => by rw [hspare hd, h.uninit hd]⟩
    · next hd => exact ⟨hh, fun hd' => absurd hd' hd⟩

theorem accesses (h : Drafted slot p live head pfx d b) (as : List Access) :
    ∃ b', slot.accesses b as = .ok b' ∧ Buffer.Kept b b' ∧
      Drafted slot p live head pfx (d.accesses slot.capacity as) b' := by
  induction as generalizing d b with
  | nil => exact ⟨b, rfl, .refl h.held.wf, h⟩
  | cons a as ih =>
    obtain ⟨b₁, h₁, hk₁, hd₁⟩ := h.access a
    obtain ⟨b₂, h₂, hk₂, hd₂⟩ := ih hd₁
    refine ⟨b₂, ?_, hk₁.trans hk₂, hd₂⟩
    simp only [Slot.accesses, List.foldlM_cons, h₁, bind, Except.bind] at h₂ ⊢
    exact h₂

/-- What `seal` finds behind the prefix. -/
theorem written (h : Drafted slot p live head pfx d b) (n : Nat) : slot.written b n = d.content.take n := by
  rw [Slot.written, h.held.storage, Slot.unwrittenStart, h.held.payloadStart, h.held.prefixLen]
  simp only [← List.append_assoc]
  rw [List.drop_left' (by simp only [List.length_append])]

/-- What `seal_init` finds there. -/
theorem written_init (h : Drafted slot p live head pfx d b) (hd : d.content = []) {n : Nat} (hn : n ≤ slot.capacity) :
    slot.written { b with storage := b.storage ++ b.spare } n = d.uninit.take n := by
  rw [Slot.written, h.held.storage, Slot.unwrittenStart, h.held.payloadStart, h.held.prefixLen, hd, ← h.uninit hd,
    List.take_take, Nat.min_eq_left hn]
  simp only [List.append_nil]
  rw [List.drop_left' (by simp only [List.length_append]; omega)]

end Drafted

/-! ## One reservation -/

section Spec

variable {E : Type} [RecordEncoder E] [EncoderSpec E]

open EncoderSpec

/-- What sealing a payload comes to, if there is one to seal. -/
def sealSpec (e : E) (p : Plan) (pfx : Bytes) (payload : Except Error Bytes) (env : SealEnv) : Attempted × E :=
  match payload with
  | .error err => (.failed (p.capacity pfx) (.err err), setState e .ready)
  | .ok payload =>
    match image e p payload env with
    | (.ok (split, record), e) => (.sealed (p.capacity pfx) payload split record, e)
    | (.error f, e) => (.failed (p.capacity pfx) f, e)

theorem sealSpec_kept (e : E) (p : Plan) (pfx : Bytes) (payload : Except Error Bytes) (env : SealEnv) :
    (sealSpec e p pfx payload env).1.deleted = false := by
  unfold sealSpec
  cases payload with
  | error err => rfl
  | ok payload =>
    simp only
    rcases image e p payload env with ⟨r, e'⟩
    cases r <;> rfl

def Close.spec (close : Close) (e : E) (p : Plan) (pfx : Bytes) (d : Draft) : Attempted × E :=
  match close with
  | .sealMut n env => sealSpec e p pfx (d.sealMut p pfx n) env
  | .sealInit n env => sealSpec e p pfx (d.sealInit p pfx n) env
  | .drop => (.dropped (p.capacity pfx), setState e .ready)
  | .forget => (.forgotten (p.capacity pfx) (p.fixed ++ (pfx ++ d.content)), e)

/-- What an attempt comes to in a buffer that holds `q`, with `stale` in its
uncommitted memory. -/
def Attempt.spec (a : Attempt) (e : E) (q : BoundedQueue UInt8) (stale : Bytes) : Attempted × E :=
  match plan e a.pfx.length a.size a.now with
  | (.error f, e) => (.refused f, e)
  | (.ok p, e) =>
    match q.refusal p.total with
    | some r => (.refused (.err (Buffer.refusalError q p.total r)), e)
    | none =>
      a.close.spec (setState e .reserving) p a.pfx
        ((Draft.start (p.capacity a.pfx) stale).accesses (p.capacity a.pfx) a.accesses)

/-- A result is as specified: if the call returned, the encoder is too, and
what it left is behind the live bytes in the same allocation. -/
structure Meets (live : Bytes) (b : Buffer) (spec : Attempted × E) (r : Attempted × E × Buffer) : Prop where
  result : r.1 = spec.1
  encoder : spec.1.returns = true → r.2.1 = spec.2
  filled : spec.1.returns = true → r.2.2.filled = live ++ spec.1.left
  kept : spec.1.returns = true → Buffer.Kept b r.2.2

omit [RecordEncoder E] [EncoderSpec E] in
theorem Meets.trans {live : Bytes} {b b₁ : Buffer} {spec : Attempted × E} {r : Attempted × E × Buffer}
    (hk : Buffer.Kept b b₁) (h : Meets live b₁ spec r) : Meets live b spec r :=
  ⟨h.result, h.encoder, h.filled, fun hr => hk.trans (h.kept hr)⟩

variable {slot : Slot} {p : Plan} {live head pfx : Bytes} {d : Draft} {b : Buffer} {e : E} {record : Record E}

omit [EncoderSpec E] in
theorem cancel_spec {content : Bytes} (hs : state e = .reserving)
    (h : Held slot p.room live head p.fixed pfx content b) :
    ∃ b', Reservation.cancel e b slot = (setState e .ready, b') ∧ b'.filled = live ∧ Buffer.Kept b b' := by
  obtain ⟨b', ht, hf, hk⟩ := h.truncate
  exact ⟨b', by rw [Reservation.cancel, if_pos hs, ht], hf, hk⟩

/-- A seal that fails before `finish` cancels. -/
theorem sealAttempted_cancel {content : Bytes} (hs : state e = .reserving)
    (h : Held slot p.room live head p.fixed pfx content b) (hcap : slot.capacity = p.capacity pfx) (payload : Bytes)
    (err : Error) (env : SealEnv) :
    Meets live b (sealSpec e p pfx (.error err) env)
      (sealAttempted slot.capacity live.length payload (Reservation.dropped slot (.error (.err err), e, b))) := by
  obtain ⟨b', hc, hf, hk⟩ := cancel_spec hs h
  simp only [Reservation.dropped, hc, sealAttempted, sealSpec, hcap]
  exact ⟨rfl, fun _ => rfl, fun _ => hf.trans (List.append_nil _).symm, fun _ => hk⟩

/-- `finish` as the end of a reservation. -/
theorem sealAttempted_finish (hl : Laid e p slot record) {content : Bytes}
    (h : Held slot p.room live head p.fixed pfx content b) (len : Nat) (hc : len ≤ (pfx ++ content).length)
    (hm : len ≤ slot.maxPayload) (hcap : slot.capacity = p.capacity pfx) (env : SealEnv) :
    Meets live b (sealSpec e p pfx (.ok ((pfx ++ content).take len)) env)
      (sealAttempted slot.capacity live.length ((pfx ++ content).take len)
        (Reservation.dropped slot (finish e b slot record len env))) := by
  have hfin := finish_spec hl h hc hm env
  simp only [sealSpec]
  rcases hi : image e p ((pfx ++ content).take len) env with ⟨r, e'⟩
  rw [hi] at hfin
  generalize finish e b slot record len env = result at hfin
  cases hfin with
  | @ok split rec e' b' hf hk =>
    have hne : state e' ≠ .reserving := by rw [image_ok hi]; nofun
    simp only [Reservation.dropped, Reservation.cancel, if_neg hne, sealAttempted, hf, List.drop_left, hcap]
    exact ⟨rfl, fun _ => rfl, fun _ => hf, fun _ => hk⟩
  | @error err e' b' hf hk =>
    simp only [Reservation.dropped, Reservation.cancel, if_neg (image_error hi), sealAttempted, hcap]
    exact ⟨rfl, fun _ => rfl, fun _ => hf.trans (List.append_nil _).symm, fun _ => hk⟩
  | @stopped f e' b' hf =>
    have hret : (Attempted.failed (p.capacity pfx) f).returns ≠ true := by
      cases f with
      | err err => exact absurd rfl (hf err)
      | panic | diverged => nofun
    simp only [Reservation.dropped, sealAttempted, hcap]
    exact ⟨rfl, fun hr => absurd hr hret, fun hr => absurd hr hret, fun hr => absurd hr hret⟩

theorem Drafted.close_spec (h : Drafted slot p live head pfx d b) (hs : state e = .reserving)
    (hl : Laid e p slot record) (hm : slot.maxPayload = p.maxPayload) (close : Close) :
    Meets live b (close.spec e p pfx d) (close.attempt live.length pfx e b slot record) := by
  have hp := h.held.prefixLen; have hstop := h.held.stop; have hpre := h.held.prefix_le
  have hcap : slot.capacity = p.capacity pfx := by rw [Slot.capacity, Plan.capacity, hm, hp]
  have hcap' : slot.capacity = slot.maxPayload - pfx.length := by rw [Slot.capacity, hp]
  cases close with
  | sealMut n env =>
    simp only [Close.attempt, Close.spec, Draft.sealMut, Reservation.sealMut, h.written]
    by_cases ht : slot.prefixLen + n ≤ slot.maxPayload
    · simp only [Slot.total, if_pos ht]
      rw [if_neg (by omega)]
      by_cases hn : d.content.length < n
      · rw [if_pos hn, if_pos (by omega)]
        exact sealAttempted_cancel hs h.held hcap _ _ _
      · rw [if_neg hn, if_neg (by omega)]
        have := sealAttempted_finish hl h.held (pfx.length + n) (by rw [List.length_append]; omega) (by omega) hcap
          env
        rw [List.take_length_add_append] at this
        rw [hp]
        exact this
    · simp only [Slot.total, if_neg ht]
      rw [if_pos (by omega)]
      exact sealAttempted_cancel hs h.held hcap _ _ _
  | sealInit n env =>
    simp only [Close.attempt, Close.spec, Draft.sealInit, Reservation.sealInit]
    by_cases ht : slot.prefixLen + n ≤ slot.maxPayload
    · simp only [Slot.total, if_pos ht]
      rw [if_neg (show ¬ p.maxPayload < pfx.length + n by omega)]
      by_cases hd : d.content = []
      · have hheld := h.held
        rw [hd] at hheld
        rw [hd, List.length_nil] at hstop
        have hu : ¬ b.stop ≠ slot.unwrittenStart := by
          simp only [Slot.unwrittenStart, ne_eq, Decidable.not_not]; omega
        have hspare : b.spare.take n = d.uninit.take n := by
          rw [← h.uninit hd, List.take_take, Nat.min_eq_left (by omega)]
        obtain ⟨b₁, hc, hheld₁, hlen, hk⟩ := hheld.commit (n := n) (by omega)
        rw [if_neg hu, if_neg (not_not.mpr hd)]
        simp only [hc, h.written_init hd (show n ≤ slot.capacity by omega)]
        rw [hspare] at hheld₁ hlen
        have := sealAttempted_finish hl hheld₁ (pfx.length + n) (by rw [List.length_append]; omega) (by omega) hcap
          env
        rw [List.take_length_add_append, List.take_take, Nat.min_self] at this
        rw [hp]
        exact this.trans hk
      · have hu : b.stop ≠ slot.unwrittenStart := by
          have := List.length_pos_iff.mpr hd
          simp only [Slot.unwrittenStart]; omega
        rw [if_pos hu, if_pos hd]
        exact sealAttempted_cancel hs h.held hcap _ _ _
    · simp only [Slot.total, if_neg ht]
      rw [if_pos (by omega)]
      exact sealAttempted_cancel hs h.held hcap _ _ _
  | drop =>
    obtain ⟨b', hc, hf, hk⟩ := cancel_spec hs h.held
    simp only [Close.attempt, Close.spec, hc, hcap]
    exact ⟨rfl, fun _ => rfl, fun _ => hf.trans (List.append_nil _).symm, fun _ => hk⟩
  | forget =>
    simp only [Close.attempt, Close.spec, hcap, h.held.filled, List.drop_left]
    exact ⟨rfl, fun _ => rfl, fun _ => h.held.filled, fun _ => .refl h.held.wf⟩

/-- **What a reservation comes to does not depend on the buffer**, but for the
queue in it, and for the bytes of uninitialised memory the caller seals
without having written them. -/
theorem Attempt.run_spec (a : Attempt) (e : E) {b : Buffer} (hw : b.Wf) :
    ∃ stale, Meets b.filled b (a.spec e (b.queue hw) stale) (a.run e b) := by
  have hres := reserve_spec e b hw a.pfx a.size a.now
  unfold Attempt.spec Attempt.run
  rcases hplan : plan e a.pfx.length a.size a.now with ⟨r, e'⟩
  rw [hplan] at hres
  generalize reserve e b a.pfx a.size a.now = result at hres
  cases hres with
  | unplanned =>
    exact ⟨[], rfl, fun _ => rfl, fun _ => (List.append_nil _).symm, fun _ => .refl hw⟩
  | @refused p e' r hr =>
    simp only [hr]
    exact ⟨[], rfl, fun _ => rfl, fun _ => (List.append_nil _).symm, fun _ => .refl hw⟩
  | @held p e' slot record head b₁ hr hm hh hk hl =>
    have hcap : p.capacity a.pfx = slot.capacity := by rw [Plan.capacity, Slot.capacity, hm, hh.prefixLen]
    obtain ⟨b₂, hacc, hk₂, hd₂⟩ := (Drafted.start hh).accesses a.accesses
    simp only [hr, hacc, hcap]
    have := (hd₂.close_spec (state_set e' .reserving) hl hm a.close).trans (hk.trans hk₂)
    rw [Buffer.filled_length] at this
    exact ⟨b₁.spare, this⟩

/-- An attempt that was refused or dropped leaves the encoder as planning left
it. -/
theorem Attempt.spec_deleted {a : Attempt} {q : BoundedQueue UInt8} {stale : Bytes}
    (h : (a.spec e q stale).1.deleted = true) : (a.spec e q stale).2 = (plan e a.pfx.length a.size a.now).2 := by
  unfold Attempt.spec at h ⊢
  rcases hplan : plan e a.pfx.length a.size a.now with ⟨r, e₁⟩
  rw [hplan] at h
  cases r with
  | error f => rfl
  | ok p =>
    have hready : state e₁ = .ready := by
      have hs := plan_state e a.pfx.length a.size a.now
      rw [hplan] at hs
      obtain ⟨hr, _⟩ | ⟨_, err, hf⟩ := (state e).ensureReady_cases
      · exact hs.trans hr
      · rw [plan_blocked _ _ _ hf] at hplan; cases hplan
    simp only at h ⊢
    cases hr : q.refusal p.total with
    | some r => rfl
    | none =>
      simp only [hr, Close.spec] at h ⊢
      cases hc : a.close with
      | drop => simp only [set_set]; rw [← hready, set_state]
      | forget => rw [hc] at h; cases h
      | sealMut n env => rw [hc] at h; simp only [sealSpec_kept] at h; cases h
      | sealInit n env => rw [hc] at h; simp only [sealSpec_kept] at h; cases h

end Spec

end Snell
