/-
`poll_read_record` (`snell-runtime/src/bufio.rs`): local bytes are read straight
into a reservation of the encode buffer and sealed there.

With the lease grown to its limit a reservation is refused only for want of
room behind records that are there already. Otherwise the reservation offers
room, so a read of nothing is the end of the local stream, what is read is
sealed, and a reservation given up leaves the buffer and the encoder as they
were (`readRecord_reads`).
-/
import Snell.BufIo
import Snell.StreamRoom

namespace Snell

open RecordEncoder

section Read

variable {E : Type} [RecordEncoder E]

/-- `poll_read_record`: how many bytes were read into the reservation, and
the split. A reservation that is not sealed is dropped. -/
def pollReadRecord (reader : ReadHalf) (e : E) (b : Buffer) (slot : Slot) (record : Record E) (env : SealEnv) :
    Polled (SessionRes (Nat × Nat)) × ReadHalf × E × Buffer :=
  match slot.uninitLen b with
  | .error f => (.ready (.error f.inSession), reader, Reservation.cancel e b slot)
  | .ok room =>
    match reader.pollRead room with
    | (.pending, reader) => (.pending, reader, Reservation.cancel e b slot)
    | (.ready (.error kind), reader) => (.ready (.error (.err (.io kind))), reader, Reservation.cancel e b slot)
    | (.ready (.ok bytes), reader) =>
      let b := b.writeSpare bytes
      if bytes.length = 0 then (.ready (.ok (0, 0)), reader, Reservation.cancel e b slot)
      else
        match Reservation.sealInit e b slot record bytes.length env with
        | (.ok split, e, b) => (.ready (.ok (bytes.length, split)), reader, e, b)
        | (.error f, e, b) => (.ready (.error f.inSession), reader, e, b)

/-- The pump's `reserve`, and what it reads into it. -/
def readRecord (reader : ReadHalf) (e : E) (b : Buffer) (hint now : Nat) (env : SealEnv) :
    Polled (SessionRes (Nat × Nat)) × ReadHalf × E × Buffer :=
  match reserve e b [] (.stream hint) now with
  | (.error f, e, b) => (.ready (.error f.inSession), reader, e, b)
  | (.ok (slot, record), e, b) => pollReadRecord reader e b slot record env

end Read

section Reads

variable {E : Type} [RecordEncoder E] [EncoderSpec E] [LawfulEncoder E] [DatagramEncoder E] [StreamEncoder E]

open EncoderSpec LawfulEncoder DatagramEncoder StreamEncoder

/-- The encoder seals the next record whatever the clock reads, if nothing
outside it fails. -/
structure Sustains (e : E) (sealing : Nat → SealEnv) : Prop where
  valid : Valid e
  roomy : Roomy e
  ready : state e = .ready
  serves : ∀ i, Serves e (sealing i)
  aead : ∀ i, (sealing i).AeadServes

variable {e e' e₁ : E} {sealing : Nat → SealEnv} {env : SealEnv} {b b' : Buffer} {reader : ReadHalf}
  {hint now : Nat} {p : Plan}

/-- Asking for a plan changes nothing that is sealed later. -/
theorem Sustains.plan (h : Sustains e sealing) (size : RecordSize) (now : Nat) :
    Sustains (EncoderSpec.plan e 0 size now).2 sealing where
  valid := plan_valid _ _ _ _ h.valid
  roomy := roomy_plan _ _ _ _ h.roomy
  ready := (plan_state _ _ _ _).trans h.ready
  serves i := serves_plan _ _ _ _ _ (h.serves i)
  aead := h.aead

/-- A record is sealed. -/
theorem Sustains.sealed (h : Sustains e sealing) {size : RecordSize} {payload : Bytes}
    (hplan : EncoderSpec.plan e 0 size now = (.ok p, e₁)) (hlen : payload.length ≤ p.maxPayload) {split : Nat}
    {record : Bytes} (himage : image (setState e₁ .reserving) p payload env = (.ok (split, record), e')) :
    Sustains e' sealing ∧ split ≤ record.length ∧ Frame (pos e) payload (rotate split record) (pos e') := by
  obtain ⟨hv, hsplit, hframe⟩ := image_frame h.valid hplan hlen himage
  have hr := roomy_plan e 0 size now h.roomy
  rw [hplan] at hr
  have hr' := roomy_image (setState e₁ .reserving) p payload env (roomy_set _ _ hr)
  rw [himage] at hr'
  exact ⟨⟨hv, hr', image_ok himage, fun i => serves_next himage (h.aead i), h.aead⟩, hsplit, hframe⟩

/-- What the buffer and the encoder are after a reservation that was given up. -/
structure Untouched (e e' : E) (sealing : Nat → SealEnv) (b b' : Buffer) : Prop where
  streams : Sustains e' sealing
  pos_eq : pos e' = pos e
  filled : b'.filled = b.filled
  kept : Buffer.Kept b b'

/-- What reading a record comes to: nothing was read, or what was read is a
record behind those that were there, or there is no room behind them. -/
inductive ReadsRecord (reader : ReadHalf) (e : E) (sealing : Nat → SealEnv) (b : Buffer) :
    Polled (SessionRes (Nat × Nat)) × ReadHalf × E × Buffer → Prop
  | pending {reader' : ReadHalf} {e' : E} {b' : Buffer} : reader.Gave reader' [] → reader.Waits reader' →
    Untouched e e' sealing b b' →
      ReadsRecord reader e sealing b (.pending, reader', e', b')
  | failed {reader' : ReadHalf} {e' : E} {b' : Buffer} (kind : IoErrorKind) : reader.Gave reader' [] →
    reader.Fails kind → Untouched e e' sealing b b' →
      ReadsRecord reader e sealing b (.ready (.error (.err (.io kind))), reader', e', b')
  | ended {reader' : ReadHalf} {e' : E} {b' : Buffer} : reader.Gave reader' [] → reader.AtEnd →
    Untouched e e' sealing b b' →
      ReadsRecord reader e sealing b (.ready (.ok (0, 0)), reader', e', b')
  | sealed {reader' : ReadHalf} {e' : E} {b' : Buffer} {bytes record : Bytes}
    {split : Nat} : reader.Gave reader' bytes → 0 < bytes.length →
      Sustains e' sealing → split ≤ record.length → Frame (pos e) bytes (rotate split record) (pos e') →
      b'.filled = b.filled ++ record → Buffer.Kept b b' →
      ReadsRecord reader e sealing b (.ready (.ok (bytes.length, split)), reader', e', b')
  | full {e' : E} : b.filled ≠ [] → Untouched e e' sealing b b →
      ReadsRecord reader e sealing b (.ready (.error (.err (.protocol .payloadTooLarge))), reader, e', b)

omit [EncoderSpec E] [LawfulEncoder E] [DatagramEncoder E] [StreamEncoder E] in
/-- A new reservation's slice is its whole capacity. -/
theorem Held.uninitLen {slot : Slot} {room : Nat} {live head fixed pfx : Bytes}
    (h : Held slot room live head fixed pfx [] b) : slot.uninitLen b = .ok slot.capacity := by
  have h₁ := h.stop; have h₂ := h.prefix_le; have h₃ := h.prefixLen; have h₄ := h.capacity; have h₅ := h.max
  simp only [Buffer.stop, List.length_nil] at h₁
  simp only [Buffer.capacity] at h₄
  have hcap : slot.capacity = slot.maxPayload - pfx.length := by rw [Slot.capacity, h₃]
  have hstop : ¬ b.stop ≠ slot.unwrittenStart := by
    simp only [Buffer.stop, Slot.unwrittenStart, ne_eq, Decidable.not_not]
    omega
  rw [Slot.uninitLen, if_neg hstop, if_pos]
  simp only [Buffer.writable, Buffer.capacity]
  omega

omit [LawfulEncoder E] [DatagramEncoder E] [StreamEncoder E] in
/-- The attempt that seals what was read. -/
theorem initAttempt_spec {bytes : Bytes} (hplan : plan e 0 (.stream hint) now = (.ok p, e₁)) {q : BoundedQueue UInt8}
    (hroom : q.refusal p.total = none) (hlen : bytes.length ≤ p.maxPayload) (stale : Bytes) :
    (Attempt.mk [] (.stream hint) now [.payloadUninit bytes] (.sealInit bytes.length env)).spec e q stale =
      sealSpec (setState e₁ .reserving) p [] (.ok bytes) env := by
  have hfront : (overwrite bytes (overwrite stale (List.replicate p.maxPayload 0))).take bytes.length = bytes := by
    rw [overwrite, length_overwrite, List.length_replicate, List.take_of_length_le hlen, List.take_left]
  have hcapacity : p.capacity ([] : Bytes) = p.maxPayload := rfl
  simp only [Attempt.spec, List.length_nil, hplan, hroom, Close.spec, hcapacity, Draft.accesses, List.foldl_cons,
    List.foldl_nil, Draft.access, Draft.start, ↓reduceIte, Draft.sealInit, Nat.zero_add, Nat.not_lt.mpr hlen, ne_eq,
    not_true_eq_false, hfront, List.nil_append]

theorem readRecord_reads (h : Sustains e sealing) (hw : b.Wf) (hmax : b.max = v6WireCap) (hcap : v6WireCap ≤ b.capacity)
    (hhint : 0 < hint) (now i : Nat) (reader : ReadHalf) :
    ReadsRecord reader e sealing b (readRecord reader e b hint now (sealing i)) := by
  obtain ⟨p, e₁, hplan, hpos, hle, htotal⟩ := plan_stream now h.valid h.roomy h.ready hhint
  have hplanned := h.plan (.stream hint) now
  have hpos₁ := plan_pos e 0 (.stream hint) now
  rw [hplan] at hplanned hpos₁
  have hres := reserve_spec e b hw [] (.stream hint) now
  rw [List.length_nil, hplan] at hres
  unfold readRecord
  generalize hreserve : reserve e b [] (.stream hint) now = result at hres
  cases hres with
  | @refused _ _ r hr =>
    -- grown to its limit, the buffer is too full, not too small
    cases r with
    | overCapacity =>
      obtain ⟨hlimit, hover⟩ := BoundedQueue.refusal_eq_overCapacity.mp hr
      have h₁ : (b.queue hw).length + p.total ≤ b.max := hlimit
      have h₂ : b.capacity < (b.queue hw).length + p.total := hover
      omega
    | overLimit =>
      have hover : b.max < (b.queue hw).length + p.total := BoundedQueue.refusal_eq_overLimit.mp hr
      refine .full (fun hnil => ?_) ⟨hplanned, hpos₁, rfl, .refl hw⟩
      rw [Buffer.queue_length, ← Buffer.filled_length, hnil, List.length_nil] at hover
      omega
  | @held _ _ slot record head b₁ hroom hm hheld hk hl =>
    have hslot : slot.capacity = p.maxPayload := by rw [Slot.capacity, hm, hheld.prefixLen]; rfl
    have hs : state (setState e₁ .reserving) = .reserving := state_set _ _
    have hback : setState (setState e₁ .reserving) .ready = e₁ := by rw [set_set, ← hplanned.ready, set_state]
    have hdropped {b₂ : Buffer} (hk₂ : Buffer.Kept b₁ b₂) (hheld₂ : Held slot p.room b.filled head p.fixed [] [] b₂) :
        ∃ b', Reservation.cancel (setState e₁ .reserving) b₂ slot = (e₁, b') ∧ Untouched e e₁ sealing b b' := by
      obtain ⟨b', hc, hf, hk'⟩ := cancel_spec hs hheld₂
      rw [hback] at hc
      exact ⟨b', hc, hplanned, hpos₁, hf, hk.trans (hk₂.trans hk')⟩
    simp only [pollReadRecord, hheld.uninitLen]
    have hread := reader.pollRead_reads (show 0 < slot.capacity by omega)
    generalize reader.pollRead slot.capacity = read at hread
    cases hread with
    | pending hg hwaits =>
      obtain ⟨b', hc, hu⟩ := hdropped (.refl hheld.wf) hheld
      simp only [hc]
      exact .pending hg hwaits hu
    | failed kind hg hfails =>
      obtain ⟨b', hc, hu⟩ := hdropped (.refl hheld.wf) hheld
      simp only [hc]
      exact .failed kind hg hfails hu
    | @read reader' bytes hg hlen hend =>
      obtain ⟨b₂, huninit, hk₂, hheld₂, -⟩ := hheld.payloadUninit bytes
      have hb₂ : b₁.writeSpare bytes = b₂ := by
        simp only [Slot.payloadUninit, hheld.uninitLen, bind, Except.bind, List.take_of_length_le hlen, pure, Except.pure,
          Except.ok.injEq] at huninit
        exact huninit
      simp only [hb₂]
      by_cases hzero : bytes.length = 0
      · rw [if_pos hzero]
        obtain ⟨b', hc, hu⟩ := hdropped hk₂ hheld₂
        have hnil := List.eq_nil_of_length_eq_zero hzero
        subst hnil
        simp only [hc]
        exact .ended hg (hend rfl) hu
      · rw [if_neg hzero]
        let a : Attempt := ⟨[], .stream hint, now, [.payloadUninit bytes], .sealInit bytes.length (sealing i)⟩
        obtain ⟨stale, hmeets⟩ := a.run_spec e hw
        rw [initAttempt_spec hplan hroom (by omega) stale] at hmeets
        have hrun : a.run e b = sealAttempted slot.capacity b.len
            ([] ++ slot.written { b₂ with storage := b₂.storage ++ b₂.spare } bytes.length)
            (Reservation.sealInit (setState e₁ .reserving) b₂ slot record bytes.length (sealing i)) := by
          simp only [a, Attempt.run, hreserve, Slot.accesses, List.foldlM_cons, List.foldlM_nil,
            Slot.access, huninit, bind,
            Except.bind, pure, Except.pure, Close.attempt]
        rw [hrun] at hmeets
        obtain ⟨⟨split, bytes'⟩, e', himage⟩ := stream_serves bytes (h.serves i) hplan
        obtain ⟨hstreams, hsplit, hframe⟩ := h.sealed hplan (by omega) himage
        simp only [sealSpec, himage] at hmeets
        obtain ⟨hr, he, hf, hk'⟩ := hmeets
        generalize Reservation.sealInit (setState e₁ .reserving) b₂ slot record bytes.length (sealing i) = result
          at hr he hf hk'
        obtain ⟨f | split', e'', b'⟩ := result
        · cases hr
        · simp only [sealAttempted, Attempted.sealed.injEq] at hr he hf hk'
          obtain rfl := hr.2.2.1
          obtain rfl := he rfl
          exact .sealed hg (by omega) hstreams hsplit hframe (hf rfl) (hk' rfl)

end Reads

end Snell
