/-
The v4 encoder keeps the encoder contract: what it seals is a v4 frame, and
a seal that fails leaves no byte of its record.
-/
import Snell.LawfulEncoder
import Snell.RecordSeals
import Snell.V4Frame

namespace Snell

open V4 RecordEncoder

namespace V4

/-- Where a v4 sender is. -/
structure Pos (C : Crypto) where
  key : C.Key
  salt : Salt
  first : Bool
  nonce : Nonce

/-- The frame of `V4.Frame`, from position to position. -/
def Pos.Frame {C : Crypto} (p : Pos C) (payload wire : Bytes) (p' : Pos C) : Prop :=
  ∃ nonce', V4.Frame C p.key p.salt p.first p.nonce payload wire nonce' ∧
    p' = { p with first := false, nonce := nonce' }

end V4

namespace V4Encoder

variable {C : Crypto} {ε : Type}

def pos (enc : V4Encoder C ε) : V4.Pos C := ⟨enc.aead, enc.salt, !enc.chunk.saltSent, enc.nonce⟩

/-- The padding and the window fit a header's fields. -/
structure Valid (enc : V4Encoder C ε) : Prop where
  padding : enc.chunk.initialPaddingLen ≤ maxPacketSize
  limit : ∀ w, enc.chunk.last = some w → w.limit ≤ maxPacketSize

theorem Valid.set {enc : V4Encoder C ε} (h : Valid enc) (state : EncoderState) : Valid { enc with state } :=
  ⟨h.padding, h.limit⟩

theorem recordBudget_le {enc : V4Encoder C ε} (h : Valid enc) (now : Nat) :
    enc.chunk.recordBudget now ≤ maxPacketSize := by
  have hb : v4MssBase ≤ maxPacketSize := by decide
  unfold ChunkState.recordBudget
  split
  · omega
  · next w hw =>
    split
    · omega
    · exact h.limit w hw

theorem withSalt_valid {psk : Psk} {salt : Salt} {n : Nat} {entropy : ε} {ne : Endian} {enc : V4Encoder C ε}
    (h : withSalt psk salt n entropy ne = .ok enc) :
    Valid enc ∧ enc.state = .ready ∧ enc.salt = salt ∧ enc.nonce = Nonce.new ∧ enc.chunk = .new n ∧
      C.derive psk.bytes salt = .ok enc.aead := by
  simp only [withSalt, bind, Except.bind] at h
  split at h
  · cases h
  · next hn =>
    simp only [pure, Except.pure] at h
    split at h
    · cases h
    · next key hk =>
      cases h
      exact ⟨⟨by simp only [ChunkState.new]; omega, fun _ h => by cases h⟩, rfl, rfl, rfl, rfl, hk⟩

/-! ## What it does, its buffer apart -/

theorem limitFor_le {enc : V4Encoder C ε} (h : Valid enc) (size : RecordSize) (now : Nat) :
    enc.limitFor size now ≤ maxPacketSize := by
  cases size with
  | stream _ => exact recordBudget_le h now
  | datagram _ => exact Nat.le_refl _

theorem leadingSalt_le (enc : V4Encoder C ε) (n : Nat) : enc.leadingSalt.length ≤ enc.fixedFor n := by
  unfold fixedFor; omega

/-- What `reserve` decides. -/
def plan (enc : V4Encoder C ε) (prefixLen : Nat) (size : RecordSize) (now : Nat) : Res Plan × V4Encoder C ε :=
  (planWith enc.state (enc.limitFor size now) enc.leadingSalt enc.fixedFor (fun _ => tagLen) prefixLen size now, enc)

/-- The record of a plan, in its slot. -/
structure Laid (enc : V4Encoder C ε) (p : Plan) (slot : Slot) (record : V4Record) : Prop where
  room : p.room = tagLen
  fixed : p.fixed = enc.leadingSalt ++ List.replicate (headerCipherLen + record.paddingLen) 0
  headerStart : record.headerStart = slot.recordStart + enc.leadingSalt.length
  paddingLen : record.paddingLen = enc.paddingFor p.maxPayload
  budget : record.budget = enc.chunk.recordBudget p.now
  reservedAt : record.reservedAt = p.now

theorem plan_ok {enc enc' : V4Encoder C ε} {n now : Nat} {size : RecordSize} {p : Plan}
    (h : plan enc n size now = (.ok p, enc')) :
    enc' = enc ∧ p.room = tagLen ∧ p.now = now ∧ p.maxPayload ≤ enc.limitFor size now ∧
      p.fixed = enc.leadingSalt ++ List.replicate (headerCipherLen + enc.paddingFor p.maxPayload) 0 := by
  obtain ⟨hp, rfl⟩ := Prod.mk.inj h
  obtain ⟨_, hpl, hnow, hfixed, hroom⟩ := planWith_ok hp
  have hfix : enc.fixedFor p.maxPayload - enc.leadingSalt.length =
      headerCipherLen + enc.paddingFor p.maxPayload := by unfold fixedFor; omega
  rw [hfix] at hfixed
  exact ⟨rfl, hroom, hnow, (RecordSize.payloadLen_le hpl).2, hfixed⟩

/-- The padding of a record. -/
def paddingOf (enc : V4Encoder C ε) (p : Plan) (payload : Bytes) : Nat :=
  if payload = [] then 0 else enc.paddingFor p.maxPayload

/-- What `seal_record` makes of a payload. -/
def sealImage [Entropy ε] (enc : V4Encoder C ε) (p : Plan) (payload : Bytes) (env : SealEnv) :
    Res (Nat × Bytes) × V4Encoder C ε :=
  let paddingLen := enc.paddingOf p payload
  let header := C.sealed enc.aead enc.nonce [] (plainHeader paddingLen payload.length)
  let nonce := enc.nonce.increment
  if env.headerRefused then (.error (.err .aead), enc)
  else if payload = [] then (.ok (0, enc.leadingSalt ++ header), { enc with nonce })
  else if env.bodyRefused then (.error (.err .aead), { enc with nonce })
  else
    match sealPadding { enc with nonce := nonce.increment } paddingLen (C.sealed enc.aead nonce [] payload) env with
    | (.error f, enc) => (.error f, enc)
    | (.ok (padding, cipher), enc') => (.ok (0, enc.leadingSalt ++ (header ++ (padding ++ cipher))), enc')

variable [Entropy ε]

/-- What `finish` makes of it. -/
def image (enc : V4Encoder C ε) (p : Plan) (payload : Bytes) (env : SealEnv) : Res (Nat × Bytes) × V4Encoder C ε :=
  finished nonce (fun enc state => { enc with state })
    (fun enc' => { enc' with chunk := enc'.chunk.commitWrite p.now (enc.chunk.recordBudget p.now) }) enc
    (sealImage enc p payload env)

theorem reserve_spec (enc : V4Encoder C ε) (b : Buffer) (hw : b.Wf) (pfx : Bytes) (size : RecordSize) (now : Nat) :
    Reserves Laid b hw pfx (plan enc pfx.length size now) (reserve enc b pfx size now) := by
  have h := reserveWith_reserved enc.state (enc.limitFor size now) _ _ (fun _ => tagLen) hw enc.leadingSalt_le pfx
    size now
  rcases hplan : plan enc pfx.length size now with ⟨r, enc'⟩
  obtain ⟨hp, rfl⟩ := Prod.mk.inj hplan
  rw [hp] at h
  simp only [reserve]
  generalize reserveWith _ _ _ _ _ _ _ _ = result at h
  cases h with
  | unplanned => exact .unplanned
  | refused hr => exact .refused hr
  | held hr hm hh hk =>
    obtain ⟨_, hroom, hnow, _, hfixed⟩ := plan_ok hplan
    refine .held hr hm hh hk ⟨hroom, ?_, rfl, ?_, ?_, hnow.symm⟩
    · rw [hm]; exact hfixed
    · rw [hm]; rfl
    · rw [hnow]; rfl

/-! ## Sealing -/

section Seal

variable {enc : V4Encoder C ε}

variable {slot : Slot} {record : V4Record} {p : Plan} {live head pfx content : Bytes} {b : Buffer}

omit [Entropy ε] in
/-- The buffer with the record's end set, split at the header. -/
theorem setRecordEnd_shape (hsl : Laid enc p slot record)
    (hh : Held slot p.room live head p.fixed pfx content b) {len : Nat} (hl : len ≤ (pfx ++ content).length)
    (hm : len ≤ slot.maxPayload) :
    let recordEnd := if len = 0 then record.headerStart + headerCipherLen else slot.payloadStart + len + tagLen
    ∃ spare y z, b.setRecordEnd recordEnd =
        .ok { b with storage := (head ++ enc.leadingSalt) ++ (y ++ z), spare } ∧
      y.length = headerCipherLen ∧ recordEnd ≤ b.max ∧ spare.length + recordEnd = b.capacity ∧
      ((len = 0 ∧ z = []) ∨ (len ≠ 0 ∧ ∃ tail, tail.length = tagLen ∧
        z = List.replicate record.paddingLen 0 ++ ((pfx ++ content).take len ++ tail))) := by
  intro recordEnd
  have hcap := hh.capacity; have hmax := hh.max; have hroom := hsl.room
  have hps := hh.payloadStart; have hhs := hsl.headerStart; have hrs := hh.recordStart
  have hfix := hsl.fixed
  have hflen : p.fixed.length = enc.leadingSalt.length + (headerCipherLen + record.paddingLen) := by
    rw [hfix, List.length_append, List.length_replicate]
  have hsplit : p.fixed = enc.leadingSalt ++ (List.replicate headerCipherLen 0 ++ List.replicate record.paddingLen 0) := by
    rw [hfix, List.replicate_append_replicate]
  by_cases h0 : len = 0
  · have he : recordEnd = (head ++ (enc.leadingSalt ++ List.replicate headerCipherLen 0)).length := by
      simp only [recordEnd, if_pos h0, List.length_append, List.length_replicate]; omega
    have hle : recordEnd ≤ slot.payloadStart := by simp only [recordEnd, if_pos h0]; omega
    obtain ⟨spare, hset, hspare⟩ := Buffer.setRecordEnd_ok (b := b) (e := recordEnd) (by omega)
    refine ⟨spare, List.replicate headerCipherLen 0, [], ?_, List.length_replicate, by omega, hspare,
      .inl ⟨h0, rfl⟩⟩
    have htake : b.storage.take recordEnd = head ++ (enc.leadingSalt ++ List.replicate headerCipherLen 0) := by
      have hst : b.storage = (head ++ (enc.leadingSalt ++ List.replicate headerCipherLen 0)) ++
          (List.replicate record.paddingLen 0 ++ (pfx ++ content)) := by
        rw [hh.storage, hsplit]; simp only [List.append_assoc]
      rw [hst, he, List.take_left]
    have hzero : recordEnd - b.storage.length = 0 := by
      have := hh.stop
      simp only [Buffer.stop] at this
      omega
    rw [hset, htake, hzero]
    simp only [List.replicate_zero, List.append_nil, List.append_assoc]
  · obtain ⟨spare, tail, hset, ht, hspare⟩ := hh.setRecordEnd hl hm (by omega)
    refine ⟨spare, List.replicate headerCipherLen 0,
      List.replicate record.paddingLen 0 ++ ((pfx ++ content).take len ++ tail), ?_, List.length_replicate, ?_, ?_,
      .inr ⟨h0, tail, ht, rfl⟩⟩
    · simp only [recordEnd, if_neg h0, hset, hsplit, List.append_assoc]
    · simp only [recordEnd, if_neg h0]; omega
    · simp only [recordEnd, if_neg h0]; exact hspare

theorem sealPadding_ok {enc' : V4Encoder C ε} {n : Nat} {cipher p c : Bytes} {env : SealEnv}
    (h : sealPadding enc n cipher env = (.ok (p, c), enc')) :
    ∃ entropy padding, enc' = { enc with entropy } ∧ padding.length = n ∧
      p ++ c = swapped enc.ne padding cipher := by
  unfold sealPadding at h
  split at h
  · split at h
    · cases h
    · next padding entropy hf =>
      cases h
      exact ⟨entropy, padding, rfl, fillV4Padding_length hf, rfl⟩
  · cases h
    refine ⟨enc.entropy, [], rfl, by simp only [List.length_nil]; omega, ?_⟩
    rw [swapped, swapEvenIndices_nil]

theorem sealPadding_error {enc' : V4Encoder C ε} {n : Nat} {cipher : Bytes} {env : SealEnv} {f : Fault}
    (h : sealPadding enc n cipher env = (.error f, enc')) :
    (∃ entropy, enc' = { enc with entropy }) ∧ (n * 8 < 2 ^ 53 → EntropyFault ε f) := by
  unfold sealPadding at h
  split at h
  · split at h
    · next hf => cases h; exact ⟨⟨_, rfl⟩, fun hn => fillV4Padding_error hn hf⟩
    · cases h
  · cases h

omit [Entropy ε] in
/-- What is sealed for a payload. -/
def sealing (enc : V4Encoder C ε) (p : Plan) (payload : Bytes) : SealedRecord :=
  ⟨payload, enc.paddingOf p payload, [], []⟩

/-- Sealing a payload behind its padding; the tag's slot may hold anything. -/
theorem sealBody_eq (enc : V4Encoder C ε) {b : Buffer} (x pad payload tail : Bytes)
    (hs : b.storage = x ++ (pad ++ (payload ++ tail))) (ht : tail.length = tagLen) (env : SealEnv) (recordEnd : Nat)
    (he : recordEnd = x.length + (pad.length + (payload.length + tagLen))) :
    (sealBody enc b x.length pad.length recordEnd env).run =
        (if env.bodyRefused then (.error (.err .aead), enc, b)
        else
          match sealPadding { enc with nonce := enc.nonce.increment } pad.length (C.sealed enc.aead enc.nonce [] payload)
            env with
          | (.error f, enc') =>
            (.error f, enc', { b with storage := x ++ (pad ++ C.sealed enc.aead enc.nonce [] payload) })
          | (.ok (padding, cipher), enc') => (.ok 0, enc', { b with storage := x ++ (padding ++ cipher) })) ∧
      (sealBody enc b x.length pad.length recordEnd env).log =
        if env.bodyRefused then [] else [⟨enc.nonce, [], C.sealed enc.aead enc.nonce [] payload⟩] := by
  have hlen : (pad ++ (payload ++ tail)).length = pad.length + (payload.length + tagLen) := by
    simp only [List.length_append, ht]
  have hrange : b.range x.length recordEnd = .ok (pad ++ (payload ++ tail)) := by
    rw [he, ← hlen]; exact Buffer.range_middle (z := []) (by rw [hs, List.append_nil])
  have hbody : ¬ (pad ++ (payload ++ tail)).length < pad.length := by omega
  simp only [sealBody, hrange, if_neg hbody, List.drop_left]
  cases env.bodyRefused with
  | true => exact ⟨Sealing.run_refused ht, Sealing.log_refused ht⟩
  | false =>
    refine ⟨(Sealing.run_sealed ht).trans ?_, Sealing.log_sealed ht⟩
    simp only [Sealing.run_done, Bool.false_eq_true, ↓reduceIte]
    rcases hp : sealPadding { enc with nonce := enc.nonce.increment } pad.length
      (C.sealed enc.aead enc.nonce [] payload) env with ⟨r, enc'⟩
    cases r with
    | error f =>
      have hw := Buffer.writeAt_middle b (x := x ++ pad) (y := payload ++ tail) (z := [])
        (w := C.sealed enc.aead enc.nonce [] payload) (by rw [hs]; simp only [List.append_assoc, List.append_nil])
        (by simp only [Crypto.length_sealed, List.length_append, ht])
      rw [List.length_append] at hw
      simp only
      rw [hw]; simp only [List.append_nil, List.append_assoc]
    | ok r =>
      obtain ⟨q, c⟩ := r
      obtain ⟨entropy, padding, rfl, hpad, hpc⟩ := sealPadding_ok hp
      have hw := Buffer.writeAt_middle b (x := x) (y := pad ++ (payload ++ tail)) (z := []) (w := q ++ c)
        (by rw [hs, List.append_nil])
        (by rw [hpc, length_swapped, hpad, Crypto.length_sealed]; simp only [List.length_append, ht])
      rw [List.append_nil] at hw
      simp only
      rw [hw]

theorem sealRecord_seals (hsl : Laid enc p slot record) (hh : Held slot p.room live head p.fixed pfx content b)
    {len : Nat} (hl : len ≤ (pfx ++ content).length) (hm : len ≤ slot.maxPayload) (env : SealEnv) :
    Seals head b.start b.max b.capacity (sealImage enc p ((pfx ++ content).take len) env)
        (sealRecord enc b slot record len env).run ∧
      (sealRecord enc b slot record len env).log =
        (enc.sealing p ((pfx ++ content).take len)).sealsIn C enc.aead enc.nonce env := by
  obtain ⟨spare, y, z, hset, hy, hmax, hspare, hz⟩ := setRecordEnd_shape hsl hh hl hm
  have hhs : record.headerStart = (head ++ enc.leadingSalt).length := by
    rw [hsl.headerStart, hh.recordStart, List.length_append]
  have hpl : ((pfx ++ content).take len).length = len := by rw [List.length_take]; omega
  have hnil : (pfx ++ content).take len = [] ↔ len = 0 := by rw [← List.length_eq_zero_iff, hpl]
  have hlen : (head ++ enc.leadingSalt ++ (y ++ z)).length =
      if len = 0 then record.headerStart + headerCipherLen else slot.payloadStart + len + tagLen := by
    rcases hz with ⟨h0, rfl⟩ | ⟨h0, tail, ht, rfl⟩
    · rw [if_pos h0, hhs]; simp only [List.append_nil, List.length_append, hy]
    · have h₁ := hh.payloadStart; have h₂ := congrArg List.length hsl.fixed
      rw [if_neg h0]
      simp only [List.length_append, List.length_replicate, hy, hpl, ht] at h₂ ⊢
      omega
  -- whatever replaces the header's bytes and the rest, the record ends at its end
  have hstop : ∀ {u w : Bytes}, u.length = headerCipherLen → w.length = z.length →
      (head ++ (enc.leadingSalt ++ (u ++ w))).length ≤ b.max ∧
        (head ++ (enc.leadingSalt ++ (u ++ w))).length + spare.length = b.capacity := by
    intro u w hu hw
    have : (head ++ (enc.leadingSalt ++ (u ++ w))).length = (head ++ enc.leadingSalt ++ (y ++ z)).length := by
      simp only [List.length_append, hu, hw, hy]; omega
    rw [this, hlen]
    exact ⟨hmax, (Nat.add_comm _ _).trans hspare⟩
  have hrange := Buffer.range_middle
    (b := { b with storage := (head ++ enc.leadingSalt) ++ (y ++ z), spare }) (x := head ++ enc.leadingSalt) rfl
  rw [hy, ← hhs] at hrange
  have hslot : (y.drop headerPlainLen).length = tagLen := by rw [List.length_drop, hy]; rfl
  have hwrite : ∀ {w : Bytes}, w.length = headerCipherLen →
      Buffer.writeAt { b with storage := (head ++ enc.leadingSalt) ++ (y ++ z), spare } record.headerStart w =
        { b with storage := (head ++ enc.leadingSalt) ++ (w ++ z), spare } := by
    intro w hw
    rw [hhs]
    exact Buffer.writeAt_middle _ rfl (hw.trans hy.symm)
  have hheader : (enc.sealing p ((pfx ++ content).take len)).header C enc.aead enc.nonce = ⟨enc.nonce, [],
      C.sealed enc.aead enc.nonce [] (plainHeader (if len = 0 then 0 else record.paddingLen) len)⟩ := by
    simp only [SealedRecord.header, sealing, hpl, paddingOf, hnil, hsl.paddingLen]
  unfold sealRecord sealImage paddingOf SealedRecord.sealsIn
  simp only [hset, hrange, hpl, hnil, ← hsl.paddingLen]
  generalize hpad : (if len = 0 then 0 else record.paddingLen) = paddingLen at hheader
  cases env.headerRefused with
  | true =>
    simp only [Sealing.run_refused hslot, Sealing.log_refused hslot, Sealing.run_done, Sealing.log_done, ↓reduceIte]
    have hu : (plainHeader paddingLen len ++ y.drop headerPlainLen).length = headerCipherLen := by
      rw [List.length_append, length_plainHeader, hslot]; rfl
    rw [hwrite hu, List.append_assoc]
    obtain ⟨h₁, h₂⟩ := hstop hu (w := z) rfl
    exact ⟨.error h₁ h₂, trivial⟩
  | false =>
    simp only [Sealing.run_sealed hslot, Sealing.log_sealed hslot, hheader, Bool.false_eq_true, ↓reduceIte]
    have hu : (C.sealed enc.aead enc.nonce [] (plainHeader paddingLen len)).length = headerCipherLen := by
      rw [Crypto.length_sealed, length_plainHeader]; rfl
    rw [hwrite hu]
    rcases hz with ⟨rfl, rfl⟩ | ⟨h0, tail, ht, rfl⟩
    · simp only [Nat.lt_irrefl, ↓reduceIte, Sealing.run_done, Sealing.log_done]
      obtain ⟨h₁, h₂⟩ := hstop hu (w := []) rfl
      rw [List.append_nil] at h₁ h₂ ⊢
      rw [List.append_assoc]
      exact ⟨.ok h₁ h₂, rfl⟩
    · obtain rfl : record.paddingLen = paddingLen := by rw [← hpad, if_neg h0]
      simp only [if_neg h0, if_pos (Nat.pos_of_ne_zero h0)] at hlen ⊢
      have hx : record.headerStart + headerCipherLen = (head ++ enc.leadingSalt ++
          C.sealed enc.aead enc.nonce [] (plainHeader record.paddingLen len)).length := by
        rw [List.length_append, hu, hhs]
      have hpads : (List.replicate record.paddingLen (0 : UInt8)).length = record.paddingLen :=
        List.length_replicate
      have hbody := sealBody_eq { enc with nonce := enc.nonce.increment }
        (b := { b with
          storage := head ++ enc.leadingSalt ++ (C.sealed enc.aead enc.nonce [] (plainHeader record.paddingLen len) ++
            (List.replicate record.paddingLen 0 ++ ((pfx ++ content).take len ++ tail)))
          spare })
        (head ++ enc.leadingSalt ++ C.sealed enc.aead enc.nonce [] (plainHeader record.paddingLen len))
        (List.replicate record.paddingLen 0) ((pfx ++ content).take len) tail
        (by simp only [List.append_assoc]) ht env (slot.payloadStart + len + tagLen)
        (by
          simp only [List.length_append, hpads, hpl, ht, hy, Crypto.length_sealed, length_plainHeader,
            headerCipherLen] at hlen ⊢
          omega)
      rw [hpads, ← hx] at hbody
      rw [hbody.1, hbody.2]
      refine ⟨?_, by simp only [sealing, hnil, h0, false_or]; rfl⟩
      cases env.bodyRefused with
      | true =>
        simp only [↓reduceIte]
        rw [List.append_assoc]
        obtain ⟨h₁, h₂⟩ := hstop hu (w := List.replicate record.paddingLen 0 ++ ((pfx ++ content).take len ++ tail)) rfl
        exact .error h₁ h₂
      | false =>
        simp only [Bool.false_eq_true, ↓reduceIte]
        rcases hp : sealPadding { enc with nonce := enc.nonce.increment.increment } record.paddingLen
          (C.sealed enc.aead enc.nonce.increment [] ((pfx ++ content).take len)) env with ⟨r, enc'⟩
        cases r with
        | error f =>
          simp only
          rw [List.append_assoc, List.append_assoc]
          obtain ⟨h₁, h₂⟩ := hstop hu (w := List.replicate record.paddingLen 0 ++
            C.sealed enc.aead enc.nonce.increment [] ((pfx ++ content).take len))
            (by simp only [List.length_append, Crypto.length_sealed, ht])
          exact .error h₁ h₂
        | ok r =>
          obtain ⟨q, c⟩ := r
          obtain ⟨entropy, padding, rfl, hpad, hpc⟩ := sealPadding_ok hp
          simp only
          rw [List.append_assoc, List.append_assoc]
          obtain ⟨h₁, h₂⟩ := hstop hu (w := q ++ c) (by
            rw [hpc, length_swapped, hpad, Crypto.length_sealed]
            simp only [List.length_append, hpads, ht])
          exact .ok h₁ h₂

end Seal

omit [Entropy ε] in
/-- Only an empty payload tells reservations of different sizes apart. -/
theorem paddingOf_size (enc : V4Encoder C ε) {p₁ p₂ : Plan} {payload : Bytes} (h₁ : payload.length ≤ p₁.maxPayload)
    (h₂ : payload.length ≤ p₂.maxPayload) : enc.paddingOf p₁ payload = enc.paddingOf p₂ payload := by
  unfold paddingOf paddingFor
  split
  · rfl
  · next hne =>
    have := List.length_pos_iff.mpr hne
    simp only [show 0 < p₁.maxPayload by omega, show 0 < p₂.maxPayload by omega]

instance : EncoderSpec (V4Encoder C ε) where
  plan := plan
  image := image
  Laid := Laid
  state_set _ _ := rfl
  set_set _ _ _ := rfl
  set_state _ := rfl
  plan_blocked _ _ _ h := Prod.ext (planWith_blocked h) rfl
  plan_state _ _ _ _ := rfl
  plan_error h := planWith_error (Prod.mk.inj h).1
  plan_prefix h := planWith_prefix (Prod.mk.inj h).1
  reserve_spec := reserve_spec
  finish_spec hl hh _ hc hm env := by
    rw [image, ← hl.budget, ← hl.reservedAt]
    exact finishWith_finished hh (sealRecord_seals hl hh hc hm env).1
  image_ok h := by obtain ⟨_, _, rfl⟩ := finished_ok h; rfl
  image_error h := by obtain ⟨_, _, rfl⟩ := finished_error h; exact EncoderState.afterSeal_ne _
  image_size hplan₁ hplan₂ _ h₁ h₂ env := by
    obtain ⟨rfl, _⟩ := plan_ok hplan₁
    obtain ⟨rfl, _⟩ := plan_ok hplan₂
    simp only [image, finished_fst, sealImage, paddingOf_size _ h₁ h₂]

/-! ## What it sends -/

section Send

variable {enc enc' : V4Encoder C ε} {p : Plan} {payload record : Bytes} {env : SealEnv} {split : Nat}

omit [Entropy ε] in
theorem paddingFor_le (hv : Valid enc) (n : Nat) : enc.paddingFor n ≤ maxPacketSize := by
  unfold paddingFor
  split
  · exact hv.padding
  · exact Nat.zero_le _

/-- A sealed record is a frame from the encoder's position; the nonce and the
entropy have moved on. -/
theorem sealImage_frame (hv : Valid enc) (hlen : payload.length ≤ maxPacketSize)
    (h : sealImage enc p payload env = (.ok (split, record), enc')) :
    split = 0 ∧ ∃ nonce entropy, enc' = { enc with nonce, entropy } ∧
      V4.Frame C enc.aead enc.salt (!enc.chunk.saltSent) enc.nonce payload record nonce := by
  unfold sealImage at h
  split at h
  · cases h
  split at h
  · next hnil =>
    cases h
    subst hnil
    exact ⟨rfl, _, _, rfl, .zero _ _⟩
  next hne =>
  simp only [paddingOf, if_neg hne] at h
  split at h
  · cases h
  split at h
  · cases h
  next q c enc₁ hp =>
  cases h
  obtain ⟨entropy, padding, rfl, hpad, hpc⟩ := sealPadding_ok hp
  refine ⟨rfl, _, entropy, rfl, ?_⟩
  rw [hpc, ← hpad, ← List.append_assoc]
  refine .data enc.ne _ _ padding _ hne hlen (by rw [hpad]; exact paddingFor_le hv _) (fun hfirst => ?_)
  have hsent : enc.chunk.saltSent = true := by simpa using hfirst
  exact List.eq_nil_of_length_eq_zero (by rw [hpad]; simp [paddingFor, hsent])

theorem sealImage_error {f : Fault} (h : sealImage enc p payload env = (.error f, enc')) :
    (∃ nonce entropy, enc' = { enc with nonce, entropy }) ∧
      ((f = .err .aead ∧ (env.headerRefused ∨ env.bodyRefused)) ∨ (Valid enc → EntropyFault ε f)) := by
  unfold sealImage at h
  split at h
  · next hr => cases h; exact ⟨⟨_, _, rfl⟩, .inl ⟨rfl, .inl hr⟩⟩
  split at h
  · cases h
  next hne =>
  simp only [paddingOf, if_neg hne] at h
  split at h
  · next hr => cases h; exact ⟨⟨_, _, rfl⟩, .inl ⟨rfl, .inr hr⟩⟩
  split at h
  · next hp =>
    cases h
    obtain ⟨⟨entropy, rfl⟩, hfault⟩ := sealPadding_error hp
    refine ⟨⟨_, entropy, rfl⟩, .inr fun hv => hfault ?_⟩
    have := paddingFor_le hv p.maxPayload
    simp only [maxPacketSize] at this
    omega
  · cases h

theorem image_frame (hv : Valid enc) (hlen : payload.length ≤ maxPacketSize)
    (h : image enc p payload env = (.ok (split, record), enc')) :
    Valid enc' ∧ split ≤ record.length ∧ enc.pos.Frame payload (rotate split record) enc'.pos := by
  obtain ⟨enc₁, himage, rfl⟩ := finished_ok h
  obtain ⟨rfl, nonce, entropy, rfl, hframe⟩ := sealImage_frame hv hlen himage
  rw [rotate_zero]
  refine ⟨⟨hv.padding, fun w hw => ?_⟩, Nat.zero_le _, nonce, hframe, rfl⟩
  cases hw
  exact Nat.min_le_right _ _

theorem image_kept {err : Error} (hv : Valid enc) (h : image enc p payload env = (.error (.err err), enc')) :
    Valid enc' ∧ ((enc'.state = .ready ∧ enc'.pos = enc.pos) ∨ enc'.state = .poisoned) := by
  obtain ⟨enc₁, himage, rfl⟩ := finished_error h
  obtain ⟨⟨nonce, entropy, rfl⟩, _⟩ := sealImage_error himage
  refine ⟨⟨hv.padding, hv.limit⟩, ?_⟩
  by_cases hn : nonce = enc.nonce
  · subst hn
    exact .inl ⟨by simp [EncoderState.afterSeal], rfl⟩
  · exact .inr (by simp [EncoderState.afterSeal, hn])

theorem image_fails {f : Fault} (hv : Valid enc) (h : image enc p payload env = (.error f, enc')) :
    (f = .err .aead ∧ (env.headerRefused ∨ env.bodyRefused)) ∨ EntropyFault ε f := by
  obtain ⟨_, himage⟩ := finished_fault h
  exact (sealImage_error himage).2.imp_right fun hf => hf hv

end Send

instance : LawfulEncoder (V4Encoder C ε) where
  Pos := V4.Pos C
  pos := pos
  Frame := V4.Pos.Frame
  Valid := Valid
  pos_set _ _ := rfl
  valid_set _ s h := h.set s
  plan_pos _ _ _ _ := rfl
  plan_valid _ _ _ _ h := h
  image_frame hv hplan hlen h := by
    obtain ⟨rfl, _, _, hmax, _⟩ := plan_ok hplan
    have hframe := image_frame (hv.set .reserving) (Nat.le_trans hlen (Nat.le_trans hmax (limitFor_le hv _ _))) h
    exact hframe
  image_kept hv hplan h := by
    obtain ⟨rfl, _⟩ := plan_ok hplan
    have hkept := image_kept (hv.set .reserving) h
    exact hkept
  Fails _ env f := (f = .err .aead ∧ (env.headerRefused ∨ env.bodyRefused)) ∨ EntropyFault ε f
  image_fails hv hplan h := by
    obtain ⟨rfl, _⟩ := plan_ok hplan
    exact image_fails (hv.set .reserving) h

end V4Encoder

end Snell
