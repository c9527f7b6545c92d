/-
The v6 shaped encoder keeps the encoder contract: whatever chunk size it is
at, and whatever padding the profile draws, a sealed record put back in wire
order is the frame of its position.
-/
import Snell.LawfulEncoder
import Snell.RecordSeals
import Snell.ShapedDecode

namespace Snell

open RecordEncoder

namespace V6Shaped

/-- Where a shaped sender is. -/
structure Pos (C : Crypto) where
  profile : Profile
  key : C.Key
  salt : Salt
  first : Bool
  nonce : Nonce
  seq : UInt32

/-- The frame of `V6Shaped.Frame`, from position to position. -/
def Pos.Frame {C : Crypto} (p : Pos C) (payload wire : Bytes) (p' : Pos C) : Prop :=
  ∃ nonce', V6Shaped.Frame C p.profile p.key p.salt p.first p.nonce p.seq payload wire nonce' ∧
    p' = { p with first := false, nonce := nonce', seq := p.seq + 1 }

end V6Shaped

namespace V6ShapedEncoder

open V6Shaped (LeadingBlock recordPrefix)

variable {C : Crypto}

def pos (enc : V6ShapedEncoder C) : V6Shaped.Pos C :=
  ⟨enc.profile, enc.aead, enc.salt, enc.lastWriteSecs.isNone, enc.nonce, enc.seq⟩

theorem withSalt_ok {psk : ProfiledPsk C} {salt : Salt} {enc : V6ShapedEncoder C} (h : withSalt psk salt = .ok enc) :
    enc.state = .ready ∧ enc.pos = ⟨psk.profile, enc.aead, salt, true, Nonce.new, 0⟩ ∧
      C.derive psk.bytes salt = .ok enc.aead := by
  simp only [withSalt, bind, Except.bind] at h
  split at h
  · cases h
  · next key hk => cases h; exact ⟨rfl, rfl, hk⟩

/-! ## What it does, its buffer apart -/

/-- Asking for the limit moves the chunk size at most. -/
theorem limitFor_spec (enc : V6ShapedEncoder C) (size : RecordSize) (now : Nat) :
    (enc.limitFor size now).1 ≤ maxPacketSizeV6 ∧
      ∃ chunkSize, (enc.limitFor size now).2 = { enc with chunkSize } := by
  cases size with
  | stream hint =>
    refine ⟨?_, _, rfl⟩
    simp only [limitFor, payloadBudget]
    split <;> omega
  | datagram len => exact ⟨Nat.le_refl _, enc.chunkSize, rfl⟩

/-- What `reserve` decides. -/
def plan (enc : V6ShapedEncoder C) (prefixLen : Nat) (size : RecordSize) (now : Nat) : Res Plan × V6ShapedEncoder C :=
  match enc.state.ensureReady with
  | .error f => (.error f, enc)
  | .ok () =>
    let r := enc.limitFor size now
    (planWith r.2.state r.1 [] (fun _ => 0) (fun _ => r.2.roomFor) prefixLen size now, r.2)

/-- The salt block of a first record. -/
def leadingBlock (enc : V6ShapedEncoder C) : Bytes :=
  if enc.lastWriteSecs.isNone then
    match enc.profile.writeSaltBlock enc.salt enc.profile.saltBlockLen with
    | .ok block => block
    | .error _ => []
  else []

/-- The padding of a record with `payloadLen` bytes. -/
def paddingOf (enc : V6ShapedEncoder C) (payloadLen : Nat) : Nat :=
  enc.profile.finalPaddingLen enc.seq enc.layout.prefixLen payloadLen enc.lastWriteSecs.isNone

/-- What sealing makes behind the header, `mid` being what is between the
payload and the padding. -/
def restImage (enc : V6ShapedEncoder C) (mid payload padding : Bytes) (env : SealEnv) :
    Res (Nat × Bytes) × V6ShapedEncoder C :=
  let mixed := enc.profile.mixPaddingPayload enc.seq padding (C.sealed enc.aead enc.nonce padding payload)
  if payload = [] then (.ok (0, mid ++ padding), enc)
  else if env.bodyRefused then (.error (.err .aead), enc)
  else (.ok (payload.length + tagLen, mixed.2 ++ (mid ++ mixed.1)), { enc with nonce := enc.nonce.increment })

/-- What `seal_record` makes of a payload. -/
def sealImage (enc : V6ShapedEncoder C) (paddingLen : Nat) (payload : Bytes) (env : SealEnv) :
    Res (Nat × Bytes) × V6ShapedEncoder C :=
  let head := V6Shaped.head C enc.profile enc.aead enc.nonce enc.seq paddingLen payload.length
  if env.headerRefused then (.error (.err .aead), enc)
  else
    restImage { enc with nonce := enc.nonce.increment } (enc.leadingBlock ++ head) payload
      (enc.profile.fillOfficial enc.seq paddingLen) env

/-- What `finish` makes of it. -/
def image (enc : V6ShapedEncoder C) (payload : Bytes) (env : SealEnv) : Res (Nat × Bytes) × V6ShapedEncoder C :=
  finished nonce (fun enc state => { enc with state }) (advance env.now) enc
    (sealImage enc (enc.paddingOf payload.length) payload env)

/-- The record of a plan. -/
structure Laid (enc : V6ShapedEncoder C) (p : Plan) (record : ShapedRecord) : Prop where
  record_eq : record = enc.layout
  room : p.room = enc.roomFor
  fixed : p.fixed = []

theorem plan_ok {enc enc' : V6ShapedEncoder C} {n now : Nat} {size : RecordSize} {p : Plan}
    (h : plan enc n size now = (.ok p, enc')) :
    enc' = (enc.limitFor size now).2 ∧ p.room = enc'.roomFor ∧ p.fixed = [] ∧ p.maxPayload ≤ maxPacketSizeV6 := by
  unfold plan at h
  split at h
  · cases h
  · obtain ⟨hp, rfl⟩ := Prod.mk.inj h
    obtain ⟨_, hpl, _, hfixed, hroom⟩ := planWith_ok hp
    refine ⟨rfl, hroom, ?_, Nat.le_trans (RecordSize.payloadLen_le hpl).2 (enc.limitFor_spec size now).1⟩
    simpa using hfixed

theorem plan_snd (enc : V6ShapedEncoder C) (n : Nat) (size : RecordSize) (now : Nat) :
    ∃ chunkSize, (plan enc n size now).2 = { enc with chunkSize } := by
  unfold plan
  split
  · exact ⟨enc.chunkSize, rfl⟩
  · exact (enc.limitFor_spec size now).2

theorem plan_datagram (enc : V6ShapedEncoder C) (n len now : Nat) :
    plan enc n (.datagram len) now =
      (planWith enc.state maxPacketSizeV6 [] (fun _ => 0) (fun _ => enc.roomFor) n (.datagram len) now, enc) := by
  unfold plan
  obtain ⟨_, he⟩ | ⟨_, err, he⟩ := enc.state.ensureReady_cases
  · simp only [he, limitFor]
  · simp only [he, planWith_blocked he]

theorem plan_stream (enc : V6ShapedEncoder C) (hready : enc.state = .ready) (n hint now : Nat) :
    plan enc n (.stream hint) now =
      (planWith enc.state { enc with chunkSize := enc.chunkSizeAt now }.payloadBudget [] (fun _ => 0)
        (fun _ => enc.roomFor) n (.stream hint) now, { enc with chunkSize := enc.chunkSizeAt now }) := by
  simp only [plan, hready, EncoderState.ensureReady, limitFor]
  rfl

theorem reserve_spec (enc : V6ShapedEncoder C) (b : Buffer) (hw : b.Wf) (pfx : Bytes) (size : RecordSize) (now : Nat) :
    Reserves (fun enc p _ record => Laid enc p record) b hw pfx (plan enc pfx.length size now)
      (reserve enc b pfx size now) := by
  rcases hplan : plan enc pfx.length size now with ⟨r, enc'⟩
  have hplan' := hplan
  unfold plan at hplan
  unfold reserve
  obtain ⟨_, he⟩ | ⟨_, err, he⟩ := enc.state.ensureReady_cases
  · simp only [he] at hplan ⊢
    obtain ⟨hp, rfl⟩ := Prod.mk.inj hplan
    have h := reserveWith_reserved (enc.limitFor size now).2.state (enc.limitFor size now).1 [] (fun _ => 0)
      (fun _ => (enc.limitFor size now).2.roomFor) hw (fun _ => Nat.le_refl _) pfx size now
    rw [hp] at h
    generalize reserveWith _ _ _ _ _ _ _ _ = result at h
    cases h with
    | unplanned => exact .unplanned
    | refused hr => exact .refused hr
    | held hr hm hh hk =>
      obtain ⟨_, hroom, hfixed, _⟩ := plan_ok hplan'
      exact .held hr hm hh hk ⟨rfl, hroom, hfixed⟩
  · simp only [he] at hplan ⊢
    cases hplan
    exact .unplanned

/-! ## Sealing -/

section Seal

variable {enc : V6ShapedEncoder C} {slot : Slot} {record : ShapedRecord} {p : Plan}
  {live head pfx content : Bytes} {b : Buffer}

theorem leadingBlock_spec (enc : V6ShapedEncoder C) :
    LeadingBlock enc.profile enc.salt enc.lastWriteSecs.isNone enc.leadingBlock := by
  unfold LeadingBlock leadingBlock
  split
  · obtain ⟨block, hw, _⟩ := enc.profile.writeSaltBlock_ok enc.salt
    rw [hw]
  · rfl

theorem length_leadingBlock (enc : V6ShapedEncoder C) : enc.leadingBlock.length = enc.layout.saltBlockLen :=
  enc.leadingBlock_spec.length

/-- The salt block replaces the zeros kept for it. -/
theorem writeBlock_ok (enc : V6ShapedEncoder C) {record : ShapedRecord} {b : Buffer} {x z : Bytes}
    (hr : record = enc.layout) (hs : b.storage = x ++ (List.replicate record.saltBlockLen 0 ++ z)) :
    writeBlock enc b record (x.length + record.saltBlockLen) =
      .ok { b with storage := (x ++ enc.leadingBlock) ++ z } := by
  have hspec := enc.leadingBlock_spec
  have hlen : enc.leadingBlock.length = record.saltBlockLen := by rw [hr]; exact enc.length_leadingBlock
  have hrange := Buffer.range_middle (y := List.replicate record.saltBlockLen 0) hs
  rw [List.length_replicate] at hrange
  cases hl : enc.lastWriteSecs.isNone with
  | false =>
    rw [hl] at hspec
    have h0 : record.saltBlockLen = 0 := by simp only [hr, layout, hl]; rfl
    rw [writeBlock, if_neg (by omega)]
    rw [h0, List.replicate_zero, List.nil_append] at hs
    rw [show enc.leadingBlock = [] from hspec, List.append_nil, ← hs]
  | true =>
    rw [hl] at hspec
    have hw : enc.profile.writeSaltBlock enc.salt enc.profile.saltBlockLen = .ok enc.leadingBlock := hspec
    have hblock : record.saltBlockLen = enc.profile.saltBlockLen := by simp only [hr, layout, hl, ↓reduceIte]
    have hpos := enc.profile.saltBlockLen_ge
    rw [← hblock] at hw
    rw [writeBlock, if_pos (by rw [hblock]; exact Nat.lt_of_lt_of_le (by decide) hpos)]
    simp only [sub_ok (Nat.le_add_left _ _), Nat.add_sub_cancel, hrange, List.length_replicate, hw, bind, Except.bind,
      pure, Except.pure]
    rw [Buffer.writeAt_middle b hs (by rw [hlen, List.length_replicate]), List.append_assoc]

/-- The buffer of an open reservation, cut behind a payload of `len` bytes and
zero-extended by `n`. -/
theorem zeroed_ok (hh : Held slot p.room live head p.fixed pfx content b) {len n : Nat}
    (hl : len ≤ (pfx ++ content).length) (hc : slot.payloadStart + len + n ≤ b.capacity) :
    ∃ spare, (b.setRecordEnd (slot.payloadStart + len) >>= (·.zeroExtendTo (slot.payloadStart + len + n))) =
        .ok { b with storage := head ++ (p.fixed ++ ((pfx ++ content).take len ++ List.replicate n 0)), spare } ∧
      slot.payloadStart + len + n + spare.length = b.capacity := by
  obtain ⟨spare₁, hset, hsp₁⟩ := hh.setRecordEnd_payload hl
  have hst : (head ++ (p.fixed ++ (pfx ++ content).take len)).length = slot.payloadStart + len := by
    have := hh.payloadStart
    simp only [List.length_append, List.length_take] at hl ⊢; omega
  obtain ⟨spare, hzero, hsp⟩ := Buffer.zeroExtendTo_ok (e := slot.payloadStart + len + n)
    (b := { b with storage := head ++ (p.fixed ++ (pfx ++ content).take len), spare := spare₁ })
    (by simp only [hst]; omega) (by simp only [Buffer.capacity, hst]; omega)
  simp only [hst, Nat.add_sub_cancel_left, List.append_assoc] at hzero
  refine ⟨spare, ?_, ?_⟩
  · rw [hset]; exact hzero
  · simp only [Buffer.capacity, hst] at hsp; omega

/-- `prepare` lays the record out behind its payload: zeros for the tag, the
salt block, and zeros for the rest. -/
theorem prepare_ok (hl : Laid enc p record) (hh : Held slot p.room live head p.fixed pfx content b)
    {len bodyLen paddingLen : Nat} (hc : len ≤ (pfx ++ content).length) (hm : len ≤ slot.maxPayload)
    (hbody : len ≤ bodyLen ∧ bodyLen ≤ len + tagLen) (hpad : paddingLen ≤ enc.profile.maxPaddingLen) :
    let prefixStart := slot.recordStart + bodyLen + record.saltBlockLen
    let paddingStart := prefixStart + record.prefixLen + headerCipherLen
    let region := List.replicate (record.prefixLen + headerCipherLen) (0 : UInt8)
    ∃ spare, prepare enc b slot record len prefixStart paddingStart (paddingStart + paddingLen) =
        .ok ({ b with
          storage := (head ++ ((pfx ++ content).take len ++ List.replicate (bodyLen - len) 0) ++ enc.leadingBlock) ++
            (region ++ List.replicate paddingLen 0)
          spare }, region) ∧
      paddingStart + paddingLen ≤ b.max ∧ paddingStart + paddingLen + spare.length = b.capacity := by
  intro prefixStart paddingStart region
  have hroom := hl.room
  have hcap := hh.capacity; have hmax := hh.max; have hps := hh.payloadStart; have hrs := hh.recordStart
  simp only [hl.fixed, List.length_nil, Nat.add_zero] at hps
  simp only [roomFor, ← hl.record_eq] at hroom
  have hend : paddingStart + paddingLen = slot.payloadStart + len +
      ((bodyLen - len) + (record.saltBlockLen + (record.prefixLen + headerCipherLen + paddingLen))) := by
    simp only [paddingStart, prefixStart]; omega
  obtain ⟨spare, hzero, hsp⟩ := zeroed_ok hh hc (n := (bodyLen - len) + (record.saltBlockLen +
    (record.prefixLen + headerCipherLen + paddingLen))) (by omega)
  let front := head ++ ((pfx ++ content).take len ++ List.replicate (bodyLen - len) 0)
  have hfront : front.length = slot.recordStart + bodyLen := by
    simp only [front, List.length_append, List.length_replicate, List.length_take, hrs] at hc ⊢; omega
  have hsplit : head ++ (p.fixed ++ ((pfx ++ content).take len ++ List.replicate ((bodyLen - len) +
      (record.saltBlockLen + (record.prefixLen + headerCipherLen + paddingLen))) 0)) =
      front ++ (List.replicate record.saltBlockLen 0 ++ (region ++ List.replicate paddingLen 0)) := by
    simp only [front, region, hl.fixed, List.nil_append, List.replicate_add, List.append_assoc]
  rw [← hend] at hzero
  rw [hsplit] at hzero
  have hbl : enc.leadingBlock.length = record.saltBlockLen := by rw [hl.record_eq]; exact enc.length_leadingBlock
  have hwrite := writeBlock_ok enc hl.record_eq (b := { b with
    storage := front ++ (List.replicate record.saltBlockLen 0 ++ (region ++ List.replicate paddingLen 0)), spare }) rfl
  rw [hfront] at hwrite
  have hregion := Buffer.range_middle (b := { b with
    storage := (front ++ enc.leadingBlock) ++ (region ++ List.replicate paddingLen 0), spare })
    (x := front ++ enc.leadingBlock) rfl
  have hlen : region.length = record.prefixLen + headerCipherLen := List.length_replicate
  rw [List.length_append, hfront, hbl, hlen, ← Nat.add_assoc] at hregion
  refine ⟨spare, ?_, by omega, by omega⟩
  have hprepare : prepare enc b slot record len prefixStart paddingStart (paddingStart + paddingLen) =
      (b.setRecordEnd (slot.payloadStart + len) >>= (·.zeroExtendTo (paddingStart + paddingLen))) >>= fun buf => do
        let buf ← writeBlock enc buf record prefixStart
        let region ← buf.range prefixStart paddingStart
        return (buf, region) := by
    simp only [prepare, bind_assoc]
  rw [hprepare, hzero]
  simp only [bind, Except.bind, prefixStart, hwrite, paddingStart, hregion]
  rfl

/-- What is sealed for a payload with so much padding. -/
def sealing (enc : V6ShapedEncoder C) (paddingLen : Nat) (payload : Bytes) : SealedRecord :=
  ⟨payload, paddingLen, recordPrefix enc.profile enc.seq, enc.profile.fillOfficial enc.seq paddingLen⟩

/-- Sealing the body of a laid-out record puts the sealed payload, mixed with
the padding, in its place. -/
theorem sealBody_eq (enc : V6ShapedEncoder C) {b : Buffer} (head payload slot mid padding : Bytes)
    (hs : b.storage = head ++ ((payload ++ slot) ++ (mid ++ padding))) (ht : slot.length = tagLen) (env : SealEnv)
    {recordStart bodyLen paddingStart recordEnd : Nat} (hrs : recordStart = head.length)
    (hb : bodyLen = payload.length + tagLen) (hps : paddingStart = recordStart + bodyLen + mid.length)
    (he : recordEnd = paddingStart + padding.length) {mixed : Bytes × Bytes}
    (hmixed : enc.profile.mixPaddingPayload enc.seq padding (C.sealed enc.aead enc.nonce padding payload) = mixed) :
    (sealBody enc b recordStart bodyLen paddingStart recordEnd env).run =
        (if env.bodyRefused then (.error (.err .aead), enc, b)
        else (.ok bodyLen, { enc with nonce := enc.nonce.increment },
          { b with storage := head ++ (mixed.2 ++ (mid ++ mixed.1)) })) ∧
      (sealBody enc b recordStart bodyLen paddingStart recordEnd env).log =
        if env.bodyRefused then [] else [⟨enc.nonce, padding, C.sealed enc.aead enc.nonce padding payload⟩] := by
  subst hrs
  have hbody : (payload ++ slot).length = bodyLen := by rw [List.length_append, ht, hb]
  have hrange : b.range head.length recordEnd = .ok ((payload ++ slot) ++ (mid ++ padding)) := by
    have := Buffer.range_middle (b := b) (y := (payload ++ slot) ++ (mid ++ padding)) (z := [])
      (by rw [hs, List.append_nil])
    rw [← this]
    congr 1
    simp only [List.length_append] at hbody ⊢; omega
  have hpad : ((payload ++ slot) ++ (mid ++ padding)).drop (paddingStart - head.length) = padding := by
    rw [← List.append_assoc]
    exact List.drop_left' (by rw [List.length_append, hbody]; omega)
  simp only [sealBody, hrange, List.take_left' hbody, hpad]
  cases env.bodyRefused with
  | true => exact ⟨Sealing.run_refused ht, Sealing.log_refused ht⟩
  | false =>
    refine ⟨(Sealing.run_sealed ht).trans ?_, Sealing.log_sealed ht⟩
    simp only [Sealing.run_done, Bool.false_eq_true, ↓reduceIte]
    obtain ⟨h₁, h₂⟩ := enc.profile.mix_length enc.seq padding (C.sealed enc.aead enc.nonce padding payload)
    rw [hmixed] at h₁ h₂ ⊢
    rw [Crypto.length_sealed] at h₂
    rw [Buffer.writeAt_middle b hs (by rw [h₂, hbody, hb])]
    have hat : paddingStart = (head ++ (mixed.2 ++ mid)).length := by
      simp only [List.length_append, h₂]; omega
    rw [hat, Buffer.writeAt_middle (z := []) _ (by simp only [List.append_assoc, List.append_nil]) h₁]
    simp only [List.append_assoc, List.append_nil]

/-- Behind the header: a zero chunk is done with its padding, a payload is
sealed and mixed, or its sealing fails. -/
theorem sealRest_seals (enc : V6ShapedEncoder C) {b : Buffer} {payload slot mid : Bytes} {paddingLen : Nat}
    (hs : b.storage = head ++ ((payload ++ slot) ++ (mid ++ List.replicate paddingLen 0)))
    {bodyLen : Nat} (hb : bodyLen = if payload.length = 0 then 0 else payload.length + tagLen)
    (ht : (payload ++ slot).length = bodyLen) (env : SealEnv) {recordStart : Nat} (paddingStart : Nat)
    (hrs : recordStart = head.length) (hps : paddingStart = recordStart + bodyLen + mid.length)
    (hmax : b.storage.length ≤ b.max) :
    Seals head b.start b.max b.capacity (restImage enc mid payload (enc.profile.fillOfficial enc.seq paddingLen) env)
        (sealRest enc b recordStart bodyLen paddingStart (paddingStart + paddingLen) payload.length env).run ∧
      (sealRest enc b recordStart bodyLen paddingStart (paddingStart + paddingLen) payload.length env).log =
        if payload = [] ∨ env.bodyRefused then []
        else [⟨enc.nonce, enc.profile.fillOfficial enc.seq paddingLen,
          C.sealed enc.aead enc.nonce (enc.profile.fillOfficial enc.seq paddingLen) payload⟩] := by
  have hpad : (enc.profile.fillOfficial enc.seq paddingLen).length = paddingLen := enc.profile.length_fillOfficial _ _
  have hat : paddingStart = (head ++ ((payload ++ slot) ++ mid)).length := by
    simp only [List.length_append] at ht ⊢; omega
  have hs' : b.storage = (head ++ ((payload ++ slot) ++ mid)) ++ (List.replicate paddingLen 0 ++ []) := by
    rw [hs]; simp only [List.append_assoc, List.append_nil]
  have hrange := Buffer.range_middle hs'
  rw [← hat, List.length_replicate] at hrange
  -- whatever replaces the record's parts, it ends where it did
  have hstop : ∀ {x w : Bytes}, x.length = bodyLen → w.length = paddingLen →
      (head ++ (x ++ (mid ++ w))).length ≤ b.max ∧ (head ++ (x ++ (mid ++ w))).length + b.spare.length = b.capacity := by
    intro x w hx hw
    have hlen : (head ++ (x ++ (mid ++ w))).length = b.storage.length := by
      rw [hs]; simp only [List.length_append, List.length_replicate, hx, hw] at ht ⊢; omega
    exact ⟨by rw [hlen]; exact hmax, by rw [hlen]; rfl⟩
  simp only [sealRest, hrange, List.length_replicate, restImage]
  generalize enc.profile.fillOfficial enc.seq paddingLen = padding at *
  have hfill : b.writeAt paddingStart padding = { b with storage := head ++ ((payload ++ slot) ++ (mid ++ padding)) } := by
    rw [hat, Buffer.writeAt_middle b hs' (by rw [hpad, List.length_replicate])]
    simp only [List.append_assoc, List.append_nil]
  by_cases h0 : payload = []
  · subst h0
    obtain rfl : bodyLen = 0 := hb
    obtain rfl : slot = [] := List.eq_nil_of_length_eq_zero (by simpa using ht)
    obtain ⟨h₁, h₂⟩ := hstop (x := []) rfl hpad
    simp only [↓reduceIte, List.length_nil, Nat.lt_irrefl, hfill, List.append_nil, List.nil_append, true_or,
      Sealing.run_done, Sealing.log_done]
    exact ⟨.ok h₁ h₂, trivial⟩
  · have hpos : payload.length ≠ 0 := fun h => h0 (List.eq_nil_of_length_eq_zero h)
    rw [if_neg hpos] at hb
    have hbody := sealBody_eq enc (b := b.writeAt paddingStart padding) head payload slot mid padding (by rw [hfill])
      (by rw [List.length_append] at ht; omega) env hrs hb hps rfl rfl
    rw [hpad] at hbody
    rw [if_neg h0, if_pos (Nat.pos_of_ne_zero hpos), hbody.1, hbody.2, hfill]
    refine ⟨?_, by simp only [h0, false_or]⟩
    obtain ⟨hm₁, hm₂⟩ := enc.profile.mix_length enc.seq padding (C.sealed enc.aead enc.nonce padding payload)
    generalize enc.profile.mixPaddingPayload enc.seq padding (C.sealed enc.aead enc.nonce padding payload) = mixed at *
    cases env.bodyRefused with
    | true =>
      obtain ⟨h₁, h₂⟩ := hstop ht hpad
      exact .error h₁ h₂
    | false =>
      obtain ⟨h₁, h₂⟩ := hstop (x := mixed.2) (w := mixed.1) (by rw [hm₂, Crypto.length_sealed, hb]) (hm₁.trans hpad)
      rw [← hb]
      exact .ok h₁ h₂

theorem sealRecord_seals (hl : Laid enc p record) (hh : Held slot p.room live head p.fixed pfx content b)
    {len paddingLen : Nat} (hc : len ≤ (pfx ++ content).length) (hm : len ≤ slot.maxPayload)
    (hpad : paddingLen ≤ enc.profile.maxPaddingLen) (env : SealEnv) :
    Seals head b.start b.max b.capacity (sealImage enc paddingLen ((pfx ++ content).take len) env)
        (sealRecord enc b slot record paddingLen len env).run ∧
      (sealRecord enc b slot record paddingLen len env).log =
        (enc.sealing paddingLen ((pfx ++ content).take len)).sealsIn C enc.aead enc.nonce env := by
  obtain ⟨bodyLen, hbodyLen⟩ : ∃ n, n = if len = 0 then 0 else len + tagLen := ⟨_, rfl⟩
  have hbody : len ≤ bodyLen ∧ bodyLen ≤ len + tagLen := by rw [hbodyLen]; split <;> omega
  obtain ⟨spare, hprep, hmax, hcap⟩ := prepare_ok hl hh hc hm hbody hpad
  have hpl : ((pfx ++ content).take len).length = len := by rw [List.length_take]; omega
  have hlayout : record.prefixLen = enc.profile.recordPrefixLen enc.seq := by rw [hl.record_eq]; rfl
  have hbl : enc.leadingBlock.length = record.saltBlockLen := by rw [hl.record_eq]; exact enc.length_leadingBlock
  have hrs := hh.recordStart
  have hpre : enc.profile.fillOfficial enc.seq record.prefixLen = recordPrefix enc.profile enc.seq := by
    rw [hlayout]; rfl
  have hprelen : (recordPrefix enc.profile enc.seq).length = record.prefixLen := by
    rw [← hpre, Profile.length_fillOfficial]
  unfold sealImage
  generalize hpayload : (pfx ++ content).take len = payload at *
  generalize htag : List.replicate (bodyLen - len) (0 : UInt8) = tag at *
  generalize enc.leadingBlock = block at *
  have htl : (payload ++ tag).length = bodyLen := by
    rw [List.length_append, hpl, ← htag, List.length_replicate]; omega
  have hfront : (head ++ (payload ++ tag) ++ block).length = slot.recordStart + bodyLen + record.saltBlockLen := by
    rw [List.length_append, List.length_append, htl, hbl, hrs]
  have hslot : ((List.replicate (record.prefixLen + headerCipherLen) (0 : UInt8)).drop
      (record.prefixLen + headerPlainLen)).length = tagLen := by
    rw [List.length_drop, List.length_replicate, Nat.add_sub_add_left]; rfl
  have hwrite : ∀ {w : Bytes}, w.length = record.prefixLen + headerCipherLen →
      Buffer.writeAt { b with
        storage := (head ++ (payload ++ tag) ++ block) ++
          (List.replicate (record.prefixLen + headerCipherLen) 0 ++ List.replicate paddingLen 0)
        spare } (slot.recordStart + bodyLen + record.saltBlockLen) w =
      { b with storage := head ++ ((payload ++ tag) ++ ((block ++ w) ++ List.replicate paddingLen 0)), spare } := by
    intro w hw
    rw [← hfront, Buffer.writeAt_middle _ rfl (hw.trans List.length_replicate.symm)]
    simp only [List.append_assoc]
  -- whatever the record's parts hold, it ends where it should
  have hstop : ∀ {y w : Bytes}, y.length = record.prefixLen + headerCipherLen → w.length = paddingLen →
      (head ++ ((payload ++ tag) ++ ((block ++ y) ++ w))).length ≤ b.max ∧
        (head ++ ((payload ++ tag) ++ ((block ++ y) ++ w))).length + spare.length = b.capacity := by
    intro y w hy hw
    rw [List.length_append, @List.length_append _ (payload ++ tag), htl]
    simp only [List.length_append, hy, hw, hbl]; omega
  unfold sealRecord SealedRecord.sealsIn
  simp only [← hbodyLen, hprep, hpre]
  cases env.headerRefused with
  | true =>
    simp only [Sealing.run_refused hslot, Sealing.log_refused hslot, Sealing.run_done, Sealing.log_done, ↓reduceIte]
    have hy : (recordPrefix enc.profile enc.seq ++ (plainHeader paddingLen len ++
        (List.replicate (record.prefixLen + headerCipherLen) (0 : UInt8)).drop
          (record.prefixLen + headerPlainLen))).length =
        record.prefixLen + headerCipherLen := by
      rw [List.length_append, List.length_append, hprelen, hslot, length_plainHeader]; rfl
    rw [hwrite hy]
    obtain ⟨h₁, h₂⟩ := hstop hy (w := List.replicate paddingLen 0) List.length_replicate
    exact ⟨.error h₁ h₂, trivial⟩
  | false =>
    have hheader : (enc.sealing paddingLen payload).header C enc.aead enc.nonce =
        ⟨enc.nonce, recordPrefix enc.profile enc.seq, C.sealed enc.aead enc.nonce (recordPrefix enc.profile enc.seq)
          (plainHeader paddingLen len)⟩ := by
      simp only [SealedRecord.header, sealing, hpl]
    simp only [Sealing.run_sealed hslot, Sealing.log_sealed hslot, hheader, Bool.false_eq_true, ↓reduceIte]
    have hhead : recordPrefix enc.profile enc.seq ++
        C.sealed enc.aead enc.nonce (recordPrefix enc.profile enc.seq) (plainHeader paddingLen len) =
        V6Shaped.head C enc.profile enc.aead enc.nonce enc.seq paddingLen payload.length := by rw [hpl]; rfl
    have hy : (V6Shaped.head C enc.profile enc.aead enc.nonce enc.seq paddingLen payload.length).length =
        record.prefixLen + headerCipherLen := by rw [V6Shaped.length_head, hlayout]
    rw [hhead, hwrite hy, ← hpl]
    obtain ⟨h₁, h₂⟩ := hstop hy (w := List.replicate paddingLen 0) List.length_replicate
    have hrest := sealRest_seals { enc with nonce := enc.nonce.increment } (b := { b with
        storage := head ++ ((payload ++ tag) ++
          ((block ++ V6Shaped.head C enc.profile enc.aead enc.nonce enc.seq paddingLen payload.length) ++
            List.replicate paddingLen 0))
        spare }) rfl (by rw [hpl]; exact hbodyLen) htl env
        (slot.recordStart + bodyLen + record.saltBlockLen + record.prefixLen + headerCipherLen) hrs
        (by rw [List.length_append, hbl, hy]; omega) h₁
    have hcapacity : Buffer.capacity { b with
        storage := head ++ ((payload ++ tag) ++
          ((block ++ V6Shaped.head C enc.profile enc.aead enc.nonce enc.seq paddingLen payload.length) ++
            List.replicate paddingLen 0))
        spare } = b.capacity := h₂
    rw [hcapacity] at hrest
    exact ⟨hrest.1, congrArg _ hrest.2⟩

end Seal

/-- The chunk window is not read by sealing. -/
theorem sealImage_chunkSize (enc : V6ShapedEncoder C) (chunkSize paddingLen : Nat) (payload : Bytes) (env : SealEnv) :
    sealImage { enc with chunkSize } paddingLen payload env =
      ((sealImage enc paddingLen payload env).1, { (sealImage enc paddingLen payload env).2 with chunkSize }) := by
  unfold sealImage
  split
  · rfl
  unfold restImage
  split
  · rfl
  split <;> rfl

theorem image_chunkSize (enc : V6ShapedEncoder C) (chunkSize : Nat) (payload : Bytes) (env : SealEnv) :
    (image { enc with chunkSize } payload env).1 = (image enc payload env).1 := by
  simp only [image, finished_fst, sealImage_chunkSize]
  rfl

instance : EncoderSpec (V6ShapedEncoder C) where
  plan := plan
  image enc _ := image enc
  Laid enc p _ record := Laid enc p record
  state_set _ _ := rfl
  set_set _ _ _ := rfl
  set_state _ := rfl
  plan_blocked {enc _} _ _ _ h := by
    have he : enc.state.ensureReady = _ := h
    simp only [plan, he]
  plan_state enc n size now := by
    obtain ⟨chunkSize, h⟩ := plan_snd enc n size now
    rw [h]; rfl
  plan_error {enc _ _ _ _ _} h := by
    unfold plan at h
    obtain ⟨_, he⟩ | ⟨_, err, he⟩ := enc.state.ensureReady_cases
    · simp only [he] at h
      exact planWith_error (Prod.mk.inj h).1
    · simp only [he] at h
      cases h
      exact ⟨err, rfl⟩
  plan_prefix h := by
    unfold plan at h
    split at h
    · cases h
    · exact planWith_prefix (Prod.mk.inj h).1
  reserve_spec := reserve_spec
  finish_spec {enc _ _ _ _ _ pfx content _} hl hh len hc hm env := by
    have hlen : ((pfx ++ content).take len).length = len := by rw [List.length_take]; omega
    rw [image, hlen, paddingOf, ← hl.record_eq]
    exact finishWith_finished hh (sealRecord_seals hl hh hc hm (enc.profile.finalPaddingLen_le _ _ _ _) env).1
  image_ok h := by obtain ⟨_, _, rfl⟩ := finished_ok h; rfl
  image_error h := by obtain ⟨_, _, rfl⟩ := finished_error h; exact EncoderState.afterSeal_ne _
  image_size {enc _ _ n size₁ size₂ now _ _} hplan₁ hplan₂ payload _ _ env := by
    obtain ⟨c₁, h₁⟩ := plan_snd enc n size₁ now
    obtain ⟨c₂, h₂⟩ := plan_snd enc n size₂ now
    rw [show plan enc n size₁ now = _ from hplan₁] at h₁
    rw [show plan enc n size₂ now = _ from hplan₂] at h₂
    simp only at h₁ h₂
    rw [h₁, h₂]
    exact (image_chunkSize { enc with state := .reserving } c₁ payload env).trans
      (image_chunkSize { enc with state := .reserving } c₂ payload env).symm

/-! ## What it sends -/

section Send

variable {enc enc' : V6ShapedEncoder C} {payload record : Bytes} {env : SealEnv} {split : Nat}

/-- A sealed record in wire order is a frame from the encoder's position, and
moves the nonce on. -/
theorem sealImage_frame {paddingLen : Nat} (hpad : paddingLen ≤ enc.profile.maxPaddingLen)
    (hlen : payload.length ≤ maxPacketSizeV6) (h : sealImage enc paddingLen payload env = (.ok (split, record), enc')) :
    split ≤ record.length ∧ ∃ nonce, enc' = { enc with nonce } ∧
      V6Shaped.Frame C enc.profile enc.aead enc.salt enc.lastWriteSecs.isNone enc.nonce enc.seq payload
        (rotate split record) nonce := by
  unfold sealImage at h
  split at h
  · cases h
  unfold restImage at h
  split at h
  · next hnil =>
    cases h
    subst hnil
    refine ⟨Nat.zero_le _, _, rfl, ?_⟩
    rw [rotate_zero]
    exact .zero _ _ _ _ _ enc.leadingBlock_spec hpad
  next hne =>
  split at h
  · cases h
  obtain ⟨_, hm₂⟩ := enc.profile.mix_length enc.seq (enc.profile.fillOfficial enc.seq paddingLen)
    (C.sealed enc.aead enc.nonce.increment (enc.profile.fillOfficial enc.seq paddingLen) payload)
  rw [Crypto.length_sealed] at hm₂
  cases h
  refine ⟨?_, _, rfl, ?_⟩
  · rw [List.length_append]
    exact Nat.le_trans (Nat.le_of_eq hm₂.symm) (Nat.le_add_right _ _)
  · have hframe : V6Shaped.Frame C enc.profile enc.aead enc.salt enc.lastWriteSecs.isNone enc.nonce enc.seq payload _ _ :=
      .data _ _ _ enc.leadingBlock paddingLen payload enc.leadingBlock_spec hpad hne hlen
    rw [V6Shaped.body, ← List.append_assoc, ← rotate_append hm₂] at hframe
    exact hframe

theorem sealImage_error {paddingLen : Nat} {f : Fault} (h : sealImage enc paddingLen payload env = (.error f, enc')) :
    (∃ nonce, enc' = { enc with nonce }) ∧ f = .err .aead ∧ (env.headerRefused ∨ env.bodyRefused) := by
  unfold sealImage at h
  split at h
  · next hr => cases h; exact ⟨⟨_, rfl⟩, rfl, .inl hr⟩
  unfold restImage at h
  split at h
  · cases h
  split at h
  · next hr => cases h; exact ⟨⟨_, rfl⟩, rfl, .inr hr⟩
  · cases h

theorem image_frame (hlen : payload.length ≤ maxPacketSizeV6) (h : image enc payload env = (.ok (split, record), enc')) :
    split ≤ record.length ∧ enc.pos.Frame payload (rotate split record) enc'.pos := by
  obtain ⟨enc₁, himage, rfl⟩ := finished_ok h
  obtain ⟨hsplit, nonce, rfl, hframe⟩ := sealImage_frame (enc.profile.finalPaddingLen_le _ _ _ _) hlen himage
  exact ⟨hsplit, nonce, hframe, rfl⟩

theorem image_kept {err : Error} (h : image enc payload env = (.error (.err err), enc')) :
    (enc'.state = .ready ∧ enc'.pos = enc.pos) ∨ enc'.state = .poisoned := by
  obtain ⟨enc₁, himage, rfl⟩ := finished_error h
  obtain ⟨⟨nonce, rfl⟩, _⟩ := sealImage_error himage
  by_cases hn : nonce = enc.nonce
  · subst hn
    exact .inl ⟨by simp [EncoderState.afterSeal], rfl⟩
  · exact .inr (by simp [EncoderState.afterSeal, hn])

theorem image_fails {f : Fault} (h : image enc payload env = (.error f, enc')) :
    f = .err .aead ∧ (env.headerRefused ∨ env.bodyRefused) := by
  obtain ⟨_, himage⟩ := finished_fault h
  exact (sealImage_error himage).2

end Send

instance : LawfulEncoder (V6ShapedEncoder C) where
  Pos := V6Shaped.Pos C
  pos := pos
  Frame := V6Shaped.Pos.Frame
  Valid _ := True
  pos_set _ _ := rfl
  valid_set _ _ _ := trivial
  plan_pos enc n size now := by
    obtain ⟨chunkSize, h⟩ := plan_snd enc n size now
    exact (congrArg pos h).trans rfl
  plan_valid _ _ _ _ _ := trivial
  image_frame {enc enc₁ _ _ size now _ _ _ _ _} _ hplan hlen h := by
    obtain ⟨rfl, _, _, hmax⟩ := plan_ok hplan
    obtain ⟨hsplit, hframe⟩ := image_frame (Nat.le_trans hlen hmax) h
    obtain ⟨chunkSize, hchunk⟩ := (enc.limitFor_spec size now).2
    refine ⟨trivial, hsplit, ?_⟩
    rw [hchunk] at hframe
    exact hframe
  image_kept {enc enc₁ _ _ size now _ _ _ _} _ hplan h := by
    obtain ⟨rfl, _⟩ := plan_ok hplan
    have hkept := image_kept h
    obtain ⟨chunkSize, hchunk⟩ := (enc.limitFor_spec size now).2
    refine ⟨trivial, ?_⟩
    rw [hchunk] at hkept
    exact hkept
  Fails _ env f := f = .err .aead ∧ (env.headerRefused ∨ env.bodyRefused)
  image_fails _ _ h := image_fails h

end V6ShapedEncoder

end Snell
