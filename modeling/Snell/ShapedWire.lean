/-
The shaped record as the wire has it, front to back, and that the encoder's
in-place record is that one: put back in wire order it is the salt block of a
first record, the prefix, the header, the padding and the ciphertext, whatever
the caller reserved and whatever records are pending in the buffer.
-/
import Snell.Reservations

namespace Snell

open RecordEncoder

namespace V6ShapedEncoder

open V6Shaped (LeadingBlock)

variable {C : Crypto}

/-! ## The wire format -/

/-- The prefix of the next record. -/
def wirePrefix (enc : V6ShapedEncoder C) : Bytes :=
  enc.profile.fillOfficial enc.seq (enc.profile.recordPrefixLen enc.seq)

/-- The padding of the next record, before it is mixed. -/
def wirePadding (enc : V6ShapedEncoder C) (payload : Bytes) : Bytes :=
  enc.profile.fillOfficial enc.seq
    (enc.profile.finalPaddingLen enc.seq (enc.profile.recordPrefixLen enc.seq) payload.length enc.lastWriteSecs.isNone)

/-- The header of the next record, sealed against its prefix. -/
def wireHeader (enc : V6ShapedEncoder C) (payload : Bytes) : Bytes :=
  C.sealed enc.aead enc.nonce enc.wirePrefix (plainHeader (enc.wirePadding payload).length payload.length)

/-- The padding and the ciphertext, mixed. There is no ciphertext of no
payload. -/
def wireBody (enc : V6ShapedEncoder C) (payload : Bytes) : Bytes × Bytes :=
  if payload = [] then (enc.wirePadding [], [])
  else
    enc.profile.mixPaddingPayload enc.seq (enc.wirePadding payload)
      (C.sealed enc.aead enc.nonce.increment (enc.wirePadding payload) payload)

/-- `wire` is the next record, with `payload` in it. -/
def Contiguous (enc : V6ShapedEncoder C) (payload wire : Bytes) : Prop :=
  ∃ block, LeadingBlock enc.profile enc.salt enc.lastWriteSecs.isNone block ∧
    wire = block ++ enc.wirePrefix ++ enc.wireHeader payload ++ (enc.wireBody payload).1 ++ (enc.wireBody payload).2

/-- Where the in-place record is cut: behind the payload and its tag. -/
def splitOf (payload : Bytes) : Nat := if payload = [] then 0 else payload.length + tagLen

theorem length_wirePadding (enc : V6ShapedEncoder C) (payload : Bytes) :
    (enc.wirePadding payload).length = enc.paddingOf payload.length := Profile.length_fillOfficial _ _ _

theorem length_wireBody (enc : V6ShapedEncoder C) (payload : Bytes) :
    (enc.wireBody payload).1.length = enc.paddingOf payload.length ∧
    (enc.wireBody payload).2.length = splitOf payload := by
  unfold wireBody splitOf
  by_cases h : payload = []
  · subst h
    exact ⟨enc.length_wirePadding [], rfl⟩
  · rw [if_neg h, if_neg h]
    obtain ⟨h₁, h₂⟩ := enc.profile.mix_length enc.seq (enc.wirePadding payload)
      (C.sealed enc.aead enc.nonce.increment (enc.wirePadding payload) payload)
    exact ⟨h₁.trans (enc.length_wirePadding payload), h₂.trans (Crypto.length_sealed _ _ _ _ _)⟩

/-- Exactly what the parts need, and no more. -/
theorem Contiguous.length {enc : V6ShapedEncoder C} {payload wire : Bytes} (h : enc.Contiguous payload wire) :
    wire.length = enc.layout.saltBlockLen + enc.layout.prefixLen + headerCipherLen + enc.paddingOf payload.length +
      splitOf payload := by
  obtain ⟨block, hblock, rfl⟩ := h
  obtain ⟨h₁, h₂⟩ := enc.length_wireBody payload
  have hb := hblock.length
  have hp : enc.wirePrefix.length = enc.layout.prefixLen := Profile.length_fillOfficial _ _ _
  have hh : (enc.wireHeader payload).length = headerCipherLen := Crypto.length_sealed _ _ _ _ _
  simp only [List.length_append, h₁, h₂, hp, hh, hb, layout]

/-! ## Sealing -/

/-- Sealing in place makes the wire's record, cut at `splitOf`. -/
theorem image_contiguous {enc enc' : V6ShapedEncoder C} {payload record : Bytes} {env : SealEnv} {split : Nat}
    (h : image enc payload env = (.ok (split, record), enc')) :
    enc.Contiguous payload (rotate split record) ∧ split = splitOf payload := by
  obtain ⟨enc₁, himage, rfl⟩ := finished_ok h
  have hpad : enc.profile.fillOfficial enc.seq (enc.paddingOf payload.length) = enc.wirePadding payload := rfl
  have hhead : V6Shaped.head C enc.profile enc.aead enc.nonce enc.seq (enc.paddingOf payload.length) payload.length =
      enc.wirePrefix ++ enc.wireHeader payload := by
    rw [wireHeader, length_wirePadding]
    rfl
  unfold sealImage at himage
  rw [hhead, hpad] at himage
  split at himage
  · cases himage
  unfold restImage at himage
  unfold Contiguous wireBody splitOf
  by_cases hnil : payload = []
  · subst hnil
    simp only [↓reduceIte] at himage ⊢
    cases himage
    refine ⟨⟨enc.leadingBlock, enc.leadingBlock_spec, ?_⟩, rfl⟩
    rw [rotate_zero]
    simp only [List.append_assoc, List.append_nil]
  · simp only [if_neg hnil] at himage ⊢
    split at himage
    · cases himage
    cases himage
    refine ⟨⟨enc.leadingBlock, enc.leadingBlock_spec, ?_⟩, rfl⟩
    -- the ciphertext is in front, and as long as the split
    have hlen := (enc.profile.mix_length enc.seq (enc.wirePadding payload)
      (C.sealed enc.aead enc.nonce.increment (enc.wirePadding payload) payload)).2
    rw [Crypto.length_sealed] at hlen
    refine (rotate_append hlen).trans ?_
    simp only [List.append_assoc]
    rfl

/-- The encoder a reservation was planned with differs in what the record does
not depend on. -/
theorem plan_chunkSize {enc enc₁ : V6ShapedEncoder C} {n now : Nat} {size : RecordSize} {r : Res Plan}
    (h : plan enc n size now = (r, enc₁)) : ∃ chunkSize, enc₁ = { enc with chunkSize } := by
  obtain ⟨chunkSize, hs⟩ := plan_snd enc n size now
  rw [h] at hs
  exact ⟨chunkSize, hs⟩

/-- Whatever `ring` does not refuse is sealed. -/
theorem image_accepted (enc : V6ShapedEncoder C) (payload : Bytes) {env : SealEnv} (hh : env.headerRefused = false)
    (hb : env.bodyRefused = false) : ∃ split record enc', image enc payload env = (.ok (split, record), enc') := by
  rcases hi : image enc payload env with ⟨r, enc'⟩
  cases r with
  | ok r => exact ⟨r.1, r.2, enc', rfl⟩
  | error f =>
    obtain ⟨-, hr | hr⟩ := image_fails hi
    · rw [hh] at hr; cases hr
    · rw [hb] at hr; cases hr

/-! ## Which record is the first -/

/-- The clock is set by the first record, and by nothing else. -/
theorem image_first {enc enc' : V6ShapedEncoder C} {payload : Bytes} {env : SealEnv} {r : Res (Nat × Bytes)}
    (h : image enc payload env = (r, enc')) :
    enc'.lastWriteSecs = match r with | .ok _ => some env.now | .error _ => enc.lastWriteSecs := by
  cases r with
  | ok r => obtain ⟨_, _, rfl⟩ := finished_ok h; rfl
  | error f =>
    obtain ⟨rfl, -⟩ := image_fails h
    obtain ⟨_, himage, rfl⟩ := finished_error h
    obtain ⟨⟨nonce, rfl⟩, -⟩ := sealImage_error himage
    rfl

theorem sealSpec_first {enc : V6ShapedEncoder C} (p : Plan) (pfx : Bytes) (payload : Except Error Bytes) (env : SealEnv) :
    (sealSpec enc p pfx payload env).2.lastWriteSecs.isNone =
      (enc.lastWriteSecs.isNone && !(sealSpec enc p pfx payload env).1.isSealed) := by
  unfold sealSpec
  cases payload with
  | error err => exact (Bool.and_true _).symm
  | ok payload =>
    simp only
    rcases hi : EncoderSpec.image enc p payload env with ⟨r, enc'⟩
    have hfirst := image_first hi
    cases r with
    | ok r => simp only [hfirst, Attempted.isSealed, Bool.not_true, Bool.and_false, Option.isNone_some]
    | error f => simp only [hfirst, Attempted.isSealed, Bool.not_false, Bool.and_true]

theorem spec_first (enc : V6ShapedEncoder C) (a : Attempt) (q : BoundedQueue UInt8) (stale : Bytes) :
    (a.spec enc q stale).2.lastWriteSecs.isNone =
      (enc.lastWriteSecs.isNone && !(a.spec enc q stale).1.isSealed) := by
  unfold Attempt.spec
  rcases hplan : EncoderSpec.plan enc a.pfx.length a.size a.now with ⟨r, enc₁⟩
  obtain ⟨chunkSize, rfl⟩ := plan_chunkSize hplan
  cases r with
  | error f => exact (Bool.and_true _).symm
  | ok p =>
    simp only
    cases q.refusal p.total with
    | some r => exact (Bool.and_true _).symm
    | none =>
      simp only [Close.spec]
      cases a.close with
      | sealMut n env => exact sealSpec_first _ _ _ _
      | sealInit n env => exact sealSpec_first _ _ _ _
      | drop => exact (Bool.and_true _).symm
      | forget => exact (Bool.and_true _).symm

/-- Every call of a shaped encoder returns. -/
theorem run_returns (enc : V6ShapedEncoder C) (a : Attempt) {b : Buffer} (hw : b.Wf) :
    (a.run enc b).1.returns = true := by
  obtain ⟨⟨hends, -⟩, -⟩ := LawfulEncoder.run_ends (e := enc) trivial a hw
  simp only at hends
  generalize (a.run enc b).1 = r at hends
  cases hends with
  | failed _ hfails _ =>
    obtain ⟨rfl, -⟩ := hfails
    rfl
  | _ => rfl

theorem run_first (enc : V6ShapedEncoder C) (a : Attempt) {b : Buffer} (hw : b.Wf) :
    (a.run enc b).2.1.lastWriteSecs.isNone = (enc.lastWriteSecs.isNone && !(a.run enc b).1.isSealed) := by
  obtain ⟨stale, hr, he, -⟩ := a.run_spec enc hw
  have hret := enc.run_returns a hw
  rw [hr] at hret
  rw [he hret, hr]
  exact spec_first enc a _ stale

/-- No record was sealed in a run if and only if the encoder is still at its
first, provided it started there. -/
theorem encodeRun_first (enc : V6ShapedEncoder C) (ops : List RecordOp) :
    (encodeRun enc ops).2.lastWriteSecs.isNone = (enc.lastWriteSecs.isNone && (encodeRun enc ops).1.isEmpty) := by
  induction ops generalizing enc with
  | nil => exact (Bool.and_true _).symm
  | cons op ops ih =>
    have hfirst := enc.run_first op.attempt op.wf
    have hret := enc.run_returns op.attempt op.wf
    have hrun := op.run_eq enc
    rcases hr : op.attempt.run enc op.buf with ⟨r, enc', b'⟩
    rw [hr] at hfirst hret hrun
    simp only at hfirst hret hrun
    unfold encodeRun
    rw [hrun]
    cases r with
    | sealed capacity payload split record =>
      simp only [Attempted.outcome, Attempted.isSealed, Bool.not_true, Bool.and_false, List.isEmpty_cons] at hfirst ⊢
      rw [ih, hfirst, Bool.false_and]
    | refused f | failed capacity f =>
      cases f with
      | err err =>
        simp only [Attempted.outcome, Outcome.returns, ↓reduceIte, Attempted.isSealed, Bool.not_false,
          Bool.and_true] at hfirst ⊢
        rw [ih, hfirst]
      | panic | diverged => cases hret
    | dropped capacity | forgotten capacity left =>
      simp only [Attempted.outcome, Outcome.returns, ↓reduceIte, Attempted.isSealed, Bool.not_false,
        Bool.and_true] at hfirst ⊢
      rw [ih, hfirst]

/-! ## Every reservation -/

/-- A payload that fills its part of an open reservation, written through
`payload_mut`. -/
def writeAndSeal (pfx content : Bytes) (size : RecordSize) (now : Nat) (env : SealEnv) : Attempt :=
  ⟨pfx, size, now, [.payloadMut content], .sealMut content.length env⟩

/-- What the caller wrote is sealed, if there was room for it. -/
theorem writeAndSeal_sealed (enc : V6ShapedEncoder C) {b : Buffer} (hw : b.Wf) {pfx content : Bytes} {size : RecordSize}
    {now : Nat} {slot : Slot} {record : Record (V6ShapedEncoder C)} {enc₁ : V6ShapedEncoder C} {b₁ : Buffer}
    (h : RecordEncoder.reserve enc b pfx size now = (.ok (slot, record), enc₁, b₁))
    (hc : content.length ≤ slot.capacity) {env : SealEnv} (hh : env.headerRefused = false) (hb : env.bodyRefused = false) :
    ∃ split r enc' b',
      (writeAndSeal pfx content size now env).run enc b = (.sealed slot.capacity (pfx ++ content) split r, enc', b') := by
  have hres := EncoderSpec.reserve_spec enc b hw pfx size now
  rcases hplan : EncoderSpec.plan enc pfx.length size now with ⟨r, enc₂⟩
  rw [hplan, h] at hres
  cases hres with
  | @held p _ _ _ head _ hroom hmax hheld hkept hlaid =>
  have hpfx : pfx.length ≤ p.maxPayload := EncoderSpec.plan_prefix hplan
  have hcap : p.capacity pfx = slot.capacity := by rw [Plan.capacity, Slot.capacity, hmax, hheld.prefixLen]
  unfold writeAndSeal
  obtain ⟨stale, hr, he, -⟩ :=
    Attempt.run_spec ⟨pfx, size, now, [.payloadMut content], .sealMut content.length env⟩ enc hw
  have hfits : pfx.length + content.length ≤ p.maxPayload := by
    rw [Plan.capacity] at hcap
    omega
  have hspec : Attempt.spec ⟨pfx, size, now, [.payloadMut content], .sealMut content.length env⟩ enc (b.queue hw) stale =
      sealSpec (setState enc₂ .reserving) p pfx (.ok (pfx ++ content)) env := by
    simp only [Attempt.spec, hplan, hroom, Close.spec, Draft.sealMut_payloadMut stale hfits]
  obtain ⟨split, record', enc', himage⟩ := image_accepted (setState enc₂ .reserving) (pfx ++ content) hh hb
  have himage' : EncoderSpec.image (setState enc₂ .reserving) p (pfx ++ content) env = (.ok (split, record'), enc') :=
    himage
  rw [hspec] at hr he
  simp only [sealSpec, himage', hcap] at hr he
  exact ⟨split, record', enc', _, Prod.ext hr (Prod.ext (he rfl) rfl)⟩

/-- **The in-place shaped record is the contiguous one.** From every state of
an encoder and in every buffer: what a reservation seals, put back in wire
order, is the salt block, the prefix, the header, the padding and the
ciphertext, right behind the bytes that were pending; whatever length the
reservation admits can be sealed; and the salt block is on the first record a
new encoder seals and on no other. -/
theorem in_place_record_contiguous (C : Crypto) :
    (∀ (enc enc' : V6ShapedEncoder C) (b b' : Buffer) (a : Attempt) (capacity split : Nat) (payload r : Bytes), b.Wf →
      a.run enc b = (.sealed capacity payload split r, enc', b') →
        enc.Contiguous payload (rotate split r) ∧ split = splitOf payload ∧ b'.filled = b.filled ++ r ∧
          enc'.seq = enc.seq + 1 ∧ enc'.lastWriteSecs.isSome) ∧
    (∀ (enc enc₁ : V6ShapedEncoder C) (b b₁ : Buffer) (pfx content : Bytes) (size : RecordSize) (now : Nat) (slot : Slot)
      (record : ShapedRecord) (env : SealEnv), b.Wf → reserve enc b pfx size now = (.ok (slot, record), enc₁, b₁) →
        content.length ≤ slot.capacity → env.headerRefused = false → env.bodyRefused = false →
        ∃ split r enc' b', (writeAndSeal pfx content size now env).run enc b =
          (.sealed slot.capacity (pfx ++ content) split r, enc', b')) ∧
    ∀ (psk : ProfiledPsk C) (salt : Salt) (enc : V6ShapedEncoder C) (ops : List RecordOp), withSalt psk salt = .ok enc →
      ((encodeRun enc ops).2.lastWriteSecs = none ↔ (encodeRun enc ops).1 = []) := by
  refine ⟨?_, ?_, ?_⟩
  · intro enc enc' b b' a capacity split payload r hw hrun
    obtain ⟨hfilled, -, p, enc₁, env, hplan, -, -, -, hlen, himage⟩ := Attempt.run_sealed hw hrun
    obtain ⟨chunkSize, rfl⟩ := plan_chunkSize hplan
    obtain ⟨hwire, hsplit⟩ := image_contiguous himage
    obtain ⟨-, -, nonce, -, hpos⟩ := LawfulEncoder.image_frame (e := enc) trivial hplan hlen himage
    refine ⟨hwire, hsplit, hfilled, congrArg V6Shaped.Pos.seq hpos, ?_⟩
    rw [← Option.not_isNone, show enc'.lastWriteSecs.isNone = false from congrArg V6Shaped.Pos.first hpos]
    rfl
  · intro enc enc₁ b b₁ pfx content size now slot record env hw hres hc hh hb
    exact enc.writeAndSeal_sealed hw hres hc hh hb
  · intro psk salt enc ops hnew
    obtain ⟨-, hpos, -⟩ := withSalt_ok hnew
    have hnone : enc.lastWriteSecs.isNone = true := congrArg V6Shaped.Pos.first hpos
    have hfirst := enc.encodeRun_first ops
    rw [hnone, Bool.true_and] at hfirst
    rw [← Option.isNone_iff_eq_none, hfirst, List.isEmpty_iff]

/-- A first record behind a pending byte. -/
theorem in_place_record_contiguous_first :
    let salt : Salt := ⟨List.replicate saltLen 1, by decide⟩
    let psk : Psk := ⟨List.replicate pskMinLen 0, by decide⟩
    let enc : V6ShapedEncoder Crypto.transparent := ⟨(), Nonce.new, salt, 0, psk.profiled _, 0, none, .ready⟩
    let b : Buffer := ⟨[7], List.replicate 2047 255, 0, 2048⟩
    ∃ split r enc' b',
      (writeAndSeal [1] [2, 3] (.datagram 2) 0 ⟨0, false, false, 0⟩).run enc b = (.sealed 2 [1, 2, 3] split r, enc', b') ∧
        enc.Contiguous [1, 2, 3] (rotate split r) ∧ split = 19 ∧ b'.filled = 7 :: r := by
  intro salt psk enc b
  obtain ⟨hsealed, hadmitted, -⟩ := in_place_record_contiguous Crypto.transparent
  have hw : b.Wf := ⟨Nat.zero_le _, by decide⟩
  rcases hres : reserve enc b [1] (.datagram 2) 0 with ⟨r, enc₁, b₁⟩
  have hcap : r.map (fun s => s.1.capacity) = .ok 2 := by
    rw [show r = (reserve enc b [1] (.datagram 2) 0).1 by rw [hres]]
    decide +kernel
  cases r with
  | error f => cases hcap
  | ok s =>
    obtain ⟨slot, record⟩ := s
    have hslot : slot.capacity = 2 := Except.ok.inj hcap
    obtain ⟨split, r, enc', b', hrun⟩ := hadmitted enc enc₁ b b₁ [1] [2, 3] (.datagram 2) 0 slot record
      ⟨0, false, false, 0⟩ hw hres (Nat.le_of_eq hslot.symm) rfl rfl
    rw [hslot] at hrun
    obtain ⟨hwire, hsplit, hfilled, -⟩ := hsealed enc enc' b b' _ 2 split _ r hw hrun
    exact ⟨split, r, enc', b', hrun, hwire, hsplit, hfilled⟩

end V6ShapedEncoder

end Snell
