/-
The v6 shaped decoder as a staged parser, the shaped wire format, and that a
decoder in step with the sender reads each frame as the one record it is.
-/
import Snell.Shaped
import Snell.ProfileFacts
import Snell.Stages

namespace Snell

open RecordDecoder

namespace V6ShapedDecoder

variable {C : Crypto}

/-! ## The stages -/

theorem readHeader_state {d d' : V6ShapedDecoder C} {pfx hdr : Bytes} {r : Res RecordHeader}
    (h : readHeader d pfx hdr = (r, d')) : ∃ nonce, d' = { d with nonce } := by
  unfold readHeader at h
  split at h
  · obtain ⟨_, rfl⟩ := Prod.mk.inj h
    exact ⟨d.nonce, rfl⟩
  · split at h <;> obtain ⟨_, rfl⟩ := Prod.mk.inj h <;> exact ⟨_, rfl⟩

theorem openBody_error {d d' : V6ShapedDecoder C} {padding cipher body' : Bytes} {f : Fault}
    (h : openBody d padding cipher = (.error f, d', body')) : ∃ nonce, d' = { d with nonce } := by
  unfold openBody at h
  split at h
  · cases h; exact ⟨d.nonce, rfl⟩
  · split at h <;> cases h
    exact ⟨_, rfl⟩

theorem openBody_ok {d d' : V6ShapedDecoder C} {padding cipher body' : Bytes}
    (h : openBody d padding cipher = (.ok (), d', body')) : ∃ nonce, d' = nextRecord { d with nonce } := by
  unfold openBody at h
  split at h
  · cases h
  · split at h <;> cases h
    exact ⟨_, rfl⟩

theorem openBody_length (d : V6ShapedDecoder C) (padding cipher : Bytes) :
    (openBody d padding cipher).2.2.length = padding.length + cipher.length := by
  unfold openBody
  split
  · exact List.length_append
  · next aead _ _ =>
    have ho := C.aesOpen_length aead d.nonce padding cipher
    split <;> next heq => rw [heq] at ho; simp only [List.length_append, ← ho]

theorem readBody_error {d d' : V6ShapedDecoder C} {header : RecordHeader} {body body' : Bytes} {f : Fault}
    (h : readBody d header body = (.error f, d', body')) : ∃ nonce, d' = { d with nonce } := by
  unfold readBody at h
  split at h
  · cases h; exact ⟨d.nonce, rfl⟩
  · exact openBody_error h

theorem readBody_ok {d d' : V6ShapedDecoder C} {header : RecordHeader} {body body' : Bytes}
    (h : readBody d header body = (.ok (), d', body')) : ∃ nonce, d' = nextRecord { d with nonce } := by
  unfold readBody at h
  split at h
  · cases h
  · exact openBody_ok h

theorem readBody_length (d : V6ShapedDecoder C) (header : RecordHeader) (body : Bytes) :
    (readBody d header body).2.2.length = body.length := by
  unfold readBody
  split
  · rfl
  · have hs := d.profile.mix_length d.seq (body.take header.paddingLen) (body.drop header.paddingLen)
    simp only [List.length_take, List.length_drop] at hs
    rw [openBody_length, hs.1, hs.2]
    omega

def stage (d : V6ShapedDecoder C) : Stage (RecordHeader × Nat) :=
  match d.step with
  | .salt => .salt
  | .header _ => .header
  | .body header prefixLen => .body (header, prefixLen)

/-- Bytes in front of the header, behind the salt block of the first record. -/
def prefixSpan (d : V6ShapedDecoder C) : Nat :=
  match d.step with
  | .header prefixLen => prefixLen
  | _ => 0

/-- The prefix and the header, behind the salt block of the first record. -/
def stageHeader (d : V6ShapedDecoder C) (front : Bytes) : Res (Option (RecordHeader × Nat)) × V6ShapedDecoder C :=
  match readHeader d ((front.drop d.saltSpan).take d.prefixSpan) (front.drop (d.saltSpan + d.prefixSpan)) with
  | (.error f, d') => (.error f, d')
  | (.ok header, d') =>
    if header.bodyLenV6Shaped = 0 then (.ok none, d'.nextRecord)
    else (.ok (some (header, d.prefixSpan)), { d' with step := .body header d.prefixSpan })

/-- The padding and the payload behind it; a record of padding alone is a zero
chunk. -/
def stageBody (d : V6ShapedDecoder C) (b : RecordHeader × Nat) (front : Bytes) : Res Item × V6ShapedDecoder C × Bytes :=
  let off := d.saltSpan + b.2 + headerCipherLen
  if b.1.payloadLen = 0 then (.ok .zeroChunk, d.nextRecord, front)
  else
    match readBody d b.1 (front.drop off) with
    | (.error f, d', body) => (.error f, d', front.take off ++ body)
    | (.ok (), d', body) =>
      (.ok (.data (off + b.1.paddingLen) (off + b.1.paddingLen + b.1.payloadLen)), d', front.take off ++ body)

theorem stageHeader_keeps {d d' : V6ShapedDecoder C} {l : Bytes} {r : Res (Option (RecordHeader × Nat))}
    (h : stageHeader d l = (r, d')) : d'.pending = d.pending ∧ d'.psk = d.psk ∧
      (r = .ok none → d'.stage = .header) ∧ ∀ b, r = .ok (some b) → d'.step = .body b.1 b.2 := by
  unfold stageHeader at h
  split at h
  · next hr =>
    cases h
    obtain ⟨_, rfl⟩ := readHeader_state hr
    exact ⟨rfl, rfl, nofun, nofun⟩
  · next hr =>
    obtain ⟨_, rfl⟩ := readHeader_state hr
    split at h <;> cases h
    · exact ⟨rfl, rfl, fun _ => rfl, nofun⟩
    · exact ⟨rfl, rfl, nofun, fun b hb => by cases hb; rfl⟩

theorem stageBody_keeps {d d' : V6ShapedDecoder C} {b : RecordHeader × Nat} {l l' : Bytes} {r : Res Item}
    (h : stageBody d b l = (r, d', l')) : d'.pending = d.pending ∧ d'.psk = d.psk ∧ l'.length = l.length ∧
      ∀ x, r = .ok x → d'.stage = .header := by
  have hl := readBody_length d b.1 (l.drop (d.saltSpan + b.2 + headerCipherLen))
  simp only [List.length_drop] at hl
  unfold stageBody at h
  simp only at h
  split at h
  · cases h; exact ⟨rfl, rfl, rfl, fun _ _ => rfl⟩
  split at h
  · next hr =>
    rw [hr] at hl
    cases h
    obtain ⟨_, rfl⟩ := readBody_error hr
    exact ⟨rfl, rfl, by simp only [List.length_append, List.length_take, hl]; omega, nofun⟩
  · next hr =>
    rw [hr] at hl
    cases h
    obtain ⟨_, rfl⟩ := readBody_ok hr
    exact ⟨rfl, rfl, by simp only [List.length_append, List.length_take, hl]; omega, fun _ _ => rfl⟩

theorem stage_eq_header {d : V6ShapedDecoder C} : d.stage = .header ↔ ∃ prefixLen, d.step = .header prefixLen := by
  unfold stage; split <;> simp_all

theorem stage_eq_salt {d : V6ShapedDecoder C} : d.stage = .salt ↔ d.step = .salt := by
  unfold stage; split <;> simp_all

theorem kdfSalt_take (d : V6ShapedDecoder C) {A : Bytes} (h : d.profile.saltBlockLen ≤ A.length) :
    kdfSalt d (A.take d.profile.saltBlockLen) = kdfSalt d A := by
  unfold kdfSalt
  rw [if_pos (by rw [List.length_take]; omega), if_pos h, List.take_take, Nat.min_self]

theorem saltBlockLen_pos (d : V6ShapedDecoder C) : 0 < d.profile.saltBlockLen :=
  Nat.lt_of_lt_of_le (by decide) d.profile.saltBlockLen_ge

def stages (C : Crypto) : Stages C (V6ShapedDecoder C) (RecordHeader × Nat) where
  stage := stage
  psk d := d.psk.toPsk
  hasKey d := d.key.isSome
  setKey d salt key := { d with key := some (key, salt) }
  toHeader d := { d with step := d.headerStep }
  saltEnd d := d.profile.saltBlockLen
  headerEnd d := d.saltSpan + d.prefixSpan + headerCipherLen
  bodyEnd d b := d.saltSpan + b.2 + headerCipherLen + b.1.bodyLenV6Shaped
  readHeader := stageHeader
  readBody := stageBody
  saltEnd_pos := saltBlockLen_pos
  headerEnd_pos _ := Nat.add_pos_right _ (by decide)
  bodyEnd_pos _ _ := Nat.add_pos_left (Nat.add_pos_right _ (by decide)) _
  pending_set _ _ := rfl
  set_set _ _ _ := rfl
  set_pending _ := rfl
  stage_set _ _ := rfl
  psk_set _ _ := rfl
  pending_setKey _ _ _ := rfl
  stage_setKey _ _ _ := rfl
  psk_setKey _ _ _ := rfl
  hasKey_setKey _ _ _ := rfl
  saltEnd_setKey _ _ _ := rfl
  pending_toHeader _ := rfl
  stage_toHeader _ := rfl
  psk_toHeader _ := rfl
  readHeader_keeps h := ⟨(stageHeader_keeps h).1, congrArg ProfiledPsk.toPsk (stageHeader_keeps h).2.1⟩
  readHeader_none _ h := (stageHeader_keeps h).2.2.1 rfl
  readHeader_some h := by simp only [stage, (stageHeader_keeps h).2.2.2 _ rfl]
  readBody_keeps h :=
    ⟨(stageBody_keeps h).1, congrArg ProfiledPsk.toPsk (stageBody_keeps h).2.1, (stageBody_keeps h).2.2.1⟩
  readBody_ok h := (stageBody_keeps h).2.2.2 _ rfl
  kdfSalt_take d _ h := kdfSalt_take d h
  kdfNeed_eq d := by
    change (if d.key.isNone ∧ d.step = .salt then d.profile.saltBlockLen else 0) = _
    obtain ⟨psk, key, nonce, seq, includeSalt, step, pending⟩ := d
    cases step <;> cases key <;> simp [stage]
  installAead_eq d salt key := by
    change (do let aead ← C.aesNew key; return ({ d with key := some (aead, salt) } : V6ShapedDecoder C)) = _
    cases C.aesNew key <;> rfl

/-! ## The decoder is the machine behind its outstanding records -/

/-- The decoder with nothing outstanding. -/
def bare (d : V6ShapedDecoder C) : V6ShapedDecoder C := { d with pending := 0 }

theorem readHeader_bare (d : V6ShapedDecoder C) (pfx hdr : Bytes) :
    readHeader (bare d) pfx hdr = ((readHeader d pfx hdr).1, bare (readHeader d pfx hdr).2) := by
  obtain ⟨psk, key, nonce, seq, includeSalt, step, pending⟩ := d
  cases key with
  | none => rfl
  | some key => simp only [readHeader, bare]; split <;> rfl

theorem openBody_bare (d : V6ShapedDecoder C) (padding cipher : Bytes) :
    openBody (bare d) padding cipher = ((openBody d padding cipher).1, bare (openBody d padding cipher).2.1,
      (openBody d padding cipher).2.2) := by
  obtain ⟨psk, key, nonce, seq, includeSalt, step, pending⟩ := d
  cases key with
  | none => rfl
  | some key => simp only [openBody, bare]; split <;> rfl

theorem readBody_bare (d : V6ShapedDecoder C) (header : RecordHeader) (body : Bytes) :
    readBody (bare d) header body =
      ((readBody d header body).1, bare (readBody d header body).2.1, (readBody d header body).2.2) := by
  unfold readBody
  split
  · rfl
  · exact openBody_bare d _ _

theorem decodeBody_eq {d : V6ShapedDecoder C} {header : RecordHeader} {prefixLen max : Nat} {P A : Bytes}
    (hs : d.step = .body header prefixLen) (hP : P.length = d.pending) :
    decodeBody d header prefixLen max (P ++ A) =
      answer P A (Staged.run ((stages C).machine max) (bare d) A) := by
  have hoff : d.headerOffset + prefixLen + headerCipherLen = P.length + (d.saltSpan + prefixLen + headerCipherLen) := by
    simp only [headerOffset, hP]; omega
  simp only [decodeBody, hoff, ← hP, Nat.add_assoc P.length]
  refine Stages.body_arm (S := stages C) (s := bare d) (b := (header, prefixLen))
    (by simp only [stages, stage, bare, hs]) (by rw [hP]; rfl) fun hl => ?_
  change d.saltSpan + prefixLen + headerCipherLen + header.bodyLenV6Shaped ≤ A.length at hl
  have hspan : (bare d).saltSpan = d.saltSpan := rfl
  simp only [stages, stageBody, hspan]
  generalize d.saltSpan + prefixLen + headerCipherLen = off at hl ⊢
  by_cases h0 : header.payloadLen = 0
  · rw [if_pos h0, if_pos h0]
    have hpend : d.nextRecord.pending = P.length := hP.symm
    simp only [hpend, Pending.zeroChunk, emit_eq, Item.record, List.take_append_drop, setPending]
    rfl
  rw [if_neg h0, if_neg h0]
  have hfront : (A.take (off + header.bodyLenV6Shaped)).drop off = (A.drop off).take header.bodyLenV6Shaped := by
    rw [List.drop_take, Nat.add_sub_cancel_left]
  have htake : (A.take (off + header.bodyLenV6Shaped)).take off = A.take off := by
    rw [List.take_take, Nat.min_eq_left (by omega)]
  rw [slice_append_right, slice_ok (by omega) hl, Nat.add_sub_cancel_left]
  simp only [hfront, htake, readBody_bare]
  rcases hr : readBody d header ((A.drop off).take header.bodyLenV6Shaped) with ⟨r, d', body⟩
  cases r with
  | error f =>
    obtain ⟨nonce, rfl⟩ := readBody_error hr
    simp only [splice_append_right, setPending, bare, ← hP]
  | ok u =>
    obtain ⟨nonce, rfl⟩ := readBody_ok hr
    have hpend : (nextRecord { d with nonce }).pending = P.length := hP.symm
    simp only [splice_append_right, hpend, Pending.data, emit_eq, Item.record, setPending, bare, Nat.add_assoc]

theorem decodeHeader_eq {d : V6ShapedDecoder C} {prefixLen max : Nat} {P A : Bytes} (hs : d.step = .header prefixLen)
    (hP : P.length = d.pending) :
    decodeHeader d prefixLen max (P ++ A) = answer P A (Staged.run ((stages C).machine max) (bare d) A) := by
  have hoff : d.headerOffset = P.length + d.saltSpan := by simp only [headerOffset, hP]
  have hpre : d.prefixSpan = prefixLen := by simp only [prefixSpan, hs]
  simp only [decodeHeader, hoff, ← hP, Nat.add_assoc P.length]
  rw [← hpre]
  refine Stages.header_arm (S := stages C) (s := bare d) (stage_eq_header.2 ⟨prefixLen, hs⟩)
    (by rw [hP]; rfl) fun hl => ?_
  change d.saltSpan + d.prefixSpan + headerCipherLen ≤ A.length at hl
  have hspan : (bare d).saltSpan = d.saltSpan := rfl
  have hspan' : (bare d).prefixSpan = d.prefixSpan := rfl
  have hpfx : ((A.take (d.saltSpan + d.prefixSpan + headerCipherLen)).drop d.saltSpan).take d.prefixSpan =
      (A.drop d.saltSpan).take d.prefixSpan := by
    rw [List.drop_take, List.take_take, Nat.min_eq_left (by omega)]
  have hhdr : (A.take (d.saltSpan + d.prefixSpan + headerCipherLen)).drop (d.saltSpan + d.prefixSpan) =
      (A.drop (d.saltSpan + d.prefixSpan)).take headerCipherLen := by
    rw [List.drop_take, Nat.add_sub_cancel_left]
  simp only [stages, stageHeader, hspan, hspan', hpfx, hhdr, readHeader_bare]
  rw [slice_append_right, slice_ok (by omega) (by omega), chunkAt_append_right, chunkAt_ok hl, Nat.add_sub_cancel_left]
  simp only [bind, Except.bind, pure, Except.pure]
  rcases hr : readHeader d ((A.drop d.saltSpan).take d.prefixSpan)
    ((A.drop (d.saltSpan + d.prefixSpan)).take headerCipherLen) with ⟨r, d'⟩
  obtain ⟨nonce, rfl⟩ := readHeader_state hr
  cases r with
  | error f => simp only [setPending, bare, ← hP]
  | ok header =>
    simp only
    by_cases h0 : header.bodyLenV6Shaped = 0
    · have hpend : (nextRecord { d with nonce }).pending = P.length := hP.symm
      simp only [if_pos h0, hpend, Pending.zeroChunk, emit_eq, setPending]
      rfl
    · simp only [if_neg h0]
      exact decodeBody_eq rfl hP

theorem readSalt_step {d d' : V6ShapedDecoder C} {A : Bytes} (h : readSalt d A = .ok d') :
    d'.step = .header (d'.profile.recordPrefixLen d'.seq) := by
  unfold readSalt at h
  split at h
  · rw [← Except.ok.inj h]; rfl
  · simp only [bind, Except.bind] at h
    split at h
    · cases h
    · split at h <;> cases h
      rfl

theorem readSalt_eq (d : V6ShapedDecoder C) (A : Bytes) : readSalt d A = (stages C).readSalt d A := by
  obtain ⟨psk, key, nonce, seq, includeSalt, step, pending⟩ := d
  cases key with
  | some key => rfl
  | none =>
    change _ = ((stages C).derived _ A).map _
    simp only [readSalt, Stages.derived, bind, Except.bind, RecordDecoder.kdfSalt]
    cases kdfSalt _ A with
    | error f => rfl
    | ok salt => simp only [stages]; cases C.derive psk.bytes salt <;> rfl

theorem decode_eq (d : V6ShapedDecoder C) (max : Nat) (P A : Bytes) (ha : d.stage = .salt → d.pending = 0)
    (hP : P.length = d.pending) :
    decode d max (P ++ A) = answer P A (Staged.run ((stages C).machine max) (bare d) A) := by
  unfold decode
  cases hs : d.step with
  | header prefixLen => exact decodeHeader_eq hs hP
  | body header prefixLen => exact decodeBody_eq hs hP
  | salt =>
    have hp := ha (stage_eq_salt.2 hs)
    obtain rfl : P = [] := List.eq_nil_of_length_eq_zero (by omega)
    have hb : bare d = d := by rw [bare, ← hp]
    rw [hb, hp, List.nil_append]
    refine Stages.salt_arm (S := stages C) (stage_eq_salt.2 hs) hp fun hl => ?_
    rw [readSalt_eq]
    cases hr : (stages C).readSalt d A with
    | error f => rfl
    | ok d' =>
      obtain ⟨hpend, _, _⟩ := Stages.readSalt_ok hr
      have hpend : d'.pending = 0 := hpend.trans hp
      have hb' : bare d' = d' := by rw [bare, ← hpend]
      have : decodeHeader d' (d'.profile.recordPrefixLen d'.seq) max ([] ++ A) = _ :=
        decodeHeader_eq (readSalt_step ((readSalt_eq d A).trans hr)) hpend.symm
      rwa [hb'] at this

instance : StagedDecoder (V6ShapedDecoder C) := (stages C).stagedDecoder decode_eq

instance : KdfDecoder C (V6ShapedDecoder C) := (stages C).kdfDecoder rfl rfl

end V6ShapedDecoder

/-! ## The wire format -/

namespace V6Shaped

/-- What stands in front of the first record's prefix. -/
def LeadingBlock (p : Profile) (salt : Salt) (first : Bool) (block : Bytes) : Prop :=
  if first then p.writeSaltBlock salt p.saltBlockLen = .ok block else block = []

/-- The prefix of record `seq`. -/
def recordPrefix (p : Profile) (seq : UInt32) : Bytes := p.fillOfficial seq (p.recordPrefixLen seq)

/-- The prefix and the header sealed against it. -/
def head (C : Crypto) (p : Profile) (key : C.Key) (nonce : Nonce) (seq : UInt32) (paddingLen payloadLen : Nat) : Bytes :=
  recordPrefix p seq ++ C.sealed key nonce (recordPrefix p seq) (plainHeader paddingLen payloadLen)

/-- The padding and the payload sealed against it, mixed. -/
def body (C : Crypto) (p : Profile) (key : C.Key) (nonce : Nonce) (seq : UInt32) (paddingLen : Nat) (payload : Bytes) :
    Bytes :=
  let padding := p.fillOfficial seq paddingLen
  let mixed := p.mixPaddingPayload seq padding (C.sealed key nonce padding payload)
  mixed.1 ++ mixed.2

/-- `wire` is record `seq` carrying `payload`, sealed from `nonce` on; `nonce'`
is the next unused one. -/
inductive Frame (C : Crypto) (p : Profile) (key : C.Key) (salt : Salt) :
    (first : Bool) → (nonce : Nonce) → (seq : UInt32) → (payload wire : Bytes) → (nonce' : Nonce) → Prop
  | zero (first : Bool) (nonce : Nonce) (seq : UInt32) (block : Bytes) (paddingLen : Nat)
    (hblock : LeadingBlock p salt first block) (hpad : paddingLen ≤ p.maxPaddingLen) :
    Frame C p key salt first nonce seq [] (block ++ head C p key nonce seq paddingLen 0 ++ p.fillOfficial seq paddingLen)
      nonce.increment
  | data (first : Bool) (nonce : Nonce) (seq : UInt32) (block : Bytes) (paddingLen : Nat) (payload : Bytes)
    (hblock : LeadingBlock p salt first block) (hpad : paddingLen ≤ p.maxPaddingLen) (hne : payload ≠ [])
    (hl : payload.length ≤ maxPacketSizeV6) :
    Frame C p key salt first nonce seq payload
      (block ++ head C p key nonce seq paddingLen payload.length ++ body C p key nonce.increment seq paddingLen payload)
      nonce.increment.increment

section Lengths

variable {C : Crypto} {p : Profile} {key : C.Key} {salt : Salt} {first : Bool} {nonce nonce' : Nonce} {seq : UInt32}

theorem LeadingBlock.length {block : Bytes} (h : LeadingBlock p salt first block) :
    block.length = if first then p.saltBlockLen else 0 := by
  cases first with
  | false => rw [show block = [] from h]; rfl
  | true =>
    obtain ⟨block', hw, hl, _⟩ := p.writeSaltBlock_ok salt
    rw [show p.writeSaltBlock salt p.saltBlockLen = .ok block from h] at hw
    rw [Except.ok.inj hw, hl]; rfl

theorem LeadingBlock.extractSalt {block : Bytes} (h : LeadingBlock p salt true block) :
    p.extractSalt block = .ok salt := by
  obtain ⟨block', hw, _, he⟩ := p.writeSaltBlock_ok salt
  rw [show p.writeSaltBlock salt p.saltBlockLen = .ok block from h] at hw
  rw [Except.ok.inj hw, he]

@[simp] theorem length_head (paddingLen payloadLen : Nat) :
    (head C p key nonce seq paddingLen payloadLen).length = p.recordPrefixLen seq + headerCipherLen := by
  simp only [head, recordPrefix, List.length_append, Profile.length_fillOfficial, Crypto.length_sealed,
    length_plainHeader, headerCipherLen]

@[simp] theorem length_body (paddingLen : Nat) (payload : Bytes) :
    (body C p key nonce seq paddingLen payload).length = paddingLen + (payload.length + tagLen) := by
  obtain ⟨h₁, h₂⟩ := p.mix_length seq (p.fillOfficial seq paddingLen)
    (C.sealed key nonce (p.fillOfficial seq paddingLen) payload)
  rw [Profile.length_fillOfficial] at h₁
  rw [Crypto.length_sealed] at h₂
  simp only [body, List.length_append, h₁, h₂]

/-- Mixing a body again parts it into the padding and the sealed payload. -/
theorem mix_body (paddingLen : Nat) (payload : Bytes) :
    p.mixPaddingPayload seq ((body C p key nonce seq paddingLen payload).take paddingLen)
        ((body C p key nonce seq paddingLen payload).drop paddingLen) =
      (p.fillOfficial seq paddingLen, C.sealed key nonce (p.fillOfficial seq paddingLen) payload) := by
  obtain ⟨h₁, _⟩ := p.mix_length seq (p.fillOfficial seq paddingLen)
    (C.sealed key nonce (p.fillOfficial seq paddingLen) payload)
  rw [Profile.length_fillOfficial] at h₁
  rw [body, List.take_left' h₁, List.drop_left' h₁, Profile.mix_mix]

/-- No record is longer than `V6_WIRE_CAP`. -/
theorem Frame.length_le {payload wire : Bytes} (h : Frame C p key salt first nonce seq payload wire nonce') :
    wire.length ≤ v6WireCap := by
  have hmax := p.maxPaddingLen_le
  have hprefix := p.recordPrefixLen_le seq
  have hblockLen : ∀ {block}, LeadingBlock p salt first block → block.length ≤ maxSaltBlockLen := fun hb => by
    rw [hb.length]; split
    · exact p.saltBlockLen_le_max
    · exact Nat.zero_le _
  cases h with
  | zero block paddingLen hblock hpad =>
    have := hblockLen hblock
    simp only [List.length_append, length_head, Profile.length_fillOfficial]
    simp only [v6WireCap, headerCipherLen, maxPacketSizeV6] at *
    omega
  | data block paddingLen _ hblock hpad hne hl =>
    have := hblockLen hblock
    simp only [List.length_append, length_head, length_body]
    simp only [v6WireCap, headerCipherLen, maxPacketSizeV6] at *
    omega

end Lengths

end V6Shaped

namespace V6ShapedDecoder

open V6Shaped (LeadingBlock recordPrefix)

variable {C : Crypto} {p : Profile} {key : C.Key} {salt : Salt} {first : Bool} {nonce nonce' : Nonce} {seq : UInt32}
  {d : V6ShapedDecoder C} {salt' : Salt}

/-- The decoder is about to read record `seq`, sealed under `key` from `nonce`
on; before the first record it may or may not have the key yet. -/
structure Synced (p : Profile) (key : C.Key) (salt : Salt) (first : Bool) (nonce : Nonce) (seq : UInt32)
    (d : V6ShapedDecoder C) : Prop where
  profile : d.profile = p
  nonce_eq : d.nonce = nonce
  seq_eq : d.seq = seq
  includeSalt : d.includeSalt = first
  pending : d.pending = 0
  step : (d.step = .header (p.recordPrefixLen seq) ∧ ∃ salt', d.key = some (key, salt')) ∨
    (d.step = .salt ∧ first = true ∧
      ((∃ salt', d.key = some (key, salt')) ∨ (d.key = none ∧ C.derive d.psk.bytes salt = .ok key)))

theorem Synced.saltSpan {block : Bytes} (h : Synced p key salt first nonce seq d)
    (hb : LeadingBlock p salt first block) : d.saltSpan = block.length := by
  rw [V6ShapedDecoder.saltSpan, h.includeSalt, h.profile, hb.length]

theorem Synced.headerStep (h : Synced p key salt first nonce seq d) : d.headerStep = .header (p.recordPrefixLen seq) := by
  rw [V6ShapedDecoder.headerStep, h.profile, h.seq_eq]

/-- Past the salt block. -/
theorem run_salt {max : Nat} {block rest : Bytes} (h : Synced p key salt first nonce seq d)
    (hb : LeadingBlock p salt first block) (hm : (block ++ rest).length ≤ max) :
    ∃ d' salt', Synced p key salt first nonce seq d' ∧ d'.step = .header (p.recordPrefixLen seq) ∧
      d'.key = some (key, salt') ∧
      Staged.run ((stages C).machine max) d (block ++ rest) = Staged.run ((stages C).machine max) d' (block ++ rest) := by
  rcases h.step with ⟨hs, salt', hk⟩ | ⟨hs, rfl, hk⟩
  · exact ⟨d, salt', h, hs, hk, rfl⟩
  have hblock : block.length = d.profile.saltBlockLen := by rw [hb.length, h.profile]; rfl
  have hlen : d.profile.saltBlockLen ≤ (block ++ rest).length := by rw [List.length_append, hblock]; omega
  rcases hk with ⟨salt', hk⟩ | ⟨hk, hd⟩
  · exact ⟨{ d with step := d.headerStep }, salt',
      ⟨h.profile, h.nonce_eq, h.seq_eq, h.includeSalt, h.pending, .inl ⟨h.headerStep, salt', hk⟩⟩, h.headerStep, hk,
      Stages.run_keyed (S := stages C) (stage_eq_salt.2 hs) (by simp only [stages, hk, Option.isSome_some])
        (Nat.le_trans hlen hm) hlen⟩
  · have hsalt : RecordDecoder.kdfSalt d (block ++ rest) = .ok salt := by
      change V6ShapedDecoder.kdfSalt d (block ++ rest) = .ok salt
      rw [V6ShapedDecoder.kdfSalt, if_pos hlen, ← hblock, List.take_left, h.profile, hb.extractSalt]
    exact ⟨{ d with key := some (key, salt), step := d.headerStep }, salt,
      ⟨h.profile, h.nonce_eq, h.seq_eq, h.includeSalt, h.pending, .inl ⟨h.headerStep, salt, rfl⟩⟩, h.headerStep, rfl,
      Stages.run_derived (S := stages C) (stage_eq_salt.2 hs) (by simp only [stages, hk, Option.isSome_none])
        (Nat.le_trans hlen hm) hlen (Stages.derived_eq (S := stages C) hsalt hd)⟩

theorem readHeader_sealed (hC : C.Inverts) (hk : d.key = some (key, salt)) (pfx : Bytes) {paddingLen l : Nat}
    (hp : paddingLen < 65536) (hl : l < 65536) :
    readHeader d pfx (C.sealed key d.nonce pfx (plainHeader paddingLen l)) =
      (.ok ⟨paddingLen, l⟩, { d with nonce := d.nonce.increment }) := by
  have hopen : openedHeader (plainHeader paddingLen l ++ (C.sealInPlace key d.nonce pfx (plainHeader paddingLen l)).2.1) =
      plainHeader paddingLen l := List.take_left' (length_plainHeader paddingLen l)
  simp only [readHeader, hk, Crypto.aesOpen_sealed hC, hopen, parseV6PlainHeader_plainHeader hp hl]

/-- The body opens to the padding, the payload and a tag. -/
theorem readBody_sealed (hC : C.Inverts) (hk : d.key = some (key, salt)) (paddingLen : Nat) (payload : Bytes) :
    ∃ tag : Bytes, tag.length = tagLen ∧
      readBody d ⟨paddingLen, payload.length⟩ (V6Shaped.body C d.profile key d.nonce d.seq paddingLen payload) =
        (.ok (), nextRecord { d with nonce := d.nonce.increment },
          d.profile.fillOfficial d.seq paddingLen ++ (payload ++ tag)) := by
  refine ⟨(C.sealInPlace key d.nonce (d.profile.fillOfficial d.seq paddingLen) payload).2.1,
    (C.sealInPlace key d.nonce (d.profile.fillOfficial d.seq paddingLen) payload).2.2, ?_⟩
  have hfits : ¬ (V6Shaped.body C d.profile key d.nonce d.seq paddingLen payload).length < paddingLen := by
    rw [V6Shaped.length_body]; omega
  rw [readBody, if_neg hfits]
  simp only [V6Shaped.mix_body, openBody, hk, Crypto.aesOpen_sealed hC]

/-- The header of a frame, behind its block. -/
theorem stageHeader_head (hC : C.Inverts) {block : Bytes} (h : Synced p key salt first nonce seq d)
    (hs : d.step = .header (p.recordPrefixLen seq)) (hk : d.key = some (key, salt'))
    (hb : LeadingBlock p salt first block) {paddingLen l : Nat} (hp : paddingLen ≤ p.maxPaddingLen)
    (hl : l ≤ maxPacketSizeV6) :
    stageHeader d (block ++ V6Shaped.head C p key nonce seq paddingLen l) =
      if (⟨paddingLen, l⟩ : RecordHeader).bodyLenV6Shaped = 0 then
        (.ok none, nextRecord { d with nonce := nonce.increment })
      else (.ok (some (⟨paddingLen, l⟩, p.recordPrefixLen seq)),
        { d with nonce := nonce.increment, step := .body ⟨paddingLen, l⟩ (p.recordPrefixLen seq) }) := by
  have hmax := p.maxPaddingLen_le
  have hspan : d.prefixSpan = (recordPrefix p seq).length := by
    simp only [prefixSpan, hs, recordPrefix, Profile.length_fillOfficial]
  have hread := readHeader_sealed hC hk (recordPrefix p seq) (show paddingLen < 65536 by
    simp only [v6MaxPaddingReserve] at hmax; omega) (show l < 65536 by simp only [maxPacketSizeV6] at hl; omega)
  rw [h.nonce_eq] at hread
  have hdrop : (block ++ V6Shaped.head C p key nonce seq paddingLen l).drop (d.saltSpan + d.prefixSpan) =
      C.sealed key nonce (recordPrefix p seq) (plainHeader paddingLen l) := by
    rw [h.saltSpan hb, ← List.drop_drop, List.drop_left, hspan, V6Shaped.head, List.drop_left]
  have htake : ((block ++ V6Shaped.head C p key nonce seq paddingLen l).drop d.saltSpan).take d.prefixSpan =
      recordPrefix p seq := by
    rw [h.saltSpan hb, List.drop_left, hspan, V6Shaped.head, List.take_left]
  have hlen : (recordPrefix p seq).length = p.recordPrefixLen seq := p.length_fillOfficial _ _
  rw [stageHeader, hdrop, htake]
  simp only [hread, hspan, hlen]

theorem nextRecord_synced (hp : d.profile = p) (hs : d.seq = seq) (hpend : d.pending = 0)
    (hk : d.key = some (key, salt')) : Synced p key salt false d.nonce (seq + 1) d.nextRecord := by
  refine ⟨hp, rfl, congrArg (· + 1) hs, rfl, hpend, .inl ⟨?_, salt', hk⟩⟩
  subst hp hs
  rfl

/-- **A decoder in step reads a frame as its record**, and is in step with
what follows. -/
theorem run_frame (hC : C.Inverts) {max : Nat} {payload wire : Bytes} (hd : Synced p key salt first nonce seq d)
    (hf : V6Shaped.Frame C p key salt first nonce seq payload wire nonce') (hm : wire.length ≤ max) :
    ∃ item wire' d', Staged.run ((stages C).machine max) d wire = .emit wire.length item wire' d' ∧
      item.Shows wire' payload ∧ Synced p key salt false nonce' (seq + 1) d' := by
  cases hf with
  | zero block paddingLen hblock hpad =>
    rw [List.append_assoc] at hm ⊢
    obtain ⟨d₁, salt', hd₁, hs, hk, hrun⟩ := run_salt hd hblock hm
    rw [hrun, ← List.append_assoc]
    rw [← List.append_assoc] at hm
    have hend : (stages C).headerEnd d₁ = (block ++ V6Shaped.head C p key nonce seq paddingLen 0).length := by
      simp only [stages, hd₁.saltSpan hblock, prefixSpan, hs, List.length_append, V6Shaped.length_head]; omega
    have hread := stageHeader_head hC hd₁ hs hk hblock hpad (Nat.zero_le maxPacketSizeV6)
    by_cases h0 : paddingLen = 0
    · subst h0
      rw [if_pos (show (⟨0, 0⟩ : RecordHeader).bodyLenV6Shaped = 0 from rfl)] at hread
      have hnil : p.fillOfficial seq 0 = [] := List.eq_nil_of_length_eq_zero (p.length_fillOfficial seq 0)
      rw [hnil, List.append_nil] at hm ⊢
      rw [Stages.run_zeroChunk (S := stages C) (stage_eq_header.2 ⟨_, hs⟩) hend hm hread]
      exact ⟨_, _, _, rfl, rfl, nextRecord_synced (d := { d₁ with nonce := nonce.increment }) hd₁.profile hd₁.seq_eq
        hd₁.pending hk⟩
    · rw [if_neg (by simpa [RecordHeader.bodyLenV6Shaped, RecordHeader.payloadBodyLen] using h0)] at hread
      rw [Stages.run_body (S := stages C) (stage_eq_header.2 ⟨_, hs⟩) hend hm hread
        (by simp only [stages, List.length_append, V6Shaped.length_head, Profile.length_fillOfficial]
            change d₁.saltSpan + _ + _ + _ = _
            rw [hd₁.saltSpan hblock]
            simp only [RecordHeader.bodyLenV6Shaped, RecordHeader.payloadBodyLen, ↓reduceIte]
            omega)
        (by simp only [stages, stageBody, ↓reduceIte]; rfl)]
      exact ⟨_, _, _, rfl, rfl, nextRecord_synced
        (d := { d₁ with nonce := nonce.increment, step := .body ⟨paddingLen, 0⟩ (p.recordPrefixLen seq) }) hd₁.profile
        hd₁.seq_eq hd₁.pending hk⟩
  | data block paddingLen _ hblock hpad hne hl =>
    have hpay : payload.length ≠ 0 := by simpa using hne
    rw [List.append_assoc] at hm ⊢
    obtain ⟨d₁, salt', hd₁, hs, hk, hrun⟩ := run_salt hd hblock hm
    rw [hrun, ← List.append_assoc]
    rw [← List.append_assoc] at hm
    have hend : (stages C).headerEnd d₁ = (block ++ V6Shaped.head C p key nonce seq paddingLen payload.length).length := by
      simp only [stages, hd₁.saltSpan hblock, prefixSpan, hs, List.length_append, V6Shaped.length_head]; omega
    have hread := stageHeader_head hC hd₁ hs hk hblock hpad hl
    rw [if_neg (by simp only [RecordHeader.bodyLenV6Shaped, RecordHeader.payloadBodyLen, if_neg hpay]; omega)] at hread
    let d₂ : V6ShapedDecoder C := { d₁ with
      nonce := nonce.increment
      step := .body ⟨paddingLen, payload.length⟩ (p.recordPrefixLen seq) }
    have hlen : (block ++ V6Shaped.head C p key nonce seq paddingLen payload.length).length =
        d₂.saltSpan + p.recordPrefixLen seq + headerCipherLen := by
      change _ = d₁.saltSpan + _ + _
      rw [hd₁.saltSpan hblock, List.length_append, V6Shaped.length_head]; omega
    obtain ⟨tag, htag, hbody⟩ := readBody_sealed hC (d := d₂) hk paddingLen payload
    change readBody d₂ _ (V6Shaped.body C d₁.profile key nonce.increment d₁.seq paddingLen payload) =
      (_, _, d₁.profile.fillOfficial d₁.seq paddingLen ++ _) at hbody
    rw [hd₁.profile, hd₁.seq_eq] at hbody
    rw [Stages.run_body (S := stages C) (stage_eq_header.2 ⟨_, hs⟩) hend hm hread
      (by rw [List.length_append, hlen, V6Shaped.length_body]
          simp only [stages, RecordHeader.bodyLenV6Shaped, RecordHeader.payloadBodyLen, if_neg hpay]; rfl)
      (by simp only [stages, stageBody]; rw [if_neg hpay, List.drop_left' hlen, List.take_left' hlen, hbody])]
    refine ⟨_, _, _, rfl, ⟨hne, by omega, ?_, ?_⟩, nextRecord_synced
      (d := { d₂ with nonce := nonce.increment.increment, seq := seq }) hd₁.profile rfl hd₁.pending hk⟩
    · change d₂.saltSpan + p.recordPrefixLen seq + headerCipherLen + paddingLen + payload.length ≤ _
      rw [← hlen]
      simp only [List.length_append, Profile.length_fillOfficial]; omega
    · rw [← hlen, Nat.add_sub_cancel_left, ← List.drop_drop, List.drop_left,
        List.drop_left' (p.length_fillOfficial seq paddingLen), List.take_left]

end V6ShapedDecoder

end Snell
