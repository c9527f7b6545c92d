/-
The v6 unshaped decoder as a staged parser, its wire format, and that a
decoder in step with the sender reads each frame as the one record it is.
-/
import Snell.Unshaped
import Snell.V4Frame

namespace Snell

open RecordDecoder
open V4 (saltOf length_saltOf)

namespace V6UnshapedDecoder

variable {C : Crypto}

/-! ## The stages -/

theorem readHeader_state {d d' : V6UnshapedDecoder C} {hdr : Bytes} {r : Res (RecordHeader × Nat)}
    (h : readHeader d hdr = (r, d')) : ∃ nonce, d' = { d with nonce } := by
  unfold readHeader at h
  split at h
  · cases h; exact ⟨d.nonce, rfl⟩
  · split at h <;> cases h <;> exact ⟨_, rfl⟩

theorem readBody_error {d d' : V6UnshapedDecoder C} {body body' : Bytes} {f : Fault}
    (h : readBody d body = (.error f, d', body')) : ∃ nonce, d' = { d with nonce } := by
  unfold readBody at h
  split at h
  · cases h; exact ⟨d.nonce, rfl⟩
  · split at h <;> cases h
    exact ⟨_, rfl⟩

theorem readBody_ok {d d' : V6UnshapedDecoder C} {body body' : Bytes} (h : readBody d body = (.ok (), d', body')) :
    ∃ nonce, d' = { d with nonce, includeSalt := false, step := .header } := by
  unfold readBody at h
  split at h
  · cases h
  · split at h <;> cases h
    exact ⟨_, rfl⟩

theorem readBody_length (d : V6UnshapedDecoder C) (body : Bytes) : (readBody d body).2.2.length = body.length := by
  unfold readBody
  split
  · rfl
  · next aead _ _ =>
    have ho := C.aesOpen_length aead d.nonce [] body
    split <;> next heq => rw [heq] at ho; exact ho

def stage (d : V6UnshapedDecoder C) : Stage (Nat × Nat) :=
  match d.step with
  | .salt => .salt
  | .header => .header
  | .body payloadLen len => .body (payloadLen, len)

/-- The header, behind the salt of the first record. -/
def stageHeader (d : V6UnshapedDecoder C) (front : Bytes) : Res (Option (Nat × Nat)) × V6UnshapedDecoder C :=
  match readHeader d (front.drop d.saltSpan) with
  | (.error f, d') => (.error f, d')
  | (.ok (header, len), d') =>
    if len = 0 then (.ok none, { d' with includeSalt := false })
    else (.ok (some (header.payloadLen, len)), { d' with step := .body header.payloadLen len })

def stageBody (d : V6UnshapedDecoder C) (b : Nat × Nat) (front : Bytes) :
    Res Item × V6UnshapedDecoder C × Bytes :=
  let off := d.saltSpan + headerCipherLen
  match readBody d (front.drop off) with
  | (.error f, d', body) => (.error f, d', front.take off ++ body)
  | (.ok (), d', body) => (.ok (.data off (off + b.1)), d', front.take off ++ body)

theorem stageHeader_keeps {d d' : V6UnshapedDecoder C} {l : Bytes} {r : Res (Option (Nat × Nat))}
    (h : stageHeader d l = (r, d')) : d'.pending = d.pending ∧ d'.psk = d.psk ∧
      (r = .ok none → d'.step = d.step) ∧ ∀ b, r = .ok (some b) → d'.step = .body b.1 b.2 := by
  unfold stageHeader at h
  split at h
  · next hr =>
    cases h
    obtain ⟨_, rfl⟩ := readHeader_state hr
    exact ⟨rfl, rfl, nofun, nofun⟩
  · next hr =>
    obtain ⟨_, rfl⟩ := readHeader_state hr
    split at h <;> cases h
    · exact ⟨rfl, rfl, fun _ => rfl, nofun⟩
    · exact ⟨rfl, rfl, nofun, fun b hb => by cases hb; rfl⟩

theorem stageBody_keeps {d d' : V6UnshapedDecoder C} {b : Nat × Nat} {l l' : Bytes} {r : Res Item}
    (h : stageBody d b l = (r, d', l')) : d'.pending = d.pending ∧ d'.psk = d.psk ∧ l'.length = l.length ∧
      ∀ x, r = .ok x → d'.step = .header := by
  have hl := readBody_length d (l.drop (d.saltSpan + headerCipherLen))
  simp only [List.length_drop] at hl
  unfold stageBody at h
  simp only at h
  split at h
  · next hr =>
    rw [hr] at hl
    cases h
    obtain ⟨_, rfl⟩ := readBody_error hr
    exact ⟨rfl, rfl, by simp only [List.length_append, List.length_take, hl]; omega, nofun⟩
  · next hr =>
    rw [hr] at hl
    cases h
    obtain ⟨_, rfl⟩ := readBody_ok hr
    exact ⟨rfl, rfl, by simp only [List.length_append, List.length_take, hl]; omega, fun _ _ => rfl⟩

theorem stage_eq_header {d : V6UnshapedDecoder C} : d.stage = .header ↔ d.step = .header := by
  unfold stage; split <;> simp_all

theorem stage_eq_salt {d : V6UnshapedDecoder C} : d.stage = .salt ↔ d.step = .salt := by
  unfold stage; split <;> simp_all

def stages (C : Crypto) : Stages C (V6UnshapedDecoder C) (Nat × Nat) where
  stage := stage
  psk := psk
  hasKey d := d.key.isSome
  setKey d salt key := { d with key := some (key, salt) }
  toHeader d := { d with step := .header }
  saltEnd _ := saltLen
  headerEnd d := d.saltSpan + headerCipherLen
  bodyEnd d b := d.saltSpan + headerCipherLen + b.2
  readHeader := stageHeader
  readBody := stageBody
  saltEnd_pos _ := by decide
  headerEnd_pos _ := Nat.add_pos_right _ (by decide)
  bodyEnd_pos _ _ := Nat.add_pos_left (Nat.add_pos_right _ (by decide)) _
  pending_set _ _ := rfl
  set_set _ _ _ := rfl
  set_pending _ := rfl
  stage_set _ _ := rfl
  psk_set _ _ := rfl
  pending_setKey _ _ _ := rfl
  stage_setKey _ _ _ := rfl
  psk_setKey _ _ _ := rfl
  hasKey_setKey _ _ _ := rfl
  saltEnd_setKey _ _ _ := rfl
  pending_toHeader _ := rfl
  stage_toHeader _ := rfl
  psk_toHeader _ := rfl
  readHeader_keeps h := ⟨(stageHeader_keeps h).1, (stageHeader_keeps h).2.1⟩
  readHeader_none hs h := stage_eq_header.2 (((stageHeader_keeps h).2.2.1 rfl).trans (stage_eq_header.1 hs))
  readHeader_some h := by simp only [stage, (stageHeader_keeps h).2.2.2 _ rfl]
  readBody_keeps h := ⟨(stageBody_keeps h).1, (stageBody_keeps h).2.1, (stageBody_keeps h).2.2.1⟩
  readBody_ok h := stage_eq_header.2 ((stageBody_keeps h).2.2.2 _ rfl)
  kdfSalt_take _ _ h := V4Decoder.kdfSalt_take h
  kdfNeed_eq d := by
    change (if d.key.isNone ∧ d.step = .salt then saltLen else 0) = _
    obtain ⟨psk, key, nonce, includeSalt, step, pending⟩ := d
    cases step <;> cases key <;> rfl
  installAead_eq d salt key := by
    change (do let aead ← C.aesNew key; return ({ d with key := some (aead, salt) } : V6UnshapedDecoder C)) = _
    cases C.aesNew key <;> rfl

/-! ## The decoder is the machine behind its outstanding records -/

/-- The decoder with nothing outstanding. -/
def bare (d : V6UnshapedDecoder C) : V6UnshapedDecoder C := { d with pending := 0 }

theorem readHeader_bare (d : V6UnshapedDecoder C) (hdr : Bytes) :
    readHeader (bare d) hdr = ((readHeader d hdr).1, bare (readHeader d hdr).2) := by
  obtain ⟨psk, key, nonce, includeSalt, step, pending⟩ := d
  cases key with
  | none => rfl
  | some key => simp only [readHeader, bare]; split <;> rfl

theorem readBody_bare (d : V6UnshapedDecoder C) (body : Bytes) :
    readBody (bare d) body = ((readBody d body).1, bare (readBody d body).2.1, (readBody d body).2.2) := by
  obtain ⟨psk, key, nonce, includeSalt, step, pending⟩ := d
  cases key with
  | none => rfl
  | some key => simp only [readBody, bare]; split <;> rfl

theorem decodeBody_eq {d : V6UnshapedDecoder C} {payloadLen len max : Nat} {P A : Bytes}
    (hs : d.step = .body payloadLen len) (hP : P.length = d.pending) :
    decodeBody d payloadLen len max (P ++ A) = answer P A (Staged.run ((stages C).machine max) (bare d) A) := by
  have hoff : d.headerOffset + headerCipherLen = P.length + (d.saltSpan + headerCipherLen) := by
    simp only [headerOffset, hP]; omega
  simp only [decodeBody, hoff, ← hP, Nat.add_assoc P.length]
  refine Stages.body_arm (S := stages C) (s := bare d) (b := (payloadLen, len))
    (by simp only [stages, stage, bare, hs]) (by rw [hP]; rfl) fun hl => ?_
  change d.saltSpan + headerCipherLen + len ≤ A.length at hl
  have hfront : (A.take (d.saltSpan + headerCipherLen + len)).drop (d.saltSpan + headerCipherLen) =
      (A.drop (d.saltSpan + headerCipherLen)).take len := by
    rw [List.drop_take, Nat.add_sub_cancel_left]
  have htake : (A.take (d.saltSpan + headerCipherLen + len)).take (d.saltSpan + headerCipherLen) =
      A.take (d.saltSpan + headerCipherLen) := by
    rw [List.take_take, Nat.min_eq_left (by omega)]
  have hspan : (bare d).saltSpan = d.saltSpan := rfl
  simp only [stages, stageBody, hspan, hfront, htake, readBody_bare]
  rw [slice_append_right, slice_ok (by omega) hl, Nat.add_sub_cancel_left]
  rcases hr : readBody d ((A.drop (d.saltSpan + headerCipherLen)).take len) with ⟨r, d', body⟩
  cases r with
  | error f =>
    obtain ⟨nonce, rfl⟩ := readBody_error hr
    simp only [hr, splice_append_right, setPending, bare, ← hP]
  | ok u =>
    obtain ⟨nonce, rfl⟩ := readBody_ok hr
    simp only [hr, splice_append_right, Pending.data, ← hP, emit_eq, Item.record, setPending, bare, Nat.add_assoc]

theorem decodeHeader_eq {d : V6UnshapedDecoder C} {max : Nat} {P A : Bytes} (hs : d.step = .header)
    (hP : P.length = d.pending) :
    decodeHeader d max (P ++ A) = answer P A (Staged.run ((stages C).machine max) (bare d) A) := by
  have hoff : d.headerOffset = P.length + d.saltSpan := by simp only [headerOffset, hP]
  simp only [decodeHeader, hoff, ← hP, Nat.add_assoc P.length]
  refine Stages.header_arm (S := stages C) (s := bare d) (by simp only [stages, stage, bare, hs])
    (by rw [hP]; rfl) fun hl => ?_
  change d.saltSpan + headerCipherLen ≤ A.length at hl
  have hspan : (bare d).saltSpan = d.saltSpan := rfl
  simp only [stages, stageHeader, hspan, List.drop_take, Nat.add_sub_cancel_left, readHeader_bare]
  rw [chunkAt_append_right, chunkAt_ok hl]
  rcases hr : readHeader d ((A.drop d.saltSpan).take headerCipherLen) with ⟨r, d'⟩
  obtain ⟨nonce, rfl⟩ := readHeader_state hr
  cases r with
  | error f => simp only [hr, setPending, bare, ← hP]
  | ok r =>
    obtain ⟨header, len⟩ := r
    simp only [hr]
    by_cases h0 : len = 0
    · simp only [if_pos h0, Pending.zeroChunk, ← hP, emit_eq, setPending, bare]
    · simp only [if_neg h0]
      exact decodeBody_eq rfl hP

theorem decode_eq (d : V6UnshapedDecoder C) (max : Nat) (P A : Bytes) (ha : d.stage = .salt → d.pending = 0)
    (hP : P.length = d.pending) :
    decode d max (P ++ A) = answer P A (Staged.run ((stages C).machine max) (bare d) A) := by
  unfold decode
  cases hs : d.step with
  | header => exact decodeHeader_eq hs hP
  | body payloadLen len => exact decodeBody_eq hs hP
  | salt =>
    have hp := ha (stage_eq_salt.2 hs)
    obtain rfl : P = [] := List.eq_nil_of_length_eq_zero (by omega)
    have hb : bare d = d := by rw [bare, ← hp]
    rw [hb, hp, List.nil_append]
    refine Stages.salt_arm (S := stages C) (stage_eq_salt.2 hs) hp fun hl => ?_
    have hread : readSalt d A = (stages C).readSalt d A := by
      obtain ⟨psk, key, nonce, includeSalt, step, pending⟩ := d
      cases key with
      | some key => rfl
      | none =>
        change _ = ((stages C).derived _ A).map _
        simp only [readSalt, Stages.derived, bind, Except.bind, RecordDecoder.kdfSalt]
        cases V4Decoder.kdfSalt A with
        | error f => rfl
        | ok salt => simp only [stages]; cases C.derive psk.bytes salt <;> rfl
    rw [hread]
    cases hr : (stages C).readSalt d A with
    | error f => rfl
    | ok d' =>
      obtain ⟨hpend, hstage, _⟩ := Stages.readSalt_ok hr
      have hpend : d'.pending = 0 := hpend.trans hp
      have hb' : bare d' = d' := by rw [bare, ← hpend]
      have : decodeHeader d' max ([] ++ A) = _ := decodeHeader_eq (stage_eq_header.1 hstage) hpend.symm
      rwa [hb'] at this

instance : StagedDecoder (V6UnshapedDecoder C) := (stages C).stagedDecoder decode_eq

instance : KdfDecoder C (V6UnshapedDecoder C) := (stages C).kdfDecoder rfl rfl

end V6UnshapedDecoder

/-! ## The wire format -/

namespace V6Unshaped

/-- `wire` is a record carrying `payload`, sealed from `nonce` on; `nonce'` is
the next unused one. -/
inductive Frame (C : Crypto) (key : C.Key) (salt : Salt) :
    (first : Bool) → (nonce : Nonce) → (payload wire : Bytes) → (nonce' : Nonce) → Prop
  | zero (first : Bool) (nonce : Nonce) :
    Frame C key salt first nonce [] (saltOf salt first ++ C.sealed key nonce [] (plainHeader 0 0))
      nonce.increment
  | data (first : Bool) (nonce : Nonce) (payload : Bytes) (hne : payload ≠ [])
    (hl : payload.length ≤ maxPacketSizeV6) :
    Frame C key salt first nonce payload
      (saltOf salt first ++ C.sealed key nonce [] (plainHeader 0 payload.length) ++
        C.sealed key nonce.increment [] payload)
      nonce.increment.increment

/-- No record is longer than `V6_WIRE_CAP`. -/
theorem Frame.length_le {C : Crypto} {key : C.Key} {salt : Salt} {first : Bool} {nonce nonce' : Nonce}
    {payload wire : Bytes} (h : Frame C key salt first nonce payload wire nonce') : wire.length ≤ v6WireCap := by
  have hs : (saltOf salt first).length ≤ saltLen := by rw [length_saltOf]; split <;> simp
  cases h with
  | zero =>
    simp only [List.length_append, Crypto.length_sealed, length_plainHeader]
    simp only [saltLen, headerPlainLen, tagLen, v6WireCap, headerCipherLen, maxPacketSizeV6, maxSaltBlockLen,
      v6MaxPrefixLen, v6MaxPaddingReserve] at *
    omega
  | data =>
    simp only [List.length_append, Crypto.length_sealed, length_plainHeader]
    simp only [saltLen, headerPlainLen, tagLen, v6WireCap, headerCipherLen, maxPacketSizeV6, maxSaltBlockLen,
      v6MaxPrefixLen, v6MaxPaddingReserve] at *
    omega

end V6Unshaped

namespace V6UnshapedDecoder

variable {C : Crypto}

/-- The decoder is about to read a record sealed under `key` from `nonce`
on; before the first record it may or may not have the key yet. -/
structure Synced (key : C.Key) (salt : Salt) (first : Bool) (nonce : Nonce) (d : V6UnshapedDecoder C) : Prop where
  nonce_eq : d.nonce = nonce
  includeSalt : d.includeSalt = first
  pending : d.pending = 0
  step : (d.step = .header ∧ ∃ salt', d.key = some (key, salt')) ∨
    (d.step = .salt ∧ first = true ∧
      ((∃ salt', d.key = some (key, salt')) ∨ (d.key = none ∧ C.derive d.psk.bytes salt = .ok key)))

theorem Synced.saltSpan {key : C.Key} {salt : Salt} {first : Bool} {nonce : Nonce} {d : V6UnshapedDecoder C}
    (h : Synced key salt first nonce d) : d.saltSpan = (saltOf salt first).length := by
  rw [V6UnshapedDecoder.saltSpan, h.includeSalt, length_saltOf]

/-- Past the salt. -/
theorem run_salt {key : C.Key} {salt : Salt} {first : Bool} {nonce : Nonce} {d : V6UnshapedDecoder C} {max : Nat}
    {rest : Bytes} (h : Synced key salt first nonce d) (hm : (saltOf salt first ++ rest).length ≤ max) :
    ∃ d' salt', Synced key salt first nonce d' ∧ d'.step = .header ∧ d'.key = some (key, salt') ∧
      Staged.run ((stages C).machine max) d (saltOf salt first ++ rest) =
        Staged.run ((stages C).machine max) d' (saltOf salt first ++ rest) := by
  rcases h.step with ⟨hs, salt', hk⟩ | ⟨hs, rfl, hk⟩
  · exact ⟨d, salt', h, hs, hk, rfl⟩
  · have hlen : saltLen ≤ (salt.1 ++ rest).length := by simp [salt.2]
    rcases hk with ⟨salt', hk⟩ | ⟨hk, hd⟩
    · exact ⟨{ d with step := .header }, salt', ⟨h.nonce_eq, h.includeSalt, h.pending, .inl ⟨rfl, salt', hk⟩⟩, rfl, hk,
        Stages.run_keyed (S := stages C) (stage_eq_salt.2 hs) (by simp only [stages, hk, Option.isSome_some])
          (Nat.le_trans hlen hm) hlen⟩
    · exact ⟨{ d with key := some (key, salt), step := .header }, salt,
        ⟨h.nonce_eq, h.includeSalt, h.pending, .inl ⟨rfl, salt, rfl⟩⟩, rfl, rfl,
        Stages.run_derived (S := stages C) (stage_eq_salt.2 hs) (by simp only [stages, hk, Option.isSome_none])
          (Nat.le_trans hlen hm) hlen
          (Stages.derived_eq (S := stages C) (V4Decoder.kdfSalt_append salt rest) hd)⟩

theorem readHeader_sealed (hC : C.Inverts) {key : C.Key} {salt : Salt} {d : V6UnshapedDecoder C}
    (hk : d.key = some (key, salt)) {l : Nat} (hl : l ≤ maxPacketSizeV6) :
    readHeader d (C.sealed key d.nonce [] (plainHeader 0 l)) =
      (.ok (⟨0, l⟩, if l = 0 then 0 else l + tagLen), { d with nonce := d.nonce.increment }) := by
  have hopen : openedHeader (plainHeader 0 l ++ (C.sealInPlace key d.nonce [] (plainHeader 0 l)).2.1) =
      plainHeader 0 l := List.take_left' (length_plainHeader 0 l)
  have hl' : l < 65536 := by simp only [maxPacketSizeV6] at hl; omega
  simp only [readHeader, hk, Crypto.aesOpen_sealed hC, hopen, parseV6PlainHeader_plainHeader (p := 0) (by decide) hl',
    RecordHeader.bodyLenV6Unshaped, bind, Except.bind]
  rfl

theorem readBody_sealed (hC : C.Inverts) {key : C.Key} {salt : Salt} {d : V6UnshapedDecoder C}
    (hk : d.key = some (key, salt)) (payload : Bytes) :
    ∃ tag : Bytes, tag.length = tagLen ∧
      readBody d (C.sealed key d.nonce [] payload) =
        (.ok (), { d with nonce := d.nonce.increment, includeSalt := false, step := .header }, payload ++ tag) := by
  refine ⟨(C.sealInPlace key d.nonce [] payload).2.1, (C.sealInPlace key d.nonce [] payload).2.2, ?_⟩
  simp only [readBody, hk, Crypto.aesOpen_sealed hC]

/-- **A decoder in step reads a frame as its record**, and is in step with
what follows. -/
theorem run_frame (hC : C.Inverts) {key : C.Key} {salt : Salt} {first : Bool} {nonce nonce' : Nonce}
    {d : V6UnshapedDecoder C} {max : Nat} {payload wire : Bytes} (hd : Synced key salt first nonce d)
    (hf : V6Unshaped.Frame C key salt first nonce payload wire nonce') (hm : wire.length ≤ max) :
    ∃ item wire' d', Staged.run ((stages C).machine max) d wire = .emit wire.length item wire' d' ∧
      item.Shows wire' payload ∧ Synced key salt false nonce' d' := by
  cases hf with
  | zero =>
    obtain ⟨d₁, salt', hd₁, hs, hk, hrun⟩ := run_salt hd hm
    have hn : (stages C).headerEnd d₁ = (saltOf salt first ++ C.sealed key nonce [] (plainHeader 0 0)).length := by
      simp only [stages, hd₁.saltSpan, List.length_append, Crypto.length_sealed, length_plainHeader,
        headerCipherLen]
    have hread := readHeader_sealed hC hk (l := 0) (Nat.zero_le _)
    rw [hd₁.nonce_eq, if_pos rfl] at hread
    rw [hrun, Stages.run_zeroChunk (stage_eq_header.2 hs) hn hm
      (e := { d₁ with nonce := nonce.increment, includeSalt := false })
      (by simp only [stages, stageHeader, hd₁.saltSpan, List.drop_left, hread, ↓reduceIte])]
    exact ⟨_, _, _, rfl, rfl, rfl, rfl, hd₁.pending, .inl ⟨hs, salt', hk⟩⟩
  | data _ hne hl =>
    have hpay : payload.length ≠ 0 := by simpa using hne
    rw [List.append_assoc] at hm ⊢
    obtain ⟨d₁, salt', hd₁, hs, hk, hrun⟩ := run_salt hd hm
    rw [hrun, ← List.append_assoc]
    rw [← List.append_assoc] at hm
    have hspan := hd₁.saltSpan
    let d₂ : V6UnshapedDecoder C := { d₁ with
      nonce := nonce.increment
      step := .body payload.length (payload.length + tagLen) }
    have hlen : (saltOf salt first ++ C.sealed key nonce [] (plainHeader 0 payload.length)).length =
        d₂.saltSpan + headerCipherLen := by
      simp only [List.length_append, Crypto.length_sealed, length_plainHeader, headerCipherLen, ← hspan]; rfl
    have hread := readHeader_sealed hC hk hl
    rw [hd₁.nonce_eq, if_neg hpay] at hread
    obtain ⟨tag, htag, hbody⟩ := readBody_sealed hC (d := d₂) hk payload
    change readBody d₂ (C.sealed key nonce.increment [] payload) = _ at hbody
    rw [Stages.run_body (S := stages C) (stage_eq_header.2 hs) hlen.symm hm (e := d₂)
      (b := (payload.length, payload.length + tagLen))
      (by simp only [stages, stageHeader, hspan, List.drop_left, hread]; rw [if_neg (by omega)])
      (by rw [List.length_append, hlen, Crypto.length_sealed]; rfl)
      (by simp only [stages, stageBody, List.drop_left' hlen, List.take_left' hlen, hbody]; rfl)]
    refine ⟨_, _, _, rfl, ⟨hne, by omega, ?_, ?_⟩, rfl, rfl, hd₁.pending, .inl ⟨rfl, salt', hk⟩⟩
    · simp only [List.length_append, ← hlen]; omega
    · rw [← hlen, Nat.add_sub_cancel_left, List.drop_left, List.take_left]

end V6UnshapedDecoder

end Snell
