/-
The v4 decoder as a staged parser: salt, header, body, each with a length
known before it is read.
-/
import Snell.Stages
import Snell.V4
import Snell.V4PaddingFacts

namespace Snell

open V4 RecordDecoder

namespace V4Decoder

variable {C : Crypto}

/-! ## What the reading functions leave alone -/

theorem readHeader_state {d d' : V4Decoder C} {hdr : Bytes} {r : Res (RecordHeader × Nat)}
    (h : readHeader d hdr = (r, d')) : ∃ nonce, d' = { d with nonce } := by
  unfold readHeader at h
  split at h
  · cases h; exact ⟨d.nonce, rfl⟩
  · split at h <;> cases h <;> exact ⟨_, rfl⟩

theorem readBody_error {d d' : V4Decoder C} {header : RecordHeader} {body body' : Bytes} {f : Fault}
    (h : readBody d header body = (.error f, d', body')) : ∃ nonce, d' = { d with nonce } := by
  unfold readBody at h
  split at h
  · cases h; exact ⟨d.nonce, rfl⟩
  · simp only at h
    split at h
    · cases h; exact ⟨d.nonce, rfl⟩
    · split at h <;> cases h
      exact ⟨_, rfl⟩

theorem readBody_ok {d d' : V4Decoder C} {header : RecordHeader} {body body' : Bytes}
    (h : readBody d header body = (.ok (), d', body')) :
    ∃ nonce, d' = { d with nonce, includeSalt := false, step := .header } := by
  unfold readBody at h
  split at h
  · cases h
  · simp only at h
    split at h
    · cases h
    · split at h <;> cases h
      exact ⟨_, rfl⟩

theorem readBody_length (d : V4Decoder C) (header : RecordHeader) (body : Bytes) :
    (readBody d header body).2.2.length = body.length := by
  unfold readBody
  split
  · rfl
  · have hs := swapEvenIndices_length d.ne (body.take header.paddingLen) (body.drop header.paddingLen)
    simp only [List.length_take, List.length_drop] at hs
    simp only
    split
    · simp; omega
    · next aead _ =>
      have ho := C.aesOpen_length aead d.nonce []
        (swapEvenIndices d.ne (body.take header.paddingLen) (body.drop header.paddingLen)).2
      split <;> next heq => rw [heq] at ho; simp at ho ⊢; omega

theorem kdfSalt_take {A : Bytes} (h : saltLen ≤ A.length) : kdfSalt (A.take saltLen) = kdfSalt A := by
  unfold kdfSalt
  rw [dif_pos (by simp; omega), dif_pos h]
  congr 2
  rw [List.take_take, Nat.min_self]

/-! ## The stages -/

def stage (d : V4Decoder C) : Stage (RecordHeader × Nat) :=
  match d.step with
  | .salt => .salt
  | .header => .header
  | .body header len => .body (header, len)

/-- The header, behind the salt of the first record. -/
def stageHeader (d : V4Decoder C) (front : Bytes) : Res (Option (RecordHeader × Nat)) × V4Decoder C :=
  match readHeader d (front.drop d.saltSpan) with
  | (.error f, d') => (.error f, d')
  | (.ok (header, len), d') =>
    if len = 0 then (.ok none, { d' with includeSalt := false })
    else (.ok (some (header, len)), { d' with step := .body header len })

/-- The body; the payload is behind the padding. -/
def stageBody (d : V4Decoder C) (b : RecordHeader × Nat) (front : Bytes) : Res Item × V4Decoder C × Bytes :=
  let off := d.saltSpan + headerCipherLen
  match readBody d b.1 (front.drop off) with
  | (.error f, d', body) => (.error f, d', front.take off ++ body)
  | (.ok (), d', body) =>
    (.ok (.data (off + b.1.paddingLen) (off + b.1.paddingLen + b.1.payloadLen)), d', front.take off ++ body)

theorem stageHeader_keeps {d d' : V4Decoder C} {l : Bytes} {r : Res (Option (RecordHeader × Nat))}
    (h : stageHeader d l = (r, d')) : d'.pending = d.pending ∧ d'.psk = d.psk ∧
      (r = .ok none → d'.step = d.step) ∧ ∀ b, r = .ok (some b) → d'.step = .body b.1 b.2 := by
  unfold stageHeader at h
  split at h
  · next hr =>
    cases h
    obtain ⟨_, rfl⟩ := readHeader_state hr
    exact ⟨rfl, rfl, nofun, nofun⟩
  · next hr =>
    obtain ⟨_, rfl⟩ := readHeader_state hr
    split at h <;> cases h
    · exact ⟨rfl, rfl, fun _ => rfl, nofun⟩
    · exact ⟨rfl, rfl, nofun, fun b hb => by cases hb; rfl⟩

theorem stageBody_keeps {d d' : V4Decoder C} {b : RecordHeader × Nat} {l l' : Bytes} {r : Res Item}
    (h : stageBody d b l = (r, d', l')) : d'.pending = d.pending ∧ d'.psk = d.psk ∧ l'.length = l.length ∧
      ∀ x, r = .ok x → d'.step = .header := by
  have hl := readBody_length d b.1 (l.drop (d.saltSpan + headerCipherLen))
  simp only [List.length_drop] at hl
  unfold stageBody at h
  simp only at h
  split at h
  · next hr =>
    rw [hr] at hl
    cases h
    obtain ⟨_, rfl⟩ := readBody_error hr
    exact ⟨rfl, rfl, by simp only [List.length_append, List.length_take, hl]; omega, nofun⟩
  · next hr =>
    rw [hr] at hl
    cases h
    obtain ⟨_, rfl⟩ := readBody_ok hr
    exact ⟨rfl, rfl, by simp only [List.length_append, List.length_take, hl]; omega, fun _ _ => rfl⟩

theorem stage_eq_header {d : V4Decoder C} : d.stage = .header ↔ d.step = .header := by
  unfold stage; split <;> simp_all

theorem stage_eq_salt {d : V4Decoder C} : d.stage = .salt ↔ d.step = .salt := by
  unfold stage; split <;> simp_all

def stages (C : Crypto) : Stages C (V4Decoder C) (RecordHeader × Nat) where
  stage := stage
  psk := psk
  hasKey d := d.aead.isSome
  setKey d _ key := { d with aead := some key }
  toHeader d := { d with step := .header }
  saltEnd _ := saltLen
  headerEnd d := d.saltSpan + headerCipherLen
  bodyEnd d b := d.saltSpan + headerCipherLen + b.2
  readHeader := stageHeader
  readBody := stageBody
  saltEnd_pos _ := by decide
  headerEnd_pos _ := Nat.add_pos_right _ (by decide)
  bodyEnd_pos _ _ := Nat.add_pos_left (Nat.add_pos_right _ (by decide)) _
  pending_set _ _ := rfl
  set_set _ _ _ := rfl
  set_pending _ := rfl
  stage_set _ _ := rfl
  psk_set _ _ := rfl
  pending_setKey _ _ _ := rfl
  stage_setKey _ _ _ := rfl
  psk_setKey _ _ _ := rfl
  hasKey_setKey _ _ _ := rfl
  saltEnd_setKey _ _ _ := rfl
  pending_toHeader _ := rfl
  stage_toHeader _ := rfl
  psk_toHeader _ := rfl
  readHeader_keeps h := ⟨(stageHeader_keeps h).1, (stageHeader_keeps h).2.1⟩
  readHeader_none hs h := stage_eq_header.2 (((stageHeader_keeps h).2.2.1 rfl).trans (stage_eq_header.1 hs))
  readHeader_some h := by simp only [stage, (stageHeader_keeps h).2.2.2 _ rfl]
  readBody_keeps h := ⟨(stageBody_keeps h).1, (stageBody_keeps h).2.1, (stageBody_keeps h).2.2.1⟩
  readBody_ok h := stage_eq_header.2 ((stageBody_keeps h).2.2.2 _ rfl)
  kdfSalt_take _ _ h := kdfSalt_take h
  kdfNeed_eq d := by
    change (if d.aead.isNone ∧ d.step = .salt then saltLen else 0) = _
    obtain ⟨psk, aead, nonce, includeSalt, step, pending, ne⟩ := d
    cases step <;> cases aead <;> rfl
  installAead_eq d _ key := by
    change (do let aead ← C.aesNew key; return ({ d with aead := some aead } : V4Decoder C)) = _
    cases C.aesNew key <;> rfl

/-! ## The decoder is the machine behind its outstanding records -/

/-- The decoder with nothing outstanding. -/
def bare (d : V4Decoder C) : V4Decoder C := { d with pending := 0 }

theorem readHeader_bare (d : V4Decoder C) (hdr : Bytes) :
    readHeader (bare d) hdr = ((readHeader d hdr).1, bare (readHeader d hdr).2) := by
  obtain ⟨psk, aead, nonce, includeSalt, step, pending, ne⟩ := d
  cases aead with
  | none => rfl
  | some aead => simp only [readHeader, bare]; split <;> rfl

theorem readBody_bare (d : V4Decoder C) (header : RecordHeader) (body : Bytes) :
    readBody (bare d) header body =
      ((readBody d header body).1, bare (readBody d header body).2.1, (readBody d header body).2.2) := by
  obtain ⟨psk, aead, nonce, includeSalt, step, pending, ne⟩ := d
  simp only [readBody, bare]
  split
  · rfl
  · cases aead with
    | none => rfl
    | some aead => simp only; split <;> rfl

theorem decodeBody_eq {d : V4Decoder C} {header : RecordHeader} {len max : Nat} {P A : Bytes}
    (hs : d.step = .body header len) (hP : P.length = d.pending) :
    decodeBody d header len max (P ++ A) = answer P A (Staged.run ((stages C).machine max) (bare d) A) := by
  have hoff : d.headerOffset + headerCipherLen = P.length + (d.saltSpan + headerCipherLen) := by
    simp only [headerOffset, hP]; omega
  simp only [decodeBody, hoff, ← hP, Nat.add_assoc P.length]
  refine Stages.body_arm (S := stages C) (s := bare d) (b := (header, len))
    (by simp only [stages, stage, bare, hs]) (by rw [hP]; rfl) fun hl => ?_
  change d.saltSpan + headerCipherLen + len ≤ A.length at hl
  have hfront : (A.take (d.saltSpan + headerCipherLen + len)).drop (d.saltSpan + headerCipherLen) =
      (A.drop (d.saltSpan + headerCipherLen)).take len := by
    rw [List.drop_take, Nat.add_sub_cancel_left]
  have htake : (A.take (d.saltSpan + headerCipherLen + len)).take (d.saltSpan + headerCipherLen) =
      A.take (d.saltSpan + headerCipherLen) := by
    rw [List.take_take, Nat.min_eq_left (by omega)]
  have hspan : (bare d).saltSpan = d.saltSpan := rfl
  simp only [stages, stageBody, hspan, hfront, htake, readBody_bare]
  rw [slice_append_right, slice_ok (by omega) hl, Nat.add_sub_cancel_left]
  rcases hr : readBody d header ((A.drop (d.saltSpan + headerCipherLen)).take len) with ⟨r, d', body⟩
  cases r with
  | error f =>
    obtain ⟨nonce, rfl⟩ := readBody_error hr
    simp only [hr, splice_append_right, setPending, bare, ← hP]
  | ok u =>
    obtain ⟨nonce, rfl⟩ := readBody_ok hr
    simp only [hr, splice_append_right, Pending.data, ← hP, emit_eq, Item.record, setPending, bare, Nat.add_assoc]

theorem decodeHeader_eq {d : V4Decoder C} {max : Nat} {P A : Bytes} (hs : d.step = .header)
    (hP : P.length = d.pending) :
    decodeHeader d max (P ++ A) = answer P A (Staged.run ((stages C).machine max) (bare d) A) := by
  have hoff : d.headerOffset = P.length + d.saltSpan := by simp only [headerOffset, hP]
  simp only [decodeHeader, hoff, ← hP, Nat.add_assoc P.length]
  refine Stages.header_arm (S := stages C) (s := bare d) (by simp only [stages, stage, bare, hs])
    (by rw [hP]; rfl) fun hl => ?_
  change d.saltSpan + headerCipherLen ≤ A.length at hl
  have hspan : (bare d).saltSpan = d.saltSpan := rfl
  simp only [stages, stageHeader, hspan, List.drop_take, Nat.add_sub_cancel_left, readHeader_bare]
  rw [chunkAt_append_right, chunkAt_ok hl]
  rcases hr : readHeader d ((A.drop d.saltSpan).take headerCipherLen) with ⟨r, d'⟩
  obtain ⟨nonce, rfl⟩ := readHeader_state hr
  cases r with
  | error f => simp only [hr, setPending, bare, ← hP]
  | ok r =>
    obtain ⟨header, len⟩ := r
    simp only [hr]
    by_cases h0 : len = 0
    · simp only [if_pos h0, Pending.zeroChunk, ← hP, emit_eq, setPending, bare]
    · simp only [if_neg h0]
      exact decodeBody_eq rfl hP

theorem decode_eq (d : V4Decoder C) (max : Nat) (P A : Bytes) (ha : d.stage = .salt → d.pending = 0)
    (hP : P.length = d.pending) :
    decode d max (P ++ A) = answer P A (Staged.run ((stages C).machine max) (bare d) A) := by
  unfold decode
  cases hs : d.step with
  | header => exact decodeHeader_eq hs hP
  | body header len => exact decodeBody_eq hs hP
  | salt =>
    have hp := ha (stage_eq_salt.2 hs)
    obtain rfl : P = [] := List.eq_nil_of_length_eq_zero (by omega)
    have hb : bare d = d := by rw [bare, ← hp]
    rw [hb, hp, List.nil_append]
    refine Stages.salt_arm (S := stages C) (stage_eq_salt.2 hs) hp fun hl => ?_
    have hread : readSalt d A = (stages C).readSalt d A := by
      obtain ⟨psk, aead, nonce, includeSalt, step, pending, ne⟩ := d
      cases aead with
      | some aead => rfl
      | none =>
        change _ = ((stages C).derived _ A).map _
        simp only [readSalt, Stages.derived, bind, Except.bind, RecordDecoder.kdfSalt]
        cases kdfSalt A with
        | error f => rfl
        | ok salt => simp only [stages]; cases C.derive psk.bytes salt <;> rfl
    rw [hread]
    cases hr : (stages C).readSalt d A with
    | error f => rfl
    | ok d' =>
      obtain ⟨hpend, hstage, _⟩ := Stages.readSalt_ok hr
      have hpend : d'.pending = 0 := hpend.trans hp
      have hb' : bare d' = d' := by rw [bare, ← hpend]
      have : decodeHeader d' max ([] ++ A) = _ := decodeHeader_eq (stage_eq_header.1 hstage) hpend.symm
      rwa [hb'] at this

instance : StagedDecoder (V4Decoder C) := (stages C).stagedDecoder decode_eq

instance : KdfDecoder C (V4Decoder C) := (stages C).kdfDecoder rfl rfl

end V4Decoder

end Snell
