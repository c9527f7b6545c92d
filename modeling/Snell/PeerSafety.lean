/-
Decoders against a hostile peer.

Nothing is assumed of the bytes that arrive, nor of what opens: `openInPlace`
may accept any header and any body. A session appends, decodes, installs keys
and consumes in any order, and goes on after errors.
-/
import Snell.Runs
import Snell.BufferFacts
import Snell.V4Decode
import Snell.UnshapedDecode
import Snell.ShapedDecode

namespace Snell

open RecordDecoder

/-- The call returned an error; it did not panic, nor loop. -/
def Fault.Returned (f : Fault) : Prop := ∃ e, f = .err e

/-- A payload is not empty, and in the record's `n` bytes. -/
def Item.Within (n : Nat) : Item → Prop
  | .data i j => i < j ∧ j ≤ n
  | .zeroChunk => True

theorem Crypto.derive_error {C : Crypto} {psk : Bytes} {salt : Salt} {f : Fault} (h : C.derive psk salt = .error f) :
    f.Returned := by
  simp only [Crypto.derive, Crypto.aeadKeyRes, Crypto.aesNew, bind, Except.bind] at h
  split at h
  · next hk =>
    split at hk
    · cases hk
    · cases hk; cases h; exact ⟨_, rfl⟩
  · split at h
    · cases h
    · cases h; exact ⟨_, rfl⟩

theorem Crypto.aesNew_error {C : Crypto} {key : ByteArr aes128KeyLen} {f : Fault} (h : C.aesNew key = .error f) :
    f.Returned := by
  unfold Crypto.aesNew at h
  split at h
  · cases h
  · cases h; exact ⟨_, rfl⟩

theorem Crypto.aesOpen_error {C : Crypto} {key : C.Key} {nonce nonce' : Nonce} {aad inOut out : Bytes} {f : Fault}
    (h : C.aesOpen key nonce aad inOut = (.error f, out, nonce')) : f.Returned := by
  unfold Crypto.aesOpen at h
  split at h
  · cases h; exact ⟨_, rfl⟩
  · split at h
    · cases h
    · cases h; exact ⟨_, rfl⟩

/-! Seven bytes are a header or an error. -/

theorem parsePlainHeader_error {l : Bytes} {f : Fault} (hl : l.length = headerPlainLen)
    (h : parsePlainHeader l = .error f) : f.Returned := by
  match l, hl with
  | [m, r₀, r₁, p₀, p₁, l₀, l₁], _ =>
    simp only [parsePlainHeader, wirePlainHeader, bind, Except.bind] at h
    split at h
    · cases h; exact ⟨_, rfl⟩
    · cases h

theorem parseV4PlainHeader_error {l : Bytes} {f : Fault} (hl : l.length = headerPlainLen)
    (h : parseV4PlainHeader l = .error f) : f.Returned := by
  simp only [parseV4PlainHeader, bind, Except.bind] at h
  split at h
  · next hp => cases h; exact parsePlainHeader_error hl hp
  · split at h
    · cases h; exact ⟨_, rfl⟩
    · cases h

theorem parseV6PlainHeader_error {l : Bytes} {f : Fault} (hl : l.length = headerPlainLen)
    (h : parseV6PlainHeader l = .error f) : f.Returned := by
  simp only [parseV6PlainHeader, bind, Except.bind] at h
  split at h
  · next hp => cases h; exact parsePlainHeader_error hl hp
  · split at h
    · cases h; exact ⟨_, rfl⟩
    · cases h

/-- The plaintext of an opened header block is a header's length. -/
theorem Crypto.openedHeader_length {C : Crypto} {key : C.Key} {nonce nonce' : Nonce} {aad hdr out : Bytes} {r : Res Unit}
    (hl : hdr.length = headerCipherLen) (h : C.aesOpen key nonce aad hdr = (r, out, nonce')) :
    (openedHeader out).length = headerPlainLen := by
  have ho := C.aesOpen_length key nonce aad hdr
  rw [h] at ho
  simp only [headerCipherLen] at ho hl
  rw [openedHeader, List.length_take]
  omega

/-! ## Stages that read anything -/

/-- The stages of a decoder, with what makes them safe to enter with any bytes
of the right number. `Body` is what a header that was accepted says. -/
structure SafeStages (C : Crypto) (D β : Type) [RecordDecoder D] extends Stages C D β where
  Body : β → Prop
  kdfSalt_error : ∀ {d : D} {l f}, saltEnd d ≤ l.length → kdfSalt d l = .error f → f.Returned
  readHeader_body : ∀ {d d' : D} {l b}, readHeader d l = (.ok (some b), d') → Body b
  readHeader_error : ∀ {d d' : D} {l f}, stage d = .header → l.length = headerEnd d → readHeader d l = (.error f, d') →
    f.Returned ∧ stage d' = .header
  readBody_item : ∀ {d d' : D} {b l l' item}, Body b → l.length = bodyEnd d b → readBody d b l = (.ok item, d', l') →
    item.Within l.length
  readBody_error : ∀ {d d' : D} {b l l' f}, Body b → stage d = .body b → l.length = bodyEnd d b →
    readBody d b l = (.error f, d', l') → f.Returned ∧ stage d' = .body b
  decode_eq : ∀ (d : D) max (P A : Bytes), (stage d = .salt → pending d = 0) → P.length = pending d →
    decode d max (P ++ A) = answer P A (Staged.run (toStages.machine max) (setPending d 0) A)

namespace SafeStages

variable {C : Crypto} {D β : Type} [RecordDecoder D] (S : SafeStages C D β)

def Valid (d : D) : Prop := ∀ b, S.stage d = .body b → S.Body b

variable {S} {d d' : D} {l l' : Bytes}

theorem readSalt_error {f : Fault} (hl : S.saltEnd d ≤ l.length) (h : S.toStages.readSalt d l = .error f) :
    f.Returned := by
  unfold Stages.readSalt at h
  split at h
  · cases h
  · simp only [Stages.derived, bind, Except.bind] at h
    cases hs : kdfSalt d l with
    | error f' =>
      rw [hs] at h
      cases h
      exact S.kdfSalt_error hl hs
    | ok salt =>
      rw [hs] at h
      simp only at h
      cases hk : C.derive (S.psk d).bytes salt with
      | error f' =>
        rw [hk] at h
        cases h
        exact Crypto.derive_error hk
      | ok key => rw [hk] at h; cases h

theorem act_next_valid (h : S.toStages.act d l = .next d') : S.Valid d' := by
  intro b hb
  cases hs : S.stage d with
  | salt =>
    rw [Stages.act_salt hs] at h
    split at h <;> cases h
    next hr => rw [(Stages.readSalt_ok hr).2.1] at hb; cases hb
  | header =>
    rw [Stages.act_header hs] at h
    split at h <;> cases h
    next hr =>
    rw [S.readHeader_some hr] at hb
    cases hb
    exact S.readHeader_body hr
  | body b =>
    rw [Stages.act_body hs] at h
    split at h <;> cases h

theorem act_emit_within {item : Item} (hv : S.Valid d) (hl : l.length = S.toStages.needed d)
    (h : S.toStages.act d l = .emit item l' d') : S.Valid d' ∧ item.Within l.length := by
  refine ⟨fun b hb => ?_, ?_⟩
  · rw [(Stages.act_emit h).2.1] at hb; cases hb
  cases hs : S.stage d with
  | salt =>
    rw [Stages.act_salt hs] at h
    split at h <;> cases h
  | header =>
    rw [Stages.act_header hs] at h
    split at h <;> cases h
    trivial
  | body b =>
    simp only [Stages.needed, hs] at hl
    rw [Stages.act_body hs] at h
    split at h <;> cases h
    next hr => exact S.readBody_item (hv b hs) hl hr

theorem act_fail_returned {f : Fault} (hv : S.Valid d) (hl : l.length = S.toStages.needed d)
    (h : S.toStages.act d l = .fail f l' d') : f.Returned ∧ S.stage d' = S.stage d := by
  cases hs : S.stage d with
  | salt =>
    simp only [Stages.needed, hs] at hl
    rw [Stages.act_salt hs] at h
    split at h <;> cases h
    next hr => exact ⟨readSalt_error (by omega) hr, hs⟩
  | header =>
    simp only [Stages.needed, hs] at hl
    rw [Stages.act_header hs] at h
    split at h <;> cases h
    next hr => exact S.readHeader_error hs hl hr
  | body b =>
    simp only [Stages.needed, hs] at hl
    rw [Stages.act_body hs] at h
    split at h <;> cases h
    next hr => exact S.readBody_error (hv b hs) hs hl hr

/-- What a call comes to on any bytes. -/
def RunSafe (S : SafeStages C D β) (d : D) : Staged.Result D Item Fault UInt8 → Prop
  | .need _ d' => S.Valid d' ∧ (S.stage d' = .salt → S.stage d = .salt)
  | .emit n item _ d' => S.Valid d' ∧ S.stage d' = .header ∧ item.Within n
  | .fail f _ d' => S.Valid d' ∧ (S.stage d' = .salt → S.stage d = .salt) ∧ f.Returned

theorem run_safe (max : Nat) (hv : S.Valid d) (A : Bytes) : S.RunSafe d (Staged.run (S.toStages.machine max) d A) := by
  revert hv
  refine Staged.run_induct (M := S.toStages.machine max) (P := fun d _ r => S.Valid d → S.RunSafe d r) A ?_ ?_ ?_ ?_ ?_ d
  · intro d _ hv
    exact ⟨hv, id, _, rfl⟩
  · intro d _ _ hv
    exact ⟨hv, id⟩
  · intro d item f d' _ hl hact hv
    have hlen : (A.take (S.toStages.needed d)).length = S.toStages.needed d := by
      rw [List.length_take]; exact Nat.min_eq_left hl
    obtain ⟨hv', hitem⟩ := act_emit_within hv hlen hact
    rw [hlen] at hitem
    exact ⟨hv', (Stages.act_emit hact).2.1, hitem⟩
  · intro d e f d' _ hl hact hv
    have hlen : (A.take (S.toStages.needed d)).length = S.toStages.needed d := by
      rw [List.length_take]; exact Nat.min_eq_left hl
    obtain ⟨he, hs⟩ := act_fail_returned hv hlen hact
    exact ⟨fun b hb => hv b (hs ▸ hb), fun h => hs ▸ h, he⟩
  · intro d d' _ _ hact ih hv
    have hne := (Stages.act_next hact).2.1
    have := ih (act_next_valid hact)
    revert this
    cases Staged.run (S.toStages.machine max) d' A with
    | need k d'' => exact fun ⟨h₁, h₂⟩ => ⟨h₁, fun h => absurd (h₂ h) hne⟩
    | emit n item l d'' => exact id
    | fail f l d'' => exact fun ⟨h₁, h₂, h₃⟩ => ⟨h₁, fun h => absurd (h₂ h) hne, h₃⟩

end SafeStages

/-- A decoder that may be given any bytes. -/
class SafeDecoder (D : Type) [RecordDecoder D] [StagedDecoder D] where
  Valid : D → Prop
  valid_set : ∀ {d : D} p, Valid d → Valid (setPending d p)
  install_valid : ∀ {C psk} {d d' : D} {A}, Valid d → installKdf C psk d A = .ok d' → Valid d'
  run_valid : ∀ {max} {d : D} (A), Valid d → Valid (Staged.run (StagedDecoder.machine max) d A).state
  emit_within : ∀ {max} {d d' : D} {A l n x}, Valid d → Staged.run (StagedDecoder.machine max) d A = .emit n x l d' →
    x.Within n
  fail_returned : ∀ {max} {d d' : D} {A l f}, Valid d → Staged.run (StagedDecoder.machine max) d A = .fail f l d' →
    f.Returned

/-- Decoders whose stages are safe are. -/
abbrev SafeStages.safeDecoder {C : Crypto} {D β : Type} [RecordDecoder D] (S : SafeStages C D β) [T : StagedDecoder D]
    (hmachine : T.machine = S.toStages.machine) : SafeDecoder D where
  Valid := S.Valid
  valid_set p hv b hb := hv b ((S.stage_set _ p).symm.trans hb)
  install_valid {C' psk d d' A} hv h := by
    simp only [installKdf, bind, Except.bind] at h
    split at h
    · cases h; exact hv
    split at h
    · cases h
    split at h
    · cases h
    next key _ =>
    rw [S.installAead_eq] at h
    cases hk : C.aesNew key with
    | error f => rw [hk] at h; cases h
    | ok k =>
      rw [hk] at h
      cases h
      intro b hb
      exact hv b ((S.stage_setKey d _ k).symm.trans hb)
  run_valid {max d} A hv := by
    rw [hmachine]
    have := SafeStages.run_safe max hv A
    cases hr : Staged.run (S.toStages.machine max) d A with
    | need | emit | fail => rw [hr] at this; exact this.1
  emit_within {max _ _ A _ _ _} hv h := by
    rw [hmachine] at h
    have := SafeStages.run_safe max hv A
    rw [h] at this
    exact this.2.2
  fail_returned {max _ _ A _ _} hv h := by
    rw [hmachine] at h
    have := SafeStages.run_safe max hv A
    rw [h] at this
    exact this.2.2

/-! ## The decoders -/

namespace V4Decoder

variable {C : Crypto} {d d' : V4Decoder C} {l l' : Bytes} {f : Fault}

theorem readHeader_returned (hl : l.length = headerCipherLen) (h : readHeader d l = (.error f, d')) : f.Returned := by
  unfold readHeader at h
  split at h
  · cases h; exact ⟨_, rfl⟩
  split at h
  · next ho => cases h; exact Crypto.aesOpen_error ho
  · next ho =>
    have hlen := Crypto.openedHeader_length hl ho
    obtain ⟨h, _⟩ := Prod.mk.inj h
    simp only [bind, Except.bind] at h
    split at h
    · next hp => cases h; exact parseV4PlainHeader_error hlen hp
    · simp only [RecordHeader.bodyLenV4] at h
      split at h
      · next hb =>
        split at hb
        · cases hb; cases h; exact ⟨_, rfl⟩
        · cases hb
      · cases h

theorem readHeader_len {header : RecordHeader} {len : Nat} (h : readHeader d l = (.ok (header, len), d')) :
    header.bodyLenV4 = .ok len := by
  unfold readHeader at h
  split at h
  · cases h
  split at h
  · cases h
  · obtain ⟨h, _⟩ := Prod.mk.inj h
    simp only [bind, Except.bind] at h
    split at h
    · cases h
    · split at h
      · cases h
      · next hb => cases h; exact hb

theorem kdfSalt_error (h : kdfSalt l = .error f) : f.Returned := by
  unfold kdfSalt at h
  split at h
  · cases h
  · cases h; exact ⟨_, rfl⟩

/-- A body is there to be read: the padding, a payload and its tag. -/
def Body (b : RecordHeader × Nat) : Prop := 0 < b.1.payloadLen ∧ b.2 = b.1.paddingLen + (b.1.payloadLen + tagLen)

theorem stageHeader_body {b : RecordHeader × Nat} (h : stageHeader d l = (.ok (some b), d')) : Body b := by
  unfold stageHeader at h
  split at h
  · cases h
  · next header len _ hr =>
    have hlen := readHeader_len hr
    split at h
    · cases h
    · next hne =>
      cases h
      simp only [RecordHeader.bodyLenV4, RecordHeader.payloadBodyLen] at hlen
      split at hlen
      · cases hlen
      · next hzero =>
        cases hlen
        simp only [Body]
        split at hne
        · omega
        · next hpos => exact ⟨by omega, by rw [if_neg hpos]⟩

theorem readBody_returned {header : RecordHeader} (hl : header.paddingLen ≤ l.length)
    (h : readBody d header l = (.error f, d', l')) : f.Returned := by
  unfold readBody at h
  rw [if_neg (by omega)] at h
  simp only at h
  split at h
  · cases h; exact ⟨_, rfl⟩
  · split at h
    · next ho => cases h; exact Crypto.aesOpen_error ho
    · cases h

theorem stageHeader_error (hl : l.length = d.saltSpan + headerCipherLen) (h : stageHeader d l = (.error f, d')) :
    f.Returned ∧ d'.step = d.step := by
  unfold stageHeader at h
  split at h
  · next hr =>
    cases h
    have hf := readHeader_returned (by rw [List.length_drop]; omega) hr
    obtain ⟨_, rfl⟩ := readHeader_state hr
    exact ⟨hf, rfl⟩
  · split at h <;> cases h

theorem stageBody_error {b : RecordHeader × Nat} (hb : Body b) (hl : l.length = d.saltSpan + headerCipherLen + b.2)
    (h : stageBody d b l = (.error f, d', l')) : f.Returned ∧ d'.step = d.step := by
  have hlen := hb.2
  unfold stageBody at h
  simp only at h
  split at h
  · next hr =>
    cases h
    have hf := readBody_returned (by rw [List.length_drop]; omega) hr
    obtain ⟨_, rfl⟩ := readBody_error hr
    exact ⟨hf, rfl⟩
  · cases h

theorem stageBody_within {b : RecordHeader × Nat} {item : Item} (hb : Body b)
    (hl : l.length = d.saltSpan + headerCipherLen + b.2) (h : stageBody d b l = (.ok item, d', l')) :
    item.Within l.length := by
  obtain ⟨hpos, hlen⟩ := hb
  unfold stageBody at h
  simp only at h
  split at h
  · cases h
  · cases h
    exact ⟨by omega, by omega⟩

def safeStages (C : Crypto) : SafeStages C (V4Decoder C) (RecordHeader × Nat) where
  toStages := stages C
  Body := Body
  kdfSalt_error hl h := kdfSalt_error h
  readHeader_body := stageHeader_body
  readHeader_error hs hl h :=
    ⟨(stageHeader_error hl h).1, stage_eq_header.2 ((stageHeader_error hl h).2.trans (stage_eq_header.1 hs))⟩
  readBody_item := stageBody_within
  readBody_error {_ _ _ _ _ _} hb hs hl h := by
    obtain ⟨hf, hstep⟩ := stageBody_error hb hl h
    exact ⟨hf, by simp only [stages, stage, hstep] at hs ⊢; exact hs⟩
  decode_eq := decode_eq

theorem machine_safe : StagedDecoder.machine = (safeStages C).toStages.machine := rfl

instance : SafeDecoder (V4Decoder C) := (safeStages C).safeDecoder machine_safe

end V4Decoder

namespace V6UnshapedDecoder

variable {C : Crypto} {d d' : V6UnshapedDecoder C} {l l' : Bytes} {f : Fault}

theorem readHeader_returned (hl : l.length = headerCipherLen) (h : readHeader d l = (.error f, d')) : f.Returned := by
  unfold readHeader at h
  split at h
  · cases h; exact ⟨_, rfl⟩
  split at h
  · next ho => cases h; exact Crypto.aesOpen_error ho
  · next ho =>
    have hlen := Crypto.openedHeader_length hl ho
    obtain ⟨h, _⟩ := Prod.mk.inj h
    simp only [bind, Except.bind] at h
    split at h
    · next hp => cases h; exact parseV6PlainHeader_error hlen hp
    · simp only [RecordHeader.bodyLenV6Unshaped] at h
      split at h
      · next hb =>
        split at hb
        · cases hb; cases h; exact ⟨_, rfl⟩
        · cases hb
      · cases h

theorem readHeader_len {header : RecordHeader} {len : Nat} (h : readHeader d l = (.ok (header, len), d')) :
    len = header.payloadBodyLen := by
  unfold readHeader at h
  split at h
  · cases h
  split at h
  · cases h
  · obtain ⟨h, _⟩ := Prod.mk.inj h
    simp only [bind, Except.bind] at h
    split at h
    · cases h
    · simp only [RecordHeader.bodyLenV6Unshaped] at h
      split at h
      · cases h
      · next hb =>
        cases h
        split at hb
        · cases hb
        · cases hb; rfl

/-- A body is there to be read: a payload and its tag. -/
def Body (b : Nat × Nat) : Prop := 0 < b.1 ∧ b.2 = b.1 + tagLen

theorem stageHeader_body {b : Nat × Nat} (h : stageHeader d l = (.ok (some b), d')) : Body b := by
  unfold stageHeader at h
  split at h
  · cases h
  · next header len _ hr =>
    have hlen := readHeader_len hr
    split at h
    · cases h
    · next hne =>
      cases h
      unfold RecordHeader.payloadBodyLen at hlen
      split at hlen
      · omega
      · next hpos => exact ⟨by simp only; omega, hlen⟩

theorem readBody_returned (h : readBody d l = (.error f, d', l')) : f.Returned := by
  unfold readBody at h
  split at h
  · cases h; exact ⟨_, rfl⟩
  · split at h
    · next ho => cases h; exact Crypto.aesOpen_error ho
    · cases h

theorem stageHeader_error (hl : l.length = d.saltSpan + headerCipherLen) (h : stageHeader d l = (.error f, d')) :
    f.Returned ∧ d'.step = d.step := by
  unfold stageHeader at h
  split at h
  · next hr =>
    cases h
    have hf := readHeader_returned (by rw [List.length_drop]; omega) hr
    obtain ⟨_, rfl⟩ := readHeader_state hr
    exact ⟨hf, rfl⟩
  · split at h <;> cases h

theorem stageBody_error {b : Nat × Nat} (h : stageBody d b l = (.error f, d', l')) : f.Returned ∧ d'.step = d.step := by
  unfold stageBody at h
  simp only at h
  split at h
  · next hr =>
    cases h
    have hf := readBody_returned hr
    obtain ⟨_, rfl⟩ := readBody_error hr
    exact ⟨hf, rfl⟩
  · cases h

theorem stageBody_within {b : Nat × Nat} {item : Item} (hb : Body b)
    (hl : l.length = d.saltSpan + headerCipherLen + b.2) (h : stageBody d b l = (.ok item, d', l')) :
    item.Within l.length := by
  obtain ⟨hpos, hlen⟩ := hb
  unfold stageBody at h
  simp only at h
  split at h
  · cases h
  · cases h
    exact ⟨by omega, by omega⟩

def safeStages (C : Crypto) : SafeStages C (V6UnshapedDecoder C) (Nat × Nat) where
  toStages := stages C
  Body := Body
  kdfSalt_error _ h := V4Decoder.kdfSalt_error h
  readHeader_body := stageHeader_body
  readHeader_error hs hl h :=
    ⟨(stageHeader_error hl h).1, stage_eq_header.2 ((stageHeader_error hl h).2.trans (stage_eq_header.1 hs))⟩
  readBody_item := stageBody_within
  readBody_error _ hs _ h := by
    obtain ⟨hf, hstep⟩ := stageBody_error h
    exact ⟨hf, by simp only [stages, stage, hstep] at hs ⊢; exact hs⟩
  decode_eq := decode_eq

theorem machine_safe : StagedDecoder.machine = (safeStages C).toStages.machine := rfl

instance : SafeDecoder (V6UnshapedDecoder C) := (safeStages C).safeDecoder machine_safe

end V6UnshapedDecoder

namespace V6ShapedDecoder

variable {C : Crypto} {d d' : V6ShapedDecoder C} {l l' : Bytes} {f : Fault}

theorem kdfSalt_error (h : kdfSalt d l = .error f) : f.Returned := by
  unfold kdfSalt at h
  split at h
  · next hl =>
    have hlen : (l.take d.profile.saltBlockLen).length = d.profile.saltBlockLen := by rw [List.length_take]; omega
    obtain ⟨salt, hs⟩ := d.profile.extractSalt_ok hlen
    rw [hs] at h
    cases h
  · cases h; exact ⟨_, rfl⟩

theorem readHeader_returned {pfx : Bytes} (hl : l.length = headerCipherLen) (h : readHeader d pfx l = (.error f, d')) :
    f.Returned := by
  unfold readHeader at h
  split at h
  · cases h; exact ⟨_, rfl⟩
  split at h
  · next ho => cases h; exact Crypto.aesOpen_error ho
  · next ho =>
    obtain ⟨h, _⟩ := Prod.mk.inj h
    exact parseV6PlainHeader_error (Crypto.openedHeader_length hl ho) h

theorem readBody_returned {header : RecordHeader} (hl : header.paddingLen ≤ l.length)
    (h : readBody d header l = (.error f, d', l')) : f.Returned := by
  unfold readBody at h
  rw [if_neg (by omega)] at h
  unfold openBody at h
  simp only at h
  split at h
  · cases h; exact ⟨_, rfl⟩
  · split at h
    · next ho => cases h; exact Crypto.aesOpen_error ho
    · cases h

theorem stageHeader_error (hl : l.length = d.saltSpan + d.prefixSpan + headerCipherLen)
    (h : stageHeader d l = (.error f, d')) : f.Returned ∧ d'.step = d.step := by
  unfold stageHeader at h
  split at h
  · next hr =>
    cases h
    have hf := readHeader_returned (by rw [List.length_drop]; omega) hr
    obtain ⟨_, rfl⟩ := readHeader_state hr
    exact ⟨hf, rfl⟩
  · split at h <;> cases h

theorem stageBody_error {b : RecordHeader × Nat}
    (hl : l.length = d.saltSpan + b.2 + headerCipherLen + b.1.bodyLenV6Shaped)
    (h : stageBody d b l = (.error f, d', l')) : f.Returned ∧ d'.step = d.step := by
  unfold stageBody at h
  simp only at h
  split at h
  · cases h
  split at h
  · next hr =>
    cases h
    have hf := readBody_returned (by rw [List.length_drop]; simp only [RecordHeader.bodyLenV6Shaped] at hl; omega) hr
    obtain ⟨_, rfl⟩ := readBody_error hr
    exact ⟨hf, rfl⟩
  · cases h

theorem stageBody_within {b : RecordHeader × Nat} {item : Item}
    (hl : l.length = d.saltSpan + b.2 + headerCipherLen + b.1.bodyLenV6Shaped)
    (h : stageBody d b l = (.ok item, d', l')) : item.Within l.length := by
  unfold stageBody at h
  simp only at h
  split at h
  · cases h; trivial
  · next hne =>
    split at h
    · cases h
    · cases h
      simp only [RecordHeader.bodyLenV6Shaped, RecordHeader.payloadBodyLen, if_neg hne] at hl
      exact ⟨by omega, by omega⟩

def safeStages (C : Crypto) : SafeStages C (V6ShapedDecoder C) (RecordHeader × Nat) where
  toStages := stages C
  Body _ := True
  kdfSalt_error _ h := kdfSalt_error h
  readHeader_body _ := trivial
  readHeader_error hs hl h := by
    obtain ⟨hf, hstep⟩ := stageHeader_error hl h
    exact ⟨hf, by simp only [stages, stage, hstep] at hs ⊢; exact hs⟩
  readBody_item _ := stageBody_within
  readBody_error _ hs hl h := by
    obtain ⟨hf, hstep⟩ := stageBody_error hl h
    exact ⟨hf, by simp only [stages, stage, hstep] at hs ⊢; exact hs⟩
  decode_eq := decode_eq

theorem machine_safe : StagedDecoder.machine = (safeStages C).toStages.machine := rfl

instance : SafeDecoder (V6ShapedDecoder C) := (safeStages C).safeDecoder machine_safe

end V6ShapedDecoder

/-! ## Sessions -/

/-- What happens next: bytes arrive, or the caller decodes, installs any key,
or consumes the oldest record it was handed. -/
inductive PeerOp where
  | append (bytes : Bytes)
  | decode
  | install (salt : Salt) (key : ByteArr aes128KeyLen)
  | consume

structure Peer (D : Type) where
  decoder : D
  buf : Buffer
  /-- Records handed out and not consumed, the oldest first. -/
  outstanding : List DecodedRecord

/-- What a call returned; `idle` is a consume with nothing to consume. -/
inductive PeerEvent where
  | appended (r : Res Unit)
  | decoded (r : Res DecodeStatus)
  | installed (r : Res Unit)
  | consumed (r : Res Unit)
  | idle

def handedOut : Res DecodeStatus → List DecodedRecord
  | .ok (.record r) => [r]
  | _ => []

def Res.returned {α : Type} : Res α → Bool
  | .ok _ => true
  | .error (.err _) => true
  | .error _ => false

def PeerEvent.returns : PeerEvent → Bool
  | .appended r | .installed r | .consumed r => r.returned
  | .decoded r => r.returned
  | .idle => true

namespace Peer

variable {D : Type} [RecordDecoder D]

def step (s : Peer D) : PeerOp → PeerEvent × Peer D
  | .append bytes =>
    let r := s.buf.extendFromSlice bytes
    (.appended r.1, { s with buf := r.2 })
  | .decode =>
    let r := decodeBuf s.decoder s.buf
    (.decoded r.1, ⟨r.2.1, r.2.2, s.outstanding ++ handedOut r.1⟩)
  | .install salt key =>
    match installAead s.decoder salt key with
    | .ok decoder => (.installed (.ok ()), { s with decoder })
    | .error f => (.installed (.error f), s)
  | .consume =>
    match s.outstanding with
    | [] => (.idle, s)
    | r :: rest =>
      match RecordDecoder.consume s.decoder s.buf r with
      | (.ok (), decoder, buf) => (.consumed (.ok ()), ⟨decoder, buf, rest⟩)
      | (.error f, decoder, buf) => (.consumed (.error f), ⟨decoder, buf, r :: rest⟩)

def machine (D : Type) [RecordDecoder D] : Runs.Machine (Peer D) PeerOp PeerEvent where
  step := step
  returns := PeerEvent.returns

/-- What a decode gives, with `pending` bytes outstanding of `len` that are
there, and a limit of `max`. -/
def DecodesSafely (pending len max : Nat) : Res DecodeStatus → Prop
  | .ok (.needMore minimum) => len < minimum ∧ minimum ≤ pending + max
  | .ok (.record r) => 0 < r.consumed ∧ pending + r.consumed ≤ len ∧
      (r.kind = .data → pending ≤ r.plaintextStart ∧ r.plaintextStart < r.plaintextEnd ∧
        r.plaintextEnd ≤ pending + r.consumed)
  | .error f => f.Returned

/-- What holds whenever the caller is about to call. -/
structure Safe (s : Peer D) : Prop where
  /-- The outstanding records' spans are at the front of what is buffered. -/
  pending_eq : pending s.decoder = (s.outstanding.map DecodedRecord.consumed).sum
  pending_le : pending s.decoder ≤ s.buf.filled.length
  /-- Whatever is there, it decodes without leaving its bounds; a record is
  behind the outstanding ones, its payload inside it, and more is only asked for
  than is there, within the limit. -/
  decodes : DecodesSafely (pending s.decoder) s.buf.filled.length s.buf.max (decodeBuf s.decoder s.buf).1
  /-- What would have to wait, under some limit, for more than the buffer may
  hold, is too large. -/
  tooLarge : ∀ max minimum, (decode s.decoder max s.buf.filled).1 = .ok (.needMore minimum) →
    pending s.decoder + s.buf.max < minimum → (decodeBuf s.decoder s.buf).1 = .error (.err .payloadTooLarge)
  /-- The oldest outstanding record can be consumed. -/
  consumes : ∀ r rest, s.outstanding = r :: rest →
    ∃ decoder buf, RecordDecoder.consume s.decoder s.buf r = (.ok (), decoder, buf)
  /-- Every call returns. -/
  returns : ∀ op, (s.step op).1.returns = true

/-! ## Every call keeps it so -/

variable {C : Crypto} {β : Type} {S : SafeStages C D β}

structure Inv (S : SafeStages C D β) (s : Peer D) : Prop where
  wf : s.buf.Wf
  valid : S.Valid s.decoder
  start : S.stage s.decoder = .salt → pending s.decoder = 0
  pending_eq : pending s.decoder = (s.outstanding.map DecodedRecord.consumed).sum
  pending_le : pending s.decoder ≤ s.buf.filled.length

variable {s : Peer D}

/-- What the stages make of the bytes behind the outstanding records. -/
theorem Inv.decode_eq (h : Inv S s) (max : Nat) :
    let P := s.buf.filled.take (pending s.decoder)
    let A := s.buf.filled.drop (pending s.decoder)
    P.length = pending s.decoder ∧ s.buf.filled.length = P.length + A.length ∧
      decode s.decoder max s.buf.filled = answer P A (Staged.run (S.toStages.machine max) (setPending s.decoder 0) A) := by
  intro P A
  have hle := h.pending_le
  have hP : P.length = pending s.decoder := by rw [List.length_take]; omega
  have hsplit : P ++ A = s.buf.filled := List.take_append_drop _ _
  have hdec := S.decode_eq s.decoder max P A h.start hP
  rw [hsplit] at hdec
  exact ⟨hP, by rw [← hsplit, List.length_append], hdec⟩

/-- The buffer and the decoder after a decode that wrote back `filled`. -/
theorem Inv.of_decode (h : Inv S s) {d : D} {p : Nat} {filled : Bytes} {more : List DecodedRecord} (hv : S.Valid d)
    (hs : S.stage d = .salt → p = 0) (hp : p = pending s.decoder + (more.map DecodedRecord.consumed).sum)
    (hle : p ≤ s.buf.filled.length) (hlen : filled.length = s.buf.filled.length) :
    Inv S ⟨setPending d p, s.buf.setFilled filled, s.outstanding ++ more⟩ where
  wf := Buffer.setFilled_wf h.wf (by rw [hlen, Buffer.filled_length])
  valid b hb := hv b ((S.stage_set d p).symm.trans hb)
  start hsalt := by rw [S.stage_set] at hsalt; rw [S.pending_set]; exact hs hsalt
  pending_eq := by rw [S.pending_set, hp, h.pending_eq, List.map_append, List.sum_append]
  pending_le := by rw [S.pending_set, Buffer.setFilled_filled h.wf, hlen]; exact hle

theorem Inv.decode (h : Inv S s) :
    Inv S (s.step .decode).2 ∧
      DecodesSafely (pending s.decoder) s.buf.filled.length s.buf.max (decodeBuf s.decoder s.buf).1 := by
  obtain ⟨hP, hlen, hdec⟩ := h.decode_eq s.buf.max
  generalize s.buf.filled.take (pending s.decoder) = P at hP hlen hdec
  generalize s.buf.filled.drop (pending s.decoder) = A at hP hlen hdec
  have hv : S.Valid (setPending s.decoder 0) := fun b hb => h.valid b ((S.stage_set _ _).symm.trans hb)
  have hsafe := SafeStages.run_safe s.buf.max hv A
  have hstart : S.stage (setPending s.decoder 0) = .salt → P.length = 0 := by
    rw [S.stage_set, hP]; exact h.start
  simp only [step, decodeBuf, hdec]
  cases hr : Staged.run (S.toStages.machine s.buf.max) (setPending s.decoder 0) A with
  | need k d' =>
    rw [hr] at hsafe
    obtain ⟨hk, hmax, _⟩ := Staged.run_need hr
    have hmax : k ≤ s.buf.max := hmax
    simp only [answer]
    refine ⟨h.of_decode hsafe.1 (fun hs => hstart (hsafe.2 hs)) ?_ (by omega) (by rw [List.length_append]; omega),
      by omega, by omega⟩
    simp only [handedOut, List.map_nil, List.sum_nil]
    omega
  | emit n item l d' =>
    rw [hr] at hsafe
    obtain ⟨hv', hheader, hitem⟩ := hsafe
    obtain ⟨hpos, hn, _, hl, _⟩ := Staged.run_emit_bounds hr
    have hconsumed : (item.record P.length n).consumed = n := by cases item <;> rfl
    simp only [answer]
    refine ⟨h.of_decode hv' (fun hs => by rw [hheader] at hs; cases hs) ?_ (by omega)
      (by rw [List.length_append]; omega), by omega, by omega, fun hkind => ?_⟩
    · simp only [handedOut, List.map_cons, List.map_nil, List.sum_cons, List.sum_nil, hconsumed]
      omega
    · cases item with
      | zeroChunk => cases hkind
      | data i j =>
        obtain ⟨hij, hj⟩ := hitem
        simp only [Item.record] at hconsumed ⊢
        omega
  | fail f l d' =>
    rw [hr] at hsafe
    have hl := Staged.run_fail_length hr
    simp only [answer]
    refine ⟨h.of_decode hsafe.1 (fun hs => hstart (hsafe.2.1 hs)) ?_ (by omega) (by rw [List.length_append]; omega),
      hsafe.2.2⟩
    simp only [handedOut, List.map_nil, List.sum_nil]
    omega

theorem Inv.consume_ok (h : Inv S s) {r : DecodedRecord} {rest : List DecodedRecord} (hr : s.outstanding = r :: rest) :
    ∃ buf, RecordDecoder.consume s.decoder s.buf r =
        (.ok (), setPending s.decoder (pending s.decoder - r.consumed), buf) ∧
      Inv S ⟨setPending s.decoder (pending s.decoder - r.consumed), buf, rest⟩ := by
  have hpend := h.pending_eq
  have hle := h.pending_le
  rw [hr, List.map_cons, List.sum_cons] at hpend
  obtain ⟨buf, hb⟩ := Buffer.consume_fits (b := s.buf) (n := r.consumed) (by rw [← Buffer.filled_length]; omega)
  obtain ⟨_, hf, _, _, hw⟩ := Buffer.consume_ok h.wf hb
  refine ⟨buf, ?_, hw, fun b hb => h.valid b ((S.stage_set _ _).symm.trans hb), fun hs => ?_, ?_, ?_⟩
  · rw [RecordDecoder.consume, if_neg (by omega)]
    simp only [hb]
  · rw [S.stage_set] at hs
    have := h.start hs
    rw [S.pending_set]
    omega
  · simp only [S.pending_set]; omega
  · simp only [S.pending_set, hf, List.length_drop]; omega

/-- Every call returns, and keeps the invariant. -/
theorem Inv.step (h : Inv S s) (op : PeerOp) : Inv S (s.step op).2 ∧ (s.step op).1.returns = true := by
  cases op with
  | decode =>
    obtain ⟨hinv, hsafe⟩ := h.decode
    refine ⟨hinv, ?_⟩
    simp only [Peer.step, PeerEvent.returns]
    revert hsafe
    cases (decodeBuf s.decoder s.buf).1 with
    | ok status => exact fun _ => rfl
    | error f => rintro ⟨e, rfl⟩; rfl
  | append bytes =>
    simp only [Peer.step]
    cases hr : (s.buf.queue h.wf).refusal bytes.length with
    | some r => rw [Buffer.extendFromSlice_refused h.wf hr]; exact ⟨h, rfl⟩
    | none =>
      obtain ⟨buf, hb, hf, hk⟩ := Buffer.extendFromSlice_made _ h.wf hr
      rw [hb]
      refine ⟨⟨hk.wf, h.valid, h.start, h.pending_eq, ?_⟩, rfl⟩
      have hle := h.pending_le
      simp only [hf, List.length_append]
      omega
  | install salt key =>
    simp only [Peer.step, S.installAead_eq]
    cases hk : C.aesNew key with
    | error f =>
      obtain ⟨e, rfl⟩ := Crypto.aesNew_error hk
      exact ⟨h, rfl⟩
    | ok key =>
      simp only [Except.map]
      refine ⟨⟨h.wf, fun b hb => h.valid b ((S.stage_setKey _ _ _).symm.trans hb), fun hs => ?_, ?_, ?_⟩, rfl⟩
      · rw [S.stage_setKey] at hs; rw [S.pending_setKey]; exact h.start hs
      · rw [S.pending_setKey]; exact h.pending_eq
      · rw [S.pending_setKey]; exact h.pending_le
  | consume =>
    simp only [Peer.step]
    split
    · exact ⟨h, rfl⟩
    · next r rest hr =>
      obtain ⟨buf, hc, hinv⟩ := h.consume_ok hr
      rw [hc]
      exact ⟨hinv, rfl⟩

theorem Inv.safe (h : Inv S s) : s.Safe where
  pending_eq := h.pending_eq
  pending_le := h.pending_le
  decodes := h.decode.2
  tooLarge max minimum hneed hlt := by
    obtain ⟨hP, _, hdec⟩ := h.decode_eq max
    obtain ⟨_, _, hdec'⟩ := h.decode_eq s.buf.max
    rw [hdec] at hneed
    simp only [decodeBuf, hdec']
    cases hr : Staged.run (S.toStages.machine max) (setPending s.decoder 0) (s.buf.filled.drop (pending s.decoder)) with
    | need k d' =>
      rw [hr] at hneed
      cases hneed
      obtain ⟨d'', hfail⟩ := Staged.run_smaller (S.toStages.machine max) (S.toStages.machine s.buf.max) rfl rfl hr
        (show s.buf.max < k by omega)
      rw [hfail]
      rfl
    | emit n item l d' => rw [hr] at hneed; cases hneed
    | fail f l d' => rw [hr] at hneed; cases hneed
  consumes r rest hr := by
    obtain ⟨buf, hc, _⟩ := h.consume_ok hr
    exact ⟨_, buf, hc⟩
  returns op := (h.step op).2

theorem Inv.fresh {d : D} {buf : Buffer} (hw : buf.Wf) (hs : S.stage d = .salt) (hp : pending d = 0) :
    Inv S ⟨d, buf, []⟩ where
  wf := hw
  valid b hb := by rw [hs] at hb; cases hb
  start _ := hp
  pending_eq := hp
  pending_le := by rw [hp]; exact Nat.zero_le _

/-- Along every run all calls return, and it ends in a safe state. -/
theorem Inv.run (h : Inv S s) (ops : List PeerOp) :
    ((machine D).run s ops).1.map Prod.fst = ops ∧ ((machine D).run s ops).2.Safe := by
  refine ⟨?_, ((machine D).run_invariant (Inv S) (fun s op h _ => (h.step op).1) ops h).safe⟩
  induction ops generalizing s with
  | nil => rfl
  | cons op ops ih =>
    obtain ⟨hinv, hret⟩ := h.step op
    rw [Runs.Machine.run_cons (M := machine D) hret]
    simp only [List.map_cons]
    exact congrArg _ (ih hinv)

end Peer

/-- A session of a fresh decoder on a buffer, whatever happens in it. -/
def SafeFrom {D : Type} [RecordDecoder D] (d : D) (buf : Buffer) (ops : List PeerOp) : Prop :=
  ((Peer.machine D).run ⟨d, buf, []⟩ ops).1.map Prod.fst = ops ∧ ((Peer.machine D).run ⟨d, buf, []⟩ ops).2.Safe

/-- **Decoders are index-safe against any peer.** Whatever a peer sends, whatever
the AEAD makes of it and however appends, decodes, key installs and consumes
follow on each other, every call returns and every state reached is safe. -/
theorem decoders_index_safe (C : Crypto) {buf : Buffer} (hw : buf.Wf) (ops : List PeerOp) :
    (∀ psk ne, SafeFrom (V4Decoder.new C psk ne) buf ops) ∧
      (∀ psk, SafeFrom (V6UnshapedDecoder.new C psk) buf ops) ∧
      ∀ psk : ProfiledPsk C, SafeFrom (V6ShapedDecoder.new psk) buf ops := by
  refine ⟨fun psk ne => ?_, fun psk => ?_, fun psk => ?_⟩
  · exact (Peer.Inv.fresh (S := V4Decoder.safeStages C) hw rfl rfl).run ops
  · exact (Peer.Inv.fresh (S := V6UnshapedDecoder.safeStages C) hw rfl rfl).run ops
  · exact (Peer.Inv.fresh (S := V6ShapedDecoder.safeStages C) hw rfl rfl).run ops

theorem decoders_index_safe_transparent :
    let psk : Psk := ⟨List.replicate pskMinLen 7, by decide⟩
    (Buffer.new 64).Wf ∧
      SafeFrom (V6UnshapedDecoder.new Crypto.transparent psk) (.new 64)
        [.append (List.replicate 48 0xff), .decode, .decode, .consume] := by
  intro psk
  have hw := Buffer.new_wf 64
  exact ⟨hw, (decoders_index_safe Crypto.transparent hw _).2.1 psk⟩

end Snell
