/-
Datagrams through each encoder: how long they may be and how much is reserved
for them, and the UDP request a datagram is written as.
-/
import Snell.SessionWriteFacts
import Snell.V4Encode
import Snell.UnshapedEncode
import Snell.ShapedEncode

namespace Snell

open RecordEncoder

/-! ## The encoders -/

section Plan

variable {state : EncoderState} {limit len : Nat} (salt : Bytes) (fixed room : Nat → Nat)

theorem planWith_datagram (now : Nat) (hs : state = .ready) (hlen : len ≤ limit) (hsalt : salt.length ≤ fixed len) :
    ∃ p, planWith state limit salt fixed room 0 (.datagram len) now = .ok p ∧ p.maxPayload = len ∧
      p.total = fixed len + len + room len := by
  subst hs
  have hpl : RecordSize.payloadLen (.datagram len) 0 limit = .ok len := by
    rw [RecordSize.payloadLen, Nat.zero_add, if_pos hlen]
  refine ⟨_, by simp only [planWith, EncoderState.ensureReady, hpl, bind, Except.bind]; rfl, rfl, ?_⟩
  simp only [Plan.total, List.length_append, List.length_replicate]
  omega

theorem planWith_tooLarge (now : Nat) (hs : state = .ready) (hlen : limit < len) :
    planWith state limit salt fixed room 0 (.datagram len) now = .error (.err .payloadTooLarge) := by
  subst hs
  have hpl : RecordSize.payloadLen (.datagram len) 0 limit = .error (.err .payloadTooLarge) := by
    rw [RecordSize.payloadLen, Nat.zero_add, if_neg (by omega)]
  simp only [planWith, EncoderState.ensureReady, hpl, bind, Except.bind]

end Plan

/-- `ring` refuses neither the header nor the body. -/
def SealEnv.AeadServes (env : SealEnv) : Prop := env.headerRefused = false ∧ env.bodyRefused = false

theorem SealEnv.AeadServes.not_refused {env : SealEnv} (h : env.AeadServes) :
    ¬ (env.headerRefused = true ∨ env.bodyRefused = true) := by
  rw [h.1, h.2]; simp

namespace V4Encoder

variable {C : Crypto} {ε : Type} [Entropy ε]

/-- The padding that is due gets filled: the source delivers, and the bits
that are drawn are soon in range. -/
def EntropyServes (enc : V4Encoder C ε) (env : SealEnv) : Prop :=
  ∀ n cipher, 0 < enc.paddingFor n →
    ∃ padding entropy, V4.fillV4Padding enc.ne env.fuel (enc.paddingFor n) cipher enc.entropy = (.ok padding, entropy)

theorem image_serves (enc : V4Encoder C ε) {env : SealEnv} (haead : env.AeadServes) (hentropy : enc.EntropyServes env)
    (p : Plan) (payload : Bytes) : ∃ r enc', image enc p payload env = (.ok r, enc') := by
  rcases hi : image enc p payload env with ⟨r, enc'⟩
  cases r with
  | ok r => exact ⟨r, enc', rfl⟩
  | error f =>
    obtain ⟨_, himage⟩ := finished_fault hi
    unfold sealImage at himage
    rw [haead.1, haead.2] at himage
    simp only [Bool.false_eq_true, ↓reduceIte] at himage
    split at himage
    · cases himage
    · next hne =>
      split at himage
      · next hpad =>
        simp only [paddingOf, if_neg hne, sealPadding] at hpad
        split at hpad
        · next hpos =>
          obtain ⟨padding, entropy, hfill⟩ := hentropy p.maxPayload (C.sealed enc.aead enc.nonce.increment [] payload) hpos
          rw [hfill] at hpad
          cases hpad
        · cases hpad
      · cases himage

instance : DatagramEncoder (V4Encoder C ε) where
  limit := maxPacketSize
  total enc len := enc.fixedFor len + len + tagLen
  plan_datagram {enc _} now hready hlen := by
    obtain ⟨p, hp, hm, ht⟩ := planWith_datagram _ enc.fixedFor (fun _ => tagLen) now hready hlen (enc.leadingSalt_le _)
    exact ⟨p, Prod.ext hp rfl, hm, ht⟩
  plan_tooLarge now hready hlen := Prod.ext (planWith_tooLarge _ _ _ now hready hlen) rfl
  Serves enc env := env.AeadServes ∧ enc.EntropyServes env
  image_serves {enc _ _ p payload _} _ hserves _ :=
    image_serves { enc with state := .reserving } hserves.1 hserves.2 p payload

end V4Encoder

namespace V6UnshapedEncoder

variable {C : Crypto}

instance : DatagramEncoder (V6UnshapedEncoder C) where
  limit := maxPacketSizeV6
  total enc len := enc.leadingSalt.length + headerCipherLen + len + tagLen
  plan_datagram {enc _} now hready hlen := by
    obtain ⟨p, hp, hm, ht⟩ := planWith_datagram enc.leadingSalt
      (fun _ => enc.leadingSalt.length + headerCipherLen) (fun _ => tagLen) now hready hlen (Nat.le_add_right _ _)
    exact ⟨p, Prod.ext hp rfl, hm, ht⟩
  plan_tooLarge now hready hlen := Prod.ext (planWith_tooLarge _ _ _ now hready hlen) rfl
  Serves _ env := env.AeadServes
  image_serves {enc _ _ p payload env} _ hserves _ := by
    rcases hi : image { enc with state := .reserving } payload env with ⟨r, enc'⟩
    cases r with
    | ok r => exact ⟨r, enc', hi⟩
    | error f => exact absurd (image_fails hi).2 hserves.not_refused

end V6UnshapedEncoder

namespace V6ShapedEncoder

variable {C : Crypto}

instance : DatagramEncoder (V6ShapedEncoder C) where
  limit := maxPacketSizeV6
  total enc len := 0 + len + enc.roomFor
  plan_datagram {enc len} now hready hlen := by
    obtain ⟨p, hp, hm, ht⟩ := planWith_datagram [] (fun _ => 0) (fun _ => enc.roomFor) now hready hlen (Nat.le_refl _)
    exact ⟨p, (enc.plan_datagram 0 len now).trans (Prod.ext hp rfl), hm, ht⟩
  plan_tooLarge {enc len} now hready hlen :=
    (enc.plan_datagram 0 len now).trans (Prod.ext (planWith_tooLarge _ _ _ now hready hlen) rfl)
  Serves _ env := env.AeadServes
  image_serves {enc _ _ p payload env} _ hserves _ := by
    rcases hi : image { enc with state := .reserving } payload env with ⟨r, enc'⟩
    cases r with
    | ok r => exact ⟨r, enc', hi⟩
    | error f => exact absurd (image_fails hi).2 hserves.not_refused

end V6ShapedEncoder

end Snell
