/-
The v4 wire format, apart from the code that writes and reads it, and the
decoder's side of it: a decoder in step with the sender reads each frame as
the one record it is.
-/
import Snell.V4Decode

namespace Snell

open V4 RecordDecoder

namespace V4

/-- Padding and ciphertext as they follow the header. -/
def swapped (ne : Endian) (padding cipher : Bytes) : Bytes :=
  (swapEvenIndices ne padding cipher).1 ++ (swapEvenIndices ne padding cipher).2

/-- `wire` is a record carrying `payload`, sealed from `nonce` on; `nonce'` is
the next unused one. The padding's bytes are the sender's choice. -/
inductive Frame (C : Crypto) (key : C.Key) (salt : Salt) :
    (first : Bool) → (nonce : Nonce) → (payload wire : Bytes) → (nonce' : Nonce) → Prop
  | zero (first : Bool) (nonce : Nonce) :
    Frame C key salt first nonce [] (saltOf salt first ++ C.sealed key nonce [] (plainHeader 0 0))
      nonce.increment
  | data (ne : Endian) (first : Bool) (nonce : Nonce) (padding payload : Bytes) (hne : payload ≠ [])
    (hl : payload.length ≤ maxPacketSize) (hp : padding.length ≤ maxPacketSize)
    (hf : first = false → padding = []) :
    Frame C key salt first nonce payload
      (saltOf salt first ++ C.sealed key nonce [] (plainHeader padding.length payload.length) ++
        swapped ne padding (C.sealed key nonce.increment [] payload))
      nonce.increment.increment

theorem length_saltOf (salt : Salt) (first : Bool) :
    (saltOf salt first).length = if first then saltLen else 0 := by
  cases first
  · rfl
  · exact salt.2

theorem length_swapped (ne : Endian) (padding cipher : Bytes) :
    (swapped ne padding cipher).length = padding.length + cipher.length := by
  obtain ⟨h₁, h₂⟩ := swapEvenIndices_length ne padding cipher
  rw [swapped, List.length_append, h₁, h₂]

/-- No record is longer than `V4_WIRE_CAP`. -/
theorem Frame.length_le {C : Crypto} {key : C.Key} {salt : Salt} {first : Bool} {nonce nonce' : Nonce}
    {payload wire : Bytes} (h : Frame C key salt first nonce payload wire nonce') : wire.length ≤ v4WireCap := by
  have hs : (saltOf salt first).length ≤ saltLen := by rw [length_saltOf]; split <;> simp
  cases h with
  | zero =>
    simp only [List.length_append, Crypto.length_sealed, length_plainHeader]
    simp only [saltLen, headerPlainLen, tagLen, v4WireCap, headerCipherLen, maxPacketSize] at *
    omega
  | data ne first nonce padding payload hne hl hp hf =>
    simp only [List.length_append, Crypto.length_sealed, length_plainHeader, length_swapped]
    simp only [saltLen, headerPlainLen, tagLen, v4WireCap, headerCipherLen, maxPacketSize] at *
    omega

end V4

namespace V4Decoder

variable {C : Crypto}

/-- The decoder is about to read a record sealed under `key` from `nonce`
on; before the first record it may or may not have the key yet. -/
structure Synced (key : C.Key) (salt : Salt) (first : Bool) (nonce : Nonce) (d : V4Decoder C) : Prop where
  nonce_eq : d.nonce = nonce
  includeSalt : d.includeSalt = first
  pending : d.pending = 0
  step : (d.step = .header ∧ d.aead = some key) ∨
    (d.step = .salt ∧ first = true ∧
      (d.aead = some key ∨ (d.aead = none ∧ C.derive d.psk.bytes salt = .ok key)))

theorem Synced.saltSpan {key : C.Key} {salt : Salt} {first : Bool} {nonce : Nonce} {d : V4Decoder C}
    (h : Synced key salt first nonce d) : d.saltSpan = (saltOf salt first).length := by
  rw [V4Decoder.saltSpan, h.includeSalt, length_saltOf]

theorem kdfSalt_append (salt : Salt) (rest : Bytes) : kdfSalt (salt.1 ++ rest) = .ok salt := by
  unfold kdfSalt
  rw [dif_pos (by simp [salt.2])]
  congr 1
  exact Subtype.ext (List.take_left' salt.2)

/-- Past the salt. -/
theorem run_salt {key : C.Key} {salt : Salt} {first : Bool} {nonce : Nonce} {d : V4Decoder C} {max : Nat}
    {rest : Bytes} (h : Synced key salt first nonce d) (hm : (saltOf salt first ++ rest).length ≤ max) :
    ∃ d', Synced key salt first nonce d' ∧ d'.step = .header ∧ d'.aead = some key ∧
      Staged.run ((stages C).machine max) d (saltOf salt first ++ rest) =
        Staged.run ((stages C).machine max) d' (saltOf salt first ++ rest) := by
  rcases h.step with ⟨hs, hk⟩ | ⟨hs, rfl, hk⟩
  · exact ⟨d, h, hs, hk, rfl⟩
  · have hlen : saltLen ≤ (salt.1 ++ rest).length := by simp [salt.2]
    refine ⟨{ d with aead := some key, step := .header },
      ⟨h.nonce_eq, h.includeSalt, h.pending, .inl ⟨rfl, rfl⟩⟩, rfl, rfl, ?_⟩
    change Staged.run _ d (salt.1 ++ rest) = Staged.run _ _ (salt.1 ++ rest)
    rcases hk with hk | ⟨hk, hd⟩
    · rw [Stages.run_keyed (S := stages C) (stage_eq_salt.2 hs) (by simp only [stages, hk, Option.isSome_some])
        (Nat.le_trans hlen hm) hlen, ← hk]
      rfl
    · exact Stages.run_derived (S := stages C) (stage_eq_salt.2 hs)
        (by simp only [stages, hk, Option.isSome_none]) (Nat.le_trans hlen hm) hlen
        (Stages.derived_eq (S := stages C) (kdfSalt_append salt rest) hd)

theorem readHeader_sealed (hC : C.Inverts) {key : C.Key} {d : V4Decoder C} (hk : d.aead = some key) {p l : Nat}
    (hp : p ≤ maxPacketSize) (hl : l ≤ maxPacketSize) (h0 : l = 0 → p = 0) :
    readHeader d (C.sealed key d.nonce [] (plainHeader p l)) =
      (.ok (⟨p, l⟩, p + (if l = 0 then 0 else l + tagLen)), { d with nonce := d.nonce.increment }) := by
  have hopen : openedHeader (plainHeader p l ++ (C.sealInPlace key d.nonce [] (plainHeader p l)).2.1) =
      plainHeader p l := List.take_left' (length_plainHeader p l)
  simp only [readHeader, hk, Crypto.aesOpen_sealed hC, hopen, parseV4PlainHeader_plainHeader hp hl,
    RecordHeader.bodyLenV4, bind, Except.bind]
  rw [if_neg (by rintro ⟨h, h'⟩; exact h' (h0 h))]
  rfl

theorem readBody_sealed (hC : C.Inverts) {key : C.Key} {d : V4Decoder C} (hk : d.aead = some key) (ne : Endian)
    (padding payload : Bytes) :
    ∃ tag : Bytes, tag.length = tagLen ∧
      readBody d ⟨padding.length, payload.length⟩ (swapped ne padding (C.sealed key d.nonce [] payload)) =
        (.ok (), { d with nonce := d.nonce.increment, includeSalt := false, step := .header },
          padding ++ (payload ++ tag)) := by
  obtain ⟨hl, _⟩ := swapEvenIndices_length ne padding (C.sealed key d.nonce [] payload)
  refine ⟨(C.sealInPlace key d.nonce [] payload).2.1, (C.sealInPlace key d.nonce [] payload).2.2, ?_⟩
  simp only [readBody]
  rw [if_neg (by rw [length_swapped]; omega), swapped, List.take_left' hl, List.drop_left' hl,
    swapEvenIndices_undo]
  simp only [hk, Crypto.aesOpen_sealed hC]

/-- **A decoder in step reads a frame as its record**, and is in step with
what follows. -/
theorem run_frame (hC : C.Inverts) {key : C.Key} {salt : Salt} {first : Bool} {nonce nonce' : Nonce}
    {d : V4Decoder C} {max : Nat} {payload wire : Bytes} (hd : Synced key salt first nonce d)
    (hf : Frame C key salt first nonce payload wire nonce') (hm : wire.length ≤ max) :
    ∃ item wire' d', Staged.run ((stages C).machine max) d wire = .emit wire.length item wire' d' ∧
      item.Shows wire' payload ∧ Synced key salt false nonce' d' := by
  cases hf with
  | zero =>
    obtain ⟨d₁, hd₁, hs, hk, hrun⟩ := run_salt hd hm
    have hn : (stages C).headerEnd d₁ = (saltOf salt first ++ C.sealed key nonce [] (plainHeader 0 0)).length := by
      simp only [stages, hd₁.saltSpan, List.length_append, Crypto.length_sealed, length_plainHeader,
        headerCipherLen]
    have hread := readHeader_sealed hC hk (p := 0) (l := 0) (Nat.zero_le _) (Nat.zero_le _) fun _ => rfl
    rw [hd₁.nonce_eq] at hread
    rw [hrun, Stages.run_zeroChunk (stage_eq_header.2 hs) hn hm
      (e := { d₁ with nonce := nonce.increment, includeSalt := false })
      (by simp only [stages, stageHeader, hd₁.saltSpan, List.drop_left, hread, Nat.zero_add, ↓reduceIte])]
    exact ⟨_, _, _, rfl, rfl, rfl, rfl, hd₁.pending, .inl ⟨hs, hk⟩⟩
  | data ne _ _ padding _ hne hl hp hfst =>
    have hpay : payload.length ≠ 0 := by simpa using hne
    rw [List.append_assoc] at hm ⊢
    obtain ⟨d₁, hd₁, hs, hk, hrun⟩ := run_salt hd hm
    rw [hrun, ← List.append_assoc]
    rw [← List.append_assoc] at hm
    have hspan := hd₁.saltSpan
    let d₂ : V4Decoder C := { d₁ with
      nonce := nonce.increment
      step := .body ⟨padding.length, payload.length⟩ (padding.length + (payload.length + tagLen)) }
    have hlen : (saltOf salt first ++ C.sealed key nonce [] (plainHeader padding.length payload.length)).length =
        d₂.saltSpan + headerCipherLen := by
      simp only [List.length_append, Crypto.length_sealed, length_plainHeader, headerCipherLen, ← hspan]; rfl
    have hread := readHeader_sealed hC hk hp hl fun h => absurd h hpay
    rw [hd₁.nonce_eq, if_neg hpay] at hread
    obtain ⟨tag, htag, hbody⟩ := readBody_sealed hC (d := d₂) hk ne padding payload
    change readBody d₂ _ (swapped ne padding (C.sealed key nonce.increment [] payload)) = _ at hbody
    rw [Stages.run_body (S := stages C) (stage_eq_header.2 hs) hlen.symm hm (e := d₂)
      (b := (⟨padding.length, payload.length⟩, padding.length + (payload.length + tagLen)))
      (by simp only [stages, stageHeader, hspan, List.drop_left, hread]; rw [if_neg (by omega)])
      (by rw [List.length_append, hlen, length_swapped, Crypto.length_sealed]; rfl)
      (by simp only [stages, stageBody, List.drop_left' hlen, List.take_left' hlen, hbody]; rfl)]
    refine ⟨_, _, _, rfl, ⟨hne, by omega, ?_, ?_⟩, rfl, rfl, hd₁.pending, .inl ⟨rfl, hk⟩⟩
    · simp only [List.length_append, ← hlen]; omega
    · rw [← hlen, ← List.append_assoc, Nat.add_sub_cancel_left,
        List.drop_left' (by simp only [List.length_append]), List.take_left]

end V4Decoder

end Snell
