/-
What the three encoders seal: each record's header, against the record's
prefix in the shaped codec, and its payload, against the padding there.
-/
import Snell.SealedRecords
import Snell.V4Encode
import Snell.UnshapedEncode
import Snell.ShapedEncode

namespace Snell

open RecordEncoder EncoderSpec

/-! ## Unshaped -/

namespace V6UnshapedEncoder

variable {C : Crypto} {enc : V6UnshapedEncoder C}

theorem image_allowed {enc' : V6UnshapedEncoder C} {payload : Bytes} {env : SealEnv} {x : Nat × Bytes}
    (h : image enc payload env = (.ok x, enc')) :
    env.headerRefused = false ∧ (payload ≠ [] → env.bodyRefused = false) := by
  obtain ⟨_, h, -⟩ := finished_ok h
  unfold sealImage at h
  split at h
  · cases h
  next hh =>
  refine ⟨by simpa using hh, fun hne => ?_⟩
  rw [if_neg hne] at h
  split at h
  · cases h
  next hb => simpa using hb

instance : SealLog C (V6UnshapedEncoder C) where
  key := aead
  sealing _ _ := sealing
  sealing_payload _ _ _ := rfl
  finish_log hl hh _ hc hm env := (sealRecord_seals hl hh hc hm env).2
  image_allowed := image_allowed

/-- What the codec makes of a record. -/
structure Head (r : SealedRecord) : Prop where
  headerAad : r.headerAad = []
  bodyAad : r.bodyAad = []
  padding : r.padding = 0
  length_le : r.payload.length ≤ maxPacketSizeV6

theorem sealsInOrder (key : C.Key) (salt : Salt) :
    SealsInOrder C (V6UnshapedEncoder C) key (fun i k => (⟨key, salt, i == 0, .nth k⟩ : V6Unshaped.Pos C))
      (fun _ => Head) (fun _ _ _ _ => True) where
  keyed h := by
    obtain ⟨hkey, -, -, hnonce⟩ := (V6Unshaped.Pos.mk.injEq ..).mp h
    exact ⟨hkey, hnonce⟩
  head _ _ hplan hlen := by
    obtain ⟨-, -, hmax⟩ := plan_ok hplan
    exact ⟨rfl, rfl, rfl, Nat.le_trans hlen hmax⟩
  whole _ _ _ _ := trivial
  failed _ _ _ _ _ := trivial
  frame h := by
    obtain ⟨nonce', hframe, rfl⟩ := h
    cases hframe with
    | zero => rw [Nonce.nth_increment]; rfl
    | data _ hne => rw [Nonce.nth_increment, Nonce.nth_increment, sealCount, if_neg hne]; rfl

end V6UnshapedEncoder

/-! ## v4 -/

namespace V4Encoder

open V4

variable {C : Crypto} {ε : Type} [Entropy ε] {enc : V4Encoder C ε} {p : Plan}

theorem image_allowed {enc' : V4Encoder C ε} {payload : Bytes} {env : SealEnv} {x : Nat × Bytes}
    (h : image enc p payload env = (.ok x, enc')) :
    env.headerRefused = false ∧ (payload ≠ [] → env.bodyRefused = false) := by
  obtain ⟨_, h, -⟩ := finished_ok h
  unfold sealImage at h
  split at h
  · cases h
  next hh =>
  refine ⟨by simpa using hh, fun hne => ?_⟩
  rw [if_neg hne] at h
  split at h
  · cases h
  next hb => simpa using hb

instance : SealLog C (V4Encoder C ε) where
  key := aead
  sealing := sealing
  sealing_payload _ _ _ := rfl
  finish_log hl hh _ hc hm env := (sealRecord_seals hl hh hc hm env).2
  image_allowed := image_allowed

/-- What the codec makes of a record. -/
structure Head (r : SealedRecord) : Prop where
  headerAad : r.headerAad = []
  bodyAad : r.bodyAad = []
  padding_le : r.padding ≤ maxPacketSize
  length_le : r.payload.length ≤ maxPacketSize
  unpadded : r.payload = [] → r.padding = 0

theorem sealsInOrder (key : C.Key) (salt : Salt) :
    SealsInOrder C (V4Encoder C ε) key (fun i k => (⟨key, salt, i == 0, .nth k⟩ : V4.Pos C)) (fun _ => Head)
      (fun _ _ _ _ => True) where
  keyed h := by
    obtain ⟨hkey, -, -, hnonce⟩ := (V4.Pos.mk.injEq ..).mp h
    exact ⟨hkey, hnonce⟩
  whole _ _ _ _ := trivial
  failed _ _ _ _ _ := trivial
  head {enc _ _ _ _ size now _ payload} hv _ hplan hlen := by
    obtain ⟨rfl, -, -, hmax, -⟩ := plan_ok hplan
    refine ⟨rfl, rfl, ?_, Nat.le_trans hlen (Nat.le_trans hmax (limitFor_le hv size now)), fun hnil => if_pos hnil⟩
    change paddingOf _ _ payload ≤ _
    unfold paddingOf
    split
    · exact Nat.zero_le _
    · exact paddingFor_le (hv.set .reserving) _
  frame h := by
    obtain ⟨nonce', hframe, rfl⟩ := h
    cases hframe with
    | zero => rw [Nonce.nth_increment]; rfl
    | data _ _ _ _ _ hne => rw [Nonce.nth_increment, Nonce.nth_increment, sealCount, if_neg hne]; rfl

end V4Encoder

/-! ## Shaped -/

namespace V6ShapedEncoder

open V6Shaped (recordPrefix)

variable {C : Crypto} {enc : V6ShapedEncoder C}

theorem image_allowed {enc' : V6ShapedEncoder C} {payload : Bytes} {env : SealEnv} {x : Nat × Bytes}
    (h : image enc payload env = (.ok x, enc')) :
    env.headerRefused = false ∧ (payload ≠ [] → env.bodyRefused = false) := by
  obtain ⟨_, h, -⟩ := finished_ok h
  unfold sealImage at h
  split at h
  · cases h
  next hh =>
  refine ⟨by simpa using hh, fun hne => ?_⟩
  unfold restImage at h
  rw [if_neg hne] at h
  split at h
  · cases h
  next hb => simpa using hb

theorem sealPadded_log {slot : Slot} {record : ShapedRecord} {p : Plan} {live head pfx content : Bytes} {b : Buffer}
    (hl : Laid enc p record) (hh : Held slot p.room live head p.fixed pfx content b) {len : Nat}
    (hc : len ≤ (pfx ++ content).length) (hm : len ≤ slot.maxPayload) (env : SealEnv) :
    (sealPadded enc b slot record len env).log =
      (sealing enc (enc.paddingOf ((pfx ++ content).take len).length) ((pfx ++ content).take len)).sealsIn C enc.aead
        enc.nonce env := by
  have hlen : ((pfx ++ content).take len).length = len := by rw [List.length_take]; omega
  rw [hlen, paddingOf, ← hl.record_eq]
  exact (sealRecord_seals hl hh hc hm (enc.profile.finalPaddingLen_le _ _ _ _) env).2

instance : SealLog C (V6ShapedEncoder C) where
  key := aead
  sealing enc _ payload := sealing enc (enc.paddingOf payload.length) payload
  sealing_payload _ _ _ := rfl
  finish_log hl hh _ hc hm env := sealPadded_log hl hh hc hm env
  image_allowed := image_allowed

/-- What the codec makes of record `i`. -/
structure Head (profile : Profile) (i : Nat) (r : SealedRecord) : Prop where
  headerAad : r.headerAad = recordPrefix profile (.ofNat i)
  bodyAad : r.bodyAad = profile.fillOfficial (.ofNat i) r.padding
  padding_le : r.padding ≤ profile.maxPaddingLen
  length_le : r.payload.length ≤ maxPacketSizeV6

/-- The bytes of record `i`, sealed from nonce `k` on. -/
def Whole (profile : Profile) (key : C.Key) (salt : Salt) (i k : Nat) (r : SealedRecord) (wire : Option Bytes) : Prop :=
  r.payload ≠ [] → ∃ block, V6Shaped.LeadingBlock profile salt (i == 0) block ∧
    wire = some (block ++ (V6Shaped.head C profile key (.nth k) (.ofNat i) r.padding r.payload.length ++
      V6Shaped.body C profile key (.nth (k + 1)) (.ofNat i) r.padding r.payload))

theorem image_whole {enc' : V6ShapedEncoder C} {payload bytes : Bytes} {env : SealEnv} {split : Nat} (hne : payload ≠ [])
    (h : image enc payload env = (.ok (split, bytes), enc')) :
    rotate split bytes = enc.leadingBlock ++
      (V6Shaped.head C enc.profile enc.aead enc.nonce enc.seq (enc.paddingOf payload.length) payload.length ++
        V6Shaped.body C enc.profile enc.aead enc.nonce.increment enc.seq (enc.paddingOf payload.length) payload) := by
  obtain ⟨_, h, -⟩ := finished_ok h
  unfold sealImage at h
  split at h
  · cases h
  unfold restImage at h
  rw [if_neg hne] at h
  split at h
  · cases h
  obtain ⟨-, hm₂⟩ := enc.profile.mix_length enc.seq (enc.profile.fillOfficial enc.seq (enc.paddingOf payload.length))
    (C.sealed enc.aead enc.nonce.increment (enc.profile.fillOfficial enc.seq (enc.paddingOf payload.length)) payload)
  rw [Crypto.length_sealed] at hm₂
  cases h
  refine (rotate_append hm₂).trans ?_
  simp only [V6Shaped.body, List.append_assoc]
  rfl

theorem sealsInOrder (profile : Profile) (key : C.Key) (salt : Salt) :
    SealsInOrder C (V6ShapedEncoder C) key
      (fun i k => (⟨profile, key, salt, i == 0, .nth k, .ofNat i⟩ : V6Shaped.Pos C)) (Head profile)
      (Whole profile key salt) where
  keyed h := by
    obtain ⟨-, hkey, -, -, hnonce, -⟩ := (V6Shaped.Pos.mk.injEq ..).mp h
    exact ⟨hkey, hnonce⟩
  head {enc _ _ _ _ size now _ payload} _ hp hplan hlen := by
    obtain ⟨rfl, -, -, hmax⟩ := plan_ok hplan
    obtain ⟨chunkSize, hchunk⟩ := (enc.limitFor_spec size now).2
    obtain ⟨hprofile, -, -, -, -, hseq⟩ := (V6Shaped.Pos.mk.injEq ..).mp hp
    subst hprofile
    rw [hchunk]
    refine ⟨?_, ?_, enc.profile.finalPaddingLen_le _ _ _ _, Nat.le_trans hlen hmax⟩ <;> rw [← hseq] <;> rfl
  whole {enc _ _ _ _ _ size now _ payload _ _ _} _ hp hplan hi hne := by
    obtain ⟨rfl, -, -, -⟩ := plan_ok hplan
    obtain ⟨chunkSize, hchunk⟩ := (enc.limitFor_spec size now).2
    obtain ⟨rfl, rfl, rfl, hfirst, hnonce, hseq⟩ := (V6Shaped.Pos.mk.injEq ..).mp hp
    rw [hchunk] at hi ⊢
    rw [image_whole hne hi, ← Nonce.nth_increment, ← hseq, ← hnonce, ← hfirst]
    exact ⟨_, leadingBlock_spec _, rfl⟩
  failed _ _ _ hi hall := by
    intro hne
    obtain ⟨hh, hb⟩ := SealedRecord.sealsIn_whole C _ _ _ hall
    rcases (image_fails hi).2 with hr | hr
    · rw [hh] at hr; cases hr
    · rw [hb hne] at hr; cases hr
  frame h := by
    obtain ⟨nonce', hframe, rfl⟩ := h
    simp only [UInt32.ofNat_add]
    cases hframe with
    | zero => rw [Nonce.nth_increment]; rfl
    | data _ _ _ _ _ hne => rw [Nonce.nth_increment, Nonce.nth_increment, sealCount, if_neg hne]; rfl

end V6ShapedEncoder

end Snell
