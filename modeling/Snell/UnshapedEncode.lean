/-
The v6 unshaped encoder keeps the encoder contract.
-/
import Snell.LawfulEncoder
import Snell.RecordSeals
import Snell.UnshapedDecode

namespace Snell

open RecordEncoder
open V4 (saltOf)

namespace V6Unshaped

/-- Where an unshaped sender is. -/
structure Pos (C : Crypto) where
  key : C.Key
  salt : Salt
  first : Bool
  nonce : Nonce

/-- The frame of `V6Unshaped.Frame`, from position to position. -/
def Pos.Frame {C : Crypto} (p : Pos C) (payload wire : Bytes) (p' : Pos C) : Prop :=
  ∃ nonce', V6Unshaped.Frame C p.key p.salt p.first p.nonce payload wire nonce' ∧
    p' = { p with first := false, nonce := nonce' }

end V6Unshaped

namespace V6UnshapedEncoder

variable {C : Crypto}

def pos (enc : V6UnshapedEncoder C) : V6Unshaped.Pos C := ⟨enc.aead, enc.salt, !enc.saltSent, enc.nonce⟩

theorem withSalt_ok {psk : Psk} {salt : Salt} {enc : V6UnshapedEncoder C} (h : withSalt psk salt = .ok enc) :
    enc.state = .ready ∧ enc.pos = ⟨enc.aead, salt, true, Nonce.new⟩ ∧ C.derive psk.bytes salt = .ok enc.aead := by
  simp only [withSalt, bind, Except.bind] at h
  split at h
  · cases h
  · next key hk => cases h; exact ⟨rfl, rfl, hk⟩

theorem limitFor_le (size : RecordSize) : limitFor size ≤ maxPacketSizeV6 := by
  cases size with
  | stream hint => exact show maxPacketSize ≤ maxPacketSizeV6 by decide
  | datagram len => exact Nat.le_refl _

/-! ## What it does, its buffer apart -/

/-- What `reserve` decides. -/
def plan (enc : V6UnshapedEncoder C) (prefixLen : Nat) (size : RecordSize) (now : Nat) :
    Res Plan × V6UnshapedEncoder C :=
  (planWith enc.state (limitFor size) enc.leadingSalt (fun _ => enc.leadingSalt.length + headerCipherLen)
    (fun _ => tagLen) prefixLen size now, enc)

/-- What `seal_record` makes of a payload. -/
def sealImage (enc : V6UnshapedEncoder C) (payload : Bytes) (env : SealEnv) :
    Res (Nat × Bytes) × V6UnshapedEncoder C :=
  let header := C.sealed enc.aead enc.nonce [] (plainHeader 0 payload.length)
  let nonce := enc.nonce.increment
  if env.headerRefused then (.error (.err .aead), enc)
  else if payload = [] then (.ok (0, enc.leadingSalt ++ header), { enc with nonce })
  else if env.bodyRefused then (.error (.err .aead), { enc with nonce })
  else
    (.ok (0, enc.leadingSalt ++ (header ++ C.sealed enc.aead nonce [] payload)), { enc with nonce := nonce.increment })

/-- What `finish` makes of it. -/
def image (enc : V6UnshapedEncoder C) (payload : Bytes) (env : SealEnv) : Res (Nat × Bytes) × V6UnshapedEncoder C :=
  finished nonce (fun enc state => { enc with state }) (fun enc => { enc with saltSent := true }) enc
    (sealImage enc payload env)

/-- The record of a plan. -/
structure Laid (enc : V6UnshapedEncoder C) (p : Plan) : Prop where
  room : p.room = tagLen
  fixed : p.fixed = enc.leadingSalt ++ List.replicate headerCipherLen 0

theorem plan_ok {enc enc' : V6UnshapedEncoder C} {n now : Nat} {size : RecordSize} {p : Plan}
    (h : plan enc n size now = (.ok p, enc')) : enc' = enc ∧ Laid enc p ∧ p.maxPayload ≤ maxPacketSizeV6 := by
  obtain ⟨hp, rfl⟩ := Prod.mk.inj h
  obtain ⟨_, hpl, _, hfixed, hroom⟩ := planWith_ok hp
  rw [Nat.add_sub_cancel_left] at hfixed
  exact ⟨rfl, ⟨hroom, hfixed⟩, Nat.le_trans (RecordSize.payloadLen_le hpl).2 (limitFor_le size)⟩

theorem reserve_spec (enc : V6UnshapedEncoder C) (b : Buffer) (hw : b.Wf) (pfx : Bytes) (size : RecordSize) (now : Nat) :
    Reserves (fun enc p _ _ => Laid enc p) b hw pfx (plan enc pfx.length size now) (reserve enc b pfx size now) := by
  have h := reserveWith_reserved enc.state (limitFor size) enc.leadingSalt
    (fun _ => enc.leadingSalt.length + headerCipherLen) (fun _ => tagLen) hw (fun _ => Nat.le_add_right _ _) pfx size now
  rcases hplan : plan enc pfx.length size now with ⟨r, enc'⟩
  obtain ⟨hp, rfl⟩ := Prod.mk.inj hplan
  rw [hp] at h
  simp only [reserve]
  generalize reserveWith _ _ _ _ _ _ _ _ = result at h
  cases h with
  | unplanned => exact .unplanned
  | refused hr => exact .refused hr
  | held hr hm hh hk =>
    obtain ⟨_, hl, _⟩ := plan_ok hplan
    exact .held hr hm hh hk ⟨hl.room, hl.fixed⟩

/-! ## Sealing -/

section Seal

variable {enc : V6UnshapedEncoder C} {slot : Slot} {p : Plan} {live head pfx content : Bytes} {b : Buffer}

/-- The buffer with the record's end set, split behind the header. -/
theorem setRecordEnd_shape (hl : Laid enc p) (hh : Held slot p.room live head p.fixed pfx content b)
    {len : Nat} (hc : len ≤ (pfx ++ content).length) (hm : len ≤ slot.maxPayload) :
    let recordEnd := if len = 0 then slot.payloadStart else slot.payloadStart + len + tagLen
    ∃ spare z, b.setRecordEnd recordEnd =
        .ok { b with storage := (head ++ enc.leadingSalt) ++ (List.replicate headerCipherLen 0 ++ z), spare } ∧
      recordEnd ≤ b.max ∧ recordEnd = slot.payloadStart + z.length ∧ recordEnd + spare.length = b.capacity ∧
      ((len = 0 ∧ z = []) ∨ (len ≠ 0 ∧ ∃ tail, tail.length = tagLen ∧ z = (pfx ++ content).take len ++ tail)) := by
  intro recordEnd
  have hmax := hh.max; have hroom := hl.room
  by_cases h0 : len = 0
  · have he : recordEnd = slot.payloadStart := if_pos h0
    obtain ⟨spare, hset, hspare⟩ := hh.setRecordEnd_payload hc
    subst h0
    refine ⟨spare, [], ?_, by omega, by rw [he]; rfl, by omega, .inl ⟨rfl, rfl⟩⟩
    rw [he, ← Nat.add_zero slot.payloadStart, hset, hl.fixed]
    simp only [List.append_assoc, List.append_nil, List.take_zero]
  · have he : recordEnd = slot.payloadStart + len + tagLen := if_neg h0
    obtain ⟨spare, tail, hset, ht, hspare⟩ := hh.setRecordEnd hc hm (by omega)
    refine ⟨spare, (pfx ++ content).take len ++ tail, ?_, by omega, ?_, by omega, .inr ⟨h0, tail, ht, rfl⟩⟩
    · rw [he, hset, hl.fixed]
      simp only [List.append_assoc]
    · rw [List.length_append, List.length_take, ht]; omega

/-- What is sealed for a payload. -/
def sealing (payload : Bytes) : SealedRecord := ⟨payload, 0, [], []⟩

/-- Sealing a payload whose tag's slot may hold anything. -/
theorem sealBody_eq (enc : V6UnshapedEncoder C) {b : Buffer} (x payload tail : Bytes)
    (hs : b.storage = x ++ (payload ++ tail)) (ht : tail.length = tagLen) (env : SealEnv) (recordEnd : Nat)
    (he : recordEnd = x.length + (payload.length + tagLen)) :
    (sealBody enc b x.length recordEnd env).run =
        (if env.bodyRefused then (.error (.err .aead), enc, b)
        else (.ok 0, { enc with nonce := enc.nonce.increment },
          { b with storage := x ++ C.sealed enc.aead enc.nonce [] payload })) ∧
      (sealBody enc b x.length recordEnd env).log =
        if env.bodyRefused then [] else [(sealing payload).body C enc.aead enc.nonce] := by
  have hrange : b.range x.length recordEnd = .ok (payload ++ tail) := by
    rw [he, ← ht, ← List.length_append]; exact Buffer.range_middle (z := []) (by rw [hs, List.append_nil])
  simp only [sealBody, hrange]
  cases env.bodyRefused with
  | true => exact ⟨Sealing.run_refused ht, Sealing.log_refused ht⟩
  | false =>
    refine ⟨(Sealing.run_sealed ht).trans ?_, Sealing.log_sealed ht⟩
    simp only [Sealing.run_done, Bool.false_eq_true, ↓reduceIte]
    rw [Buffer.writeAt_middle b (x := x) (y := payload ++ tail) (z := []) (by rw [hs, List.append_nil])
      (by rw [Crypto.length_sealed, List.length_append, ht]), List.append_nil]

theorem sealRecord_seals (hl : Laid enc p) (hh : Held slot p.room live head p.fixed pfx content b)
    {len : Nat} (hc : len ≤ (pfx ++ content).length) (hm : len ≤ slot.maxPayload) (env : SealEnv) :
    Seals head b.start b.max b.capacity (sealImage enc ((pfx ++ content).take len) env)
        (sealRecord enc b slot len env).run ∧
      (sealRecord enc b slot len env).log =
        (sealing ((pfx ++ content).take len)).sealsIn C enc.aead enc.nonce env := by
  obtain ⟨spare, z, hset, hmax, hend, hcap, hz⟩ := setRecordEnd_shape hl hh hc hm
  have hzero : (List.replicate headerCipherLen (0 : UInt8)).length = headerCipherLen := List.length_replicate
  have hps : slot.payloadStart = (head ++ enc.leadingSalt).length + headerCipherLen := by
    rw [hh.payloadStart, hl.fixed]; simp only [List.length_append, hzero]; omega
  have hpl : ((pfx ++ content).take len).length = len := by rw [List.length_take]; omega
  have hslot : ((List.replicate headerCipherLen (0 : UInt8)).drop headerPlainLen).length = tagLen := rfl
  -- whatever replaces the header's bytes and the rest, the record ends at its end
  have hstop : ∀ {y w : Bytes}, y.length = headerCipherLen → w.length = z.length →
      (head ++ (enc.leadingSalt ++ (y ++ w))).length =
        if len = 0 then slot.payloadStart else slot.payloadStart + len + tagLen := by
    intro y w hy hw
    rw [hend, hps]; simp only [List.length_append, hy, hw]; omega
  have hrange := Buffer.range_middle (b := { b with
    storage := (head ++ enc.leadingSalt) ++ (List.replicate headerCipherLen 0 ++ z), spare })
    (x := head ++ enc.leadingSalt) rfl
  rw [hzero, ← hps] at hrange
  have hwrite : ∀ {w : Bytes}, w.length = headerCipherLen →
      Buffer.writeAt { b with
        storage := (head ++ enc.leadingSalt) ++ (List.replicate headerCipherLen 0 ++ z), spare }
        (head ++ enc.leadingSalt).length w = { b with storage := (head ++ enc.leadingSalt) ++ (w ++ z), spare } :=
    fun hw => Buffer.writeAt_middle _ rfl (hw.trans hzero.symm)
  have hsub : sub slot.payloadStart headerCipherLen = .ok (head ++ enc.leadingSalt).length := by
    rw [sub_ok (by omega), hps, Nat.add_sub_cancel]
  unfold sealRecord sealImage SealedRecord.sealsIn
  simp only [hsub, hset, hrange, bind, Except.bind, pure, Except.pure, hpl]
  cases env.headerRefused with
  | true =>
    simp only [Sealing.run_refused hslot, Sealing.log_refused hslot, Sealing.run_done, Sealing.log_done, ↓reduceIte]
    have hy : (plainHeader 0 len ++ (List.replicate headerCipherLen (0 : UInt8)).drop headerPlainLen).length =
        headerCipherLen := rfl
    rw [hwrite hy, List.append_assoc]
    have := hstop hy (w := z) rfl
    exact ⟨.error (by omega) (by omega), trivial⟩
  | false =>
    simp only [Sealing.run_sealed hslot, Sealing.log_sealed hslot, Bool.false_eq_true, ↓reduceIte]
    have hheader : (sealing ((pfx ++ content).take len)).header C enc.aead enc.nonce =
        ⟨enc.nonce, [], C.sealed enc.aead enc.nonce [] (plainHeader 0 len)⟩ := by
      simp only [SealedRecord.header, sealing, hpl]
    rw [hheader]
    have hy : (C.sealed enc.aead enc.nonce [] (plainHeader 0 len)).length = headerCipherLen := by
      rw [Crypto.length_sealed, length_plainHeader]; rfl
    rw [hwrite hy]
    rcases hz with ⟨rfl, rfl⟩ | ⟨h0, tail, ht, rfl⟩
    · simp only [Nat.lt_irrefl, ↓reduceIte, List.take_zero, Sealing.run_done, Sealing.log_done]
      have := hstop hy (w := []) rfl
      rw [List.append_nil] at this ⊢
      rw [List.append_assoc]
      exact ⟨.ok (by omega) (by omega), rfl⟩
    · have hne : (pfx ++ content).take len ≠ [] := by rw [← List.length_pos_iff, hpl]; omega
      simp only [if_neg h0, if_pos (Nat.pos_of_ne_zero h0), if_neg hne] at hstop hmax hcap ⊢
      have hx : slot.payloadStart =
          (head ++ enc.leadingSalt ++ C.sealed enc.aead enc.nonce [] (plainHeader 0 len)).length := by
        rw [List.length_append, hy, hps]
      have hbody := sealBody_eq { enc with nonce := enc.nonce.increment }
        (b := { b with
          storage := head ++ enc.leadingSalt ++ (C.sealed enc.aead enc.nonce [] (plainHeader 0 len) ++
            ((pfx ++ content).take len ++ tail))
          spare })
        (head ++ enc.leadingSalt ++ C.sealed enc.aead enc.nonce [] (plainHeader 0 len))
        ((pfx ++ content).take len) tail (by simp only [List.append_assoc]) ht env
        (slot.payloadStart + len + tagLen) (by rw [hpl, ← hx, Nat.add_assoc])
      rw [← hx] at hbody
      rw [hbody.1, hbody.2]
      refine ⟨?_, by simp only [sealing, hne, false_or]⟩
      split
      · rw [List.append_assoc]
        have := hstop hy (w := (pfx ++ content).take len ++ tail) rfl
        exact .error (by omega) (by omega)
      · rw [List.append_assoc, List.append_assoc]
        have := hstop hy (w := C.sealed enc.aead enc.nonce.increment [] ((pfx ++ content).take len))
          (by rw [Crypto.length_sealed, List.length_append, ht])
        exact .ok (by omega) (by simp only; omega)

end Seal

instance : EncoderSpec (V6UnshapedEncoder C) where
  plan := plan
  image enc _ := image enc
  Laid enc p _ _ := Laid enc p
  state_set _ _ := rfl
  set_set _ _ _ := rfl
  set_state _ := rfl
  plan_blocked _ _ _ h := Prod.ext (planWith_blocked h) rfl
  plan_state _ _ _ _ := rfl
  plan_error h := planWith_error (Prod.mk.inj h).1
  plan_prefix h := planWith_prefix (Prod.mk.inj h).1
  reserve_spec := reserve_spec
  finish_spec hl hh _ hc hm env := finishWith_finished hh (sealRecord_seals hl hh hc hm env).1
  image_ok h := by obtain ⟨_, _, rfl⟩ := finished_ok h; rfl
  image_error h := by obtain ⟨_, _, rfl⟩ := finished_error h; exact EncoderState.afterSeal_ne _
  image_size hplan₁ hplan₂ _ _ _ _ := by
    obtain ⟨rfl, _⟩ := plan_ok hplan₁
    obtain ⟨rfl, _⟩ := plan_ok hplan₂
    rfl

/-! ## What it sends -/

/-- A sealed record is a frame from the encoder's position, and moves the nonce
on. -/
theorem sealImage_frame {enc enc' : V6UnshapedEncoder C} {payload record : Bytes} {env : SealEnv} {split : Nat}
    (hlen : payload.length ≤ maxPacketSizeV6) (h : sealImage enc payload env = (.ok (split, record), enc')) :
    split = 0 ∧ ∃ nonce, enc' = { enc with nonce } ∧
      V6Unshaped.Frame C enc.aead enc.salt (!enc.saltSent) enc.nonce payload record nonce := by
  unfold sealImage at h
  split at h
  · cases h
  · split at h
    · next hnil =>
      cases h
      subst hnil
      exact ⟨rfl, _, rfl, .zero _ _⟩
    · next hne =>
      split at h
      · cases h
      · cases h
        refine ⟨rfl, _, rfl, ?_⟩
        rw [← List.append_assoc]
        exact .data _ _ _ hne hlen

theorem sealImage_error {enc enc' : V6UnshapedEncoder C} {payload : Bytes} {env : SealEnv} {f : Fault}
    (h : sealImage enc payload env = (.error f, enc')) :
    (∃ nonce, enc' = { enc with nonce }) ∧ f = .err .aead ∧ (env.headerRefused ∨ env.bodyRefused) := by
  unfold sealImage at h
  split at h
  · next hr => cases h; exact ⟨⟨_, rfl⟩, rfl, .inl hr⟩
  · split at h
    · cases h
    · split at h
      · next hr => cases h; exact ⟨⟨_, rfl⟩, rfl, .inr hr⟩
      · cases h

theorem image_frame {enc enc' : V6UnshapedEncoder C} {payload record : Bytes} {env : SealEnv} {split : Nat}
    (hlen : payload.length ≤ maxPacketSizeV6) (h : image enc payload env = (.ok (split, record), enc')) :
    split ≤ record.length ∧ enc.pos.Frame payload (rotate split record) enc'.pos := by
  obtain ⟨enc₁, himage, rfl⟩ := finished_ok h
  obtain ⟨rfl, nonce, rfl, hframe⟩ := sealImage_frame hlen himage
  rw [rotate_zero]
  exact ⟨Nat.zero_le _, nonce, hframe, rfl⟩

theorem image_kept {enc enc' : V6UnshapedEncoder C} {payload : Bytes} {env : SealEnv} {err : Error}
    (h : image enc payload env = (.error (.err err), enc')) :
    (enc'.state = .ready ∧ enc'.pos = enc.pos) ∨ enc'.state = .poisoned := by
  obtain ⟨enc₁, himage, rfl⟩ := finished_error h
  obtain ⟨⟨nonce, rfl⟩, _⟩ := sealImage_error himage
  by_cases hn : nonce = enc.nonce
  · subst hn
    exact .inl ⟨by simp [EncoderState.afterSeal], rfl⟩
  · exact .inr (by simp [EncoderState.afterSeal, hn])

theorem image_fails {enc enc' : V6UnshapedEncoder C} {payload : Bytes} {env : SealEnv} {f : Fault}
    (h : image enc payload env = (.error f, enc')) :
    f = .err .aead ∧ (env.headerRefused ∨ env.bodyRefused) := by
  obtain ⟨_, himage⟩ := finished_fault h
  exact (sealImage_error himage).2

instance : LawfulEncoder (V6UnshapedEncoder C) where
  Pos := V6Unshaped.Pos C
  pos := pos
  Frame := V6Unshaped.Pos.Frame
  Valid _ := True
  pos_set _ _ := rfl
  valid_set _ _ _ := trivial
  plan_pos _ _ _ _ := rfl
  plan_valid _ _ _ _ _ := trivial
  image_frame _ hplan hlen h := by
    obtain ⟨rfl, _, hmax⟩ := plan_ok hplan
    have hframe := image_frame (Nat.le_trans hlen hmax) h
    exact ⟨trivial, hframe⟩
  image_kept _ hplan h := by
    obtain ⟨rfl, _⟩ := plan_ok hplan
    have hkept := image_kept h
    exact ⟨trivial, hkept⟩
  Fails _ env f := f = .err .aead ∧ (env.headerRefused ∨ env.bodyRefused)
  image_fails _ _ h := image_fails h

end V6UnshapedEncoder

end Snell
