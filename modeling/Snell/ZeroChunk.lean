/-
The zero chunk, a stream record of no bytes: how much room it needs in each
codec, and what queueing one behind other records comes to.
-/
import Snell.ReadRecord

namespace Snell

open RecordEncoder

/-! ## Room for it -/

open EncoderSpec LawfulEncoder in
/-- An encoder whose empty records fit a lease. -/
class ClosingEncoder (E : Type) [RecordEncoder E] [EncoderSpec E] [LawfulEncoder E] where
  plan_zero : ∀ {e : E} now, Valid e → state e = .ready →
    ∃ p e₁, plan e 0 (.stream 0) now = (.ok p, e₁) ∧ p.maxPayload = 0 ∧ p.total ≤ v6WireCap

theorem planWith_zero (limit : Nat) (salt : Bytes) (fixed room : Nat → Nat) (now : Nat) (hsalt : salt.length ≤ fixed 0) :
    ∃ p, planWith .ready limit salt fixed room 0 (.stream 0) now = .ok p ∧ p.maxPayload = 0 ∧
      p.total = fixed 0 + room 0 := by
  have hpl : RecordSize.payloadLen (.stream 0) 0 limit = .ok 0 := by
    rw [RecordSize.payloadLen, Nat.zero_add, if_pos (Nat.zero_le _), Nat.zero_min]
  refine ⟨_, by simp only [planWith, EncoderState.ensureReady, hpl, bind, Except.bind]; rfl, rfl, ?_⟩
  simp only [Plan.total, List.length_append, List.length_replicate]
  omega

theorem V4.length_saltOf_le (salt : Salt) (first : Bool) : (V4.saltOf salt first).length ≤ saltLen := by
  unfold V4.saltOf
  split
  · exact Nat.le_of_eq salt.2
  · exact Nat.zero_le _

instance {C : Crypto} {ε : Type} [Entropy ε] : ClosingEncoder (V4Encoder C ε) where
  plan_zero {enc} now hv hready := by
    obtain ⟨p, hp, hzero, htotal⟩ :=
      planWith_zero (enc.limitFor (.stream 0) now) enc.leadingSalt enc.fixedFor (fun _ => tagLen) now
        (enc.leadingSalt_le 0)
    have hpad := V4Encoder.paddingFor_le hv 0
    have hsalt : enc.leadingSalt.length ≤ saltLen := V4.length_saltOf_le _ _
    have hcap : saltLen + headerCipherLen + maxPacketSize + tagLen ≤ v6WireCap := by decide
    refine ⟨p, enc, Prod.ext ?_ rfl, hzero, by rw [htotal, V4Encoder.fixedFor]; omega⟩
    show planWith enc.state _ _ _ _ _ _ _ = _
    rw [show enc.state = .ready from hready]
    exact hp

instance {C : Crypto} : ClosingEncoder (V6UnshapedEncoder C) where
  plan_zero {enc} now _ hready := by
    obtain ⟨p, hp, hzero, htotal⟩ := planWith_zero (V6UnshapedEncoder.limitFor (.stream 0)) enc.leadingSalt
      (fun _ => enc.leadingSalt.length + headerCipherLen) (fun _ => tagLen) now (Nat.le_add_right _ _)
    have hsalt : enc.leadingSalt.length ≤ saltLen := V4.length_saltOf_le _ _
    have hcap : saltLen + headerCipherLen + tagLen ≤ v6WireCap := by decide
    refine ⟨p, enc, Prod.ext ?_ rfl, hzero, by rw [htotal]; omega⟩
    show planWith enc.state _ _ _ _ _ _ _ = _
    rw [show enc.state = .ready from hready]
    exact hp

instance {C : Crypto} : ClosingEncoder (V6ShapedEncoder C) where
  plan_zero {enc} now _ hready := by
    let enc₁ : V6ShapedEncoder C := { enc with chunkSize := enc.chunkSizeAt now }
    obtain ⟨p, hp, hzero, htotal⟩ :=
      planWith_zero enc₁.payloadBudget [] (fun _ => 0) (fun _ => enc₁.roomFor) now (Nat.le_refl _)
    have hroom := enc₁.roomFor_le
    refine ⟨p, enc₁, ?_, hzero, by rw [htotal]; omega⟩
    refine (enc.plan_stream hready 0 0 now).trans (Prod.ext ?_ rfl)
    rw [show enc.state = .ready from hready]
    exact hp

/-! ## Queueing it -/

section Close

variable {E : Type} [RecordEncoder E] [EncoderSpec E] [LawfulEncoder E] [DatagramEncoder E] [StreamEncoder E]
  [ClosingEncoder E]

open EncoderSpec LawfulEncoder DatagramEncoder StreamEncoder ClosingEncoder

/-- What sealing a zero chunk comes to: it is behind the records that were
there, or there is no room behind them. -/
inductive Closes (e : E) (sealing : Nat → SealEnv) (encode : PooledBuffer) :
    SessionRes (Nat × Nat) × E × PooledBuffer → Prop
  | sealed {e' : E} {b' : Buffer} {record : Bytes} {split : Nat} : Sustains e' sealing → split ≤ record.length →
      Frame (pos e) [] (rotate split record) (pos e') → b'.filled = encode.buffer.filled ++ record →
      Buffer.Kept encode.buffer b' → Closes e sealing encode (.ok (0, split), e', { encode with buffer := b' })
  | full {e' : E} : encode.buffer.filled ≠ [] → Untouched e e' sealing encode.buffer encode.buffer →
      Closes e sealing encode (.error (.err (.protocol .payloadTooLarge)), e', encode)

variable {e : E} {sealing : Nat → SealEnv} {encode : PooledBuffer}

theorem encodeRecord_closes (h : Sustains e sealing) (hw : encode.buffer.Wf) (hmax : encode.buffer.max = v6WireCap)
    (hcap : v6WireCap ≤ encode.buffer.capacity) (clock : Nat → Nat) (i : Nat) :
    Closes e sealing encode
      (encodeRecord encodeTurns e encode (.stream 0) clock (sealing i) fun slot => .ok (0, slot)) := by
  obtain ⟨p, e₁, hplan, hzero, htotal⟩ := plan_zero (clock 0) h.valid h.ready
  have hplanned := h.plan (.stream 0) (clock 0)
  have hpos₁ := plan_pos e 0 (.stream 0) (clock 0)
  rw [hplan] at hplanned hpos₁
  cases hr : (encode.buffer.queue hw).refusal p.total with
  | none =>
    obtain ⟨⟨split, record⟩, e', himage⟩ := stream_serves [] (h.serves i) hplan
    obtain ⟨hstreams, hsplit, hframe⟩ := h.sealed hplan (Nat.zero_le _) himage
    have hturn := @encodeRecord_turn E _ _ e e₁ (.stream 0) encode (fun slot => .ok (0, slot))
      (v6WireCap + 1) (sealing i) p
      [] clock hw hplan hr (by rw [hzero]; rfl) (by rw [hzero]; rfl)
    rw [himage] at hturn
    unfold encodeTurns
    generalize encodeRecord (v6WireCap + 2) e encode (.stream 0) clock (sealing i) (fun slot => .ok (0, slot)) = result
      at hturn
    cases hturn with
    | sealed hf hk =>
      rw [hzero]
      exact .sealed hstreams hsplit hframe hf hk
  | some r =>
    have hres := reserve_spec e encode.buffer hw [] (.stream 0) (clock 0)
    rw [List.length_nil, hplan] at hres
    unfold encodeTurns encodeRecord
    generalize reserve e encode.buffer [] (.stream 0) (clock 0) = result at hres
    cases hres with
    | held hroom => rw [hr] at hroom; cases hroom
    | @refused _ _ r' hr' =>
      cases r' with
      | overCapacity =>
        obtain ⟨hlimit, hover⟩ := BoundedQueue.refusal_eq_overCapacity.mp hr'
        have h₁ : (encode.buffer.queue hw).length + p.total ≤ encode.buffer.max := hlimit
        have h₂ : encode.buffer.capacity < (encode.buffer.queue hw).length + p.total := hover
        omega
      | overLimit =>
        have hover : encode.buffer.max < (encode.buffer.queue hw).length + p.total :=
          BoundedQueue.refusal_eq_overLimit.mp hr'
        refine .full (fun hnil => ?_) ⟨hplanned, hpos₁, rfl, .refl hw⟩
        rw [Buffer.queue_length, ← Buffer.filled_length, hnil, List.length_nil] at hover
        omega

end Close

end Snell
