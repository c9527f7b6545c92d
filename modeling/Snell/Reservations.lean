/-
What a reservation does to the buffer it is made in, and what of the buffer
gets into the record: nothing but the record is left behind the live bytes,
and nothing of the memory it is built in is sent.
-/
import Snell.BufferQueue

namespace Snell

open RecordEncoder

section Generic

variable {E : Type} [RecordEncoder E] [EncoderSpec E]

/-! ## The buffer after a reservation -/

/-- Some run from `e₀` and a fresh buffer leads to `e` and `b`. -/
def Reaches (e₀ e : E) (b : Buffer) : Prop :=
  ∃ max ops, (bufferRun e₀ (.new max) ops).2 = (e, b) ∨ (bufferRun e₀ (.empty max) ops).2 = (e, b)

open LawfulEncoder

variable [LawfulEncoder E]

theorem BufferOp.run_valid {op : BufferOp} {e : E} {b : Buffer} (hv : Valid e) (hb : b.Wf)
    (hret : (op.run e b).1.returns = true) : Valid (op.run e b).2.1 := by
  cases op with
  | record a => exact (run_ends hv a hb).1.2 hret
  | takeEmptyStorage =>
    simp only [BufferOp.run]
    split <;> exact hv
  | _ => exact hv

theorem bufferRun_valid {e : E} {b : Buffer} (hv : Valid e) (hb : b.Sound) (ops : List BufferOp) :
    Valid (bufferRun e b ops).2.1 ∧ (bufferRun e b ops).2.2.Sound := by
  refine (bufferMachine E).run_invariant (fun s => Valid s.1 ∧ s.2.Sound) ?_ ops ⟨hv, hb⟩
  rintro ⟨e, b⟩ op ⟨hv, hb⟩ hret
  obtain ⟨hb', _⟩ := op.run_refines hb e fun _ _ => hret
  exact ⟨op.run_valid hv hb.wf hret, hb'⟩

theorem Reaches.valid {e₀ e : E} {b : Buffer} (hv : Valid e₀) (h : Reaches e₀ e b) : Valid e ∧ b.Sound := by
  obtain ⟨max, ops, h | h⟩ := h
  · have := bufferRun_valid hv (Buffer.new_sound max) ops
    rwa [h] at this
  · have := bufferRun_valid hv (Buffer.empty_sound max) ops
    rwa [h] at this

/-- A reservation from any state a run leads to ends in one of the ways of
`Ends`, none of them a panic or a lack of room, and if it returns, only what it
left (`Attempted.left`: the sealed record, or nothing) is behind the bytes that
were live before. -/
def LeavesOnlyRecords (e₀ : E) : Prop :=
  ∀ e b, Reaches e₀ e b → ∀ a : Attempt, LawfulEncoder.Ends e a (a.run e b).1 (a.run e b).2.1 ∧
    ((a.run e b).1.returns = true → (a.run e b).2.2.filled = b.filled ++ (a.run e b).1.left)

theorem leavesOnlyRecords {e₀ : E} (hv : Valid e₀) : LeavesOnlyRecords e₀ := by
  intro e b hr a
  obtain ⟨hv', hb⟩ := hr.valid hv
  obtain ⟨⟨hends, _⟩, hf⟩ := run_ends hv' a hb.wf
  exact ⟨hends, hf⟩

end Generic

/-- **Failed and cancelled records leave the buffer as it was**, for each
encoder as it is constructed. -/
theorem failed_records_restore_buffer (C : Crypto) (ε : Type) [Entropy ε] :
    (∀ psk salt n entropy ne (enc : V4Encoder C ε), V4Encoder.withSalt psk salt n entropy ne = .ok enc →
      LeavesOnlyRecords enc) ∧
      (∀ enc : V6UnshapedEncoder C, LeavesOnlyRecords enc) ∧
      ∀ enc : V6ShapedEncoder C, LeavesOnlyRecords enc :=
  ⟨fun _ _ _ _ _ _ h => leavesOnlyRecords (V4Encoder.withSalt_valid h).1, fun _ => leavesOnlyRecords trivial,
    fun _ => leavesOnlyRecords trivial⟩

/-- A padded first record whose body `ring` refuses, behind two bytes that are
still to be sent. -/
theorem failed_records_restore_buffer_transparent :
    let psk : Psk := ⟨List.replicate 16 7, by decide⟩
    let salt : Salt := ⟨List.replicate saltLen 1, by decide⟩
    let enc : V4Encoder Crypto.transparent RepeatEntropy := ⟨(), Nonce.new, salt, ⟨3⟩, .new 8, .ready, .little⟩
    let ops : List BufferOp := [.extendFromSlice [7, 8, 9], .consume 1]
    let r := (bufferRun enc (.new 128) ops).2
    let a : Attempt := ⟨[1], .stream 2, 0, [.payloadMut [2, 3]], .sealMut 2 ⟨0, false, true, 8⟩⟩
    V4Encoder.withSalt psk salt 8 ⟨3⟩ .little = .ok enc ∧ (a.run r.1 r.2).1 = .failed 2 (.err .aead) ∧
      (a.run r.1 r.2).2.2.filled = r.2.filled := by
  intro psk salt enc ops r a
  have hfailed : (a.run r.1 r.2).1 = .failed 2 (.err .aead) := by decide +kernel
  have hfilled :=
    ((failed_records_restore_buffer Crypto.transparent RepeatEntropy).1 psk salt 8 ⟨3⟩ .little enc rfl r.1 r.2
    ⟨128, ops, .inl (Prod.eta _).symm⟩ a).2
  rw [hfailed] at hfilled
  exact ⟨rfl, hfailed, (hfilled rfl).trans (List.append_nil _)⟩

/-! ## What is in a record -/

section Generic

variable {E : Type} [RecordEncoder E] [EncoderSpec E]

open EncoderSpec

variable {e e' : E} {a : Attempt} {q : BoundedQueue UInt8} {stale payload record : Bytes} {capacity split : Nat}

theorem sealSpec_sealed {e₁ : E} {p : Plan} {pfx : Bytes} {taken : Except Error Bytes} {env : SealEnv}
    (h : sealSpec e₁ p pfx taken env = (.sealed capacity payload split record, e')) :
    capacity = p.capacity pfx ∧ taken = .ok payload ∧ image e₁ p payload env = (.ok (split, record), e') := by
  unfold sealSpec at h
  cases taken with
  | error err => cases h
  | ok payload =>
    simp only at h
    rcases hi : image e₁ p payload env with ⟨r, e'⟩
    rw [hi] at h
    cases r with
    | ok r => cases h; exact ⟨rfl, rfl, hi⟩
    | error f => cases h

/-- A sealed attempt is the image of its payload under a plan there was room
for. -/
theorem Attempt.spec_sealed (h : a.spec e q stale = (.sealed capacity payload split record, e')) :
    ∃ p e₁ env, plan e a.pfx.length a.size a.now = (.ok p, e₁) ∧ q.refusal p.total = none ∧
      capacity = p.capacity a.pfx ∧ a.close.SealsIn env ∧ payload.length ≤ p.maxPayload ∧
      image (setState e₁ .reserving) p payload env = (.ok (split, record), e') := by
  unfold Attempt.spec at h
  rcases hplan : plan e a.pfx.length a.size a.now with ⟨r, e₁⟩
  rw [hplan] at h
  cases r with
  | error f => cases h
  | ok p =>
    simp only at h
    split at h
    · cases h
    next hroom =>
    unfold Close.spec at h
    split at h
    · next n env hclose =>
      obtain ⟨hcap, ht, hi⟩ := sealSpec_sealed h
      exact ⟨p, e₁, env, rfl, hroom, hcap, ⟨n, .inl hclose⟩, Draft.sealMut_length ht, hi⟩
    · next n env hclose =>
      obtain ⟨hcap, ht, hi⟩ := sealSpec_sealed h
      exact ⟨p, e₁, env, rfl, hroom, hcap, ⟨n, .inr hclose⟩, Draft.sealInit_length ht, hi⟩
    · cases h
    · cases h

/-- The same of a run, with what it leaves in the buffer. -/
theorem Attempt.run_sealed {b b' : Buffer} (hw : b.Wf)
    (h : a.run e b = (.sealed capacity payload split record, e', b')) :
    b'.filled = b.filled ++ record ∧ Buffer.Kept b b' ∧
    ∃ p e₁ env, plan e a.pfx.length a.size a.now = (.ok p, e₁) ∧ (b.queue hw).refusal p.total = none ∧
      capacity = p.capacity a.pfx ∧ a.close.SealsIn env ∧ payload.length ≤ p.maxPayload ∧
      image (setState e₁ .reserving) p payload env = (.ok (split, record), e') := by
  obtain ⟨stale, hr, he, hf, hk⟩ := a.run_spec e hw
  rw [h] at hr he hf hk
  rcases hspec : a.spec e (b.queue hw) stale with ⟨r, e''⟩
  rw [hspec] at hr he hf hk
  obtain rfl : r = .sealed capacity payload split record := hr.symm
  obtain rfl : e' = e'' := he rfl
  exact ⟨hf rfl, hk rfl, Attempt.spec_sealed hspec⟩

/-- Two reservations in the same encoder, with the same prefix and at the same
time, in any two buffers, of any sizes, written and sealed either way: if they
seal the same payload, it is into the same record. -/
def SealsAlike (E : Type) [RecordEncoder E] : Prop :=
  ∀ (e : E) (b₁ b₂ : Buffer) (a₁ a₂ : Attempt) (env : SealEnv), b₁.Wf → b₂.Wf → a₁.pfx = a₂.pfx → a₁.now = a₂.now →
    a₁.close.SealsIn env → a₂.close.SealsIn env →
    ∀ payload capacity₁ capacity₂ split₁ split₂ record₁ record₂,
      (a₁.run e b₁).1 = .sealed capacity₁ payload split₁ record₁ →
      (a₂.run e b₂).1 = .sealed capacity₂ payload split₂ record₂ → split₁ = split₂ ∧ record₁ = record₂

theorem sealsAlike : SealsAlike E := by
  intro e b₁ b₂ a₁ a₂ env hw₁ hw₂ hpfx hnow henv₁ henv₂ payload _ _ _ _ _ _ h₁ h₂
  rcases hr₁ : a₁.run e b₁ with ⟨r₁, e₁', b₁'⟩
  rcases hr₂ : a₂.run e b₂ with ⟨r₂, e₂', b₂'⟩
  rw [hr₁] at h₁
  rw [hr₂] at h₂
  subst h₁ h₂
  obtain ⟨-, -, p₁, e₁, env₁, hplan₁, -, -, hs₁, hlen₁, hi₁⟩ := Attempt.run_sealed hw₁ hr₁
  obtain ⟨-, -, p₂, e₂, env₂, hplan₂, -, -, hs₂, hlen₂, hi₂⟩ := Attempt.run_sealed hw₂ hr₂
  obtain rfl := henv₁.unique hs₁
  obtain rfl := henv₂.unique hs₂
  rw [hpfx, hnow] at hplan₁
  have himage := image_size hplan₁ hplan₂ hlen₁ hlen₂ env
  rw [hi₁, hi₂] at himage
  cases himage
  exact ⟨rfl, rfl⟩

end Generic

/-- **Sealed bytes depend only on the encoder and the payload.** -/
theorem sealed_bytes_determined (C : Crypto) (ε : Type) [Entropy ε] :
    SealsAlike (V4Encoder C ε) ∧ SealsAlike (V6UnshapedEncoder C) ∧ SealsAlike (V6ShapedEncoder C) :=
  ⟨sealsAlike, sealsAlike, sealsAlike⟩

/-- A datagram written through `payload_mut`, with more behind it, into fresh
memory, and a longer stream record written through `payload_uninit` into memory
that held another session's bytes. -/
theorem sealed_bytes_determined_transparent :
    let salt : Salt := ⟨List.replicate saltLen 1, by decide⟩
    let enc : V6UnshapedEncoder Crypto.transparent := ⟨(), Nonce.new, salt, false, .ready⟩
    let env : SealEnv := ⟨0, false, false, 0⟩
    let b₁ : Buffer := .new 128
    let b₂ : Buffer := ⟨[5, 6], List.replicate 126 255, 1, 128⟩
    let a₁ : Attempt := ⟨[1], .datagram 4, 0, [.payloadMut [2, 3, 4, 4]], .sealMut 2 env⟩
    let a₂ : Attempt := ⟨[1], .stream 20, 0, [.payloadUninit [2, 3]], .sealInit 2 env⟩
    ∃ split record, (a₁.run enc b₁).1 = .sealed 4 [1, 2, 3] split record ∧
      (a₂.run enc b₂).1 = .sealed 20 [1, 2, 3] split record := by
  intro salt enc env b₁ b₂ a₁ a₂
  have h₁ : (a₁.run enc b₁).1 = .sealed 4 [1, 2, 3] 0 (a₁.run enc b₁).1.left := by decide +kernel
  have h₂ : (a₂.run enc b₂).1 = .sealed 20 [1, 2, 3] 0 (a₂.run enc b₂).1.left := by decide +kernel
  obtain ⟨_, hrecord⟩ := (sealed_bytes_determined Crypto.transparent RepeatEntropy).2.1 enc b₁ b₂ a₁ a₂ env
    (Buffer.new_wf 128) ⟨by decide, by decide⟩ rfl rfl ⟨2, .inl rfl⟩ ⟨2, .inr rfl⟩ _ _ _ _ _ _ _ h₁ h₂
  rw [← hrecord] at h₂
  exact ⟨_, _, h₁, h₂⟩

end Snell
