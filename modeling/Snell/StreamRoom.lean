/-
Stream reservations offer room, so an empty read is the end of the stream.

How much a stream record may carry comes from a window: in v4 what the padding
leaves of the first record, then a limit that grows with every record and
falls back after an idle connection; in shaped v6 a draw of the profile,
capped on the record with sequence number 0. None of the windows ever closes
(`StreamEncoder.plan_stream`). Hence `write_plain_records` takes at least a
byte a turn, and what it writes are records of its source, cut anyhow.
-/
import Snell.Datagrams
import Snell.OpenRemote
import Snell.Runs
import Snell.Shaping

namespace Snell

open RecordEncoder

/-! ## The windows -/

open EncoderSpec LawfulEncoder DatagramEncoder in
/-- What the stream path needs of an encoder. -/
class StreamEncoder (E : Type) [RecordEncoder E] [EncoderSpec E] [LawfulEncoder E] [DatagramEncoder E] where
  /-- The window is open, whatever the clock reads. -/
  Roomy : E → Prop
  roomy_set : ∀ (e : E) s, Roomy e → Roomy (setState e s)
  roomy_plan : ∀ (e : E) n size now, Roomy e → Roomy (plan e n size now).2
  roomy_image : ∀ (e : E) p payload env, Roomy e → Roomy (image e p payload env).2
  plan_stream : ∀ {e : E} {hint} now, Valid e → Roomy e → state e = .ready → 0 < hint →
    ∃ p e₁, plan e 0 (.stream hint) now = (.ok p, e₁) ∧ 0 < p.maxPayload ∧ p.maxPayload ≤ min hint maxPacketSize ∧
      p.total ≤ v6WireCap
  serves_plan : ∀ (e : E) n size now env, Serves e env → Serves (plan e n size now).2 env
  stream_serves : ∀ {e e₁ : E} {hint now p env} payload, Serves e env → plan e 0 (.stream hint) now = (.ok p, e₁) →
    ∃ r e', image (setState e₁ .reserving) p payload env = (.ok r, e')
  /-- Only the first record draws on the entropy source. -/
  serves_next : ∀ {e e' : E} {p payload env env' r}, image e p payload env = (.ok r, e') → env'.AeadServes → Serves e' env'

section Plan

variable {limit hint : Nat} (salt : Bytes) (fixed room : Nat → Nat)

theorem planWith_stream (now : Nat) (hsalt : ∀ n, salt.length ≤ fixed n) (hlimit : 0 < limit) (hhint : 0 < hint) :
    ∃ p, planWith .ready limit salt fixed room 0 (.stream hint) now = .ok p ∧ 0 < p.maxPayload ∧
      p.maxPayload ≤ hint ∧ p.maxPayload ≤ limit ∧ p.total = fixed p.maxPayload + p.maxPayload + room p.maxPayload := by
  have hpl : RecordSize.payloadLen (.stream hint) 0 limit = .ok (min hint limit) := by
    rw [RecordSize.payloadLen, Nat.zero_add, if_pos (Nat.zero_le _)]
  refine ⟨_, by simp only [planWith, EncoderState.ensureReady, hpl, bind, Except.bind]; rfl, ?_, ?_, ?_, ?_⟩
  · exact Nat.lt_min.mpr ⟨hhint, hlimit⟩
  · exact Nat.min_le_left _ _
  · exact Nat.min_le_right _ _
  · have := hsalt (min hint limit)
    simp only [Plan.total, List.length_append, List.length_replicate]
    omega

end Plan

namespace V4Encoder

variable {C : Crypto} {ε : Type} [Entropy ε]

/-- The padding leaves room in the first record, and the window grew from
something. -/
structure Roomy (enc : V4Encoder C ε) : Prop where
  padding : v4FirstRecordOverhead + enc.chunk.initialPaddingLen < v4MssBase
  limit : ∀ w, enc.chunk.last = some w → 0 < w.limit

omit [Entropy ε] in
theorem Roomy.recordBudget_pos {enc : V4Encoder C ε} (h : Roomy enc) (now : Nat) : 0 < enc.chunk.recordBudget now := by
  have hpad := h.padding
  unfold V4.ChunkState.recordBudget
  split
  · omega
  · next w hw =>
    split
    · decide
    · exact h.limit w hw

theorem new_roomy {psk : Psk} {entropy : ε} {ne : V4.Endian} {enc : V4Encoder C ε} (h : new psk entropy ne = .ok enc) :
    Valid enc ∧ Roomy enc := by
  unfold new at h
  split at h
  · cases h
  split at h
  · cases h
  next span _ _ =>
  obtain ⟨hv, -, -, -, hchunk, -⟩ := withSalt_valid h
  have hspan : LittleEndian.leNat span.1 % v4InitialPaddingSpan < v4InitialPaddingSpan := Nat.mod_lt _ (by decide)
  refine ⟨hv, ?_, fun w hw => ?_⟩
  · rw [hchunk]
    simp only [V4.ChunkState.new, v4FirstRecordOverhead, v4InitialPaddingMin, v4InitialPaddingSpan, v4MssBase] at hspan ⊢
    omega
  · rw [hchunk] at hw
    cases hw

theorem sealImage_chunk (enc : V4Encoder C ε) (p : Plan) (payload : Bytes) (env : SealEnv) :
    (sealImage enc p payload env).2.chunk = enc.chunk := by
  rcases himage : sealImage enc p payload env with ⟨f | r, enc'⟩
  · obtain ⟨⟨_, _, rfl⟩, -⟩ := sealImage_error himage
    rfl
  · unfold sealImage at himage
    split at himage
    · cases himage
    split at himage
    · cases himage; rfl
    split at himage
    · cases himage
    dsimp only at himage
    split at himage
    · cases himage
    · next hp =>
      cases himage
      obtain ⟨_, _, rfl, -⟩ := sealPadding_ok hp
      rfl

theorem roomy_image {enc : V4Encoder C ε} (h : Roomy enc) (p : Plan) (payload : Bytes) (env : SealEnv) :
    Roomy (image enc p payload env).2 := by
  have hchunk := sealImage_chunk enc p payload env
  have hkept : ∀ enc' : V4Encoder C ε, enc'.chunk = enc.chunk → Roomy enc' := by
    intro enc' he
    exact ⟨by rw [he]; exact h.padding, by rw [he]; exact h.limit⟩
  unfold image finished
  split
  · next heq =>
    rw [heq] at hchunk
    refine ⟨?_, fun w hw => ?_⟩
    · exact (hkept _ hchunk).padding
    · cases hw
      have := h.recordBudget_pos p.now
      simp only [V4.nextV4ChunkLimit, v4MssBase, v4ResetOverhead, maxPacketSize]
      omega
  · next heq => rw [heq] at hchunk; exact hkept _ hchunk
  · next heq => rw [heq] at hchunk; exact hkept _ hchunk

theorem EntropyServes.of_sent {enc : V4Encoder C ε} (h : enc.chunk.saltSent = true) (env : SealEnv) :
    enc.EntropyServes env := by
  intro n cipher hpos
  simp [paddingFor, h] at hpos

theorem image_sent {enc enc' : V4Encoder C ε} {p : Plan} {payload : Bytes} {env : SealEnv} {r : Nat × Bytes}
    (h : image enc p payload env = (.ok r, enc')) : enc'.chunk.saltSent = true := by
  obtain ⟨enc₁, -, rfl⟩ := finished_ok h
  rfl

instance : StreamEncoder (V4Encoder C ε) where
  Roomy := Roomy
  roomy_set _ _ h := ⟨h.padding, h.limit⟩
  roomy_plan _ _ _ _ h := h
  roomy_image _ p payload env h := roomy_image h p payload env
  plan_stream {enc hint} now hv hr hready hhint := by
    obtain ⟨p, hp, hpos, hle, hlimit, htotal⟩ := planWith_stream enc.leadingSalt enc.fixedFor (fun _ => tagLen) now
      enc.leadingSalt_le (hr.recordBudget_pos now) hhint
    have hmax : p.maxPayload ≤ maxPacketSize := Nat.le_trans hlimit (recordBudget_le hv now)
    have hpad := paddingFor_le hv p.maxPayload
    have hsalt : enc.leadingSalt.length ≤ saltLen := by
      unfold leadingSalt V4.saltOf
      split
      · exact Nat.le_of_eq enc.salt.2
      · exact Nat.zero_le _
    refine ⟨p, enc, Prod.ext ?_ rfl, hpos, Nat.le_min.mpr ⟨hle, hmax⟩, ?_⟩
    · show planWith enc.state _ _ _ _ _ _ _ = _
      rw [show enc.state = .ready from hready]
      exact hp
    · have hcap : saltLen + headerCipherLen + maxPacketSize + maxPacketSize + tagLen ≤ v6WireCap := by decide
      rw [htotal, fixedFor]
      omega
  serves_plan _ _ _ _ _ h := h
  stream_serves {_ enc₁ _ _ p _} payload hserves hplan := by
    obtain ⟨rfl, -⟩ := plan_ok hplan
    exact image_serves { enc₁ with state := .reserving } hserves.1 hserves.2 p payload
  serves_next himage haead := ⟨haead, .of_sent (image_sent himage) _⟩

end V4Encoder

namespace V6UnshapedEncoder

variable {C : Crypto}

instance : StreamEncoder (V6UnshapedEncoder C) where
  Roomy _ := True
  roomy_set _ _ _ := trivial
  roomy_plan _ _ _ _ _ := trivial
  roomy_image _ _ _ _ _ := trivial
  plan_stream {enc hint} now _ _ hready hhint := by
    obtain ⟨p, hp, hpos, hle, hlimit, htotal⟩ := planWith_stream enc.leadingSalt
      (fun _ => enc.leadingSalt.length + headerCipherLen) (fun _ => tagLen) now (fun _ => Nat.le_add_right _ _)
      (show 0 < maxPacketSize by decide) hhint
    have hsalt : enc.leadingSalt.length ≤ saltLen := by
      unfold leadingSalt V4.saltOf
      split
      · exact Nat.le_of_eq enc.salt.2
      · exact Nat.zero_le _
    refine ⟨p, enc, Prod.ext ?_ rfl, hpos, Nat.le_min.mpr ⟨hle, hlimit⟩, ?_⟩
    · show planWith enc.state _ _ _ _ _ _ _ = _
      rw [show enc.state = .ready from hready]
      exact hp
    · have hcap : saltLen + headerCipherLen + maxPacketSize + tagLen ≤ v6WireCap := by decide
      rw [htotal]
      omega
  serves_plan _ _ _ _ _ h := h
  stream_serves {_ enc₁ _ _ _ env} payload hserves _ := by
    rcases hi : image { enc₁ with state := .reserving } payload env with ⟨f | r, enc'⟩
    · exact absurd (image_fails hi).2 hserves.not_refused
    · exact ⟨r, enc', hi⟩
  serves_next _ haead := haead

end V6UnshapedEncoder

namespace V6ShapedEncoder

variable {C : Crypto}

/-- `payload_budget` is at least the least chunk. -/
theorem payloadBudget_mem (enc : V6ShapedEncoder C) : 0 < enc.payloadBudget ∧ enc.payloadBudget ≤ maxPacketSize := by
  have h₁ := enc.profile.firstRecordCap_ge; have h₂ := enc.profile.chunkMax_ge; have h₃ := enc.profile.chunkMax_le
  have hlimit : 0x40 ≤ enc.profile.chunkLimit enc.seq enc.chunkSize ∧
      enc.profile.chunkLimit enc.seq enc.chunkSize ≤ enc.profile.chunkMax := by
    simp only [Profile.chunkLimit]
    omega
  simp only [profileChunkMaxRawBound] at h₃
  simp only [payloadBudget, maxPacketSize, maxPacketSizeV6]
  split <;> omega

instance : StreamEncoder (V6ShapedEncoder C) where
  Roomy _ := True
  roomy_set _ _ _ := trivial
  roomy_plan _ _ _ _ _ := trivial
  roomy_image _ _ _ _ _ := trivial
  plan_stream {enc hint} now _ _ hready hhint := by
    let enc₁ : V6ShapedEncoder C := { enc with chunkSize := enc.chunkSizeAt now }
    obtain ⟨hopen, hbound⟩ := enc₁.payloadBudget_mem
    obtain ⟨p, hp, hpos, hle, hlimit, htotal⟩ := planWith_stream [] (fun _ => 0) (fun _ => enc₁.roomFor) now
      (fun _ => Nat.le_refl _) hopen hhint
    have hroom := enc₁.roomFor_le
    refine ⟨p, enc₁, ?_, hpos, Nat.le_min.mpr ⟨hle, Nat.le_trans hlimit hbound⟩, ?_⟩
    · refine (enc.plan_stream hready 0 hint now).trans (Prod.ext ?_ rfl)
      rw [show enc.state = .ready from hready]
      exact hp
    · have hcap : maxPacketSize ≤ maxPacketSizeV6 := by decide
      rw [htotal]
      omega
  serves_plan _ _ _ _ _ h := h
  stream_serves {_ enc₁ _ _ _ env} payload hserves _ := by
    rcases hi : image { enc₁ with state := .reserving } payload env with ⟨f | r, enc'⟩
    · exact absurd (image_fails hi).2 hserves.not_refused
    · exact ⟨r, enc', hi⟩
  serves_next _ haead := haead

end V6ShapedEncoder

/-! ## Runs -/

/-- An encoder alone, each reservation in a buffer of its own. -/
def encoderMachine (E : Type) [RecordEncoder E] : Runs.Machine E RecordOp Outcome where
  step e op := ((op.run e).1, (op.run e).2.1)
  returns := Outcome.returns

/-- Some run from `e₀` leads to `e`. -/
def EncoderReaches {E : Type} [RecordEncoder E] (e₀ e : E) : Prop := ∃ ops, ((encoderMachine E).run e₀ ops).2 = e

theorem Attempted.outcome_returns {r : Attempted} (h : r.outcome.returns = true) : r.returns = true := by
  cases r with
  | refused f | failed capacity f =>
    cases f with
    | err err => rfl
    | panic | diverged => cases h
  | _ => rfl

section Generic

variable {E : Type} [RecordEncoder E] [EncoderSpec E] [LawfulEncoder E] [DatagramEncoder E] [StreamEncoder E]

open EncoderSpec LawfulEncoder DatagramEncoder StreamEncoder

theorem sealSpec_roomy {e : E} (h : Roomy e) (p : Plan) (pfx : Bytes) (payload : Except Error Bytes) (env : SealEnv) :
    Roomy (sealSpec e p pfx payload env).2 := by
  unfold sealSpec
  cases payload with
  | error err => exact roomy_set _ _ h
  | ok payload =>
    have himage := roomy_image e p payload env h
    simp only
    generalize image e p payload env = r at himage ⊢
    obtain ⟨f | r, e'⟩ := r
    · exact himage
    · exact himage

/-- No reservation closes the window, however it ends. -/
theorem Attempt.spec_roomy {e : E} (h : Roomy e) (a : Attempt) (q : BoundedQueue UInt8) (stale : Bytes) :
    Roomy (a.spec e q stale).2 := by
  have hplan := roomy_plan e a.pfx.length a.size a.now h
  unfold Attempt.spec
  generalize plan e a.pfx.length a.size a.now = planned at hplan ⊢
  obtain ⟨f | p, e₁⟩ := planned
  · exact hplan
  simp only at hplan ⊢
  have hset := roomy_set e₁ .reserving hplan
  cases q.refusal p.total with
  | some r => exact hplan
  | none =>
    cases a.close with
    | sealMut n env | sealInit n env => exact sealSpec_roomy hset _ _ _ _
    | drop => exact roomy_set _ _ hset
    | forget => exact hset

theorem EncoderReaches.roomy {e₀ e : E} (hv : Valid e₀) (hr : Roomy e₀) (h : EncoderReaches e₀ e) : Valid e ∧ Roomy e := by
  obtain ⟨ops, rfl⟩ := h
  refine (encoderMachine E).run_invariant (fun e => Valid e ∧ Roomy e) ?_ ops ⟨hv, hr⟩
  intro e op ⟨hv, hr⟩ hret
  have hrun := op.run_eq e
  simp only [encoderMachine, hrun] at hret ⊢
  have hret' := Attempted.outcome_returns hret
  refine ⟨(run_ends hv op.attempt op.wf).1.2 hret', ?_⟩
  obtain ⟨stale, hres, he, -, -⟩ := op.attempt.run_spec e op.wf
  rw [he (by rw [← hres]; exact hret')]
  exact op.attempt.spec_roomy hr _ stale

/-- A stream reservation in an empty buffer of `V6_WIRE_CAP` bytes offers at
least one, and no more than the hint or `MAX_PACKET_SIZE`. -/
def OffersRoom (e : E) : Prop :=
  ∀ b : Buffer, b.Wf → b.filled = [] → v6WireCap ≤ b.capacity → v6WireCap ≤ b.max → ∀ hint now, 1 ≤ hint →
    ∃ slot record e' b', reserve e b [] (.stream hint) now = (.ok (slot, record), e', b') ∧
      1 ≤ slot.capacity ∧ slot.capacity ≤ min hint maxPacketSize

theorem offersRoom {e : E} (hv : Valid e) (hr : Roomy e) (hready : state e = .ready) : OffersRoom e := by
  intro b hw hempty hcap hmax hint now hhint
  obtain ⟨p, e₁, hplan, hpos, hle, htotal⟩ := plan_stream now hv hr hready hhint
  have hzero : b.len = 0 := by rw [← Buffer.filled_length, hempty, List.length_nil]
  have hroom : (b.queue hw).refusal p.total = none := Buffer.refusal_none.mpr ⟨by omega, by omega⟩
  have hres := reserve_spec e b hw [] (.stream hint) now
  rw [List.length_nil, hplan] at hres
  generalize reserve e b [] (.stream hint) now = result at hres
  cases hres with
  | refused hrefused => rw [hroom] at hrefused; cases hrefused
  | @held _ _ slot record head b' _ hslot hheld _ _ =>
    have hcapacity : slot.capacity = p.maxPayload := by rw [Slot.capacity, hslot, hheld.prefixLen]; rfl
    exact ⟨slot, record, _, b', rfl, by omega, by omega⟩

end Generic

end Snell
