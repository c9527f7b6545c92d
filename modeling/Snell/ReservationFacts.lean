/-
What a reservation holds while it is open: the bytes that were live before
it, the fixed part of its record, the prefix, and as much of the payload as
was committed. The caller's two ways of writing the payload keep this, and
cancelling gives the live bytes back.
-/
import Snell.Record
import Snell.BufferFacts

namespace Snell

/-- `region` after `data` was written at its start, as far as it goes. -/
def overwrite (data region : Bytes) : Bytes :=
  data.take region.length ++ region.drop (data.take region.length).length

@[simp] theorem length_overwrite (data region : Bytes) : (overwrite data region).length = region.length := by
  simp only [overwrite, List.length_append, List.length_take, List.length_drop]; omega

/-- The buffer of an open reservation, with `room` bytes kept behind the
payload. -/
structure Held (slot : Slot) (room : Nat) (live head fixed pfx content : Bytes) (b : Buffer) : Prop where
  storage : b.storage = head ++ (fixed ++ (pfx ++ content))
  start_le : b.start ≤ head.length
  live_eq : head.drop b.start = live
  recordStart : slot.recordStart = head.length
  payloadStart : slot.payloadStart = head.length + fixed.length
  prefixLen : slot.prefixLen = pfx.length
  prefix_le : pfx.length ≤ slot.maxPayload
  content_le : content.length ≤ slot.capacity
  capacity : slot.payloadStart + slot.maxPayload + room ≤ b.capacity
  max : slot.payloadStart + slot.maxPayload + room ≤ b.max

namespace Held

variable {slot : Slot} {room : Nat} {live head fixed pfx content : Bytes} {b : Buffer}

theorem stop (h : Held slot room live head fixed pfx content b) :
    b.stop = slot.payloadStart + (pfx.length + content.length) := by
  rw [Buffer.stop, h.storage, h.payloadStart]
  simp only [List.length_append]; omega

theorem stop_le (h : Held slot room live head fixed pfx content b) :
    b.storage.length ≤ slot.payloadStart + slot.maxPayload := by
  have h₁ := h.stop; have h₂ := h.content_le; have h₃ := h.prefix_le; have h₄ := h.prefixLen
  simp only [Buffer.stop, Slot.capacity] at *
  omega

theorem wf (h : Held slot room live head fixed pfx content b) : b.Wf := by
  have h₁ := h.stop_le; have h₂ := h.max; have h₃ := h.start_le
  refine ⟨?_, by omega⟩
  rw [h.storage, List.length_append]; omega

theorem filled (h : Held slot room live head fixed pfx content b) :
    b.filled = live ++ (fixed ++ (pfx ++ content)) := by
  rw [Buffer.filled, h.storage, List.drop_append_of_le_length h.start_le, h.live_eq]

/-- Cancelling: the record's bytes are dropped. -/
theorem truncate (h : Held slot room live head fixed pfx content b) :
    ∃ b', b.truncate slot.recordStart = (.ok (), b') ∧ b'.filled = live ∧ Buffer.Kept b b' := by
  have h₁ := h.start_le; have h₂ := h.wf
  have hl : head.length ≤ b.storage.length := by rw [h.storage, List.length_append]; omega
  have := h₂.len_le
  refine ⟨b.truncateStorage head.length, ?_, ?_, ⟨⟨?_, ?_⟩, rfl, ?_, .inl rfl⟩⟩
  · rw [Buffer.truncate, h.recordStart, if_neg (by omega)]
  · simp only [Buffer.filled, Buffer.truncateStorage, h.storage, List.take_left, h.live_eq]
  · simp only [Buffer.truncateStorage, h.storage, List.take_left]; exact h₁
  · simp only [Buffer.truncateStorage, List.length_take]; omega
  · simp only [Buffer.truncateStorage, Buffer.capacity, List.length_append, List.length_take,
      List.length_drop]; omega

/-- `reserve`: room for the record, the salt in front of its zeroed fixed
part, the prefix behind it. -/
theorem of_reserve {b : Buffer} {fixed maxPayload : Nat} {salt pfx : Bytes} (hw : b.Wf)
    (h : (b.queue hw).refusal (fixed + maxPayload + room) = none) (hs : salt.length ≤ fixed)
    (hp : pfx.length ≤ maxPayload) :
    ∃ recordStart head b₁ b₂ b₃, b.reserveRecord (fixed + maxPayload + room) fixed = (.ok recordStart, b₁) ∧
      b₁.copyAt recordStart salt = .ok b₂ ∧ b₂.extendFromSlice pfx = (.ok (), b₃) ∧
      Held ⟨recordStart, recordStart + fixed, pfx.length, maxPayload⟩ room b.filled head
        (salt ++ List.replicate (fixed - salt.length) 0) pfx [] b₃ ∧
      Buffer.Kept b b₃ := by
  obtain ⟨head, b₁, hres, hst, hstart, hlive, hk, hc, hm⟩ := Buffer.reserveRecord_made fixed hw (by omega) h
  have hzero : List.replicate fixed (0 : UInt8) =
      List.replicate salt.length 0 ++ List.replicate (fixed - salt.length) 0 := by
    rw [List.replicate_append_replicate]; congr 1; omega
  have hcopy : b₁.copyAt head.length salt =
      .ok { b₁ with storage := head ++ (salt ++ List.replicate (fixed - salt.length) 0) } := by
    rw [Buffer.copyAt, if_pos (by rw [hst]; simp only [List.length_append, List.length_replicate]; omega),
      Buffer.writeAt_middle b₁ (by rw [hst, hzero]) (by rw [List.length_replicate])]
  let b₂ : Buffer := { b₁ with storage := head ++ (salt ++ List.replicate (fixed - salt.length) 0) }
  have hl₂ : b₂.storage.length = head.length + fixed := by
    simp only [b₂, List.length_append, List.length_replicate]; omega
  have hl₁ : b₁.storage.length = head.length + fixed := by
    rw [hst, List.length_append, List.length_replicate]
  have hk₂ : Buffer.Kept b₁ b₂ := by
    refine ⟨⟨?_, ?_⟩, rfl, ?_, .inl rfl⟩
    · rw [hl₂]; simp only [b₂]; omega
    · rw [hl₂]; simp only [b₂]; omega
    · rw [Buffer.capacity, hl₂, Buffer.capacity, hl₁]
  simp only [Buffer.capacity] at hc
  have hroom : b₂.Room pfx.length := ⟨by simp only [b₂]; omega, by rw [hl₂]; simp only [b₂]; omega⟩
  obtain ⟨hk₃, _⟩ := hroom.committed hk₂.wf
  refine ⟨head.length, head, b₁, b₂, _, hres, hcopy, Buffer.extendFromSlice_room hk₂.wf hroom, ?_,
    (hk.trans hk₂).trans hk₃⟩
  refine ⟨?_, by simp only [b₂]; omega, hlive, rfl, ?_, rfl, hp, Nat.zero_le _, ?_, ?_⟩
  · simp only [b₂, List.append_assoc, List.append_nil]
  · simp only [List.length_append, List.length_replicate]; omega
  · simp only [Buffer.capacity, List.length_append, List.length_drop, hl₂]; simp only [b₂]; omega
  · simp only [b₂]; omega

/-! ## Writing the payload -/

theorem payloadMut (h : Held slot room live head fixed pfx content b) (data : Bytes) :
    ∃ b', slot.payloadMut b data = .ok b' ∧ Buffer.Kept b b' ∧
      Held slot room live head fixed pfx
        (overwrite data (content ++ List.replicate (slot.capacity - content.length) 0)) b' := by
  have h₁ := h.stop; have h₂ := h.content_le; have h₃ := h.prefix_le; have h₄ := h.prefixLen
  have h₅ := h.payloadStart; have h₆ := h.capacity
  have hcap : slot.capacity = slot.maxPayload - pfx.length := by rw [Slot.capacity, h₄]
  simp only [Buffer.stop] at h₁
  simp only [Buffer.capacity] at h₆
  -- the region is zero-filled behind what was committed of it
  let grown := content ++ List.replicate (slot.capacity - content.length) 0
  have hgrown : grown.length = slot.capacity := by
    simp only [grown, List.length_append, List.length_replicate]; omega
  have hext : b.zeroExtendTo slot.payloadEnd = .ok { b with
      storage := head ++ (fixed ++ (pfx ++ grown))
      spare := b.spare.drop (slot.capacity - content.length) } := by
    rw [Buffer.zeroExtendTo, if_pos (by simp only [Slot.payloadEnd]; omega),
      show slot.payloadEnd - b.storage.length = slot.capacity - content.length by
        simp only [Slot.payloadEnd]; omega,
      Buffer.extendZeroed_room (by omega)]
    congr 2
    rw [h.storage]; simp only [grown, List.append_assoc]
  have hrange : slice (head ++ (fixed ++ (pfx ++ grown))) slot.unwrittenStart slot.payloadEnd = .ok grown := by
    have := slice_middle (head ++ (fixed ++ pfx)) grown []
    simp only [List.append_nil, List.append_assoc, List.length_append] at this
    rw [← this]
    congr 1 <;> simp only [Slot.unwrittenStart, Slot.payloadEnd] <;> omega
  have hwritten : (overwrite data grown).length = slot.capacity := by rw [length_overwrite, hgrown]
  have hheld : Held slot room live head fixed pfx (overwrite data grown) { b with
      storage := head ++ (fixed ++ (pfx ++ overwrite data grown))
      spare := b.spare.drop (slot.capacity - content.length) } := by
    refine ⟨rfl, h.start_le, h.live_eq, h.recordStart, h.payloadStart, h.prefixLen, h.prefix_le, by omega, ?_,
      h.max⟩
    simp only [Buffer.capacity, List.length_append, List.length_drop]; omega
  refine ⟨_, ?_, ⟨hheld.wf, rfl, ?_, .inl rfl⟩, hheld⟩
  · simp only [Slot.payloadMut, hext, bind, Except.bind, Buffer.range, hrange]
    have hat : slot.unwrittenStart = (head ++ (fixed ++ pfx)).length := by
      simp only [Slot.unwrittenStart, List.length_append]; omega
    have := Buffer.writeAt_middle
      { b with storage := head ++ (fixed ++ (pfx ++ grown))
               spare := b.spare.drop (slot.capacity - content.length) }
      (x := head ++ (fixed ++ pfx)) (y := grown.take (data.take grown.length).length)
      (z := grown.drop (data.take grown.length).length) (w := data.take grown.length)
      (by simp only [List.append_assoc, List.take_append_drop])
      (by simp only [List.length_take]; omega)
    rw [hat, this]
    simp only [overwrite, List.append_assoc]; rfl
  · simp only [Buffer.capacity, List.length_append, List.length_drop]
    simp only [h.storage, List.length_append] at *
    omega

/-- Only bytes behind the committed ones are written, and none once there are
some. -/
theorem payloadUninit (h : Held slot room live head fixed pfx content b) (data : Bytes) :
    ∃ b', slot.payloadUninit b data = .ok b' ∧ Buffer.Kept b b' ∧ Held slot room live head fixed pfx content b' ∧
      (content = [] → b'.spare.take slot.capacity = overwrite data (b.spare.take slot.capacity)) := by
  have h₁ := h.stop; have h₂ := h.prefix_le; have h₃ := h.prefixLen; have h₄ := h.capacity; have h₅ := h.max
  have hcap : slot.capacity = slot.maxPayload - pfx.length := by rw [Slot.capacity, h₃]
  simp only [Buffer.stop] at h₁
  by_cases hs : b.stop ≠ slot.unwrittenStart
  · refine ⟨b, ?_, .refl h.wf, h, ?_⟩
    · simp only [Slot.payloadUninit, Slot.uninitLen, if_pos hs, bind, Except.bind, List.take_zero,
        Buffer.writeSpare, List.length_nil, List.drop_zero, List.nil_append]
      rfl
    · rintro rfl
      simp only [List.length_nil] at h₁
      exact absurd (by simp only [Buffer.stop, Slot.unwrittenStart]; omega) hs
  · simp only [Buffer.stop, Slot.unwrittenStart, ne_eq, Decidable.not_not] at hs
    simp only [Buffer.capacity] at h₄
    have hsp : slot.capacity ≤ b.spare.length := by omega
    have hw : slot.capacity ≤ b.writable := by
      simp only [Buffer.writable, Buffer.capacity]; omega
    have hlen : (data.take slot.capacity ++ b.spare.drop (data.take slot.capacity).length).length =
        b.spare.length := by
      simp only [List.length_append, List.length_take, List.length_drop]; omega
    have hheld : Held slot room live head fixed pfx content (b.writeSpare (data.take slot.capacity)) := by
      refine ⟨h.storage, h.start_le, h.live_eq, h.recordStart, h.payloadStart, h.prefixLen, h.prefix_le,
        h.content_le, ?_, h.max⟩
      simp only [Buffer.capacity, Buffer.writeSpare, hlen]; exact h₄
    refine ⟨b.writeSpare (data.take slot.capacity), ?_, ⟨hheld.wf, rfl, ?_, .inl rfl⟩, hheld, fun _ => ?_⟩
    · have hs' : ¬ b.stop ≠ slot.unwrittenStart := by
        simp only [Buffer.stop, Slot.unwrittenStart, ne_eq, Decidable.not_not]; exact hs
      simp only [Slot.payloadUninit, Slot.uninitLen, if_neg hs', if_pos hw, bind, Except.bind]; rfl
    · simp only [Buffer.capacity, Buffer.writeSpare, hlen]
    · have hl : (b.spare.take slot.capacity).length = slot.capacity := by rw [List.length_take]; omega
      simp only [Buffer.writeSpare, overwrite, hl]
      rw [List.take_append, List.take_of_length_le (by rw [List.length_take]; omega), List.drop_take]

/-- `commit` of what was read into the uninitialised payload. -/
theorem commit (h : Held slot room live head fixed pfx [] b) {n : Nat} (hn : pfx.length + n ≤ slot.maxPayload) :
    ∃ b', b.commit n = (.ok (), b') ∧ Held slot room live head fixed pfx (b.spare.take n) b' ∧
      (b.spare.take n).length = n ∧ Buffer.Kept b b' := by
  have h₁ := h.stop; have h₃ := h.prefixLen; have h₄ := h.capacity; have h₅ := h.max
  simp only [Buffer.stop, List.length_nil] at h₁
  simp only [Buffer.capacity] at h₄
  have hlen : (b.spare.take n).length = n := by rw [List.length_take]; omega
  have hroom : b.Room n := ⟨by omega, by omega⟩
  have hheld : Held slot room live head fixed pfx (b.spare.take n)
      { b with storage := b.storage ++ b.spare.take n, spare := b.spare.drop n } := by
    refine ⟨?_, h.start_le, h.live_eq, h.recordStart, h.payloadStart, h.prefixLen, h.prefix_le, ?_, ?_, h.max⟩
    · rw [h.storage]; simp only [List.append_assoc, List.append_nil]
    · rw [hlen, Slot.capacity]; omega
    · simp only [Buffer.capacity, List.length_append, hlen, List.length_drop]; omega
  refine ⟨_, Buffer.commit_room hroom, hheld, hlen, ⟨hheld.wf, rfl, ?_, .inl rfl⟩⟩
  simp only [Buffer.capacity, List.length_append, hlen, List.length_drop]; omega

/-- The committed end moved to the end of a payload of `len` bytes and its
tag; the tag's bytes are whatever was there. -/
theorem setRecordEnd (h : Held slot room live head fixed pfx content b) {len : Nat}
    (hl : len ≤ (pfx ++ content).length) (hm : len ≤ slot.maxPayload) (hr : tagLen ≤ room) :
    ∃ spare tail, b.setRecordEnd (slot.payloadStart + len + tagLen) =
        .ok { b with storage := head ++ (fixed ++ ((pfx ++ content).take len ++ tail)), spare } ∧
      tail.length = tagLen ∧
      spare.length + (slot.payloadStart + len + tagLen) = b.capacity := by
  have h₄ := h.capacity
  obtain ⟨spare, hs, hsp⟩ := Buffer.setRecordEnd_ok (b := b) (e := slot.payloadStart + len + tagLen) (by omega)
  have hps := h.payloadStart
  have htake : b.storage.take (slot.payloadStart + len + tagLen) =
      head ++ (fixed ++ ((pfx ++ content).take len ++ ((pfx ++ content).drop len).take tagLen)) := by
    have hsplit : b.storage = (head ++ (fixed ++ (pfx ++ content).take len)) ++ (pfx ++ content).drop len := by
      rw [h.storage]; simp only [List.append_assoc, List.take_append_drop]
    have hfront : (head ++ (fixed ++ (pfx ++ content).take len)).length = slot.payloadStart + len := by
      simp only [List.length_append, List.length_take] at hl ⊢; omega
    rw [hsplit, ← hfront, List.take_length_add_append]
    simp only [List.append_assoc]
  refine ⟨spare, ((pfx ++ content).drop len).take tagLen ++
    List.replicate (slot.payloadStart + len + tagLen - b.storage.length) 0, ?_, ?_, hsp⟩
  · rw [hs, htake]; simp only [List.append_assoc]
  · have := h.stop
    simp only [Buffer.stop] at this
    simp only [List.length_append, List.length_take, List.length_drop, List.length_replicate] at hl ⊢
    omega

/-- The committed end moved to the end of a payload of `len` bytes. -/
theorem setRecordEnd_payload (h : Held slot room live head fixed pfx content b) {len : Nat}
    (hl : len ≤ (pfx ++ content).length) :
    ∃ spare, b.setRecordEnd (slot.payloadStart + len) =
        .ok { b with storage := head ++ (fixed ++ (pfx ++ content).take len), spare } ∧
      spare.length + (slot.payloadStart + len) = b.capacity := by
  have h₁ := h.capacity; have h₂ := h.stop; have h₃ := h.payloadStart; have h₄ := h.stop_le
  simp only [Buffer.stop] at h₂
  simp only [List.length_append] at hl
  obtain ⟨spare, hs, hsp⟩ := Buffer.setRecordEnd_ok (b := b) (e := slot.payloadStart + len) (by omega)
  refine ⟨spare, ?_, hsp⟩
  have htake : b.storage.take (slot.payloadStart + len) = head ++ (fixed ++ (pfx ++ content).take len) := by
    rw [h.storage, ← List.append_assoc, h₃, ← List.length_append, List.take_length_add_append, List.append_assoc]
  rw [hs, htake, Nat.sub_eq_zero_of_le (by omega), List.replicate_zero, List.append_nil]

end Held

theorem RecordSize.payloadLen_le {size : RecordSize} {pfxLen limit n : Nat}
    (h : size.payloadLen pfxLen limit = .ok n) : pfxLen ≤ n ∧ n ≤ limit := by
  unfold RecordSize.payloadLen at h
  split at h <;> split at h <;> cases h <;> omega

theorem RecordSize.payloadLen_error {size : RecordSize} {pfxLen limit : Nat} {f : Fault}
    (h : size.payloadLen pfxLen limit = .error f) : f = .err .payloadTooLarge := by
  unfold RecordSize.payloadLen at h
  split at h <;> split at h <;> cases h <;> rfl

/-! ## What reserving decides -/

/-- What `reserve` decides before it looks at the buffer. -/
structure Plan where
  /-- What the clock read. -/
  now : Nat
  maxPayload : Nat
  /-- The record's bytes in front of the payload. -/
  fixed : Bytes
  /-- Room kept behind the payload. -/
  room : Nat

/-- Payload bytes offered behind a prefix. -/
def Plan.capacity (p : Plan) (pfx : Bytes) : Nat := p.maxPayload - pfx.length

def Plan.total (p : Plan) : Nat := p.fixed.length + p.maxPayload + p.room

/-- What a reservation comes to, from the plan: refused with the plan or for
want of room, the buffer untouched, or held. -/
inductive Reserved (b : Buffer) (hw : b.Wf) (pfx : Bytes) : Res Plan → Res Slot × Buffer → Prop
  | unplanned {err} : Reserved b hw pfx (.error (.err err)) (.error (.err err), b)
  | refused {p r} : (b.queue hw).refusal p.total = some r →
      Reserved b hw pfx (.ok p) (.error (.err (Buffer.refusalError (b.queue hw) p.total r)), b)
  | held {p slot head b'} : (b.queue hw).refusal p.total = none → slot.maxPayload = p.maxPayload →
      Held slot p.room b.filled head p.fixed pfx [] b' → Buffer.Kept b b' → Reserved b hw pfx (.ok p) (.ok slot, b')

/-- The plan of `reserveWith`. -/
def planWith (state : EncoderState) (limit : Nat) (salt : Bytes) (fixed room : Nat → Nat) (prefixLen : Nat)
    (size : RecordSize) (now : Nat) : Res Plan := do
  state.ensureReady
  let maxPayload ← size.payloadLen prefixLen limit
  return { now, maxPayload, fixed := salt ++ List.replicate (fixed maxPayload - salt.length) 0, room := room maxPayload }

theorem EncoderState.ensureReady_cases (state : EncoderState) :
    (state = .ready ∧ state.ensureReady = .ok ()) ∨ (state ≠ .ready ∧ ∃ err, state.ensureReady = .error (.err err)) := by
  cases state with
  | ready => exact .inl ⟨rfl, rfl⟩
  | reserving | poisoned => exact .inr ⟨nofun, _, rfl⟩

theorem planWith_blocked {state : EncoderState} {limit : Nat} {salt : Bytes} {fixed room : Nat → Nat}
    {prefixLen now : Nat} {size : RecordSize} {f : Fault} (h : state.ensureReady = .error f) :
    planWith state limit salt fixed room prefixLen size now = .error f := by
  simp only [planWith, h, bind, Except.bind]

theorem planWith_ok {state : EncoderState} {limit : Nat} {salt : Bytes} {fixed room : Nat → Nat} {prefixLen now : Nat}
    {size : RecordSize} {p : Plan} (h : planWith state limit salt fixed room prefixLen size now = .ok p) :
    state = .ready ∧ size.payloadLen prefixLen limit = .ok p.maxPayload ∧ p.now = now ∧
      p.fixed = salt ++ List.replicate (fixed p.maxPayload - salt.length) 0 ∧ p.room = room p.maxPayload := by
  rcases state.ensureReady_cases with ⟨hs, he⟩ | ⟨_, err, he⟩
  · simp only [planWith, he, bind, Except.bind] at h
    split at h
    · cases h
    · next n hn => cases h; exact ⟨hs, hn, rfl, rfl, rfl⟩
  · rw [planWith_blocked he] at h
    cases h

theorem planWith_prefix {state : EncoderState} {limit : Nat} {salt : Bytes} {fixed room : Nat → Nat} {prefixLen now : Nat}
    {size : RecordSize} {p : Plan} (h : planWith state limit salt fixed room prefixLen size now = .ok p) :
    prefixLen ≤ p.maxPayload := (RecordSize.payloadLen_le (planWith_ok h).2.1).1

theorem planWith_error {state : EncoderState} {limit : Nat} {salt : Bytes} {fixed room : Nat → Nat} {prefixLen now : Nat}
    {size : RecordSize} {f : Fault} (h : planWith state limit salt fixed room prefixLen size now = .error f) :
    ∃ err, f = .err err := by
  rcases state.ensureReady_cases with ⟨_, he⟩ | ⟨_, err, he⟩
  · simp only [planWith, he, bind, Except.bind] at h
    split at h
    · next hpl => cases h; exact ⟨_, RecordSize.payloadLen_error hpl⟩
    · cases h
  · rw [planWith_blocked he] at h
    cases h
    exact ⟨err, rfl⟩

/-- **`reserve` follows its plan.** -/
theorem reserveWith_reserved {b : Buffer} (state : EncoderState) (limit : Nat) (salt : Bytes)
    (fixed room : Nat → Nat) (hw : b.Wf) (hs : ∀ n, salt.length ≤ fixed n) (pfx : Bytes) (size : RecordSize) (now : Nat) :
    Reserved b hw pfx (planWith state limit salt fixed room pfx.length size now)
      (reserveWith state limit salt fixed room b pfx size) := by
  rcases state.ensureReady_cases with ⟨_, he⟩ | ⟨_, err, he⟩
  · simp only [planWith, reserveWith, he, bind, Except.bind]
    cases hpl : size.payloadLen pfx.length limit with
    | error f =>
      obtain rfl := RecordSize.payloadLen_error hpl
      exact .unplanned
    | ok n =>
      simp only [pure, Except.pure]
      obtain ⟨p, hp⟩ : ∃ p : Plan, p =
        { now, maxPayload := n, fixed := salt ++ List.replicate (fixed n - salt.length) 0, room := room n } := ⟨_, rfl⟩
      rw [← hp]
      have htotal : p.total = fixed n + n + room n := by
        have := hs n
        rw [hp]; simp only [Plan.total, List.length_append, List.length_replicate]; omega
      cases hr : (b.queue hw).refusal p.total with
      | some r =>
        have hres := Buffer.reserveRecord_refused (fixed n) hw hr
        rw [htotal] at hres
        simp only [hres]
        rw [← htotal]
        exact .refused hr
      | none =>
        have hr' := hr
        rw [htotal] at hr'
        obtain ⟨recordStart, head, b₁, b₂, b₃, hres, hcopy, hext, hheld, hkept⟩ :=
          Held.of_reserve hw hr' (hs n) (RecordSize.payloadLen_le hpl).1
        simp only [hres, hcopy, hext]
        subst hp
        exact .held hr rfl hheld hkept
  · simp only [planWith_blocked he, reserveWith, he, bind, Except.bind]
    exact .unplanned

/-! ## What sealing makes -/

/-- What sealing leaves behind `head` in a buffer of `cap` bytes, when apart
from the buffer it makes `image`: the record, or something to be truncated
away. -/
inductive Seals {E : Type} (head : Bytes) (start max cap : Nat) : Res (Nat × Bytes) × E → Res Nat × E × Buffer → Prop
  | ok {split record e spare} : (head ++ record).length ≤ max → (head ++ record).length + spare.length = cap →
      Seals head start max cap (.ok (split, record), e) (.ok split, e, ⟨head ++ record, spare, start, max⟩)
  | error {f e rest spare} : (head ++ rest).length ≤ max → (head ++ rest).length + spare.length = cap →
      Seals head start max cap (.error f, e) (.error f, e, ⟨head ++ rest, spare, start, max⟩)

/-- What `finish` makes: `image` with the encoder's state set, and a sealed
record committed. -/
def finished {E : Type} (nonce : E → Nonce) (setState : E → EncoderState → E) (commit : E → E) (e : E)
    (image : Res (Nat × Bytes) × E) : Res (Nat × Bytes) × E :=
  match image with
  | (.ok r, e') => (.ok r, commit (setState e' (.afterSeal false)))
  | (.error (.err err), e') => (.error (.err err), setState e' (.afterSeal (nonce e' ≠ nonce e)))
  | (.error f, e') => (.error f, e')

section Finished

variable {E : Type} {nonce : E → Nonce} {setState : E → EncoderState → E} {commit : E → E} {e e' : E}
  {image : Res (Nat × Bytes) × E}

@[simp] theorem finished_fst (nonce : E → Nonce) (setState : E → EncoderState → E) (commit : E → E) (e : E)
    (image : Res (Nat × Bytes) × E) : (finished nonce setState commit e image).1 = image.1 := by
  unfold finished
  split <;> rfl

theorem finished_ok {r : Nat × Bytes} (h : finished nonce setState commit e image = (.ok r, e')) :
    ∃ e₁, image = (.ok r, e₁) ∧ e' = commit (setState e₁ .ready) := by
  unfold finished at h
  split at h
  · next r e₁ => cases h; exact ⟨e₁, rfl, rfl⟩
  · cases h
  · cases h

theorem finished_error {err : Error} (h : finished nonce setState commit e image = (.error (.err err), e')) :
    ∃ e₁, image = (.error (.err err), e₁) ∧ e' = setState e₁ (.afterSeal (nonce e₁ ≠ nonce e)) := by
  unfold finished at h
  split at h
  · cases h
  · next err e₁ => cases h; exact ⟨e₁, rfl, rfl⟩
  · next hf => cases h; exact absurd rfl (hf _)

theorem finished_fault {f : Fault} (h : finished nonce setState commit e image = (.error f, e')) :
    ∃ e₁, image = (.error f, e₁) := by
  unfold finished at h
  split at h
  · cases h
  · next err e₁ => cases h; exact ⟨e₁, rfl⟩
  · next f e₁ hf => cases h; exact ⟨_, rfl⟩

end Finished

theorem EncoderState.afterSeal_ne (failed : Bool) : EncoderState.afterSeal failed ≠ .reserving := by
  cases failed <;> nofun

/-- What `finish` leaves: the record behind the live bytes, or the live bytes
alone. Nothing is said of a call that does not return. -/
inductive Finished {E : Type} (live : Bytes) (b : Buffer) : Res (Nat × Bytes) × E → Res Nat × E × Buffer → Prop
  | ok {split record e b'} : b'.filled = live ++ record → Buffer.Kept b b' →
      Finished live b (.ok (split, record), e) (.ok split, e, b')
  | error {err e b'} : b'.filled = live → Buffer.Kept b b' →
      Finished live b (.error (.err err), e) (.error (.err err), e, b')
  | stopped {f e b'} : (∀ err, f ≠ .err err) → Finished live b (.error f, e) (.error f, e, b')

theorem finishWith_finished {E : Type} {nonce : E → Nonce} {setState : E → EncoderState → E} {commit : E → E} {e : E}
    {slot : Slot} {room : Nat} {live head fixed pfx content : Bytes} {b : Buffer} {image : Res (Nat × Bytes) × E}
    {r : Res Nat × E × Buffer} (hh : Held slot room live head fixed pfx content b)
    (hr : Seals head b.start b.max b.capacity image r) :
    Finished live b (finished nonce setState commit e image) (finishWith nonce setState commit slot e r) := by
  have hstart := hh.start_le
  cases hr with
  | @ok split record e₁ spare hlen hcap =>
    refine .ok ?_ ⟨⟨?_, hlen⟩, rfl, hcap, .inl rfl⟩
    · rw [Buffer.filled, List.drop_append_of_le_length hstart, hh.live_eq]
    · simp only [List.length_append]; omega
  | @error f e₁ rest spare hlen hcap =>
    have htrunc : Buffer.truncate ⟨head ++ rest, spare, b.start, b.max⟩ slot.recordStart =
        (.ok (), Buffer.truncateStorage ⟨head ++ rest, spare, b.start, b.max⟩ head.length) := by
      rw [Buffer.truncate, hh.recordStart, if_neg (by simp only [List.length_append]; omega)]
    cases f with
    | err err =>
      simp only [finishWith, finished, htrunc]
      simp only [List.length_append] at hlen hcap
      refine .error ?_ ⟨⟨?_, ?_⟩, rfl, ?_, .inl rfl⟩
      · simp only [Buffer.filled, Buffer.truncateStorage, List.take_left, hh.live_eq]
      · simp only [Buffer.truncateStorage, List.take_left]; exact hstart
      · simp only [Buffer.truncateStorage, List.take_left]; omega
      · simp only [Buffer.truncateStorage, Buffer.capacity, List.take_left, List.drop_left, List.length_append]
        simp only [Buffer.capacity] at hcap
        omega
    | panic | diverged => exact .stopped fun _ h => by cases h

end Snell
