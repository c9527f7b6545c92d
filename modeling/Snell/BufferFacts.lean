/-
What the operations of `Snell.Buffer` do, one lemma each: on the live bytes,
which are a bounded queue (`queue`), and on the room left behind them
(`Room`), which is what a record reservation holds until it is sealed or
cancelled.
-/
import Snell.BoundedQueue
import Snell.Buffer

namespace Snell.Buffer

/-- What every public operation keeps: the live range is inside the
committed bytes, and those are at most `max`. -/
structure Wf (b : Buffer) : Prop where
  start_le : b.start ≤ b.storage.length
  len_le : b.storage.length ≤ b.max

/-- `n` more bytes can be committed where they are, with no compaction. -/
structure Room (b : Buffer) (n : Nat) : Prop where
  spare : n ≤ b.spare.length
  max : b.storage.length + n ≤ b.max

theorem Room.writable {b : Buffer} {n : Nat} (h : b.Room n) : n ≤ b.writable := by
  have := h.spare; have := h.max
  simp only [Buffer.writable, capacity]; omega

/-- `b'` is `b` with other contents: the same allocation, its live bytes
starting where they did or moved to the front. -/
structure Kept (b b' : Buffer) : Prop where
  wf : b'.Wf
  max : b'.max = b.max
  capacity : b'.capacity = b.capacity
  start : b'.start = b.start ∨ b'.start = 0

theorem Kept.refl {b : Buffer} (hw : b.Wf) : Kept b b := ⟨hw, rfl, rfl, .inl rfl⟩

theorem Kept.trans {b b' b'' : Buffer} (h : Kept b b') (h' : Kept b' b'') : Kept b b'' := by
  refine ⟨h'.wf, h'.max.trans h.max, h'.capacity.trans h.capacity, ?_⟩
  rcases h'.start with hs | hs
  · rw [hs]; exact h.start
  · exact .inr hs

@[simp] theorem filled_length (b : Buffer) : b.filled.length = b.len := by simp [filled, len]

theorem isEmpty_iff {b : Buffer} (hw : b.Wf) : b.isEmpty = true ↔ b.filled = [] := by
  have := hw.start_le
  rw [isEmpty, beq_iff_eq, filled, List.drop_eq_nil_iff]
  omega

theorem new_wf (n : Nat) : (new n).Wf := ⟨by simp [new], by simp [new]⟩

theorem new_capacity (n : Nat) : (new n).capacity = n := by simp [new, capacity]

theorem empty_wf (n : Nat) : (empty n).Wf := ⟨by simp [empty], by simp [empty]⟩

theorem storage_eq (b : Buffer) : b.storage = b.storage.take b.start ++ b.filled := by
  simp [filled]

/-! ## The queue a buffer holds -/

def queue (b : Buffer) (hw : b.Wf) : BoundedQueue UInt8 where
  items := b.filled
  capacity := b.capacity
  limit := b.max
  fits := by
    have := hw.start_le; have := hw.len_le
    simp only [filled_length, len, capacity]; omega

/-- The error an append of `n` bytes is refused with. -/
def refusalError (q : BoundedQueue UInt8) (n : Nat) : BoundedQueue.Refusal → Error
  | .overLimit => .payloadTooLarge
  | .overCapacity => .bufferTooSmall (q.length + n) q.capacity

theorem queue_length {b : Buffer} (hw : b.Wf) : (b.queue hw).length = b.len := filled_length b

theorem refusal_none {b : Buffer} {hw : b.Wf} {n : Nat} :
    (b.queue hw).refusal n = none ↔ b.len + n ≤ b.capacity ∧ b.len + n ≤ b.max := by
  rw [BoundedQueue.refusal_eq_none, queue_length]
  exact Nat.le_min

/-- Contents apart, a kept buffer's queue is what it was. -/
theorem Kept.queue {b b' : Buffer} (hw : b.Wf) (h : Kept b b') (hf : b'.filled = b.filled) :
    b'.queue h.wf = b.queue hw := BoundedQueue.ext hf h.capacity h.max

theorem Kept.queue_append {b b' : Buffer} {xs : Bytes} (hw : b.Wf) (h : Kept b b') (hf : b'.filled = b.filled ++ xs) :
    ∃ hx, b'.queue h.wf = (b.queue hw).append xs hx := by
  have hx : (b.queue hw).refusal xs.length = none := by
    have h₁ := h.wf.start_le; have h₂ := h.wf.len_le; have h₃ := h.max; have h₄ := h.capacity
    have hlen : b'.len = b.len + xs.length := by
      rw [← filled_length b', hf, List.length_append, filled_length]
    refine refusal_none.mpr ⟨?_, ?_⟩
    · rw [← hlen, ← h₄]; simp only [len, Buffer.capacity]; omega
    · rw [← hlen, ← h₃]; simp only [len]; omega
  exact ⟨hx, BoundedQueue.ext hf h.capacity h.max⟩

/-! ## Compaction and room -/

theorem compact_filled (b : Buffer) : b.compact.filled = b.filled := by
  unfold compact filled; split <;> simp_all

theorem compact_storage_length (b : Buffer) : b.compact.storage.length = b.len := by
  unfold compact len; split <;> simp_all

theorem compact_kept {b : Buffer} (h : b.Wf) : Kept b b.compact := by
  have h₁ := h.start_le; have h₂ := h.len_le
  by_cases h0 : b.start = 0
  · rw [compact, if_pos h0]; exact .refl h
  · rw [compact, if_neg h0]
    refine ⟨⟨Nat.zero_le _, ?_⟩, rfl, ?_, .inr rfl⟩
    · simp only [List.length_drop]; omega
    · simp only [capacity, List.length_append, List.length_drop]; omega

/-- `n` bytes can be committed behind the live bytes of `b`, as `b'` has them. -/
structure Made (b b' : Buffer) (n : Nat) : Prop where
  filled : b'.filled = b.filled
  kept : Kept b b'
  room : b'.Room n

theorem spareCapacityMut_refused {b : Buffer} {n : Nat} {r : BoundedQueue.Refusal} (hw : b.Wf)
    (h : (b.queue hw).refusal n = some r) :
    b.spareCapacityMut n = (.error (.err (refusalError (b.queue hw) n r)), b) := by
  have h₁ := hw.start_le; have h₂ := hw.len_le
  cases r with
  | overLimit =>
    have h₃ : b.max < b.len + n := by rw [← queue_length hw]; exact BoundedQueue.refusal_eq_overLimit.mp h
    simp only [spareCapacityMut, if_pos h₃, refusalError]
  | overCapacity =>
    obtain ⟨h₃, h₄⟩ := BoundedQueue.refusal_eq_overCapacity.mp h
    rw [queue_length] at h₃ h₄
    have h₅ : ¬ b.max < b.len + n := by
      have : b.len + n ≤ b.max := h₃
      omega
    have h₆ : Nat.min b.capacity b.max - b.len < n := by
      have : b.capacity < b.len + n := h₄
      simp only [len, capacity, Nat.min_def] at this ⊢
      split <;> omega
    simp only [spareCapacityMut, if_neg h₅, if_pos h₆, refusalError, queue_length]
    rfl

theorem spareCapacityMut_made {b : Buffer} {n : Nat} (hw : b.Wf) (h : (b.queue hw).refusal n = none) :
    ∃ b', b.spareCapacityMut n = (.ok (), b') ∧ Made b b' n := by
  have h₁ := hw.start_le; have h₂ := hw.len_le
  obtain ⟨hc, hm⟩ := refusal_none.mp h
  have h₃ : ¬ Nat.min b.capacity b.max - b.len < n := by simp only [Nat.min_def]; split <;> omega
  simp only [spareCapacityMut, if_neg (Nat.not_lt.mpr hm), if_neg h₃]
  split
  · have hk := compact_kept hw
    have hl := compact_storage_length b; have hcap := hk.capacity
    refine ⟨b.compact, rfl, compact_filled b, hk, ?_, ?_⟩
    · simp only [capacity] at hcap hc
      omega
    · rw [hk.max, hl]; exact hm
  · next h₄ =>
    simp only [capacity, Nat.min_def] at h₄
    refine ⟨b, rfl, rfl, .refl hw, ?_, ?_⟩ <;> split at h₄ <;> omega

/-! ## Committing bytes into room that is there -/

theorem spareCapacityMut_room {b : Buffer} {n : Nat} (hw : b.Wf) (h : b.Room n) :
    b.spareCapacityMut n = (.ok (), b) := by
  have := hw.start_le; have := h.spare; have := h.max
  have hlen : b.len ≤ b.storage.length := by simp [len]
  simp only [spareCapacityMut]
  rw [if_neg (by omega), if_neg (by simp only [capacity, Nat.min_def]; split <;> omega),
    if_neg (by simp only [capacity, Nat.min_def]; split <;> omega)]

theorem extendFromSlice_room {b : Buffer} {bytes : Bytes} (hw : b.Wf) (h : b.Room bytes.length) :
    b.extendFromSlice bytes =
      (.ok (), { b with storage := b.storage ++ bytes, spare := b.spare.drop bytes.length }) := by
  unfold extendFromSlice
  split
  · next he => subst he; simp
  · simp only [spareCapacityMut_room hw h, h.writable, ↓reduceIte]

theorem extendZeroed_room {b : Buffer} {n : Nat} (h : n ≤ b.spare.length) :
    b.extendZeroed n =
      .ok { b with storage := b.storage ++ List.replicate n 0, spare := b.spare.drop n } := if_pos h

theorem zeroExtendTo_ok {b : Buffer} {e : Nat} (hl : b.storage.length ≤ e) (hc : e ≤ b.capacity) :
    ∃ spare, b.zeroExtendTo e =
        .ok { b with storage := b.storage ++ List.replicate (e - b.storage.length) 0, spare } ∧
      spare.length + e = b.capacity := by
  simp only [capacity] at hc ⊢
  refine ⟨b.spare.drop (e - b.storage.length), ?_, by rw [List.length_drop]; omega⟩
  rw [zeroExtendTo, if_pos hl, extendZeroed_room (by omega)]

theorem commit_room {b : Buffer} {n : Nat} (h : b.Room n) :
    b.commit n = (.ok (), { b with storage := b.storage ++ b.spare.take n, spare := b.spare.drop n }) :=
  if_neg (by have := h.writable; omega)

/-- Bytes committed into room that is there go behind the live ones. -/
theorem Room.committed {b : Buffer} {xs : Bytes} (hw : b.Wf) (h : b.Room xs.length) :
    Kept b { b with storage := b.storage ++ xs, spare := b.spare.drop xs.length } ∧
      filled { b with storage := b.storage ++ xs, spare := b.spare.drop xs.length } = b.filled ++ xs := by
  have h₁ := hw.start_le; have h₂ := h.spare; have h₃ := h.max
  refine ⟨⟨⟨?_, ?_⟩, rfl, ?_, .inl rfl⟩, ?_⟩
  · simp only [List.length_append]; omega
  · simp only [List.length_append]; exact h₃
  · simp only [capacity, List.length_append, List.length_drop]; omega
  · simp only [filled]; rw [List.drop_append_of_le_length h₁]

/-- What is written into spare memory there is room in, and committed. -/
theorem commit_writeSpare {b : Buffer} {xs : Bytes} (hw : b.Wf) (h : b.Room xs.length) :
    ∃ b', (b.writeSpare xs).commit xs.length = (.ok (), b') ∧ b'.filled = b.filled ++ xs ∧ Kept b b' := by
  have hs := h.spare
  have hroom : (b.writeSpare xs).Room xs.length := by
    refine ⟨?_, h.max⟩
    simp only [writeSpare, List.length_append]; omega
  obtain ⟨hk, hf⟩ := h.committed hw
  refine ⟨_, commit_room hroom, ?_⟩
  simp only [writeSpare, List.take_left, List.drop_left]
  exact ⟨hf, hk⟩

theorem extendFromSlice_made {b : Buffer} (bytes : Bytes) (hw : b.Wf)
    (h : (b.queue hw).refusal bytes.length = none) :
    ∃ b', b.extendFromSlice bytes = (.ok (), b') ∧ b'.filled = b.filled ++ bytes ∧ Kept b b' := by
  by_cases he : bytes = []
  · subst he; exact ⟨b, if_pos rfl, (List.append_nil _).symm, .refl hw⟩
  · obtain ⟨b₁, hs, hf, hk, hr⟩ := spareCapacityMut_made hw h
    obtain ⟨hk', hf'⟩ := hr.committed hk.wf
    refine ⟨_, ?_, hf'.trans (by rw [hf]), hk.trans hk'⟩
    simp only [extendFromSlice, if_neg he, hs, hr.writable, ↓reduceIte]

theorem extendFromSlice_refused {b : Buffer} {bytes : Bytes} {r : BoundedQueue.Refusal} (hw : b.Wf)
    (h : (b.queue hw).refusal bytes.length = some r) :
    b.extendFromSlice bytes = (.error (.err (refusalError (b.queue hw) bytes.length r)), b) := by
  by_cases he : bytes = []
  · subst he; rw [List.length_nil, BoundedQueue.refusal_zero] at h; cases h
  · simp only [extendFromSlice, if_neg he, spareCapacityMut_refused hw h]

/-- An append is refused and moves nothing, or is made. -/
theorem extendFromSlice_cases {b : Buffer} (bytes : Bytes) (hw : b.Wf) :
    (∃ err, b.extendFromSlice bytes = (.error (.err err), b)) ∨
      ∃ b', b.extendFromSlice bytes = (.ok (), b') ∧ b'.filled = b.filled ++ bytes ∧ Kept b b' := by
  cases hr : (b.queue hw).refusal bytes.length with
  | some r => exact .inl ⟨_, extendFromSlice_refused hw hr⟩
  | none => exact .inr (extendFromSlice_made bytes hw hr)

theorem extendFromSlice_ok {b b' : Buffer} {bytes : Bytes} (hw : b.Wf)
    (h : b.extendFromSlice bytes = (.ok (), b')) : b'.filled = b.filled ++ bytes ∧ Kept b b' := by
  rcases extendFromSlice_cases bytes hw with ⟨err, he⟩ | ⟨b₁, he, hf, hk⟩
  · rw [h] at he
    cases he
  · rw [h] at he
    cases he
    exact ⟨hf, hk⟩

/-! ## A record's committed end -/

theorem reserveRecord_made {b : Buffer} {total : Nat} (fixed : Nat) (hw : b.Wf) (hf : fixed ≤ total)
    (h : (b.queue hw).refusal total = none) :
    ∃ head b', b.reserveRecord total fixed = (.ok head.length, b') ∧ b'.storage = head ++ List.replicate fixed 0 ∧
      b'.start ≤ head.length ∧ head.drop b'.start = b.filled ∧ Kept b b' ∧
      head.length + total ≤ b'.capacity ∧ head.length + total ≤ b'.max := by
  obtain ⟨b₁, hs, hfill, hk, hr⟩ := spareCapacityMut_made hw h
  have h₁ := hk.wf.start_le; have h₂ := hr.spare; have h₃ := hr.max
  have hroom : b₁.Room (List.replicate fixed (0 : UInt8)).length :=
    ⟨by rw [List.length_replicate]; omega, by rw [List.length_replicate]; omega⟩
  obtain ⟨hk', _⟩ := hroom.committed hk.wf
  rw [List.length_replicate] at hk'
  refine ⟨b₁.storage, { b₁ with storage := b₁.storage ++ List.replicate fixed 0, spare := b₁.spare.drop fixed }, ?_,
    rfl, h₁, hfill, hk.trans hk', ?_, h₃⟩
  · simp only [reserveRecord, hs, zeroed, extendZeroed_room (Nat.le_trans hf h₂)]
  · simp only [capacity, List.length_append, List.length_replicate, List.length_drop]; omega

theorem reserveRecord_refused {b : Buffer} {total : Nat} {r : BoundedQueue.Refusal} (fixed : Nat) (hw : b.Wf)
    (h : (b.queue hw).refusal total = some r) :
    b.reserveRecord total fixed = (.error (.err (refusalError (b.queue hw) total r)), b) := by
  simp only [reserveRecord, spareCapacityMut_refused hw h]

/-- Moving the committed end keeps what is before it and zeroes what is new. -/
theorem setRecordEnd_ok {b : Buffer} {e : Nat} (hc : e ≤ b.capacity) :
    ∃ spare, b.setRecordEnd e =
      .ok { b with storage := b.storage.take e ++ List.replicate (e - b.storage.length) 0, spare } ∧
      spare.length + e = b.capacity := by
  simp only [capacity] at hc
  unfold setRecordEnd
  split
  · next h =>
    simp only [zeroExtendTo]
    rw [if_pos (by omega), extendZeroed_room (by omega), List.take_of_length_le (by omega)]
    exact ⟨_, rfl, by simp only [List.length_drop, capacity]; omega⟩
  · next h =>
    refine ⟨b.storage.drop e ++ b.spare, ?_, ?_⟩
    · rw [Nat.sub_eq_zero_of_le (by omega)]
      simp only [truncateStorage, List.replicate_zero, List.append_nil]
    · simp only [capacity, List.length_append, List.length_drop]; omega

theorem range_middle {b : Buffer} {x y z : Bytes} (hs : b.storage = x ++ (y ++ z)) :
    b.range x.length (x.length + y.length) = .ok y := by
  rw [range, hs, ← List.append_assoc]; exact slice_middle x y z

theorem writeAt_middle (b : Buffer) {x y z w : Bytes} (hs : b.storage = x ++ (y ++ z))
    (hl : w.length = y.length) : b.writeAt x.length w = { b with storage := x ++ (w ++ z) } := by
  simp only [writeAt, hs, List.take_left, List.drop_length_add_append, hl, List.append_assoc]
  rw [List.drop_left]

/-! ## Consuming -/

theorem consume_ok {b b' : Buffer} {n : Nat} (hw : b.Wf) (h : b.consume n = (.ok (), b')) :
    n ≤ b.len ∧ b'.filled = b.filled.drop n ∧ b'.max = b.max ∧ b'.capacity = b.capacity ∧ b'.Wf := by
  have := hw.start_le; have := hw.len_le
  simp only [consume] at h
  split at h
  · cases h
  split at h
  · next h1 h2 =>
    cases h
    refine ⟨by simp only [len]; omega, ?_, rfl, by simp [capacity], by simp, by simp⟩
    simp only [filled, List.drop_drop]
    rw [List.drop_eq_nil_of_le (by simp), List.drop_eq_nil_of_le (by omega)]
  · next h1 h2 =>
    cases h
    refine ⟨by simp only [len]; omega, ?_, rfl, rfl, ?_, hw.len_le⟩
    · simp [filled]
    · simp; omega

theorem consume_fits {b : Buffer} {n : Nat} (h : n ≤ b.len) : ∃ b', b.consume n = (.ok (), b') := by
  simp only [len] at h
  simp only [consume]
  rw [if_neg (by omega)]
  split <;> exact ⟨_, rfl⟩

theorem consume_refused {b : Buffer} {n : Nat} (h : b.len < n) :
    b.consume n = (.error (.err (.bufferTooSmall n b.len)), b) := if_pos h

/-- Consuming everything leaves an empty buffer at the front of its
allocation. -/
theorem consume_all {b : Buffer} (hw : b.Wf) :
    b.consume b.len = (.ok (), { b with storage := [], spare := b.storage ++ b.spare, start := 0 }) := by
  have := hw.start_le
  simp only [consume]
  rw [if_neg (by simp only [len]; omega), if_pos (by simp only [len]; omega)]

/-! ## Writing through `filled_mut` -/

theorem setFilled_filled {b : Buffer} {bytes : Bytes} (hw : b.Wf) : (b.setFilled bytes).filled = bytes := by
  have := hw.start_le
  simp only [setFilled, filled]
  rw [List.drop_left' (by simp; omega)]

theorem setFilled_wf {b : Buffer} {bytes : Bytes} (hw : b.Wf) (h : bytes.length = b.len) :
    (b.setFilled bytes).Wf := by
  have := hw.start_le; have := hw.len_le
  simp only [len] at h
  exact ⟨by simp [setFilled]; omega, by simp [setFilled]; omega⟩

@[simp] theorem setFilled_max (b : Buffer) (bytes : Bytes) : (b.setFilled bytes).max = b.max := rfl

theorem setFilled_capacity {b : Buffer} {bytes : Bytes} (hw : b.Wf) (h : bytes.length = b.len) :
    (b.setFilled bytes).capacity = b.capacity := by
  have := hw.start_le
  simp only [len] at h
  simp [setFilled, capacity]; omega

end Snell.Buffer
