/-
A decoder with its receive buffer, over any stream.

`Reading` says what a decoder has made of a stream. Here its buffer is with
it: the records not consumed are in front, as they were rewritten, and behind
them is what was not read (`Receiving`). A decode, a consume, a key derived
outside and bytes that arrive each keep that; every record handed out lies in
its own bytes, and a decode fails only with an error.
-/
import Snell.PeerSafety
import Snell.Reading
import Mathlib.Data.List.TakeWhile

namespace Snell

open RecordDecoder StagedDecoder Staged

namespace Item

/-- The payload of a record, read from its own bytes. -/
def plain (x : Item × Bytes) : Bytes :=
  match x.1 with
  | .data i j => (x.2.drop i).take (j - i)
  | .zeroChunk => []

def isData (x : Item × Bytes) : Bool :=
  match x.1 with
  | .data _ _ => true
  | .zeroChunk => false

/-- The payloads of the records, in order. -/
def plainOf (xs : List (Item × Bytes)) : Bytes := xs.flatMap plain

@[simp] theorem plainOf_nil : plainOf [] = [] := rfl

@[simp] theorem plainOf_cons (x : Item × Bytes) (xs : List (Item × Bytes)) : plainOf (x :: xs) = plain x ++ plainOf xs :=
  List.flatMap_cons

@[simp] theorem plainOf_append (xs ys : List (Item × Bytes)) : plainOf (xs ++ ys) = plainOf xs ++ plainOf ys :=
  List.flatMap_append

/-- What a record handed out says. -/
theorem record_inj {item item' : Item} {off n n' : Nat} (h : item.record off n = item'.record off n') :
    item = item' ∧ n = n' := by
  cases item <;> cases item' <;> simp only [record, DecodedRecord.mk.injEq, reduceCtorEq, and_false] at h
  · obtain ⟨rfl, h₁, h₂, -⟩ := h
    rw [Nat.add_left_cancel h₁, Nat.add_left_cancel h₂]
    exact ⟨rfl, rfl⟩
  · exact ⟨rfl, h.1⟩

end Item

variable {D : Type} [RecordDecoder D] [StagedDecoder D] {max taken : Nat} {d₀ d₁ d : D} {stream rest : Bytes}
  {xs zs : List (Item × Bytes)} {z : Item × Bytes}

/-! ## What a stream carries -/

/-- The records the decoder makes of a stream. -/
def decoded (max : Nat) (d₀ : D) (stream : Bytes) : List (Item × Bytes) :=
  (parse (machine max) (stream.length + 1) d₀ stream).1

/-- The plaintext before the first zero chunk, the first record that does not
decode, or the end of the stream. -/
def carried (max : Nat) (d₀ : D) (stream : Bytes) : Bytes :=
  Item.plainOf ((decoded max d₀ stream).takeWhile Item.isData)

/-- As far as a stream was read, that is what it decodes to. -/
theorem decoded_prefix (h : Parses (machine max) d₀ stream xs d₁ rest) : xs <+: decoded max d₀ stream := by
  obtain ⟨zs, hzs, -⟩ := h.prefix_of_stuck (parse_parses (stream.length + 1) d₀ stream)
    (parse_stuck (Nat.lt_succ_self _))
  exact ⟨zs, hzs.symm⟩

theorem decoded_of_stuck (h : Parses (machine max) d₀ stream xs d₁ rest)
    (hstuck : ∀ n x l s, run (machine max) d₁ rest ≠ .emit n x l s) : decoded max d₀ stream = xs := by
  obtain ⟨ys, hys⟩ := decoded_prefix h
  obtain ⟨zs, hzs, -⟩ := (parse_parses (M := machine max) (stream.length + 1) d₀ stream).prefix_of_stuck h hstuck
  have hlen := congrArg List.length hzs
  rw [show (parse (machine max) (stream.length + 1) d₀ stream).1 = decoded max d₀ stream from rfl, ← hys,
    List.length_append, List.length_append] at hlen
  rw [← hys, List.eq_nil_of_length_eq_zero (show ys.length = 0 by omega), List.append_nil]

/-- Data that was read is carried. -/
theorem carried_prefix (h : Parses (machine max) d₀ stream xs d₁ rest) (hdata : ∀ x ∈ xs, Item.isData x = true) :
    Item.plainOf xs <+: carried max d₀ stream := by
  obtain ⟨ys, hys⟩ := decoded_prefix h
  rw [carried, ← hys, List.takeWhile_append_of_pos hdata, Item.plainOf_append]
  exact List.prefix_append _ _

/-- A zero chunk ends what is carried. -/
theorem carried_zeroChunk (h : Parses (machine max) d₀ stream (zs ++ [z]) d₁ rest) (hdata : ∀ x ∈ zs, Item.isData x = true)
    (hz : Item.isData z = false) : carried max d₀ stream = Item.plainOf zs := by
  obtain ⟨ys, hys⟩ := decoded_prefix h
  rw [carried, ← hys, List.append_assoc, List.takeWhile_append_of_pos hdata, List.singleton_append,
    List.takeWhile_cons_of_neg (by rw [hz]; exact Bool.false_ne_true), List.append_nil]

/-- So does the record that cannot be read. -/
theorem carried_of_stuck (h : Parses (machine max) d₀ stream xs d₁ rest) (hdata : ∀ x ∈ xs, Item.isData x = true)
    (hstuck : ∀ n x l s, run (machine max) d₁ rest ≠ .emit n x l s) : carried max d₀ stream = Item.plainOf xs := by
  have hall : xs.takeWhile Item.isData = xs := List.takeWhile_eq_self_iff.mpr hdata
  rw [carried, decoded_of_stuck h hstuck, hall]

/-! ## The decoder and its buffer -/

variable {b b' : Buffer}

/-- The buffer holds the records not consumed, whatever is behind them. -/
structure Holding (max : Nat) (xs : List (Item × Bytes)) (taken : Nat) (rest : Bytes) (d : D) (b : Buffer) : Prop where
  taken_le : taken ≤ xs.length
  pending_eq : pending d = (outstanding xs taken).length
  within : ∀ x ∈ xs, x.1.Within x.2.length
  positive : ∀ x ∈ xs, 0 < x.2.length
  wf : b.Wf
  max_eq : b.max = max
  filled : b.filled = outstanding xs taken ++ rest

namespace Holding

omit [StagedDecoder D] in
theorem len_eq (h : Holding max xs taken rest d b) : b.len = (outstanding xs taken).length + rest.length := by
  rw [← Buffer.filled_length, h.filled, List.length_append]

omit [StagedDecoder D] in
theorem length_le (h : Holding max xs taken rest d b) : (outstanding xs taken).length + rest.length ≤ max := by
  have := h.wf.len_le
  rw [← h.len_eq, ← h.max_eq, Buffer.len]
  omega

/-- The oldest record is consumed. -/
theorem consume (h : Holding max xs taken rest d b) {x : Item × Bytes} (hx : xs[taken]? = some x) {r : DecodedRecord}
    (hr : r.consumed = x.2.length) :
    ∃ b', RecordDecoder.consume d b r = (.ok (), setPending d (pending d - x.2.length), b') ∧
      Holding max xs (taken + 1) rest (setPending d (pending d - x.2.length)) b' := by
  have hlt := (List.getElem?_eq_some_iff.mp hx).1
  have hlen := h.len_eq
  have hpend := h.pending_eq
  rw [outstanding_cons hx, List.length_append] at hlen hpend
  obtain ⟨b', hb⟩ := Buffer.consume_fits (b := b) (n := r.consumed) (by omega)
  obtain ⟨-, hfill, hmax, -, hwf⟩ := Buffer.consume_ok h.wf hb
  refine ⟨b', ?_, { h with taken_le := hlt, pending_eq := ?_, wf := hwf, max_eq := hmax.trans h.max_eq, filled := ?_ }⟩
  · rw [RecordDecoder.consume, if_neg (by omega)]
    simp only [hb]
    rw [hr]
  · rw [pending_set]; omega
  · rw [hfill, h.filled, outstanding_cons hx, List.append_assoc, hr, List.drop_left]

end Holding

variable {C : Crypto} [KdfDecoder C D] [SafeDecoder D]

/-- From `d₀`, `stream` was read as the items `xs`, of which the first `taken`
are consumed; the buffer holds the others and `rest`. -/
structure Receiving (C : Crypto) [KdfDecoder C D] (max : Nat) (d₀ : D) (stream : Bytes) (xs : List (Item × Bytes))
    (taken : Nat) (rest : Bytes) (d : D) (b : Buffer) : Prop where
  reading : Reading C max d₀ stream xs taken rest d
  valid : SafeDecoder.Valid d
  within : ∀ x ∈ xs, x.1.Within x.2.length
  positive : ∀ x ∈ xs, 0 < x.2.length
  wf : b.Wf
  max_eq : b.max = max
  filled : b.filled = outstanding xs taken ++ rest

/-- The stream is used up in the middle of a record, or between two. -/
def Starves (max : Nat) (d₀ : D) (stream : Bytes) (xs : List (Item × Bytes)) (rest : Bytes) : Prop :=
  ∃ d₁ k d₂, Parses (machine max) d₀ stream xs d₁ rest ∧ run (machine max) d₁ rest = .need k d₂

/-- What a decode of the buffer comes to. -/
inductive Received (C : Crypto) [KdfDecoder C D] (max : Nat) (d₀ : D) (stream : Bytes) (xs : List (Item × Bytes))
    (taken : Nat) (rest : Bytes) : Res DecodeStatus × D × Buffer → Prop
  | needMore {k d' b'} : rest.length < k → k ≤ max → Starves max d₀ stream xs rest →
      Receiving C max d₀ stream xs taken rest d' b' →
      Received C max d₀ stream xs taken rest (.ok (.needMore ((outstanding xs taken).length + k)), d', b')
  | record {item w rest' d' b'} : 0 < w.length → w.length + rest'.length = rest.length →
      rest' = rest.drop w.length → Receiving C max d₀ stream (xs ++ [(item, w)]) taken rest' d' b' →
      Received C max d₀ stream xs taken rest
        (.ok (.record (item.record (outstanding xs taken).length w.length)), d', b')
  | error {e rest' d' b'} : Ends max d₀ stream xs (.err e) → Holding max xs taken rest' d' b' →
      rest'.length = rest.length → Received C max d₀ stream xs taken rest (.error (.err e), d', b')

namespace Receiving

theorem holding (h : Receiving C max d₀ stream xs taken rest d b) : Holding max xs taken rest d b :=
  ⟨h.reading.taken_le, h.reading.pending_eq, h.within, h.positive, h.wf, h.max_eq, h.filled⟩

/-- Before anything is read, the buffer is the stream. -/
theorem start (C : Crypto) [KdfDecoder C D] (hp : pending d = 0) (hv : SafeDecoder.Valid d) (hw : b.Wf) :
    Receiving C b.max d b.filled [] 0 b.filled d b where
  reading := by simpa using (Reading.start C b.max hp).arrive b.filled
  valid := hv
  within x hx := by cases hx
  positive x hx := by cases hx
  wf := hw
  max_eq := rfl
  filled := rfl

/-- Another buffer with the same bytes. -/
theorem moved (h : Receiving C max d₀ stream xs taken rest d b) (hw : b'.Wf) (hmax : b'.max = b.max)
    (hf : b'.filled = b.filled) : Receiving C max d₀ stream xs taken rest d b' :=
  { h with wf := hw, max_eq := hmax.trans h.max_eq, filled := hf.trans h.filled }

/-- More bytes arrive. -/
theorem arrive (h : Receiving C max d₀ stream xs taken rest d b) {bytes : Bytes} (hw : b'.Wf) (hmax : b'.max = b.max)
    (hf : b'.filled = b.filled ++ bytes) : Receiving C max d₀ (stream ++ bytes) xs taken (rest ++ bytes) d b' :=
  { h with
    reading := h.reading.arrive bytes
    wf := hw, max_eq := hmax.trans h.max_eq
    filled := by rw [hf, h.filled, List.append_assoc] }

theorem starves (h : Receiving C max d₀ stream xs taken rest d b) {k : Nat} {d' : D}
    (hr : run (machine max) (setPending d 0) rest = .need k d') : Starves max d₀ stream xs rest := by
  obtain ⟨d₁, -, hparses, hrun⟩ := h.reading.reads
  have hrest := hrun []
  rw [List.append_nil] at hrest
  exact ⟨d₁, k, d', hparses, hrest.symm.trans hr⟩

theorem decode (h : Receiving C max d₀ stream xs taken rest d b) :
    Received C max d₀ stream xs taken rest (decodeBuf d b) := by
  have hlen : (outstanding xs taken ++ rest).length = b.len := by rw [← h.filled, Buffer.filled_length]
  have hdec := h.reading.decode
  have hrun : RecordDecoder.decode d max (outstanding xs taken ++ rest) =
      answer (outstanding xs taken) rest (run (machine max) (setPending d 0) rest) :=
    decode_eq d max _ _ h.reading.atStart_pending h.reading.pending_eq.symm
  have hvalid : SafeDecoder.Valid (run (machine max) (setPending d 0) rest).state :=
    SafeDecoder.run_valid rest (SafeDecoder.valid_set 0 h.valid)
  simp only [decodeBuf, h.max_eq, h.filled]
  generalize RecordDecoder.decode d max (outstanding xs taken ++ rest) = result at hdec hrun
  cases hr : run (machine max) (setPending d 0) rest with
  | need k d' =>
    rw [hr] at hrun hvalid
    generalize hres : answer (outstanding xs taken) rest (.need k d') = needed at hrun
    subst hrun
    cases hdec with
    | record => cases hres
    | error => cases hres
    | needMore hlt hmax hread =>
      simp only [answer, Prod.mk.injEq] at hres
      obtain ⟨-, rfl, -⟩ := hres
      exact .needMore hlt hmax (h.starves hr) { h with
        reading := hread, valid := SafeDecoder.valid_set _ hvalid
        wf := Buffer.setFilled_wf h.wf hlen, filled := Buffer.setFilled_filled h.wf }
  | emit n item l d' =>
    rw [hr] at hrun hvalid
    generalize hres : answer (outstanding xs taken) rest (.emit n item l d') = emitted at hrun
    subst hrun
    cases hdec with
    | needMore => cases hres
    | error => cases hres
    | @record item' w rest' d'' hpos hmax hsum hdrop hread =>
      simp only [answer, Prod.mk.injEq, Except.ok.injEq, DecodeStatus.record.injEq] at hres
      obtain ⟨hrecord, rfl, -⟩ := hres
      obtain ⟨rfl, rfl⟩ := Item.record_inj hrecord
      have hlen' : (outstanding xs taken ++ (w ++ rest')).length = b.len := by
        rw [← hlen, List.length_append, List.length_append, List.length_append]
        omega
      refine .record hpos hsum hdrop {
        reading := hread, valid := SafeDecoder.valid_set _ hvalid
        within := List.forall_mem_append.mpr ⟨h.within, List.forall_mem_singleton.mpr
          (SafeDecoder.emit_within (SafeDecoder.valid_set 0 h.valid) hr)⟩
        positive := List.forall_mem_append.mpr ⟨h.positive, List.forall_mem_singleton.mpr hpos⟩
        wf := Buffer.setFilled_wf h.wf hlen', max_eq := h.max_eq, filled := ?_ }
      rw [Buffer.setFilled_filled h.wf, outstanding_append h.reading.taken_le]
      simp only [List.map_cons, List.map_nil, List.flatten_cons, List.flatten_nil, List.append_nil, List.append_assoc]
  | fail f l d' =>
    obtain ⟨e, rfl⟩ := SafeDecoder.fail_returned (SafeDecoder.valid_set 0 h.valid) hr
    have hl := run_fail_length hr
    rw [hr] at hrun
    subst hrun
    cases hdec with
    | error hends =>
      refine .error hends { h.holding with
        pending_eq := pending_set _ _, wf := Buffer.setFilled_wf h.wf ?_, filled := Buffer.setFilled_filled h.wf } hl
      show (outstanding xs taken ++ l).length = b.len
      rw [← hlen, List.length_append, List.length_append, hl]

/-- The oldest record is consumed. -/
theorem consume (h : Receiving C max d₀ stream xs taken rest d b) {x : Item × Bytes} (hx : xs[taken]? = some x)
    {r : DecodedRecord} (hr : r.consumed = x.2.length) :
    ∃ d' b', RecordDecoder.consume d b r = (.ok (), d', b') ∧
      Receiving C max d₀ stream xs (taken + 1) rest d' b' := by
  obtain ⟨b', hconsume, hhold⟩ := h.holding.consume hx hr
  refine ⟨_, b', hconsume, { hhold with
    reading := (h.reading.consume hx).2, valid := SafeDecoder.valid_set _ h.valid }⟩

/-- All records are consumed. -/
theorem drained (h : Receiving C max d₀ stream xs taken rest d b)
    (hhold : Holding max xs xs.length rest (setPending d 0) b') :
    Receiving C max d₀ stream xs xs.length rest (setPending d 0) b' :=
  { hhold with reading := h.reading.drained, valid := SafeDecoder.valid_set _ h.valid }

/-- A key derived outside the decoder. -/
theorem install (h : Receiving C max d₀ stream xs taken rest d b) :
    (∃ d', installKdf C (KdfDecoder.psk C d₀) d b.filled = .ok d' ∧ Receiving C max d₀ stream xs taken rest d' b) ∨
      ∃ f, installKdf C (KdfDecoder.psk C d₀) d b.filled = .error f ∧ Ends max d₀ stream xs f := by
  have hinst := h.reading.install (by rw [List.length_append]; exact h.holding.length_le)
  rw [h.filled]
  cases hi : installKdf C (KdfDecoder.psk C d₀) d (outstanding xs taken ++ rest) with
  | ok d' =>
    rw [hi] at hinst
    exact .inl ⟨d', rfl, { h with reading := hinst, valid := SafeDecoder.install_valid h.valid hi }⟩
  | error f =>
    rw [hi] at hinst
    exact .inr ⟨f, rfl, hinst⟩

end Receiving

end Snell
