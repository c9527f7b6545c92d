/-
What `pump_snell_to_plain` does, however the reader and the writer answer.

After every turn the records decoded and not consumed are the batch, and what
was written is the payload of those consumed and some of the batch's
(`Carrying`). A turn keeps that (`turn_leads`), and so does every number of
polls; from the last state, what was written compares with what the stream
carries.
-/
import Snell.SnellToPlain

namespace Snell

open RecordDecoder StagedDecoder Staged Polling

namespace SnellToPlain

/-! ## Scripts are used up -/

/-- `s'` comes after `s`. -/
abbrev Later {D : Type} (s s' : SnellToPlain D) : Prop := HalvesLater s.reader s.writer s'.reader s'.writer

/-- Bytes there and to come. -/
def total {D : Type} (s : SnellToPlain D) : Nat := s.reader.coming.length + s.recv.buffer.len

/-- Bytes move from the socket to the buffer. -/
theorem total_read {D : Type} {s : SnellToPlain D} {reader : ReadHalf} {recv : PooledBuffer} {bytes : Bytes}
    (hg : s.reader.Gave reader bytes) (hf : recv.buffer.filled = s.recv.buffer.filled ++ bytes) :
    total { s with reader, recv } = total s := by
  have hlen := congrArg List.length hf
  have hcoming := congrArg List.length hg.coming
  rw [List.length_append, Buffer.filled_length, Buffer.filled_length] at hlen
  rw [List.length_append] at hcoming
  simp only [total]
  omega

/-! ## The invariant -/

variable {D : Type} [RecordDecoder D] {s₀ p s : SnellToPlain D}

/-- The bytes that arrived, the records they were read as, how many of those
were consumed, and the bytes that were not read. -/
structure View where
  got : Bytes
  xs : List (Item × Bytes)
  taken : Nat
  rest : Bytes

/-- What came in: the bytes in the buffer at first, and those that arrived. -/
def View.stream (v : View) (s₀ : SnellToPlain D) : Bytes := s₀.recv.buffer.filled ++ v.got

variable {v : View}

/-- The batch is the records not consumed; those consumed were written, with
some of the batch. -/
structure Carrying (s₀ s : SnellToPlain D) (v : View) : Prop where
  gave : s₀.reader.Gave s.reader v.got
  later : Later s₀ s
  holding : Holding s₀.recv.buffer.max v.xs v.taken v.rest s.decoder s.recv.buffer
  small : s₀.recv.buffer.max ≤ 73728
  records : s.batch.records = DecodeBatch.placed 0 (v.xs.drop v.taken)
  count : v.xs.length ≤ v.taken + writeBatchMax
  written_le : s.batch.written ≤ (Item.plainOf (v.xs.drop v.taken)).length
  sent : s.writer.sent = s₀.writer.sent ++
    (Item.plainOf (v.xs.take v.taken) ++ (Item.plainOf (v.xs.drop v.taken)).take s.batch.written)

theorem Carrying.isEmpty_iff (h : Carrying s₀ s v) : s.batch.isEmpty = true ↔ v.taken = v.xs.length := by
  have := h.holding.taken_le
  rw [DecodeBatch.isEmpty, h.records, DecodeBatch.length_placed, List.length_drop, beq_iff_eq]
  omega

/-- With the batch empty, all payload is written. -/
theorem Carrying.flushed (h : Carrying s₀ s v) (hall : v.taken = v.xs.length) :
    s.writer.sent = s₀.writer.sent ++ Item.plainOf v.xs := by
  rw [h.sent, hall, List.drop_length, List.take_length, Item.plainOf_nil, List.take_nil, List.append_nil]

/-- The end of the stream is marked. -/
theorem Carrying.marked (h : Carrying s₀ s v) (ending : Option (Except SessionError Unit)) (shuttingDown : Bool) :
    Carrying s₀ { s with batch := { s.batch with ending }, shuttingDown } v :=
  { h with later := h.later }

/-- The view when more bytes have arrived. -/
def View.add (v : View) (bytes : Bytes) : View := { v with got := v.got ++ bytes, rest := v.rest ++ bytes }

theorem View.add_nil (v : View) : v.add [] = v := by
  obtain ⟨got, xs, taken, rest⟩ := v
  simp only [View.add, List.append_nil]

theorem Carrying.read (h : Carrying s₀ s v) {reader : ReadHalf} {recv : PooledBuffer} {bytes : Bytes}
    (hg : s.reader.Gave reader bytes) (hw : recv.buffer.Wf) (hmax : recv.buffer.max = s.recv.buffer.max)
    (hf : recv.buffer.filled = s.recv.buffer.filled ++ bytes) :
    Carrying s₀ { s with reader, recv } (v.add bytes) where
  gave := h.gave.trans hg
  later := h.later.read hg
  holding := { h.holding with
    wf := hw, max_eq := hmax.trans h.holding.max_eq
    filled := by rw [hf, h.holding.filled, List.append_assoc]; rfl }
  small := h.small
  records := h.records
  count := h.count
  written_le := h.written_le
  sent := h.sent

/-! ## Where the stream stands -/

def View.AllData (v : View) : Prop := ∀ x ∈ v.xs, Item.isData x = true

/-- The last record is a zero chunk, the first one. -/
def View.EndsInZero (v : View) : Prop :=
  ∃ zs z, v.xs = zs ++ [z] ∧ (∀ x ∈ zs, Item.isData x = true) ∧ Item.isData z = false

variable [StagedDecoder D] {C : Crypto} [KdfDecoder C D] [SafeDecoder D]

/-- The next record cannot be read. -/
def View.Fails (v : View) (s₀ : SnellToPlain D) (e : Error) : Prop :=
  Ends s₀.recv.buffer.max s₀.decoder (v.stream s₀) v.xs (.err e)

/-- The next record is not all there. -/
def View.Starves (v : View) (s₀ : SnellToPlain D) : Prop :=
  Snell.Starves s₀.recv.buffer.max s₀.decoder (v.stream s₀) v.xs v.rest

/-- The records are what the decoder made of the stream. -/
def View.Reads (C : Crypto) [KdfDecoder C D] (v : View) (s₀ s : SnellToPlain D) : Prop :=
  Receiving C s₀.recv.buffer.max s₀.decoder (v.stream s₀) v.xs v.taken v.rest s.decoder s.recv.buffer

/-- Where the stream stands: data so far, its end found behind the batch, or
its end reached. -/
inductive Standing (C : Crypto) [KdfDecoder C D] (s₀ s : SnellToPlain D) (v : View) : Prop
  | going (hreads : v.Reads C s₀ s) (hdata : v.AllData) (hend : s.batch.ending = none) (hs : s.shuttingDown = false)
  | zeroAhead (hreads : v.Reads C s₀ s) (hzero : v.EndsInZero) (hend : s.batch.ending = some (.ok ()))
    (hs : s.shuttingDown = false) (hleft : v.taken < v.xs.length)
  | errorAhead (e : Error) (hdata : v.AllData) (hfails : v.Fails s₀ e)
    (hend : s.batch.ending = some (.error (.ofProtocol e))) (hs : s.shuttingDown = false)
    (hleft : v.taken < v.xs.length)
  | zeroChunk (hreads : v.Reads C s₀ s) (hzero : v.EndsInZero) (hs : s.shuttingDown = true)
    (hall : v.taken = v.xs.length)
  | atEnd (hreads : v.Reads C s₀ s) (hdata : v.AllData) (hstarves : v.Starves s₀) (hnil : v.rest = [])
    (hend : s.reader.AtEnd) (hs : s.shuttingDown = true) (hall : v.taken = v.xs.length)

structure Inv (C : Crypto) [KdfDecoder C D] (s₀ s : SnellToPlain D) (v : View) : Prop extends Carrying s₀ s v where
  standing : Standing C s₀ s v
  closing : s.writer.closing = true → s₀.writer.closing = true ∨ s.shuttingDown = true

/-! ## How a poll ends -/

/-- What a future that returned says of the stream, and of what was written. -/
inductive Outcome (C : Crypto) [KdfDecoder C D] (s₀ s : SnellToPlain D) (v : View) : SessionRes Unit → Prop
  | closed (h : Inv C s₀ s v) (hs : s.shuttingDown = true) (hclosing : s.writer.closing = true) : Outcome C s₀ s v (.ok ())
  | shutdownFailed (kind : IoErrorKind) (h : Inv C s₀ s v) (hs : s.shuttingDown = true)
    (hfailed : .failed kind ∈ s₀.writer.shutdowns) : Outcome C s₀ s v (.error (.err (.io kind)))
  | decodeFailed (e : Error) (hg : s₀.reader.Gave s.reader v.got) (hdata : v.AllData) (hfails : v.Fails s₀ e)
    (hflush : s.writer.sent = s₀.writer.sent ++ Item.plainOf v.xs)
    (hclosing : s.writer.closing = true → s₀.writer.closing = true) : Outcome C s₀ s v (.error (.err (.ofProtocol e)))
  | midRecord (h : Inv C s₀ s v) (hdata : v.AllData) (hstarves : v.Starves s₀) (hne : v.rest ≠ [])
    (hend : s.reader.AtEnd) (hall : v.taken = v.xs.length) : Outcome C s₀ s v (.error (.err .eof))
  | readFailed (kind : IoErrorKind) (h : Inv C s₀ s v) (hfails : s₀.reader.Fails kind) (hdata : v.AllData)
    (hstarves : v.Starves s₀) (hall : v.taken = v.xs.length) : Outcome C s₀ s v (.error (.err (.io kind)))
  | writeFailed (kind : IoErrorKind) (h : Inv C s₀ s v) (hbad : ∃ a ∈ s₀.writer.answers, ¬ a.Good) :
    Outcome C s₀ s v (.error (.err (.io kind)))

/-- What a pending future waits for, in the poll from `s` to `s'`: the reader
when all that was read is written, the writer, or the shutdown. -/
inductive PendingOn (s₀ s s' : SnellToPlain D) (v : View) : Prop
  | reader (hall : v.taken = v.xs.length) (hstarves : v.Starves s₀) (hdata : v.AllData)
    (hwaits : s.reader.Waits s'.reader)
  | writer (hwaits : Waited .pending s.writer.answers s'.writer.answers)
  | shutdown (hs : s'.shuttingDown = true) (hwaits : Waited .pending s.writer.shutdowns s'.writer.shutdowns)

/-! ## Filling a batch -/

/-- The batch is being filled, since `p`: none of it was written, and there is
room. -/
structure Filling (C : Crypto) [KdfDecoder C D] (s₀ p s : SnellToPlain D) (v : View) : Prop
    extends Carrying s₀ s v where
  receiving : v.Reads C s₀ s
  since : Later p s
  bound : total s ≤ total p
  allData : v.AllData
  ending : s.batch.ending = none
  going : s.shuttingDown = false
  room : v.xs.length < v.taken + writeBatchMax
  unwritten : s.batch.written = 0
  closing : s.writer.closing = true → s₀.writer.closing = true

/-- How the loop that fills a batch ends: with a batch or the end of the
stream, or the future returns. -/
def FillEnds (C : Crypto) [KdfDecoder C D] (s₀ p : SnellToPlain D) : Option (SessionRes Unit) → SnellToPlain D → Prop
  | none, s => (∃ v, Inv C s₀ s v) ∧ Later p s ∧ total s ≤ total p ∧ (s.shuttingDown = true ∨ s.batch.isEmpty = false)
  | some r, s => ∃ v, Outcome C s₀ s v r

/-- What a turn of that loop has left to do. -/
def fillLeft (s : SnellToPlain D) : Nat := (writeBatchMax - s.batch.records.length) + s.reader.coming.length

/-- What a turn of that loop comes to. -/
def FillLeads (C : Crypto) [KdfDecoder C D] (s₀ p s : SnellToPlain D) :
    Turn (SnellToPlain D) (Option (SessionRes Unit)) → Prop :=
  Turn.Leads (fun s' => (∃ v, Filling C s₀ p s' v) ∧ fillLeft s' < fillLeft s)
    (fun s' => ∃ v, Inv C s₀ s' v ∧ PendingOn s₀ p s' v) (FillEnds C s₀ p)

/-- A state that differs in what was read. -/
theorem Filling.inv (h : Filling C s₀ p s v) {s' : SnellToPlain D} (hc : Carrying s₀ s' v) (hreads : v.Reads C s₀ s')
    (hb : s'.batch = s.batch) (hw : s'.writer = s.writer) (hs : s'.shuttingDown = s.shuttingDown) : Inv C s₀ s' v where
  toCarrying := hc
  standing := .going hreads h.allData (hb ▸ h.ending) (hs.trans h.going)
  closing hcl := .inl (h.closing (hw ▸ hcl))

theorem View.Reads.read (h : v.Reads C s₀ s) (reader : ReadHalf) {recv : PooledBuffer} {bytes : Bytes}
    (hw : recv.buffer.Wf) (hmax : recv.buffer.max = s.recv.buffer.max)
    (hf : recv.buffer.filled = s.recv.buffer.filled ++ bytes) : (v.add bytes).Reads C s₀ { s with reader, recv } := by
  have := h.arrive hw hmax hf
  rwa [View.stream, List.append_assoc] at this

/-- Reading more, where the next record is not all there. -/
theorem readMore_leads (h : Filling C s₀ p s v) (hall : v.taken = v.xs.length) (hstarves : v.Starves s₀) {k : Nat}
    (hk : v.rest.length < k) (hmax : k ≤ s₀.recv.buffer.max) : FillLeads C s₀ p s (s.readMore k) := by
  have hrecv := h.receiving
  have hrest : s.recv.buffer.filled = v.rest := by
    rw [hrecv.filled, hall, outstanding_all, List.nil_append]
  have hlen : s.recv.buffer.len = v.rest.length := by rw [← hrest, Buffer.filled_length]
  have hread := pollReadInto_reads s.reader readWindow hrecv.wf (show k ≤ _ by rw [hrecv.max_eq]; exact hmax)
    (by rw [hrecv.max_eq]; omega) (by rw [hrecv.max_eq]; exact h.small)
  unfold readMore
  generalize pollReadInto s.reader s.recv k readWindow = result at hread
  cases hread with
  | @pending reader recv hg hwaits hw hf hm =>
    obtain ⟨hw', hf', hm'⟩ := PooledBuffer.releaseEmpty_kept hw
    obtain ⟨bytes, hp⟩ := h.since.reader
    have hsame : recv.releaseEmpty.buffer.filled = s.recv.buffer.filled ++ [] := hf'.trans (by rw [hf, List.append_nil])
    have hc := h.toCarrying.read hg hw' (hm'.trans hm) hsame
    have hreads := h.receiving.read reader hw' (hm'.trans hm) hsame
    rw [View.add_nil] at hc hreads
    exact ⟨v, h.inv hc hreads rfl rfl rfl, .reader hall hstarves h.allData (hwaits.after hp)⟩
  | @failed reader recv kind hg hfails hw hf hm =>
    have hsame : recv.buffer.filled = s.recv.buffer.filled ++ [] := by rw [hf, List.append_nil]
    have hc := h.toCarrying.read hg hw hm hsame
    have hreads := h.receiving.read reader hw hm hsame
    rw [View.add_nil] at hc hreads
    exact ⟨v, .readFailed kind (h.inv hc hreads rfl rfl rfl) (hfails.before h.gave) h.allData hstarves hall⟩
  | @read reader recv bytes hg hend hw hf hm =>
    have hc := h.toCarrying.read hg hw hm hf
    have hreads := h.receiving.read reader hw hm hf
    have hsince : Later p { s with reader, recv } := h.since.read hg
    have hbound : total { s with reader, recv } ≤ total p := by rw [total_read hg hf]; exact h.bound
    simp only
    by_cases hzero : bytes.length = 0
    · rw [if_pos hzero]
      have hnil := List.eq_nil_of_length_eq_zero hzero
      subst hnil
      rw [View.add_nil] at hc hreads
      have hatEnd : reader.AtEnd := by
        obtain ⟨hcoming, hclosed⟩ := hend rfl
        exact ⟨hg.coming.symm.trans hcoming, hg.closed.trans hclosed⟩
      have hsame : recv.buffer.filled = v.rest := by rw [hf, List.append_nil, hrest]
      by_cases hempty : recv.buffer.isEmpty = true
      · rw [if_pos hempty]
        have hrestnil : v.rest = [] := hsame ▸ (Buffer.isEmpty_iff hw).mp hempty
        exact ⟨⟨v, { hc.marked s.batch.ending true with
          standing := .atEnd hreads h.allData hstarves hrestnil hatEnd rfl hall, closing := fun _ => .inr rfl }⟩,
          hsince, hbound, .inl rfl⟩
      · rw [if_neg hempty]
        exact ⟨v, .midRecord (h.inv hc hreads rfl rfl rfl) h.allData hstarves
          (fun hnil => hempty ((Buffer.isEmpty_iff hw).mpr (hsame.trans hnil)))
          hatEnd hall⟩
    · rw [if_neg hzero]
      have hcoming := congrArg List.length hg.coming
      rw [List.length_append] at hcoming
      exact ⟨⟨_, { h with toCarrying := hc, receiving := hreads, since := hsince, bound := hbound }⟩,
        by simp only [fillLeft]; omega⟩

/-- One more record is in the batch. -/
theorem Filling.push (h : Filling C s₀ p s v) {item : Item} {w rest : Bytes} {d : D} {b : Buffer}
    (hrecv : Receiving C s₀.recv.buffer.max s₀.decoder (v.stream s₀) (v.xs ++ [(item, w)]) v.taken rest d b) :
    ∃ batch, s.batch.push (item.record (outstanding v.xs v.taken).length w.length) = .ok batch ∧
      batch.records.length = s.batch.records.length + 1 ∧ batch.ending = none ∧ batch.written = 0 ∧
      Carrying s₀ { s with decoder := d, recv := { s.recv with buffer := b }, batch }
        ⟨v.got, v.xs ++ [(item, w)], v.taken, rest⟩ := by
  have htaken := h.receiving.reading.taken_le
  have hroom : s.batch.records.length < writeBatchMax := by
    have := h.room
    rw [h.records, DecodeBatch.length_placed, List.length_drop]
    omega
  refine ⟨_, if_pos hroom, by simp only [List.length_append, List.length_singleton], h.ending, h.unwritten, ?_⟩
  exact {
    gave := h.gave
    later := h.later
    holding := hrecv.holding
    small := h.small
    records := by
      rw [List.drop_append_of_le_length htaken, DecodeBatch.placed_concat, h.records, Nat.zero_add]
      rfl
    count := by
      have := h.room
      simp only [List.length_append, List.length_singleton]
      omega
    written_le := by simp only [h.unwritten]; exact Nat.zero_le _
    sent := by
      have := h.sent
      simp only [h.unwritten, List.take_zero, List.append_nil] at this ⊢
      rw [List.take_append_of_le_length htaken]
      exact this }

/-- A zero chunk with no batch in front of it is consumed at once. -/
theorem Filling.consumedZero (h : Filling C s₀ p s v) (hall : v.taken = v.xs.length) {w rest : Bytes} {d : D} {b : Buffer}
    (hrecv : Receiving C s₀.recv.buffer.max s₀.decoder (v.stream s₀) (v.xs ++ [(.zeroChunk, w)]) (v.taken + 1) rest d b) :
    Carrying s₀ { s with decoder := d, recv := { s.recv with buffer := b }, shuttingDown := true }
      ⟨v.got, v.xs ++ [(.zeroChunk, w)], v.taken + 1, rest⟩ where
  gave := h.gave
  later := h.later
  holding := hrecv.holding
  small := h.small
  records := by
    rw [h.records, List.drop_eq_nil_of_le (by omega),
      List.drop_eq_nil_of_le (by simp only [List.length_append, List.length_singleton]; omega)]
  count := by simp only [List.length_append, List.length_singleton]; omega
  written_le := by simp only [h.unwritten]; exact Nat.zero_le _
  sent := by
    have := h.flushed hall
    simp only [h.unwritten, List.take_zero, List.append_nil]
    rw [List.take_of_length_le (by simp only [List.length_append, List.length_singleton]; omega),
      Item.plainOf_append, this]
    simp only [Item.plainOf_cons, Item.plain, Item.plainOf_nil, List.append_nil]

/-- A record was decoded. -/
theorem take_leads (h : Filling C s₀ p s v) {item : Item} {w rest : Bytes} {d : D} {b : Buffer}
    (hsum : w.length + rest.length = v.rest.length)
    (hrecv : Receiving C s₀.recv.buffer.max s₀.decoder (v.stream s₀) (v.xs ++ [(item, w)]) v.taken rest d b) :
    FillLeads C s₀ p s (take { s with decoder := d, recv := { s.recv with buffer := b } }
      (item.record (outstanding v.xs v.taken).length w.length)) := by
  obtain ⟨batch, hpush, hlen, hending, hwritten, hc⟩ := h.push hrecv
  have hroom : s.batch.records.length < writeBatchMax := by
    have := h.room; have := h.receiving.reading.taken_le
    rw [h.records, DecodeBatch.length_placed, List.length_drop]
    omega
  have hbound : s.reader.coming.length + b.len ≤ total p := by
    have hsame : b.len = s.recv.buffer.len := by
      rw [hrecv.holding.len_eq, h.receiving.holding.len_eq, outstanding_append h.receiving.reading.taken_le]
      simp only [List.map_cons, List.map_nil, List.flatten_cons, List.flatten_nil, List.append_nil, List.length_append]
      omega
    rw [hsame]
    exact h.bound
  have hnonempty : batch.isEmpty = false := by
    rw [DecodeBatch.isEmpty, hlen]
    rfl
  simp only [take]
  cases item with
  | zeroChunk =>
    rw [if_pos (show (Item.zeroChunk.record (outstanding v.xs v.taken).length w.length).kind = .zeroChunk from rfl)]
    have hzero : View.EndsInZero ⟨v.got, v.xs ++ [(.zeroChunk, w)], v.taken, rest⟩ :=
      ⟨v.xs, (.zeroChunk, w), rfl, h.allData, rfl⟩
    by_cases hempty : s.batch.isEmpty = true
    · rw [if_pos hempty]
      have hall := h.isEmpty_iff.mp hempty
      have hx : (v.xs ++ [(Item.zeroChunk, w)])[v.taken]? = some (.zeroChunk, w) := by
        rw [hall, List.getElem?_append_right (Nat.le_refl _), Nat.sub_self]
        rfl
      obtain ⟨d', b', hconsume, hrecv'⟩ := hrecv.consume hx
        (r := Item.zeroChunk.record (outstanding v.xs v.taken).length w.length) rfl
      simp only [hconsume]
      refine ⟨⟨⟨v.got, v.xs ++ [(Item.zeroChunk, w)], v.taken + 1, rest⟩, {
        h.consumedZero hall hrecv' with
        standing := .zeroChunk hrecv' hzero rfl (by simp only [hall, List.length_append, List.length_singleton])
        closing := fun _ => .inr rfl }⟩, h.since, ?_, .inl rfl⟩
      have hlen' := hrecv'.holding.len_eq
      have hlen := hrecv.holding.len_eq
      rw [outstanding_cons hx, List.length_append] at hlen
      rw [total]
      simp only
      omega
    · rw [if_neg hempty]
      simp only [hpush]
      have hleft : v.taken < (v.xs ++ [(Item.zeroChunk, w)]).length := by
        have := h.holding.taken_le
        rw [List.length_append, List.length_singleton]
        omega
      exact ⟨⟨_, { hc.marked (some (.ok ())) s.shuttingDown with
        standing := .zeroAhead hrecv hzero rfl h.going hleft, closing := fun hcl => .inl (h.closing hcl) }⟩,
        h.since, hbound, .inr hnonempty⟩
  | data i j =>
    rw [if_neg (show ¬ ((Item.data i j).record (outstanding v.xs v.taken).length w.length).kind = .zeroChunk by
      intro h; cases h)]
    simp only [hpush]
    have hdata : View.AllData ⟨v.got, v.xs ++ [(.data i j, w)], v.taken, rest⟩ := by
      intro x hx
      rcases List.mem_append.mp hx with hx | hx
      · exact h.allData x hx
      · rw [List.mem_singleton.mp hx]; rfl
    by_cases hfull : batch.isFull = true
    · rw [if_pos hfull]
      exact ⟨⟨_, { hc with standing := .going hrecv hdata hending h.going, closing := fun hcl => .inl (h.closing hcl) }⟩,
        h.since, hbound, .inr hnonempty⟩
    · rw [if_neg hfull]
      have hroom' : batch.records.length < writeBatchMax := by
        rw [DecodeBatch.isFull, beq_iff_eq] at hfull
        omega
      refine ⟨⟨_, { hc with
        receiving := hrecv, since := h.since, bound := hbound, allData := hdata, ending := hending, going := h.going
        room := ?_, unwritten := hwritten, closing := h.closing }⟩, ?_⟩
      · have hrecords := congrArg List.length hc.records
        rw [DecodeBatch.length_placed, List.length_drop] at hrecords
        simp only at hrecords ⊢
        omega
      · simp only [fillLeft, hlen]
        omega

theorem fillTurn_leads (h : Filling C s₀ p s v) : FillLeads C s₀ p s (fillTurn s) := by
  have hdec := h.receiving.decode
  unfold fillTurn
  generalize decodeBuf s.decoder s.recv.buffer = result at hdec
  cases hdec with
  | @needMore k d b hk hmax hstarves hrecv =>
    simp only
    have h' : Filling C s₀ p { s with decoder := d, recv := { s.recv with buffer := b } } v :=
      { h with
        later := h.later, holding := hrecv.holding, receiving := hrecv, since := h.since
        bound := by
          have := h.bound
          simp only [total, hrecv.holding.len_eq, h.receiving.holding.len_eq] at this ⊢
          exact this }
    by_cases hempty : s.batch.isEmpty = true
    · have hall := h.isEmpty_iff.mp hempty
      rw [if_pos hempty, hall, outstanding_all, List.length_nil, Nat.zero_add]
      exact readMore_leads h' hall hstarves hk hmax
    · rw [if_neg hempty]
      exact ⟨⟨v, h.inv h'.toCarrying hrecv rfl rfl rfl⟩, h'.since, h'.bound, .inr (Bool.eq_false_iff.mpr hempty)⟩
  | @record item w rest d b hpos hsum hdrop hrecv => exact take_leads h hsum hrecv
  | @error e rest d b hends hhold hlen =>
    simp only
    by_cases hempty : s.batch.isEmpty = true
    · rw [if_pos hempty]
      exact ⟨v, .decodeFailed e h.gave h.allData hends (h.flushed (h.isEmpty_iff.mp hempty)) h.closing⟩
    · rw [if_neg hempty]
      have hleft : v.taken < v.xs.length :=
        Nat.lt_of_le_of_ne h.holding.taken_le fun hall => hempty (h.isEmpty_iff.mpr hall)
      have hc : Carrying s₀ { s with decoder := d, recv := { s.recv with buffer := b } }
          ⟨v.got, v.xs, v.taken, rest⟩ := { h with later := h.later, holding := hhold }
      refine ⟨⟨_, { hc.marked (some (.error (.ofProtocol e))) s.shuttingDown with
        standing := .errorAhead e h.allData hends rfl h.going hleft, closing := fun hcl => .inl (h.closing hcl) }⟩,
        h.since, ?_, .inr (Bool.eq_false_iff.mpr hempty)⟩
      have := h.bound
      simp only [total, hhold.len_eq, h.holding.len_eq, hlen] at this ⊢
      exact this

theorem fill_leads (h : Filling C s₀ s s v) :
    (Polling.poll fillTurn s.fillTurns s).Leads (fun _ => False) (fun s' => ∃ v, Inv C s₀ s' v ∧ PendingOn s₀ s s' v)
      (FillEnds C s₀ s) := by
  refine poll_leads (I := fun s' => ∃ v, Filling C s₀ s s' v) (μ := fillLeft)
    (fun s' ⟨v', h'⟩ => fillTurn_leads h') ⟨v, h⟩ ?_
  simp only [fillLeft, fillTurns]
  omega

/-! ## Writing a batch -/

/-- What is left of a poll: a batch that is written takes a byte off what is
there and to come. -/
def weight (s : SnellToPlain D) : Nat :=
  3 * total s + (if s.shuttingDown then 0 else if s.batch.isEmpty then 2 else 1)

/-- What a turn comes to. -/
def TurnLeads (C : Crypto) [KdfDecoder C D] (s₀ s : SnellToPlain D) : Turn (SnellToPlain D) (SessionRes Unit) → Prop :=
  Turn.Leads (fun s' => (∃ v, Inv C s₀ s' v) ∧ Later s s' ∧ weight s' < weight s)
    (fun s' => ∃ v, Inv C s₀ s' v ∧ PendingOn s₀ s s' v) (fun r s' => ∃ v, Outcome C s₀ s' v r)

/-- The state after a poll of the writer. -/
def wrote (s : SnellToPlain D) (written : Nat) (w : Writer) : SnellToPlain D :=
  { s with batch := { s.batch with written }, writer := { s.writer with toWriter := w } }

omit [StagedDecoder D] [SafeDecoder D] in
theorem Carrying.pollWrite (h : Carrying s₀ s v) :
    ∃ r written w, s.batch.pollWrite s.recv.buffer.filled s.writer.toWriter = (r, { s.batch with written }, w) ∧
      w.answers <:+ s.writer.answers ∧ Carrying s₀ (s.wrote written w) v ∧
      WriteEnding ((v.xs.drop v.taken).map Item.plain) s.batch.written written s.writer.answers r ∧
      (r = .pending → Waited .pending s.writer.answers w.answers) := by
  have hparts : DecodeBatch.parts s.recv.buffer.filled s.batch.records = .ok ((v.xs.drop v.taken).map Item.plain) := by
    have hlen := h.holding.length_le
    have hsmall := h.small
    have hplaced := DecodeBatch.parts_placed [] v.rest (v.xs.drop v.taken)
      (fun x hx => h.holding.within x (List.mem_of_mem_drop hx))
      (by rw [List.nil_append, List.length_append]; rw [outstanding] at hlen; omega)
    rw [h.records, h.holding.filled]
    exact hplaced
  have hflat : ((v.xs.drop v.taken).map Item.plain).flatten = Item.plainOf (v.xs.drop v.taken) :=
    List.flatMap_def.symm
  have hroom : ((v.xs.drop v.taken).map Item.plain).length ≤ writeBatchMax := by
    have := h.count
    rw [List.length_map, List.length_drop]
    omega
  obtain ⟨r, written, w, hwrite, hle, hle', hsent, hsuf, hend⟩ :=
    writeParts_sent hroom s.batch.written s.writer.toWriter (by rw [hflat]; exact h.written_le)
  refine ⟨r, written, w, ?_, hsuf, ?_, hend, ?_⟩
  · simp only [DecodeBatch.pollWrite, hparts, hwrite]
  · exact {
      gave := h.gave
      later := ⟨h.later.reader, hsuf.trans h.later.answers, h.later.shutdowns⟩
      holding := h.holding
      small := h.small
      records := h.records
      count := h.count
      written_le := by rw [hflat] at hle'; exact hle'
      sent := by
        simp only [wrote]
        rw [hsent, h.sent, hflat, List.append_assoc, List.append_assoc, ← List.take_add, Nat.add_sub_cancel' hle] }
  · rintro rfl
    exact writePartsLoop_waited hwrite

/-- All records are consumed. -/
def View.drained (v : View) : View := { v with taken := v.xs.length }

/-- The state after a batch was written and consumed. -/
def consumed (s : SnellToPlain D) (b : Buffer) (shuttingDown : Bool) : SnellToPlain D :=
  { s with
    batch := .default, decoder := setPending s.decoder 0, recv := { s.recv with buffer := b }, shuttingDown }

omit [SafeDecoder D] in
theorem Carrying.consume (h : Carrying s₀ s v) (hall : s.batch.written = (Item.plainOf (v.xs.drop v.taken)).length) :
    ∃ b, DecodeBatch.consumeRecords s.decoder s.recv.buffer s.batch.records = (.ok (), setPending s.decoder 0, b) ∧
      ∀ shuttingDown, Carrying s₀ (s.consumed b shuttingDown) v.drained := by
  have hsmall := h.small
  obtain ⟨b, hconsume, hhold⟩ := DecodeBatch.consumeRecords_placed h.holding (by omega) 0
  refine ⟨b, by rw [h.records]; exact hconsume, fun shuttingDown => ?_⟩
  exact {
    gave := h.gave
    later := h.later
    holding := hhold
    small := h.small
    records := by simp only [View.drained, List.drop_length]; rfl
    count := Nat.le_add_right _ _
    written_le := Nat.zero_le _
    sent := by
      have := h.sent
      rw [hall, List.take_length, ← Item.plainOf_append, List.take_append_drop] at this
      simp only [View.drained, List.take_length, List.drop_length, Item.plainOf_nil, List.take_nil, List.append_nil]
      exact this }

omit [StagedDecoder D] [SafeDecoder D] in
/-- A batch that is written and consumed was made of bytes. -/
theorem weight_consumed (h : Carrying s₀ s v) (hleft : v.taken < v.xs.length) (hs : s.shuttingDown = false) {b : Buffer}
    {shuttingDown : Bool} (h' : Carrying s₀ (s.consumed b shuttingDown) v.drained) :
    weight (s.consumed b shuttingDown) < weight s := by
  have hx : v.xs[v.taken]? = some v.xs[v.taken] := List.getElem?_eq_getElem hleft
  have hpos := h.holding.positive v.xs[v.taken] (List.getElem_mem hleft)
  have hlen := h.holding.len_eq
  have hlen' := h'.holding.len_eq
  rw [outstanding_cons hx, List.length_append] at hlen
  simp only [View.drained, outstanding_all, List.length_nil, Nat.zero_add] at hlen'
  have hnonempty : s.batch.isEmpty = false := Bool.eq_false_iff.mpr fun he => by
    have := h.isEmpty_iff.mp he
    omega
  have htotal : total (s.consumed b shuttingDown) < total s := by
    simp only [total, consumed] at hlen' ⊢
    omega
  simp only [weight, hs, hnonempty, Bool.false_eq_true, if_false]
  split
  · omega
  · split <;> omega

/-- Before the end of the stream is reached, writing changes nothing else. -/
theorem Inv.wrote (h : Inv C s₀ s v) (hs : s.shuttingDown = false) {written : Nat} {w : Writer}
    (hc : Carrying s₀ (s.wrote written w) v) : Inv C s₀ (s.wrote written w) v where
  toCarrying := hc
  standing := by
    cases h.standing with
    | going hreads hdata hend hs => exact .going hreads hdata hend hs
    | zeroAhead hreads hzero hend hs hleft => exact .zeroAhead hreads hzero hend hs hleft
    | errorAhead e hdata hfails hend hs hleft => exact .errorAhead e hdata hfails hend hs hleft
    | zeroChunk _ _ hs' | atEnd _ _ _ _ _ hs' => rw [hs] at hs'; cases hs'
  closing := h.closing

theorem write_leads (h : Inv C s₀ s v) (hs₀ : s.shuttingDown = false) (hempty : s.batch.isEmpty = false) :
    TurnLeads C s₀ s (turn s) := by
  have hleft : v.taken < v.xs.length := by
    have := h.holding.taken_le
    have : v.taken ≠ v.xs.length := fun hall => by rw [h.isEmpty_iff.mpr hall] at hempty; cases hempty
    omega
  obtain ⟨r, written, w, hwrite, hsuf, hc, hend, hwaited⟩ := h.toCarrying.pollWrite
  have hinv := h.wrote hs₀ hc
  unfold turn
  rw [if_neg (by rw [hs₀]; exact Bool.false_ne_true), if_neg (by rw [hempty]; exact Bool.false_ne_true), hwrite]
  cases hend with
  | pending => exact ⟨v, hinv, .writer (hwaited rfl)⟩
  | failed kind _ hbad =>
    obtain ⟨a, ha, hbad⟩ := hbad
    exact ⟨v, .writeFailed kind hinv ⟨a, h.later.answers.subset ha, hbad⟩⟩
  | done hall =>
    obtain ⟨b, hconsume, hcons⟩ := hc.consume (by rw [Item.plainOf, List.flatMap_def]; exact hall)
    have hlater : Later s (s.wrote written w) := ⟨⟨[], .refl _⟩, hsuf, List.suffix_refl _⟩
    simp only [SnellToPlain.wrote] at hconsume
    simp only [DecodeBatch.consume, hconsume]
    have hweight {shuttingDown : Bool} := weight_consumed hc hleft hs₀ (hcons shuttingDown)
    cases hinv.standing with
    | going hreads hdata hend _ =>
      rw [show s.batch.ending = none from hend]
      exact ⟨⟨v.drained, { hcons false with
        standing := .going (hreads.drained (hcons false).holding) hdata rfl rfl
        closing := fun hcl => .inl ((h.closing hcl).resolve_right (by rw [hs₀]; exact Bool.false_ne_true)) }⟩,
        hlater, hweight⟩
    | zeroAhead hreads hzero hend hs hleft =>
      rw [show s.batch.ending = some (.ok ()) from hend]
      exact ⟨⟨v.drained, { hcons true with
        standing := .zeroChunk (hreads.drained (hcons true).holding) hzero rfl rfl
        closing := fun _ => .inr rfl }⟩, hlater, hweight⟩
    | errorAhead e hdata hfails hend hs hleft =>
      rw [show s.batch.ending = some (.error (.ofProtocol e)) from hend]
      exact ⟨v, .decodeFailed e h.gave hdata hfails ((hcons s.shuttingDown).flushed rfl)
        fun hcl => (h.closing hcl).resolve_right (by rw [hs₀]; exact Bool.false_ne_true)⟩
    | zeroChunk _ _ hs' | atEnd _ _ _ _ _ hs' => rw [show s.shuttingDown = true from hs'] at hs₀; cases hs₀

theorem shutdown_leads (h : Inv C s₀ s v) (hs : s.shuttingDown = true) : TurnLeads C s₀ s (turn s) := by
  obtain ⟨hw, hf, hm⟩ := PooledBuffer.releaseEmpty_kept h.holding.wf
  have hinv {writer : WriteHalf} (hwriter : writer.toWriter = s.writer.toWriter)
      (hsuf : writer.shutdowns <:+ s.writer.shutdowns) :
      Inv C s₀ { s with writer, recv := s.recv.releaseEmpty } v := {
    gave := h.gave
    later := ⟨h.later.reader, hwriter ▸ h.later.answers, hsuf.trans h.later.shutdowns⟩
    holding := { h.holding with wf := hw, max_eq := hm.trans h.holding.max_eq, filled := hf.trans h.holding.filled }
    small := h.small
    records := h.records
    count := h.count
    written_le := h.written_le
    sent := by
      have := h.sent
      simp only [hwriter]
      exact this
    standing := by
      cases h.standing with
      | going _ _ _ hs' | zeroAhead _ _ _ hs' | errorAhead _ _ _ _ hs' => rw [hs] at hs'; cases hs'
      | zeroChunk hreads hzero _ hall => exact .zeroChunk (hreads.moved hw hm hf) hzero hs hall
      | atEnd hreads hdata hstarves hnil hend _ hall =>
        exact .atEnd (hreads.moved hw hm hf) hdata hstarves hnil hend hs hall
    closing := fun _ => .inr hs }
  unfold turn
  rw [if_pos hs]
  unfold WriteHalf.pollShutdown
  cases hshut : s.writer.shutdowns with
  | nil => exact ⟨v, hinv rfl List.nil_suffix, .shutdown hs (.inl rfl)⟩
  | cons a shutdowns =>
    have hsuf : shutdowns <:+ s.writer.shutdowns := hshut ▸ List.suffix_cons _ _
    cases a with
    | pending => exact ⟨v, hinv rfl hsuf, .shutdown hs (.inr ⟨[], hshut⟩)⟩
    | failed kind =>
      exact ⟨v, .shutdownFailed kind (hinv rfl hsuf) hs (h.later.shutdowns.subset (hshut ▸ List.mem_cons_self))⟩
    | done => exact ⟨v, .closed (hinv rfl hsuf) hs rfl⟩

theorem turn_leads (h : Inv C s₀ s v) : TurnLeads C s₀ s (turn s) := by
  by_cases hs : s.shuttingDown = true
  · exact shutdown_leads h hs
  have hs : s.shuttingDown = false := Bool.eq_false_iff.mpr hs
  by_cases hempty : s.batch.isEmpty = true
  · have hall := h.isEmpty_iff.mp hempty
    have hfill : Filling C s₀ s s v := by
      cases h.standing with
      | going hreads hdata hend hs' =>
        exact { h.toCarrying with
          receiving := hreads, since := .refl _ _, bound := Nat.le_refl _, allData := hdata, ending := hend, going := hs'
          room := by rw [hall]; exact Nat.lt_add_of_pos_right (by decide)
          unwritten := by
            have := h.written_le
            rw [hall, List.drop_length, Item.plainOf_nil, List.length_nil] at this
            omega
          closing := fun hcl => (h.closing hcl).resolve_right (by rw [hs]; exact Bool.false_ne_true) }
      | zeroAhead _ _ _ _ hleft | errorAhead _ _ _ _ _ hleft => omega
      | zeroChunk _ _ hs' | atEnd _ _ _ _ _ hs' => rw [hs] at hs'; cases hs'
    have hleads := fill_leads hfill
    unfold turn
    rw [if_neg (by rw [hs]; exact Bool.false_ne_true), if_pos hempty]
    cases hr : Polling.poll fillTurn s.fillTurns s with
    | again s' => rw [hr] at hleads; exact hleads.elim
    | pending s' => rw [hr] at hleads; exact hleads
    | ready r s' =>
      rw [hr] at hleads
      cases r with
      | some r => exact hleads
      | none =>
        obtain ⟨hinv, hlater, htotal, hdone⟩ := hleads
        refine ⟨hinv, hlater, ?_⟩
        simp only [weight, hs, hempty, Bool.false_eq_true, if_false, if_true]
        rcases hdone with hdone | hdone
        · rw [if_pos hdone]; omega
        · simp only [hdone, Bool.false_eq_true, if_false]
          split <;> omega
  · exact write_leads h hs (Bool.eq_false_iff.mpr hempty)

/-! ## Polls -/

omit [SafeDecoder D] in
/-- What the future waited for in one turn it waits for in the poll. -/
theorem PendingOn.since {s' : SnellToPlain D} (h : PendingOn s₀ s s' v) (hlater : Later p s) : PendingOn s₀ p s' v := by
  obtain ⟨bytes, hg⟩ := hlater.reader
  cases h with
  | reader hall hstarves hdata hwaits => exact .reader hall hstarves hdata (hwaits.after hg)
  | writer hwaits => exact .writer (hwaits.of_suffix hlater.answers)
  | shutdown hs hwaits => exact .shutdown hs (hwaits.of_suffix hlater.shutdowns)

theorem poll_leads_pump (h : Inv C s₀ s v) :
    (poll s).Leads (fun _ => False) (fun s' => ∃ v, Inv C s₀ s' v ∧ PendingOn s₀ s s' v)
      (fun r s' => ∃ v, Outcome C s₀ s' v r) := by
  refine Polling.poll_leads (I := fun s' => (∃ v, Inv C s₀ s' v) ∧ Later s s') (μ := weight) ?_ ⟨⟨v, h⟩, .refl _ _⟩ ?_
  · rintro s' ⟨⟨v', h'⟩, hlater⟩
    refine (turn_leads h').imp ?_ ?_ fun _ _ hr => hr
    · rintro s'' ⟨hinv, hlater', hweight⟩
      exact ⟨⟨hinv, hlater.trans hlater'⟩, hweight⟩
    · rintro s'' ⟨v'', hinv, hpending⟩
      exact ⟨v'', hinv, hpending.since hlater⟩
  · simp only [weight, turns, total]
    split
    · omega
    · split <;> omega

theorem start_inv (C : Crypto) [KdfDecoder C D] (reader : ReadHalf) (writer : WriteHalf) {decoder : D}
    {recv : PooledBuffer} (hp : pending decoder = 0) (hv : SafeDecoder.Valid decoder) (hw : recv.buffer.Wf)
    (hmax : recv.buffer.max ≤ 73728) :
    Inv C (start reader writer decoder recv) (start reader writer decoder recv) ⟨[], [], 0, recv.buffer.filled⟩ := by
  have hrecv : View.Reads C ⟨[], [], 0, recv.buffer.filled⟩ (start reader writer decoder recv)
      (start reader writer decoder recv) := by
    have := Receiving.start C hp hv hw
    rwa [View.Reads, View.stream, List.append_nil]
  exact {
    gave := .refl _
    later := .refl _ _
    holding := hrecv.holding
    small := hmax
    records := rfl
    count := Nat.zero_le _
    written_le := Nat.zero_le _
    sent := (List.append_nil _).symm
    standing := .going hrecv (fun x hx => by cases hx) rfl rfl
    closing := fun hcl => .inl hcl }

end SnellToPlain

end Snell
