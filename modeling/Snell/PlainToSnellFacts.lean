/-
What `pump_plain_to_snell` does, however the local side and the Snell side
answer.

After every turn the records sealed and not written are the batch, laid end to
end in the encode buffer, and what was written is the records before them and
some of the batch in wire order (`Carrying`). The phase says whether the local
stream has ended and whether its zero chunk is among the records (`Standing`).
A turn keeps both, and where it goes on it has read a byte, written a batch or
come a phase further (`turn_leads`).
-/
import Snell.PlainToSnell
import Snell.ZeroChunk

namespace Snell

open RecordEncoder EncoderSpec LawfulEncoder Polling

/-- A record more. -/
theorem Chain.snoc {Pos : Type} {Frame : Pos → Bytes → Bytes → Pos → Prop} {p p' p'' : Pos}
    {records : List (Bytes × Bytes)} {payload wire : Bytes} (h : Chain Frame p records p')
    (hf : Frame p' payload wire p'') : Chain Frame p (records ++ [(payload, wire)]) p'' := by
  induction h with
  | nil => exact .cons hf .nil
  | cons hf' _ ih => exact .cons hf' (ih hf)

namespace PlainToSnell

/-! ## Scripts are used up -/

/-- `s'` comes after `s`. -/
abbrev Later {E : Type} (s s' : PlainToSnell E) : Prop := HalvesLater s.reader s.writer s'.reader s'.writer

/-! ## The invariant -/

/-- A record in the encode buffer, with the payload it was sealed from. -/
abbrev Queued := Bytes × SplitRecord

/-- Its payload and its wire. -/
def Queued.onWire (q : Queued) : Bytes × Bytes := (q.1, rotate q.2.2 q.2.1)

/-- What was read of the local side, the records wholly written, and those in
the batch. -/
structure View where
  got : Bytes
  gone : List (Bytes × Bytes)
  queued : List Queued

namespace View

def records (v : View) : List (Bytes × Bytes) := v.gone ++ v.queued.map Queued.onWire

/-- The batch as it is laid in the buffer. -/
def batch (v : View) : List SplitRecord := v.queued.map Prod.snd

/-- One more record, sealed from `payload`. -/
def push (v : View) (payload record : Bytes) (split : Nat) : View :=
  { v with got := v.got ++ payload, queued := v.queued ++ [(payload, (record, split))] }

/-- The batch is written. -/
def flushed (v : View) : View := { v with gone := v.records, queued := [] }

variable (v : View)

theorem wireOf_queued : wireOf (v.queued.map Queued.onWire) = wireOrder v.batch := by
  simp only [wireOf, wireOrder, batch, List.map_map]
  rfl

theorem records_push (payload record : Bytes) (split : Nat) :
    (v.push payload record split).records = v.records ++ [(payload, rotate split record)] := by
  simp only [records, push, List.map_append, List.map_cons, List.map_nil, List.append_assoc]
  rfl

theorem batch_push (payload record : Bytes) (split : Nat) :
    (v.push payload record split).batch = v.batch ++ [(record, split)] := by
  simp only [batch, push, List.map_append, List.map_cons, List.map_nil]

@[simp] theorem records_flushed : v.flushed.records = v.records := by
  simp only [records, flushed, List.map_nil, List.append_nil]

end View

theorem wireOf_append (rs rs' : List (Bytes × Bytes)) : wireOf (rs ++ rs') = wireOf rs ++ wireOf rs' := by
  simp only [wireOf, List.map_append, List.flatten_append]

variable {E : Type} [RecordEncoder E] [EncoderSpec E] [LawfulEncoder E] [DatagramEncoder E] [StreamEncoder E]
  {env : ReplyEnv} {keep : Bool} {s₀ p s : PlainToSnell E} {v : View}

/-- The batch is the records not written; those before them are on the wire,
with some of the batch. -/
structure Carrying (env : ReplyEnv) (s₀ s : PlainToSnell E) (v : View) : Prop where
  gave : s₀.reader.Gave s.reader v.got
  answers : s.writer.answers <:+ s₀.writer.answers
  shutdowns : s.writer.shutdowns <:+ s₀.writer.shutdowns
  streams : Sustains s.encoder env.sealing
  chain : Chain Frame (pos s₀.encoder) v.records (pos s.encoder)
  payload : (v.records.map Prod.fst).flatten = v.got
  holds : s.batch.Holds v.batch
  fits : s.batch.records.length ≤ encodeBatchMax
  wf : s.encode.buffer.Wf
  max_eq : s.encode.buffer.max = v6WireCap
  filled : s.encode.buffer.filled = laid v.batch
  written_le : s.batch.written ≤ (wireOrder v.batch).length
  sent : s.writer.sent = s₀.writer.sent ++ (wireOf v.gone ++ (wireOrder v.batch).take s.batch.written)

/-- Data records only. -/
def AllData (records : List (Bytes × Bytes)) : Prop := ∀ r ∈ records, r.1 ≠ []

/-- Data records and the zero chunk behind them. -/
def Closed (records : List (Bytes × Bytes)) : Prop := ∃ data zero, records = data ++ [([], zero)] ∧ AllData data

/-- How far the local stream is through closing. -/
inductive Standing (keep : Bool) (s : PlainToSnell E) (v : View) : Prop
  | reading (hphase : s.phase = .reading) (hdata : AllData v.records)
  | ended (hphase : s.phase = .sendZeroChunk) (hdata : AllData v.records) (hend : s.reader.AtEnd)
    (hgrown : v6WireCap ≤ s.encode.buffer.capacity)
  | closed (hphase : s.phase = .draining) (hclosed : Closed v.records) (hend : s.reader.AtEnd)
  | shutting (hphase : s.phase = .shuttingDown) (hclosed : Closed v.records) (hend : s.reader.AtEnd) (hkeep : keep = false)
    (hall : v.queued = [])

structure Inv (env : ReplyEnv) (keep : Bool) (s₀ s : PlainToSnell E) (v : View) : Prop extends Carrying env s₀ s v where
  standing : Standing keep s v
  closing : s.writer.closing = true → s₀.writer.closing = true ∨ s.phase = .shuttingDown

/-- A batch is empty if no record is in it. -/
theorem Carrying.isEmpty_iff (h : Carrying env s₀ s v) : s.batch.isEmpty = true ↔ v.queued = [] := by
  rw [EncodeBatch.isEmpty, beq_iff_eq, h.holds.count]
  rcases hq : v.queued with _ | ⟨q, qs⟩
  · simp [View.batch, hq, entries]
  · have hmono := entries_mono [q.2.2] (qs.map fun q => q.2.2)
    have hone : (entries [q.2.2]).1 = 1 := by
      rw [entries, List.foldl_cons, List.foldl_nil, entryStep, if_neg (by simp)]
    simp only [View.batch, hq, List.map_cons, List.map_map, reduceCtorEq, iff_false]
    rw [List.singleton_append] at hmono
    have : (entries (q.2.2 :: qs.map fun q => q.2.2)).1 ≠ 0 := by omega
    exact this

/-- With the batch empty, all records are on the wire. -/
theorem Carrying.flushed (h : Carrying env s₀ s v) (hnil : v.queued = []) :
    s.writer.sent = s₀.writer.sent ++ wireOf v.records := by
  have hbatch : v.batch = [] := by rw [View.batch, hnil, List.map_nil]
  rw [h.sent, View.records, hnil, hbatch, List.map_nil, List.append_nil, show wireOrder [] = [] from rfl, List.take_nil,
    List.append_nil]

/-- What is on the wire is a front of the records. -/
theorem Carrying.front (h : Carrying env s₀ s v) :
    ∃ front, s.writer.sent = s₀.writer.sent ++ front ∧ front <+: wireOf v.records := by
  refine ⟨_, h.sent, ?_⟩
  rw [View.records, wireOf_append, View.wireOf_queued]
  exact (List.prefix_append_right_inj _).mpr (List.take_prefix _ _)

/-- The encoder, the buffer and the reader moved on without a record. -/
theorem Carrying.kept (h : Carrying env s₀ s v) {reader : ReadHalf} {encoder : E} {encode : PooledBuffer} (asked : Nat)
    (phase : Phase) (hg : s.reader.Gave reader []) (hs : Sustains encoder env.sealing) (hpos : pos encoder = pos s.encoder)
    (hw : encode.buffer.Wf) (hf : encode.buffer.filled = s.encode.buffer.filled)
    (hmax : encode.buffer.max = s.encode.buffer.max) :
    Carrying env s₀ { s with reader, encoder, encode, asked, phase } v :=
  { h with
    gave := by
      have := h.gave.trans hg
      rwa [List.append_nil] at this
    streams := hs
    chain := hpos ▸ h.chain
    wf := hw
    max_eq := hmax.trans h.max_eq
    filled := hf.trans h.filled }

/-- The length of the buffer is no number a batch cannot hold. -/
theorem length_lt_of_wf {b : Buffer} (hw : b.Wf) (hmax : b.max = v6WireCap) : b.filled.length < 2 ^ 32 := by
  have h₁ := hw.len_le
  have hcap : v6WireCap < 2 ^ 32 := by decide
  rw [Buffer.filled_length, Buffer.len]
  omega

/-- A record was sealed behind the others: it goes into the batch. -/
theorem Carrying.push (h : Carrying env s₀ s v) (hroom : s.batch.hasRoom = true) {reader : ReadHalf} {encoder : E}
    (encode : PooledBuffer) {payload record : Bytes} {split : Nat} (asked : Nat) (phase : Phase)
    (hg : s.reader.Gave reader payload)
    (hs : Sustains encoder env.sealing) (hsplit : split ≤ record.length)
    (hframe : Frame (pos s.encoder) payload (rotate split record) (pos encoder)) (hw : encode.buffer.Wf)
    (hmax : encode.buffer.max = s.encode.buffer.max) (hf : encode.buffer.filled = s.encode.buffer.filled ++ record) :
    ∃ batch, s.batch.push encode.buffer.len split = .ok batch ∧ batch.isEmpty = false ∧
      Carrying env s₀ { s with reader, encoder, encode, asked, batch, phase } (v.push payload record split) := by
  have hlaid : laid (v.batch ++ [(record, split)]) = encode.buffer.filled := by rw [laid_concat, hf, h.filled]
  have hlen : (laid v.batch).length + record.length < 2 ^ 32 := by
    have := length_lt_of_wf hw (hmax.trans h.max_eq)
    rwa [hf, h.filled, List.length_append] at this
  have hcount : (entries (v.batch.map Prod.snd)).1 < encodeBatchMax := by
    rw [← h.holds.count]
    simpa [EncodeBatch.hasRoom] using hroom
  have hfit : (entries ((v.batch ++ [(record, split)]).map Prod.snd)).1 ≤ encodeBatchMax := by
    rw [List.map_append, List.map_cons, List.map_nil, entries_append]
    split <;> simp only <;> omega
  obtain ⟨batch, hpush, hholds, hwritten⟩ := h.holds.push hsplit hlen hfit
  rw [hlaid, Buffer.filled_length] at hpush
  have hc : Carrying env s₀ { s with reader, encoder, encode, asked, batch, phase } (v.push payload record split) := {
    gave := h.gave.trans hg
    answers := h.answers
    shutdowns := h.shutdowns
    streams := hs
    chain := by rw [View.records_push]; exact h.chain.snoc hframe
    payload := by
      rw [View.records_push, List.map_append, List.flatten_append, h.payload]
      simp [View.push]
    holds := by rw [View.batch_push]; exact hholds
    fits := by rw [hholds.count]; exact hfit
    wf := hw
    max_eq := hmax.trans h.max_eq
    filled := by rw [View.batch_push]; exact hlaid.symm
    written_le := by
      rw [View.batch_push, wireOrder_concat, List.length_append]
      simp only [hwritten]
      exact Nat.le_add_right_of_le h.written_le
    sent := by
      rw [View.batch_push, wireOrder_concat]
      simp only [hwritten]
      rw [List.take_append_of_le_length h.written_le]
      exact h.sent }
  refine ⟨batch, hpush, ?_, hc⟩
  refine Bool.eq_false_iff.mpr fun hempty => ?_
  have := hc.isEmpty_iff.mp hempty
  simp [View.push] at this

/-- The state after a poll of the writer. -/
def wrote (s : PlainToSnell E) (written : Nat) (w : Writer) : PlainToSnell E :=
  { s with batch := { s.batch with written }, writer := { s.writer with toWriter := w } }

theorem Carrying.pollWrite (h : Carrying env s₀ s v) :
    ∃ r written w, s.batch.pollWrite s.encode.buffer.filled s.writer.toWriter = (r, { s.batch with written }, w) ∧
      w.answers <:+ s.writer.answers ∧ Carrying env s₀ (s.wrote written w) v ∧
      (∃ parts, parts.flatten = wireOrder v.batch ∧ WriteEnding parts s.batch.written written s.writer.answers r) ∧
      (r = .pending → Waited .pending s.writer.answers w.answers) := by
  obtain ⟨r, written, w, hwrite, hle, hle', hsent, hsuf, hend⟩ :=
    h.holds.pollWrite h.fits h.written_le s.writer.toWriter
  rw [← h.filled] at hwrite
  refine ⟨r, written, w, hwrite, hsuf, ?_, hend, ?_⟩
  · exact { h with
      answers := hsuf.trans h.answers
      holds := ⟨h.holds.parts, h.holds.stop, h.holds.count, h.holds.unsplit⟩
      fits := h.fits
      written_le := hle'
      sent := by
        simp only [wrote]
        rw [hsent, h.sent, List.append_assoc, List.append_assoc, ← List.take_add, Nat.add_sub_cancel' hle] }
  · rintro rfl
    unfold EncodeBatch.pollWrite at hwrite
    split at hwrite
    · cases hwrite
    · next parts hparts =>
      rcases hparts' : writeParts (2 * encodeBatchMax) parts s.batch.written s.writer.toWriter with ⟨r, n, w'⟩
      rw [hparts'] at hwrite
      cases hwrite
      exact writePartsLoop_waited hparts'

/-! ## Filling a batch -/

/-- What a turn from `s` that is pending in `s'` waits for: the local side,
with all records on the wire; the Snell side; or its shutdown. -/
inductive PendingOn (s s' : PlainToSnell E) (v : View) : Prop
  | reader (hwaits : s.reader.Waits s'.reader) (hall : v.queued = [])
  | writer (hwaits : Waited .pending s.writer.answers s'.writer.answers)
  | shutdown (hphase : s'.phase = .shuttingDown) (hwaits : Waited .pending s.writer.shutdowns s'.writer.shutdowns)

/-- What the pump returns. -/
inductive Outcome (env : ReplyEnv) (keep : Bool) (s₀ s : PlainToSnell E) (v : View) : SessionRes Unit → Prop
  | kept (hinv : Inv env keep s₀ s v) (hphase : s.phase = .draining) (hkeep : keep = true) (hall : v.queued = []) :
    Outcome env keep s₀ s v (.ok ())
  | closed (hinv : Inv env keep s₀ s v) (hphase : s.phase = .shuttingDown) (hclosing : s.writer.closing = true) :
    Outcome env keep s₀ s v (.ok ())
  | readFailed (kind : IoErrorKind) (hinv : Inv env keep s₀ s v) (hfails : s₀.reader.Fails kind) :
    Outcome env keep s₀ s v (.error (.err (.io kind)))
  | writeFailed (kind : IoErrorKind) (hinv : Inv env keep s₀ s v) (hbad : ∃ a ∈ s₀.writer.answers, ¬ a.Good) :
    Outcome env keep s₀ s v (.error (.err (.io kind)))
  | shutdownFailed (kind : IoErrorKind) (hinv : Inv env keep s₀ s v) (hphase : s.phase = .shuttingDown)
    (hfailed : .failed kind ∈ s₀.writer.shutdowns) : Outcome env keep s₀ s v (.error (.err (.io kind)))

/-- Between two turns of the loop that fills the batch of `p`. -/
structure Filling (env : ReplyEnv) (s₀ p s : PlainToSnell E) (v : View) : Prop extends Carrying env s₀ s v where
  later : Later p s
  phase : s.phase = .reading
  data : AllData v.records
  le : s.reader.coming.length ≤ p.reader.coming.length
  lt : s.batch.isEmpty = false → s.reader.coming.length < p.reader.coming.length
  closing : s.writer.closing = true → s₀.writer.closing = true

/-- A batch was filled, or the local stream has ended. -/
structure Filled (env : ReplyEnv) (keep : Bool) (s₀ p s : PlainToSnell E) (v : View) :
    Prop extends Inv env keep s₀ s v where
  later : Later p s
  le : s.reader.coming.length ≤ p.reader.coming.length
  done : (s.phase = .reading ∧ s.batch.isEmpty = false ∧ s.reader.coming.length < p.reader.coming.length) ∨
    s.phase = .sendZeroChunk

theorem Filling.inv (h : Filling env s₀ p s v) : Inv env keep s₀ s v :=
  { h with standing := .reading h.phase h.data, closing := fun hcl => .inl (h.closing hcl) }

theorem Filling.done (h : Filling env s₀ p s v) (hne : s.batch.isEmpty = false) : Filled env keep s₀ p s v :=
  { h.inv, h with done := .inl ⟨h.phase, hne, h.lt hne⟩ }

/-- What a turn of that loop comes to. -/
def FillLeads (env : ReplyEnv) (keep : Bool) (s₀ p s : PlainToSnell E)
    (t : Turn (PlainToSnell E) (Option (SessionRes Unit))) : Prop :=
  t.Leads (fun s' => (∃ v, Filling env s₀ p s' v) ∧ s'.reader.coming.length < s.reader.coming.length)
    (fun s' => ∃ v, Inv env keep s₀ s' v ∧ PendingOn p s' v)
    fun r s' => match r with
      | none => ∃ v, Filled env keep s₀ p s' v
      | some r => ∃ v, Outcome env keep s₀ s' v r

/-- The reader, the encoder and the buffer moved on without a record. -/
theorem Filling.kept (h : Filling env s₀ p s v) {reader : ReadHalf} {encoder : E} {encode : PooledBuffer} (asked : Nat)
    (hg : s.reader.Gave reader []) (hs : Sustains encoder env.sealing) (hpos : pos encoder = pos s.encoder)
    (hw : encode.buffer.Wf) (hf : encode.buffer.filled = s.encode.buffer.filled)
    (hmax : encode.buffer.max = s.encode.buffer.max) :
    Filling env s₀ p { s with reader, encoder, encode, asked } v := by
  have hcoming : reader.coming = s.reader.coming := hg.coming.symm
  exact { h.toCarrying.kept asked s.phase hg hs hpos hw hf hmax with
    later := h.later.read hg
    phase := h.phase
    data := h.data
    le := by simp only [hcoming]; exact h.le
    lt := by simp only [hcoming]; exact h.lt
    closing := h.closing }

/-- Nothing can be read without waiting. -/
theorem idle_leads (keep : Bool) (h : Filling env s₀ p s v) (hwaits : p.reader.Waits s.reader) :
    FillLeads env keep s₀ p s s.idle := by
  unfold idle
  by_cases hempty : s.batch.isEmpty = true
  · rw [if_pos hempty]
    obtain ⟨hw, hf, hm⟩ := PooledBuffer.releaseEmpty_kept h.wf
    exact ⟨v, (h.kept s.asked (.refl _) h.streams rfl hw hf hm).inv, .reader hwaits (h.isEmpty_iff.mp hempty)⟩
  · rw [if_neg hempty]
    exact ⟨v, h.done (Bool.eq_false_iff.mpr hempty)⟩

/-- The local stream has ended. -/
theorem Filling.ended (h : Filling env s₀ p s v) (hend : s.reader.AtEnd) (hgrown : v6WireCap ≤ s.encode.buffer.capacity) :
    Filled env keep s₀ p { s with phase := .sendZeroChunk } v :=
  { h.toCarrying.kept s.asked .sendZeroChunk (.refl _) h.streams rfl h.wf rfl rfl with
    standing := .ended rfl h.data hend hgrown
    closing := fun hcl => .inl (h.closing hcl)
    later := h.later
    le := h.le
    done := .inr rfl }

omit [RecordEncoder E] [EncoderSpec E] [LawfulEncoder E] [DatagramEncoder E] [StreamEncoder E] in
theorem allData_concat {records : List (Bytes × Bytes)} (h : AllData records) {payload wire : Bytes} (hne : payload ≠ []) :
    AllData (records ++ [(payload, wire)]) :=
  List.forall_mem_append.mpr ⟨h, List.forall_mem_singleton.mpr hne⟩

theorem readOne_leads (keep : Bool) (h : Filling env s₀ p s v) (hroom : s.batch.hasRoom = true) :
    FillLeads env keep s₀ p s (s.readOne env) := by
  have hsmall : v6WireCap ≤ 73728 := by decide
  have hlen : s.encode.buffer.len ≤ s.encode.buffer.max := by have := h.wf.len_le; rw [Buffer.len]; omega
  obtain ⟨grown, hensure, hgrown⟩ :=
    PooledBuffer.ensure_grown (p := s.encode) s.encode.buffer.max h.wf hlen (Nat.le_refl _)
    (by rw [h.max_eq]; exact hsmall)
  have hmax : grown.buffer.max = v6WireCap := hgrown.max.trans h.max_eq
  have hcap : v6WireCap ≤ grown.buffer.capacity := by have := hgrown.capacity; rwa [h.max_eq] at this
  have hread := readRecord_reads h.streams hgrown.wf hmax hcap (show 0 < recordHint by decide)
    (env.clock s.asked 0) s.asked
    s.reader
  obtain ⟨bytes₀, hp⟩ := h.later.reader
  have hfails (kind : IoErrorKind) (hf : s.reader.Fails kind) : s₀.reader.Fails kind := hf.before h.gave
  unfold readOne
  rw [hensure]
  simp only
  generalize readRecord s.reader s.encoder grown.buffer recordHint (env.clock s.asked 0)
    (env.sealing s.asked) = result at hread
  have hsame {reader : ReadHalf} {encoder : E} {b : Buffer} (hg : s.reader.Gave reader [])
      (hu : Untouched s.encoder encoder env.sealing grown.buffer b) :
      Filling env s₀ p { s with reader, encoder, encode := { grown with buffer := b }, asked := s.asked + 1 } v :=
    h.kept _ hg hu.streams hu.pos_eq hu.kept.wf (hu.filled.trans hgrown.filled) (hu.kept.max.trans hgrown.max)
  cases hread with
  | pending hg hwaits hu =>
    have hleads := idle_leads keep (hsame hg hu) (hwaits.after hp)
    refine hleads.imp ?_ (fun _ hs' => hs') fun _ _ hs' => hs'
    intro s' hs'
    exact ⟨hs'.1, by rw [hg.coming]; exact hs'.2⟩
  | failed kind hg hf hu =>
    simp only
    rw [if_neg (fun hand => by cases hand.1)]
    exact ⟨v, .readFailed kind (hsame hg hu).inv (hfails kind hf)⟩
  | ended hg hend hu =>
    simp only [↓reduceIte]
    refine ⟨v, (hsame hg hu).ended ?_ (by rw [hu.kept.capacity]; exact hcap)⟩
    exact ⟨hg.coming.symm.trans hend.1, hg.closed.trans hend.2⟩
  | full hne hu =>
    have hnonempty : s.batch.isEmpty = false := Bool.eq_false_iff.mpr fun hempty => by
      have hnil := h.isEmpty_iff.mp hempty
      rw [hgrown.filled, h.filled, View.batch, hnil] at hne
      exact hne rfl
    simp only
    rw [if_pos ⟨trivial, hnonempty⟩]
    exact ⟨v, (hsame (.refl _) hu).done hnonempty⟩
  | @sealed reader encoder b payload record split hg hpos hstreams hsplit hframe hf hk =>
    obtain ⟨batch, hpush, hne, hc⟩ := h.toCarrying.push hroom { grown with buffer := b } (s.asked + 1)
      s.phase hg hstreams hsplit hframe hk.wf (hk.max.trans hgrown.max) (hf.trans (by rw [hgrown.filled]))
    have hcoming := congrArg List.length hg.coming
    rw [List.length_append] at hcoming
    have hle := h.le
    simp only
    rw [if_neg (by omega)]
    simp only [hpush]
    refine ⟨⟨_, { hc with
      later := h.later.read hg
      phase := h.phase
      data := by
        rw [View.records_push]
        exact allData_concat h.data fun hnil => by rw [hnil] at hpos; cases hpos
      le := by simp only; omega
      lt := fun _ => by simp only; omega
      closing := h.closing }⟩, by simp only; omega⟩

theorem readTurn_leads (h : Filling env s₀ p s v) : FillLeads env keep s₀ p s (readTurn env s) := by
  obtain ⟨bytes₀, hp⟩ := h.later.reader
  unfold readTurn
  by_cases hroom : s.batch.hasRoom = true
  · rw [if_pos hroom]
    have hready := s.reader.pollReady_readies
    generalize s.reader.pollReady = ready at hready
    cases hready with
    | @pending reader hg hwaits =>
      have hk := h.kept s.asked hg h.streams rfl h.wf rfl rfl
      refine (idle_leads keep hk (hwaits.after hp)).imp ?_ (fun _ hs' => hs') fun _ _ hs' => hs'
      intro s' hs'
      exact ⟨hs'.1, by rw [hg.coming]; exact hs'.2⟩
    | @failed reader kind hg hf =>
      exact ⟨v, .readFailed kind (h.kept s.asked hg h.streams rfl h.wf rfl rfl).inv (hf.before h.gave)⟩
    | @ready reader hg =>
      have hk := h.kept s.asked hg h.streams rfl h.wf rfl rfl
      refine (readOne_leads keep hk hroom).imp ?_ (fun _ hs' => hs') fun _ _ hs' => hs'
      intro s' hs'
      exact ⟨hs'.1, by rw [hg.coming]; exact hs'.2⟩
  · rw [if_neg hroom]
    refine ⟨v, h.done (Bool.eq_false_iff.mpr fun hempty => hroom ?_)⟩
    rw [EncodeBatch.isEmpty, beq_iff_eq] at hempty
    rw [EncodeBatch.hasRoom, hempty]
    decide

theorem fill_leads (keep : Bool) (h : Filling env s₀ s s v) :
    (Polling.poll (readTurn env) s.readTurns s).Leads (fun _ => False)
      (fun s' => ∃ v, Inv env keep s₀ s' v ∧ PendingOn s s' v)
      fun r s' => match r with
        | none => ∃ v, Filled env keep s₀ s s' v
        | some r => ∃ v, Outcome env keep s₀ s' v r := by
  refine Polling.poll_leads (I := fun s' => ∃ v, Filling env s₀ s s' v) (μ := fun s' => s'.reader.coming.length) ?_ ⟨v, h⟩
    (Nat.lt_succ_self _)
  rintro s' ⟨v', h'⟩
  exact readTurn_leads h'

/-! ## The outer loop -/

/-- Phases still to come. -/
def rank : Phase → Nat
  | .reading => 3
  | .sendZeroChunk => 2
  | .draining => 1
  | .shuttingDown => 0

omit [RecordEncoder E] [EncoderSpec E] [LawfulEncoder E] [DatagramEncoder E] [StreamEncoder E] in
/-- Every turn that goes on lowers this. -/
def weight (s : PlainToSnell E) : Nat :=
  2 * s.reader.coming.length + 2 * rank s.phase + if s.batch.isEmpty then 0 else 1

/-- What a turn of the outer loop comes to. -/
def TurnLeads (env : ReplyEnv) (keep : Bool) (s₀ p : PlainToSnell E) (w : Nat)
    (t : Turn (PlainToSnell E) (SessionRes Unit)) : Prop :=
  t.Leads (fun s' => (∃ v, Inv env keep s₀ s' v) ∧ Later p s' ∧ weight s' < w)
    (fun s' => ∃ v, Inv env keep s₀ s' v ∧ PendingOn p s' v) fun r s' => ∃ v, Outcome env keep s₀ s' v r

omit [RecordEncoder E] [EncoderSpec E] [LawfulEncoder E] [DatagramEncoder E] [StreamEncoder E] in
/-- What was waited for from `s` on was waited for from `p` on. -/
theorem PendingOn.since {s' : PlainToSnell E} (h : PendingOn s s' v) (hlater : Later p s) : PendingOn p s' v := by
  obtain ⟨bytes, hg⟩ := hlater.reader
  cases h with
  | reader hwaits hall => exact .reader (hwaits.after hg) hall
  | writer hwaits => exact .writer (hwaits.of_suffix hlater.answers)
  | shutdown hphase hwaits => exact .shutdown hphase (hwaits.of_suffix hlater.shutdowns)

theorem TurnLeads.since {w w' : Nat} {t : Turn (PlainToSnell E) (SessionRes Unit)} (h : TurnLeads env keep s₀ s w t)
    (hlater : Later p s) (hw : w ≤ w') : TurnLeads env keep s₀ p w' t := by
  refine h.imp ?_ ?_ fun _ _ hr => hr
  · rintro s' ⟨hinv, hlater', hlt⟩
    exact ⟨hinv, hlater.trans hlater', by omega⟩
  · rintro s' ⟨v', hinv, hpending⟩
    exact ⟨v', hinv, hpending.since hlater⟩

/-- Before the end, writing changes nothing else. -/
theorem Inv.wrote (h : Inv env keep s₀ s v) {written : Nat} {w : Writer} (hc : Carrying env s₀ (s.wrote written w) v) :
    Inv env keep s₀ (s.wrote written w) v where
  toCarrying := hc
  standing := by
    cases h.standing with
    | reading hphase hdata => exact .reading hphase hdata
    | ended hphase hdata hend hgrown => exact .ended hphase hdata hend hgrown
    | closed hphase hclosed hend => exact .closed hphase hclosed hend
    | shutting hphase hclosed hend hkeep hall => exact .shutting hphase hclosed hend hkeep hall
  closing := h.closing

/-- The batch is all written: the encode buffer is emptied. -/
theorem Inv.cleared (h : Inv env keep s₀ s v) (hdone : s.batch.written = (wireOrder v.batch).length) {b : Buffer}
    (hw : b.Wf) (hf : b.filled = []) (hmax : b.max = s.encode.buffer.max) (hcap : b.capacity = s.encode.buffer.capacity) :
    Inv env keep s₀ { s with batch := s.batch.clear, encode := { s.encode with buffer := b } } v.flushed where
  toCarrying := { h with
    chain := by rw [View.records_flushed]; exact h.chain
    payload := by rw [View.records_flushed]; exact h.payload
    holds := EncodeBatch.default_holds
    fits := Nat.zero_le _
    wf := hw
    max_eq := hmax.trans h.max_eq
    filled := hf
    written_le := Nat.zero_le _
    sent := by
      have := h.sent
      rw [hdone, List.take_length, ← View.wireOf_queued, ← wireOf_append] at this
      rw [show (wireOrder v.flushed.batch) = [] from rfl, List.take_nil, List.append_nil]
      exact this }
  standing := by
    cases h.standing with
    | reading hphase hdata => exact .reading hphase (by rw [View.records_flushed]; exact hdata)
    | ended hphase hdata hend hgrown =>
      exact .ended hphase (by rw [View.records_flushed]; exact hdata) hend (by simp only [hcap]; exact hgrown)
    | closed hphase hclosed hend => exact .closed hphase (by rw [View.records_flushed]; exact hclosed) hend
    | shutting hphase hclosed hend hkeep hall =>
      exact .shutting hphase (by rw [View.records_flushed]; exact hclosed) hend hkeep rfl
  closing := h.closing

/-- With a batch to write, or nothing but the end to come, the turn ends as it
should; the fall-through is not reached. -/
theorem flush_leads (h : Inv env keep s₀ s v) (hshut : s.phase ≠ .shuttingDown)
    (hwork : s.batch.isEmpty = false ∨ s.phase = .draining) : TurnLeads env keep s₀ s (weight s) (s.flush keep) := by
  unfold flush
  by_cases hempty : s.batch.isEmpty = true
  · have hphase : s.phase = .draining := hwork.resolve_left (by rw [hempty]; exact Bool.true_eq_false.mp)
    have hall := h.isEmpty_iff.mp hempty
    obtain ⟨hw, hf, hm⟩ := PooledBuffer.releaseEmpty_kept h.wf
    have hc (phase : Phase) := h.toCarrying.kept s.asked phase (.refl _) h.streams rfl hw hf hm
    obtain ⟨hclosed, hend⟩ : Closed v.records ∧ s.reader.AtEnd := by
      cases h.standing with
      | closed _ hclosed hend => exact ⟨hclosed, hend⟩
      | reading hp => rw [hp] at hphase; cases hphase
      | ended hp => rw [hp] at hphase; cases hphase
      | shutting hp => exact absurd hp hshut
    rw [if_pos hempty, if_pos hphase]
    by_cases hkeep : keep = true
    · rw [if_pos hkeep]
      exact ⟨v, .kept { hc s.phase with standing := .closed hphase hclosed hend, closing := h.closing } hphase hkeep hall⟩
    · rw [if_neg hkeep]
      refine ⟨⟨v, { hc .shuttingDown with
        standing := .shutting rfl hclosed hend (Bool.eq_false_iff.mpr hkeep) hall
        closing := fun hcl => .inr rfl }⟩, HalvesLater.refl _ _, ?_⟩
      simp only [weight, hphase, rank]
      omega
  · have hne := Bool.eq_false_iff.mpr hempty
    rw [if_neg hempty]
    obtain ⟨r, written, w, hwrite, hsuf, hc, ⟨parts, hflat, hend⟩, hwaited⟩ := h.toCarrying.pollWrite
    have hinv := h.wrote hc
    rw [hwrite]
    cases hend with
    | pending => exact ⟨v, hinv, .writer (hwaited rfl)⟩
    | failed kind _ hbad =>
      obtain ⟨a, ha, hbad⟩ := hbad
      exact ⟨v, .writeFailed kind hinv ⟨a, h.answers.subset ha, hbad⟩⟩
    | done hall =>
      rw [hflat] at hall
      obtain ⟨b, hconsume⟩ := Buffer.consume_fits (b := s.encode.buffer) (Nat.le_refl _)
      obtain ⟨-, hf, hm, hcap, hw⟩ := Buffer.consume_ok h.wf hconsume
      simp only [hconsume]
      refine ⟨⟨v.flushed, hinv.cleared hall hw ?_ hm hcap⟩, ⟨⟨[], .refl _⟩, hsuf, List.suffix_refl _⟩, ?_⟩
      · rw [hf, ← Buffer.filled_length, List.drop_length]
      · simp only [weight, hne, Bool.false_eq_true, if_false]
        rw [if_pos (show (EncodeBatch.clear _).isEmpty = true from rfl)]
        omega

variable [ClosingEncoder E]

/-- The zero chunk is queued, or what is queued goes first. -/
theorem queueZeroChunk_queues (h : Inv env keep s₀ s v) (hphase : s.phase = .sendZeroChunk)
    (hroom : s.batch.hasRoom = true) :
    ∃ s' v', s.queueZeroChunk env = (.ok (), s') ∧ Inv env keep s₀ s' v' ∧ Later s s' ∧ s'.batch.isEmpty = false ∧
      s'.phase ≠ .shuttingDown ∧ weight s' ≤ weight s := by
  obtain ⟨hdata, hend, hgrown⟩ : AllData v.records ∧ s.reader.AtEnd ∧ v6WireCap ≤ s.encode.buffer.capacity := by
    cases h.standing with
    | ended _ hdata hend hgrown => exact ⟨hdata, hend, hgrown⟩
    | reading hp => rw [hp] at hphase; cases hphase
    | closed hp => rw [hp] at hphase; cases hphase
    | shutting hp => rw [hp] at hphase; cases hphase
  have hcloses := encodeRecord_closes h.streams h.wf h.max_eq hgrown (env.clock s.asked) s.asked
  unfold queueZeroChunk
  generalize encodeRecord encodeTurns s.encoder s.encode (.stream 0) (env.clock s.asked) (env.sealing s.asked)
    (fun slot => .ok (0, slot)) = result at hcloses
  cases hcloses with
  | @sealed encoder b record split hs hsplit hframe hf hk =>
    obtain ⟨batch, hpush, hne, hc⟩ := h.toCarrying.push hroom { s.encode with buffer := b }
      (s.asked + 1) .draining (.refl _)
      hs hsplit hframe hk.wf hk.max hf
    simp only [hpush]
    refine ⟨_, _, rfl, { hc with standing := .closed rfl ?_ hend, closing := fun hcl => .inl ?_ }, HalvesLater.refl _ _,
      hne, fun hp => (by cases hp), ?_⟩
    · rw [View.records_push]
      exact ⟨v.records, _, rfl, hdata⟩
    · exact (h.closing hcl).resolve_right (by rw [hphase]; exact fun hp => by cases hp)
    · simp only [weight, rank, hne, hphase, Bool.false_eq_true, if_false]
      omega
  | full hne hu =>
    have hnonempty : s.batch.isEmpty = false := Bool.eq_false_iff.mpr fun hempty => by
      rw [h.filled, View.batch, h.isEmpty_iff.mp hempty] at hne
      exact hne rfl
    simp only [true_and]
    rw [if_pos hnonempty]
    refine ⟨_, v, rfl, {
      h.toCarrying.kept (s.asked + 1) s.phase (.refl _) hu.streams hu.pos_eq h.wf rfl rfl with
      standing := .ended hphase hdata hend hgrown, closing := h.closing }, HalvesLater.refl _ _, hnonempty, ?_, ?_⟩
    · simp only [hphase]
      exact fun hp => by cases hp
    · exact Nat.le_refl _

theorem finishTurn_leads (h : Inv env keep s₀ s v) (hshut : s.phase ≠ .shuttingDown)
    (hwork : s.batch.isEmpty = false ∨ s.phase = .sendZeroChunk ∨ s.phase = .draining) :
    TurnLeads env keep s₀ s (weight s) (s.finishTurn env keep) := by
  unfold finishTurn
  by_cases hzero : s.phase = .sendZeroChunk ∧ s.batch.hasRoom = true
  · rw [if_pos hzero]
    obtain ⟨s', v', hqueue, hinv, hlater, hne, hshut', hweight⟩ := queueZeroChunk_queues h hzero.1 hzero.2
    rw [hqueue]
    exact (flush_leads hinv hshut' (.inl hne)).since hlater hweight
  · rw [if_neg hzero]
    refine flush_leads h hshut ?_
    rcases hwork with hne | hphase | hphase
    · exact .inl hne
    · refine .inl (Bool.eq_false_iff.mpr fun hempty => hzero ⟨hphase, ?_⟩)
      rw [EncodeBatch.isEmpty, beq_iff_eq] at hempty
      rw [EncodeBatch.hasRoom, hempty]
      decide
    · exact .inr hphase

omit [ClosingEncoder E] in
theorem shutdown_leads (h : Inv env keep s₀ s v) (hphase : s.phase = .shuttingDown) :
    TurnLeads env keep s₀ s (weight s) (turn env keep s) := by
  have hinv {writer : WriteHalf} (hwriter : writer.toWriter = s.writer.toWriter)
      (hsuf : writer.shutdowns <:+ s.writer.shutdowns) : Inv env keep s₀ { s with writer } v := {
    h with
    answers := by simp only [hwriter]; exact h.answers
    shutdowns := hsuf.trans h.shutdowns
    sent := by simp only [hwriter]; exact h.sent
    standing := by
      cases h.standing with
      | shutting hp hclosed hend hkeep hall => exact .shutting hp hclosed hend hkeep hall
      | reading hp => rw [hp] at hphase; cases hphase
      | ended hp => rw [hp] at hphase; cases hphase
      | closed hp => rw [hp] at hphase; cases hphase
    closing := fun _ => .inr hphase }
  unfold turn
  rw [if_pos hphase]
  unfold WriteHalf.pollShutdown
  cases hshut : s.writer.shutdowns with
  | nil => exact ⟨v, hinv rfl List.nil_suffix, .shutdown hphase (.inl rfl)⟩
  | cons a shutdowns =>
    have hsuf : shutdowns <:+ s.writer.shutdowns := hshut ▸ List.suffix_cons _ _
    cases a with
    | pending => exact ⟨v, hinv rfl hsuf, .shutdown hphase (.inr ⟨[], hshut⟩)⟩
    | failed kind =>
      exact ⟨v, .shutdownFailed kind (hinv rfl hsuf) hphase (h.shutdowns.subset (hshut ▸ List.mem_cons_self))⟩
    | done => exact ⟨v, .closed (hinv rfl hsuf) hphase rfl⟩

theorem turn_leads (h : Inv env keep s₀ s v) : TurnLeads env keep s₀ s (weight s) (turn env keep s) := by
  by_cases hshut : s.phase = .shuttingDown
  · exact shutdown_leads h hshut
  unfold turn
  rw [if_neg hshut]
  by_cases hread : s.phase = .reading ∧ s.batch.isEmpty = true
  · obtain ⟨hphase, hempty⟩ := hread
    have hfill : Filling env s₀ s s v := {
      h with
      later := .refl _ _
      phase := hphase
      data := by
        cases h.standing with
        | reading _ hdata => exact hdata
        | ended hp => rw [hp] at hphase; cases hphase
        | closed hp => rw [hp] at hphase; cases hphase
        | shutting hp => exact absurd hp hshut
      le := Nat.le_refl _
      lt := fun hne => by rw [hempty] at hne; cases hne
      closing := fun hcl => (h.closing hcl).resolve_right hshut }
    have hleads := fill_leads keep hfill
    rw [if_pos ⟨hphase, hempty⟩]
    cases hr : Polling.poll (readTurn env) s.readTurns s with
    | again s' => rw [hr] at hleads; exact hleads.elim
    | pending s' => rw [hr] at hleads; exact hleads
    | ready r s' =>
      rw [hr] at hleads
      cases r with
      | some r => exact hleads
      | none =>
        obtain ⟨v', hfilled⟩ := hleads
        have hle := hfilled.le
        refine (finishTurn_leads hfilled.toInv ?_ ?_).since hfilled.later ?_
        · rcases hfilled.done with ⟨hp, -⟩ | hp <;> rw [hp] <;> exact fun hp => by cases hp
        · exact hfilled.done.imp (fun h => h.2.1) .inl
        · simp only [weight, hphase, hempty, rank, if_true]
          rcases hfilled.done with ⟨hp, hne, hlt⟩ | hp
          · simp only [hp, hne, Bool.false_eq_true, if_false]
            omega
          · simp only [hp]
            split <;> omega
  · rw [if_neg hread]
    have hwork : s.batch.isEmpty = false ∨ s.phase = .sendZeroChunk ∨ s.phase = .draining := by
      cases hp : s.phase with
      | reading => exact .inl (Bool.eq_false_iff.mpr fun hempty => hread ⟨hp, hempty⟩)
      | sendZeroChunk => exact .inr (.inl rfl)
      | draining => exact .inr (.inr rfl)
      | shuttingDown => exact absurd hp hshut
    exact finishTurn_leads h hshut hwork

/-! ## Polls -/

theorem poll_leads_pump (h : Inv env keep s₀ s v) :
    (poll env keep s).Leads (fun _ => False) (fun s' => ∃ v, Inv env keep s₀ s' v ∧ PendingOn s s' v)
      (fun r s' => ∃ v, Outcome env keep s₀ s' v r) := by
  refine Polling.poll_leads (I := fun s' => (∃ v, Inv env keep s₀ s' v) ∧ Later s s') (μ := weight) ?_
    ⟨⟨v, h⟩, .refl _ _⟩ ?_
  · rintro s' ⟨⟨v', h'⟩, hlater⟩
    refine ((turn_leads h').since hlater (Nat.le_refl _)).imp ?_ (fun _ hs' => hs') fun _ _ hr => hr
    rintro s'' ⟨hinv, hlater', hweight⟩
    exact ⟨⟨hinv, hlater'⟩, hweight⟩
  · have hrank : rank s.phase ≤ 3 := by cases s.phase <;> decide
    simp only [weight, turns]
    split <;> omega

omit [ClosingEncoder E] in
theorem start_inv (keep : Bool) (reader : ReadHalf) (writer : WriteHalf) {encoder : E} (h : Sustains encoder env.sealing) :
    Inv env keep (start env reader writer encoder) (start env reader writer encoder) ⟨[], [], []⟩ where
  gave := .refl _
  answers := List.suffix_refl _
  shutdowns := List.suffix_refl _
  streams := h
  chain := .nil
  payload := rfl
  holds := EncodeBatch.default_holds
  fits := Nat.zero_le _
  wf := ⟨Nat.zero_le _, Nat.zero_le _⟩
  max_eq := rfl
  filled := rfl
  written_le := Nat.zero_le _
  sent := (List.append_nil _).symm
  standing := .reading rfl fun r hr => by cases hr
  closing := fun hcl => .inl hcl

end PlainToSnell

end Snell
