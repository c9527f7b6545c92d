/-
`EncodeBatch` of `snell-runtime/src/session.rs`: the records sealed into the
encode buffer and not yet written, kept as offsets. A run of unsplit records
is one entry, and a poll starts again from the number of bytes written.

Whatever the writer does, each record goes out from its split to its end and
then from its start to its split, record by record, and a record added between
two polls goes behind all others (`encode_batch_in_wire_order`).
-/
import Snell.EncodeRun
import Snell.Sockets

namespace Snell

def encodeBatchMax : Nat := 32

/-- `records` are the entries in use, as `(split, end)`. -/
structure EncodeBatch where
  records : List (UInt32 × UInt32)
  written : Nat

namespace EncodeBatch

def default : EncodeBatch := ⟨[], 0⟩

def isEmpty (batch : EncodeBatch) : Bool := batch.records.length == 0

def hasRoom (batch : EncodeBatch) : Bool := batch.records.length < encodeBatchMax

/-- Add the record that ends at `stop`; `split` is relative to its start. -/
def push (batch : EncodeBatch) (stop split : Nat) : Res EncodeBatch :=
  let add : Res EncodeBatch :=
    if batch.records.length < encodeBatchMax then
      .ok { batch with records := batch.records ++ [(UInt32.ofNat split, UInt32.ofNat stop)] }
    else .error .panic
  if split = 0 then
    match batch.records.getLast? with
    | some last =>
      if last.1 = 0 then .ok { batch with records := batch.records.dropLast ++ [(last.1, UInt32.ofNat stop)] } else add
    | none => add
  else add

def clear (_ : EncodeBatch) : EncodeBatch := ⟨[], 0⟩

/-- The parts of `filled` in wire order, the first entry starting at `start`. -/
def partsFrom (filled : Bytes) : Nat → List (UInt32 × UInt32) → Res (List Bytes)
  | _, [] => .ok []
  | start, (split, stop) :: records => do
    let split := start + split.toNat
    let back ← slice filled split stop.toNat
    let front ← slice filled start split
    let parts ← partsFrom filled stop.toNat records
    return back :: front :: parts

/-- Write the rest of the batch from `filled`, the encode buffer. -/
def pollWrite (batch : EncodeBatch) (filled : Bytes) (w : Writer) : Polled (SessionRes Unit) × EncodeBatch × Writer :=
  match partsFrom filled 0 batch.records with
  | .error f => (.ready (.error f.inSession), batch, w)
  | .ok parts =>
    match writeParts (2 * encodeBatchMax) parts batch.written w with
    | (r, written, w) => (r, { batch with written }, w)

end EncodeBatch

/-! ## Records in a batch -/

/-- A record and where it is split. -/
abbrev SplitRecord := Bytes × Nat

/-- The records end to end, as they are in the encode buffer. -/
def laid (records : List SplitRecord) : Bytes := (records.map Prod.fst).flatten

/-- The records as they go on the wire. -/
def wireOrder (records : List SplitRecord) : Bytes := (records.map fun r => rotate r.2 r.1).flatten

/-- One more record: how many entries there are, and whether the last of them
is a run of unsplit records. -/
def entryStep (e : Nat × Bool) (split : Nat) : Nat × Bool :=
  if split = 0 ∧ e.2 = true then (e.1, true) else (e.1 + 1, split == 0)

/-- The entries that records split at `splits` take. -/
def entries (splits : List Nat) : Nat × Bool := splits.foldl entryStep (0, false)

theorem entries_append (splits : List Nat) (split : Nat) :
    entries (splits ++ [split]) =
      if split = 0 ∧ (entries splits).2 = true then ((entries splits).1, true)
      else ((entries splits).1 + 1, split == 0) := by
  rw [entries, List.foldl_append]
  rfl

theorem entries_mono (splits more : List Nat) : (entries splits).1 ≤ (entries (splits ++ more)).1 := by
  induction more generalizing splits with
  | nil => rw [List.append_nil]
  | cons split more ih =>
    have hrest := ih (splits ++ [split])
    rw [List.append_assoc, List.singleton_append] at hrest
    refine Nat.le_trans ?_ hrest
    rw [entries_append]
    split
    · exact Nat.le_refl _
    · exact Nat.le_succ _

theorem laid_append (records records' : List SplitRecord) :
    laid (records ++ records') = laid records ++ laid records' := by
  simp only [laid, List.map_append, List.flatten_append]

theorem laid_concat (records : List SplitRecord) (r : SplitRecord) : laid (records ++ [r]) = laid records ++ r.1 := by
  simp only [laid, List.map_append, List.flatten_append, List.map_cons, List.map_nil, List.flatten_singleton]

theorem wireOrder_concat (records : List SplitRecord) (r : SplitRecord) :
    wireOrder (records ++ [r]) = wireOrder records ++ rotate r.2 r.1 := by
  simp only [wireOrder, List.map_append, List.flatten_append, List.map_cons, List.map_nil, List.flatten_singleton]

namespace EncodeBatch

/-! ## The parts -/

/-- Where the last entry ends. -/
def lastEnd : Nat → List (UInt32 × UInt32) → Nat
  | start, [] => start
  | _, (_, stop) :: records => lastEnd stop.toNat records

theorem slice_append_left {l : Bytes} {i j : Nat} {part : Bytes} (h : slice l i j = .ok part) (m : Bytes) :
    slice (l ++ m) i j = .ok part := by
  unfold slice at h
  split at h
  · next hij =>
    rw [← h, slice_ok hij.1 (by rw [List.length_append]; omega), List.drop_append_of_le_length (by omega),
      List.take_append_of_le_length (by rw [List.length_drop]; omega)]
  · cases h

theorem partsFrom_cons {filled : Bytes} {start : Nat} {split stop : UInt32} {records : List (UInt32 × UInt32)}
    {parts : List Bytes} :
    partsFrom filled start ((split, stop) :: records) = .ok parts ↔
      ∃ back front rest, slice filled (start + split.toNat) stop.toNat = .ok back ∧
        slice filled start (start + split.toNat) = .ok front ∧ partsFrom filled stop.toNat records = .ok rest ∧
        parts = back :: front :: rest := by
  simp only [partsFrom]
  constructor
  · intro h
    cases hb : slice filled (start + split.toNat) stop.toNat with
    | error f => rw [hb] at h; cases h
    | ok back =>
      cases hf : slice filled start (start + split.toNat) with
      | error f => rw [hb, hf] at h; cases h
      | ok front =>
        cases hr : partsFrom filled stop.toNat records with
        | error f => rw [hb, hf, hr] at h; cases h
        | ok rest => rw [hb, hf, hr] at h; cases h; exact ⟨back, front, rest, rfl, rfl, rfl, rfl⟩
  · rintro ⟨back, front, rest, hb, hf, hr, rfl⟩
    rw [hb, hf, hr]
    rfl

theorem partsFrom_append {filled : Bytes} {start : Nat} {records records' : List (UInt32 × UInt32)} {parts : List Bytes} :
    partsFrom filled start (records ++ records') = .ok parts ↔
      ∃ ps ps', partsFrom filled start records = .ok ps ∧ partsFrom filled (lastEnd start records) records' = .ok ps' ∧
        parts = ps ++ ps' := by
  induction records generalizing start parts with
  | nil => simp [partsFrom, lastEnd]
  | cons r records ih =>
    obtain ⟨split, stop⟩ := r
    simp only [List.cons_append, partsFrom_cons, ih, lastEnd]
    constructor
    · rintro ⟨back, front, rest, hb, hf, ⟨ps, ps', hps, hps', rfl⟩, rfl⟩
      exact ⟨back :: front :: ps, ps', ⟨back, front, ps, hb, hf, hps, rfl⟩, hps', rfl⟩
    · rintro ⟨_, ps', ⟨back, front, ps, hb, hf, hps, rfl⟩, hps', rfl⟩
      exact ⟨back, front, ps ++ ps', hb, hf, ⟨ps, ps', hps, hps', rfl⟩, rfl⟩

/-- Filling the buffer further does not change the parts. -/
theorem partsFrom_extend {filled : Bytes} {start : Nat} {records : List (UInt32 × UInt32)} {parts : List Bytes}
    (h : partsFrom filled start records = .ok parts) (more : Bytes) :
    partsFrom (filled ++ more) start records = .ok parts := by
  induction records generalizing start parts with
  | nil => exact h
  | cons r records ih =>
    obtain ⟨split, stop⟩ := r
    obtain ⟨back, front, rest, hb, hf, hr, rfl⟩ := partsFrom_cons.mp h
    exact partsFrom_cons.mpr ⟨back, front, rest, slice_append_left hb _, slice_append_left hf _, ih hr, rfl⟩

theorem length_partsFrom {filled : Bytes} {start : Nat} {records : List (UInt32 × UInt32)} {parts : List Bytes}
    (h : partsFrom filled start records = .ok parts) : parts.length = 2 * records.length := by
  induction records generalizing start parts with
  | nil => cases h; rfl
  | cons r records ih =>
    obtain ⟨split, stop⟩ := r
    obtain ⟨back, front, rest, -, -, hr, rfl⟩ := partsFrom_cons.mp h
    rw [List.length_cons, List.length_cons, List.length_cons, ih hr]
    omega

theorem lastEnd_append (start : Nat) (records : List (UInt32 × UInt32)) (split stop : UInt32) :
    lastEnd start (records ++ [(split, stop)]) = stop.toNat := by
  induction records generalizing start with
  | nil => rfl
  | cons r records ih => exact ih _

/-! ## What a batch holds -/

/-- The batch is the records: its parts put together are the wire order. -/
structure Holds (batch : EncodeBatch) (records : List SplitRecord) : Prop where
  parts : ∃ parts, partsFrom (laid records) 0 batch.records = .ok parts ∧ parts.flatten = wireOrder records
  stop : lastEnd 0 batch.records = (laid records).length
  count : batch.records.length = (entries (records.map Prod.snd)).1
  unsplit : (batch.records.getLast?.map fun last => last.1 == 0).getD false = (entries (records.map Prod.snd)).2

theorem default_holds : Holds default [] :=
  ⟨⟨[], rfl, rfl⟩, rfl, rfl, rfl⟩

theorem slice_tail {l : Bytes} {i : Nat} (hi : i ≤ l.length) : slice l i l.length = .ok (l.drop i) := by
  rw [slice_ok hi (Nat.le_refl _), List.take_of_length_le (by rw [List.length_drop])]

/-- A new entry for the record. -/
theorem Holds.add {batch : EncodeBatch} {records : List SplitRecord} (h : Holds batch records) {record : Bytes}
    {split : Nat} (hsplit : split ≤ record.length) (hlen : (laid records).length + record.length < 2 ^ 32)
    (hnew : ¬ (split = 0 ∧ (entries (records.map Prod.snd)).2 = true)) :
    Holds { batch with records := batch.records ++
      [(UInt32.ofNat split, UInt32.ofNat (laid (records ++ [(record, split)])).length)] }
        (records ++ [(record, split)]) := by
  obtain ⟨parts, hparts, hflat⟩ := h.parts
  have hs : (UInt32.ofNat split).toNat = split := by
    rw [UInt32.toNat_ofNat']; exact Nat.mod_eq_of_lt (by omega)
  have hlaid : laid (records ++ [(record, split)]) = laid records ++ record := laid_concat records (record, split)
  have hlen' : (laid (records ++ [(record, split)])).length = (laid records).length + record.length := by
    rw [hlaid, List.length_append]
  have he : (UInt32.ofNat (laid (records ++ [(record, split)])).length).toNat =
      (laid (records ++ [(record, split)])).length := by
    rw [UInt32.toNat_ofNat']; exact Nat.mod_eq_of_lt (by omega)
  have hent : entries ((records ++ [(record, split)]).map Prod.snd) =
      ((entries (records.map Prod.snd)).1 + 1, split == 0) := by
    rw [List.map_append, List.map_cons, List.map_nil, entries_append, if_neg hnew]
  refine ⟨⟨parts ++ [record.drop split, record.take split], ?_, ?_⟩, ?_, ?_, ?_⟩
  · refine partsFrom_append.mpr ⟨parts, _, hlaid ▸ partsFrom_extend hparts record, ?_, rfl⟩
    refine partsFrom_cons.mpr ⟨_, _, [], ?_, ?_, rfl, rfl⟩
    · rw [h.stop, hs, he, slice_tail (by omega), hlaid, List.drop_length_add_append]
    · rw [h.stop, hs, hlaid, slice_ok (by omega) (by rw [List.length_append]; omega), List.drop_left,
        Nat.add_sub_cancel_left]
  · rw [List.flatten_append, hflat, wireOrder_concat, rotate]
    simp only [List.flatten_cons, List.flatten_nil, List.append_nil]
  · rw [lastEnd_append, he]
  · rw [List.length_append, h.count, hent]
    rfl
  · have hzero : (UInt32.ofNat split == 0) = (split == 0) := by
      rw [Bool.eq_iff_iff, beq_iff_eq, beq_iff_eq, ← UInt32.toNat_inj, hs]
      rfl
    rw [List.getLast?_concat, hent]
    exact hzero

/-- The run of unsplit records at the end grows. -/
theorem Holds.extend {batch : EncodeBatch} {records : List SplitRecord} (h : Holds batch records) {record : Bytes}
    (hlen : (laid records).length + record.length < 2 ^ 32) {init : List (UInt32 × UInt32)} {stop : UInt32}
    (hlast : batch.records = init ++ [(0, stop)]) :
    Holds { batch with records := init ++ [(0, UInt32.ofNat (laid (records ++ [(record, 0)])).length)] }
      (records ++ [(record, 0)]) := by
  obtain ⟨parts, hparts, hflat⟩ := h.parts
  have hstop := h.stop
  have hcount := h.count
  have hunsplit := h.unsplit
  rw [hlast] at hparts hstop hcount hunsplit
  rw [lastEnd_append] at hstop
  rw [List.getLast?_concat] at hunsplit
  have hlaid : laid (records ++ [(record, 0)]) = laid records ++ record := laid_concat records (record, 0)
  have hlen' : (laid (records ++ [(record, 0)])).length = (laid records).length + record.length := by
    rw [hlaid, List.length_append]
  have he : (UInt32.ofNat (laid (records ++ [(record, 0)])).length).toNat = (laid (records ++ [(record, 0)])).length := by
    rw [UInt32.toNat_ofNat']; exact Nat.mod_eq_of_lt (by omega)
  have hent : entries ((records ++ [(record, 0)]).map Prod.snd) = ((entries (records.map Prod.snd)).1, true) := by
    rw [List.map_append, List.map_cons, List.map_nil, entries_append, if_pos ⟨rfl, hunsplit.symm⟩]
  -- the parts before the last entry, and the one part the last entry is
  obtain ⟨ps, ps', hps, hps', rfl⟩ := partsFrom_append.mp hparts
  obtain ⟨back, front, rest, hback, hfront, hrest, rfl⟩ := partsFrom_cons.mp hps'
  cases hrest
  have hle : lastEnd 0 init ≤ (laid records).length := by
    unfold slice at hback
    split at hback
    · next hij => simp only [UInt32.toNat_zero, Nat.add_zero] at hij; omega
    · cases hback
  rw [UInt32.toNat_zero, Nat.add_zero, hstop, slice_tail hle] at hback
  obtain rfl := Except.ok.inj hback
  have hempty : ∀ l : Bytes, lastEnd 0 init ≤ l.length → slice l (lastEnd 0 init) (lastEnd 0 init) = .ok [] := by
    intro l hl
    rw [slice_ok (Nat.le_refl _) hl, Nat.sub_self, List.take_zero]
  rw [UInt32.toNat_zero, Nat.add_zero, hempty _ hle] at hfront
  obtain rfl := Except.ok.inj hfront
  refine ⟨⟨ps ++ [(laid records).drop (lastEnd 0 init) ++ record, []], ?_, ?_⟩, ?_, ?_, ?_⟩
  · refine partsFrom_append.mpr ⟨ps, _, hlaid ▸ partsFrom_extend hps record, ?_, rfl⟩
    refine partsFrom_cons.mpr ⟨_, _, [], ?_, ?_, rfl, rfl⟩
    · rw [UInt32.toNat_zero, Nat.add_zero, he, slice_tail (by omega), hlaid, List.drop_append_of_le_length hle]
    · rw [UInt32.toNat_zero, Nat.add_zero]
      exact hempty _ (by omega)
  · rw [wireOrder_concat, rotate_zero, ← hflat]
    simp only [List.flatten_append, List.flatten_cons, List.flatten_nil, List.append_nil, List.append_assoc]
  · rw [lastEnd_append, he]
  · rw [List.length_append, hent, ← hcount, List.length_append]
    rfl
  · rw [List.getLast?_concat, hent]
    rfl

/-- **Adding a record** to a batch that has room for it. -/
theorem Holds.push {batch : EncodeBatch} {records : List SplitRecord} (h : Holds batch records) {record : Bytes}
    {split : Nat} (hsplit : split ≤ record.length) (hlen : (laid records).length + record.length < 2 ^ 32)
    (hfit : (entries ((records ++ [(record, split)]).map Prod.snd)).1 ≤ encodeBatchMax) :
    ∃ batch', batch.push (laid (records ++ [(record, split)])).length split = .ok batch' ∧
      Holds batch' (records ++ [(record, split)]) ∧ batch'.written = batch.written := by
  rw [List.map_append, List.map_cons, List.map_nil, entries_append] at hfit
  by_cases hmerge : split = 0 ∧ (entries (records.map Prod.snd)).2 = true
  · obtain ⟨rfl, hunsplit⟩ := hmerge
    have hlast := h.unsplit
    rw [hunsplit] at hlast
    rcases List.eq_nil_or_concat batch.records with hnil | ⟨init, last, hcat⟩
    · rw [hnil] at hlast; cases hlast
    · obtain ⟨zero, stop⟩ := last
      rw [hcat, List.concat_eq_append, List.getLast?_concat] at hlast
      obtain rfl : zero = 0 := by simpa using hlast
      rw [List.concat_eq_append] at hcat
      refine ⟨_, ?_, h.extend hlen hcat, rfl⟩
      simp only [EncodeBatch.push, if_true, hcat, List.getLast?_concat, List.dropLast_concat]
  · rw [if_neg hmerge] at hfit
    have hroom : batch.records.length < encodeBatchMax := by rw [h.count]; exact hfit
    refine ⟨_, ?_, h.add hsplit hlen hmerge, rfl⟩
    simp only [EncodeBatch.push, if_pos hroom]
    split
    · next h0 =>
      split
      · next last hlast =>
        have hflag := h.unsplit
        rw [hlast] at hflag
        rw [if_neg]
        intro hz
        refine hmerge ⟨h0, hflag.symm.trans ?_⟩
        simp [hz]
      · rfl
    · rfl

/-! ## Polling -/

/-- **A poll sends the next bytes in wire order**, as many as it adds to the
count. -/
theorem Holds.pollWrite {batch : EncodeBatch} {records : List SplitRecord} (h : Holds batch records)
    (hfit : batch.records.length ≤ encodeBatchMax) (hw : batch.written ≤ (wireOrder records).length) (w : Writer) :
    ∃ r written' w', batch.pollWrite (laid records) w = (r, { batch with written := written' }, w') ∧
      batch.written ≤ written' ∧ written' ≤ (wireOrder records).length ∧
      w'.sent = w.sent ++ ((wireOrder records).drop batch.written).take (written' - batch.written) ∧
      w'.answers <:+ w.answers ∧
      ∃ parts, parts.flatten = wireOrder records ∧ WriteEnding parts batch.written written' w.answers r := by
  obtain ⟨parts, hparts, hflat⟩ := h.parts
  have hroom : parts.length ≤ 2 * encodeBatchMax := by rw [length_partsFrom hparts]; omega
  obtain ⟨r, written', w', hrun, hle, hle', hsent, hsuf, hend⟩ := writeParts_sent hroom _ w (hflat ▸ hw)
  rw [hflat] at hle' hsent
  exact ⟨r, written', w', by simp only [EncodeBatch.pollWrite, hparts, hrun], hle, hle', hsent, hsuf, parts, hflat, hend⟩

end EncodeBatch

/-! ## A batch in use -/

/-- What happens to a batch before it is cleared: a record is sealed behind
the others in the buffer and added, or the batch is polled. -/
inductive BatchEvent where
  | push (record : Bytes) (split : Nat)
  | poll (answers : List WriteAnswer)

/-- The batch, the encode buffer, and what the writer was given. -/
structure BatchState where
  batch : EncodeBatch
  filled : Bytes
  sent : Bytes

namespace BatchState

def start : BatchState := ⟨.default, [], []⟩

def step (s : BatchState) : BatchEvent → Res (BatchState × Option (Polled (SessionRes Unit)))
  | .push record split => do
    let filled := s.filled ++ record
    let batch ← s.batch.push filled.length split
    return ({ s with batch, filled }, none)
  | .poll answers =>
    match s.batch.pollWrite s.filled ⟨s.sent, answers⟩ with
    | (r, batch, w) => .ok ({ s with batch, sent := w.sent }, some r)

def run (s : BatchState) : List BatchEvent → Res BatchState
  | [] => .ok s
  | e :: events => do
    let (s, _) ← s.step e
    s.run events

/-- The batch holds `records`, and the first `written` bytes of them in wire
order went out. -/
structure Sends (s : BatchState) (records : List SplitRecord) : Prop where
  holds : s.batch.Holds records
  filled : s.filled = laid records
  le : s.batch.written ≤ (wireOrder records).length
  sent : s.sent = (wireOrder records).take s.batch.written

theorem start_sends : Sends start [] := ⟨EncodeBatch.default_holds, rfl, Nat.le_refl _, rfl⟩

theorem Sends.push {s : BatchState} {records : List SplitRecord} (h : Sends s records) {record : Bytes} {split : Nat}
    (hsplit : split ≤ record.length) (hlen : (laid (records ++ [(record, split)])).length < 2 ^ 32)
    (hfit : (entries ((records ++ [(record, split)]).map Prod.snd)).1 ≤ encodeBatchMax) :
    ∃ s', s.step (.push record split) = .ok (s', none) ∧ Sends s' (records ++ [(record, split)]) ∧ s'.sent = s.sent := by
  have hlaid : laid (records ++ [(record, split)]) = s.filled ++ record := by rw [laid_concat, h.filled]
  obtain ⟨batch', hpush, hholds, hwritten⟩ := h.holds.push hsplit
    (by rw [laid_concat, List.length_append] at hlen; exact hlen) hfit
  rw [hlaid] at hpush
  refine ⟨⟨batch', s.filled ++ record, s.sent⟩, ?_, ⟨hholds, hlaid.symm, ?_, ?_⟩, rfl⟩
  · simp only [step, hpush, bind, Except.bind]
    rfl
  · rw [wireOrder_concat, List.length_append, hwritten]
    exact Nat.le_trans h.le (Nat.le_add_right _ _)
  · rw [wireOrder_concat, hwritten, List.take_append_of_le_length h.le]
    exact h.sent

theorem Sends.poll {s : BatchState} {records : List SplitRecord} (h : Sends s records)
    (hfit : (entries (records.map Prod.snd)).1 ≤ encodeBatchMax) (answers : List WriteAnswer) :
    ∃ r s', s.step (.poll answers) = .ok (s', some r) ∧ Sends s' records ∧ s.batch.written ≤ s'.batch.written ∧
      ∃ parts, parts.flatten = wireOrder records ∧ WriteEnding parts s.batch.written s'.batch.written answers r := by
  obtain ⟨r, written', w', hrun, hle, hle', hsent, -, hend⟩ := h.holds.pollWrite (by rw [h.holds.count]; exact hfit)
    h.le ⟨s.sent, answers⟩
  rw [← h.filled] at hrun
  refine ⟨r, ⟨{ s.batch with written := written' }, s.filled, w'.sent⟩, by simp only [step, hrun], ?_, hle, hend⟩
  refine ⟨⟨h.holds.parts, h.holds.stop, h.holds.count, h.holds.unsplit⟩, h.filled, hle', ?_⟩
  have hsplit : (wireOrder records).take written' =
      (wireOrder records).take s.batch.written ++
        ((wireOrder records).drop s.batch.written).take (written' - s.batch.written) := by
    rw [← List.take_add, Nat.add_sub_cancel' hle]
  simp only at hsent ⊢
  rw [hsent, h.sent, hsplit]

end BatchState

/-- The records added in a run. -/
def BatchEvent.pushed : BatchEvent → List SplitRecord
  | .push record split => [(record, split)]
  | .poll _ => []

def pushed (events : List BatchEvent) : List SplitRecord := events.flatMap BatchEvent.pushed

theorem BatchState.run_sends {s : BatchState} {records : List SplitRecord} (h : Sends s records) (events : List BatchEvent)
    (hsplit : ∀ r ∈ pushed events, r.2 ≤ r.1.length) (hlen : (laid (records ++ pushed events)).length < 2 ^ 32)
    (hfit : (entries ((records ++ pushed events).map Prod.snd)).1 ≤ encodeBatchMax) :
    ∃ s', s.run events = .ok s' ∧ Sends s' (records ++ pushed events) := by
  induction events generalizing s records with
  | nil => exact ⟨s, rfl, by rw [pushed, List.flatMap_nil, List.append_nil]; exact h⟩
  | cons e events ih =>
    cases e with
    | push record split =>
      have hall : records ++ pushed (.push record split :: events) = (records ++ [(record, split)]) ++ pushed events := by
        simp only [pushed, List.flatMap_cons, BatchEvent.pushed, List.append_assoc]
      rw [hall] at hlen hfit ⊢
      have hlen₁ : (laid (records ++ [(record, split)])).length < 2 ^ 32 := by
        refine Nat.lt_of_le_of_lt ?_ hlen
        rw [laid_append _ (pushed events), List.length_append]
        exact Nat.le_add_right _ _
      have hfit₁ : (entries ((records ++ [(record, split)]).map Prod.snd)).1 ≤ encodeBatchMax := by
        have hmono := entries_mono ((records ++ [(record, split)]).map Prod.snd) ((pushed events).map Prod.snd)
        rw [← List.map_append] at hmono
        exact Nat.le_trans hmono hfit
      obtain ⟨s₁, hstep, hs₁, -⟩ := h.push (hsplit (record, split) (by simp [pushed, BatchEvent.pushed])) hlen₁ hfit₁
      obtain ⟨s', hrun, hs'⟩ := ih hs₁ (fun r hr => hsplit r (by simp [pushed] at hr ⊢; exact .inr hr)) hlen hfit
      exact ⟨s', by simp only [run, hstep, bind, Except.bind]; exact hrun, hs'⟩
    | poll answers =>
      have hall : pushed (.poll answers :: events) = pushed events := rfl
      rw [hall] at hlen hfit hsplit ⊢
      have hfit₁ : (entries (records.map Prod.snd)).1 ≤ encodeBatchMax := by
        refine Nat.le_trans ?_ hfit
        rw [List.map_append]
        exact entries_mono _ _
      obtain ⟨r, s₁, hstep, hs₁, -, -⟩ := h.poll hfit₁ answers
      obtain ⟨s', hrun, hs'⟩ := ih hs₁ hsplit hlen hfit
      exact ⟨s', by simp only [run, hstep, bind, Except.bind]; exact hrun, hs'⟩

/-- **An encode batch goes out in wire order whatever the writer does.** After
any run of additions and polls, what went out is a prefix of the records in
wire order. A further poll goes on from there, each byte once, and is done
exactly if nothing is left; a further record goes behind all others. -/
theorem encode_batch_in_wire_order (events : List BatchEvent) (hsplit : ∀ r ∈ pushed events, r.2 ≤ r.1.length)
    (hlen : (laid (pushed events)).length < 2 ^ 32)
    (hfit : (entries ((pushed events).map Prod.snd)).1 ≤ encodeBatchMax) :
    ∃ s, BatchState.start.run events = .ok s ∧ s.filled = laid (pushed events) ∧
      s.sent <+: wireOrder (pushed events) ∧
      (∀ answers : List WriteAnswer, (∀ a ∈ answers, a.Good) →
        ∃ r s', s.step (.poll answers) = .ok (s', some r) ∧
          s.sent <+: s'.sent ∧ s'.sent <+: wireOrder (pushed events) ∧
          (r = .ready (.ok ()) ↔ s'.sent = wireOrder (pushed events)) ∧
          (r = .pending ↔ s'.sent ≠ wireOrder (pushed events)) ∧
          (.pending ∉ answers → (wireOrder (pushed events)).length ≤ s.sent.length + answers.length →
            r = .ready (.ok ()))) ∧
      ∀ (record : Bytes) (split : Nat), split ≤ record.length →
        (laid (pushed events)).length + record.length < 2 ^ 32 →
        (entries ((pushed events).map Prod.snd ++ [split])).1 ≤ encodeBatchMax →
        ∃ s', s.step (.push record split) = .ok (s', none) ∧ s'.sent = s.sent ∧
          wireOrder (pushed (events ++ [.push record split])) =
            wireOrder (pushed events) ++ (record.drop split ++ record.take split) := by
  obtain ⟨s, hrun, hs⟩ := BatchState.run_sends BatchState.start_sends events hsplit (by simpa using hlen)
    (by simpa using hfit)
  rw [List.nil_append] at hs
  have hpre : ∀ {t : BatchState}, BatchState.Sends t (pushed events) → t.sent <+: wireOrder (pushed events) := by
    intro t ht
    rw [ht.sent]
    exact List.take_prefix _ _
  refine ⟨s, hrun, hs.filled, hpre hs, ?_, ?_⟩
  · intro answers hgood
    obtain ⟨r, s', hstep, hs', hle, parts, hflat, hend⟩ := hs.poll hfit answers
    have hall : s'.sent = wireOrder (pushed events) ↔ s'.batch.written = (wireOrder (pushed events)).length := by
      rw [hs'.sent]
      constructor
      · intro h
        have := congrArg List.length h
        rw [List.length_take] at this
        have := hs'.le
        omega
      · intro h
        rw [h, List.take_length]
    have hsent : s.sent.length = s.batch.written := by
      rw [hs.sent, List.length_take]
      exact Nat.min_eq_left hs.le
    refine ⟨r, s', hstep, ?_, hpre hs', ?_⟩
    · rw [hs.sent, hs'.sent]
      exact List.take_prefix_take_left hle
    · simp only [ne_eq, hall]
      cases hend with
      | done h =>
        rw [hflat] at h
        exact ⟨⟨fun _ => h, fun _ => rfl⟩, ⟨nofun, fun hnot => absurd h hnot⟩, fun _ _ => rfl⟩
      | pending h hwhy =>
        rw [hflat] at h
        refine ⟨⟨nofun, fun hdone => by omega⟩, ⟨fun _ => by omega, fun _ => rfl⟩, fun hnot hmany => ?_⟩
        rcases hwhy with hp | hcount
        · exact absurd hp hnot
        · omega
      | failed kind h hbad =>
        obtain ⟨a, ha, hbad⟩ := hbad
        exact absurd (hgood a ha) hbad
  · intro record split hs₁ hlen₁ hfit₁
    have hent : (entries ((pushed events ++ [(record, split)]).map Prod.snd)).1 ≤ encodeBatchMax := by
      rw [List.map_append]; exact hfit₁
    obtain ⟨s', hstep, -, hsame⟩ := hs.push hs₁ (by rw [laid_concat, List.length_append]; exact hlen₁) hent
    refine ⟨s', hstep, hsame, ?_⟩
    have hpushed : pushed (events ++ [.push record split]) = pushed events ++ [(record, split)] := by
      simp only [pushed, List.flatMap_append, List.flatMap_cons, List.flatMap_nil, BatchEvent.pushed, List.append_nil]
    rw [hpushed, wireOrder_concat, rotate]

/-- Three records, the first two sharing an entry, a partial write, a fourth
record, and the rest. -/
theorem encode_batch_in_wire_order_interleaved :
    ∃ s r s', BatchState.start.run [.push [1, 2] 0, .push [3] 0, .push [4, 5, 6] 1, .poll [.took 2, .pending],
        .push [7, 8] 2] = .ok s ∧ s.sent <+: [1, 2, 3, 5, 6, 4, 7, 8] ∧
      s.step (.poll [.took 3, .took 100, .took 1, .took 1, .took 1, .took 1, .took 1, .took 1]) = .ok (s', some r) ∧
      r = .ready (.ok ()) ∧ s'.sent = [1, 2, 3, 5, 6, 4, 7, 8] := by
  obtain ⟨s, hrun, -, hpre, hpoll, -⟩ := encode_batch_in_wire_order
    [.push [1, 2] 0, .push [3] 0, .push [4, 5, 6] 1, .poll [.took 2, .pending], .push [7, 8] 2]
    (by decide) (by decide) (by decide)
  obtain ⟨r, s', hstep, -, -, hdone, -, hall⟩ := hpoll
    [.took 3, .took 100, .took 1, .took 1, .took 1, .took 1, .took 1, .took 1] (by simp [WriteAnswer.Good])
  have hready := hall (by decide) (by
    change 8 ≤ s.sent.length + 8
    omega)
  exact ⟨s, r, s', hrun, hpre, hstep, hready, hdone.mp hready⟩

end Snell
