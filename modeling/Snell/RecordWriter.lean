/-
`write_plain_records` (`snell-runtime/src/session.rs`) turn by turn, and
`write_all`.

A turn seals the next record of the source, hands the writer what is left of
the record that was sealed, or returns the lease of one that is written. After
every turn the records sealed are those of a front of the source, and what is
on the wire is a front of them (`RecordWriter.Inv`).
-/
import Snell.PlainRecords
import Snell.ReadRecord
import Snell.Polling
import Snell.PlainToSnellFacts

namespace Snell

open RecordEncoder EncoderSpec LawfulEncoder DatagramEncoder StreamEncoder Polling

/-! ## `write_all` -/

/-- A turn of `write_all` and `write_all_buf`, with `rest` unwritten. -/
def WriteHalf.writeAllTurn (w : WriteHalf) (rest : Bytes) : Turn (WriteHalf × Bytes) (SessionRes Unit) :=
  if rest = [] then .ready (.ok ()) (w, rest)
  else
    match w.toWriter.poll rest with
    | (.pending, writer) => .pending ({ w with toWriter := writer }, rest)
    | (.ready (.error kind), writer) => .ready (.error (.err (.io kind))) ({ w with toWriter := writer }, rest)
    | (.ready (.ok n), writer) =>
      let w := { w with toWriter := writer }
      if n = 0 then .ready (.error (.err (.io .writeZero))) (w, rest) else .again (w, rest.drop n)

/-- The writer was given the front of `rest`, and `rest'` is left. -/
structure WriteHalf.Wrote (w : WriteHalf) (rest : Bytes) (w' : WriteHalf) (rest' : Bytes) : Prop where
  sent : w'.sent ++ rest' = w.sent ++ rest
  front : ∃ bytes, w'.sent = w.sent ++ bytes
  closing : w'.closing = w.closing

theorem WriteHalf.Wrote.all {w w' : WriteHalf} {rest bytes : Bytes} (h : w.Wrote rest w' [])
    (hsent : w.sent ++ rest = bytes) : w'.sent = bytes := by
  rw [← hsent, ← h.sent, List.append_nil]

theorem WriteHalf.writeAllTurn_leads (w : WriteHalf) (rest : Bytes) :
    (w.writeAllTurn rest).Until (fun x => w.Wrote rest x.1 x.2)
      fun r x => w.Wrote rest x.1 x.2 ∧ (r = .ok () → x.2 = []) := by
  have hsame (answers : List WriteAnswer) : w.Wrote rest { w with answers } rest :=
    ⟨rfl, ⟨[], (List.append_nil _).symm⟩, rfl⟩
  unfold writeAllTurn
  by_cases hrest : rest = []
  · rw [if_pos hrest]
    exact ⟨hsame w.answers, fun _ => hrest⟩
  rw [if_neg hrest]
  unfold Writer.poll
  cases hanswers : w.answers with
  | nil => exact hsame w.answers
  | cons a answers =>
    cases a with
    | pending => exact hsame answers
    | failed kind => exact ⟨hsame answers, fun h => by cases h⟩
    | took n =>
      simp only
      by_cases hn : min n rest.length = 0
      · rw [if_pos hn]
        refine ⟨⟨?_, ⟨[], ?_⟩, rfl⟩, fun h => by cases h⟩ <;> simp only [hn, List.take_zero, List.append_nil]
      · rw [if_neg hn]
        refine ⟨?_, ⟨_, rfl⟩, rfl⟩
        simp only [List.append_assoc, List.take_append_drop]

/-! ## Records -/

/-- `write_plain_records` under way: what is not sealed yet, the lease, and
what is not written of the record in it, if `drain_encode` is running. -/
structure RecordWriter (E : Type) where
  writer : WriteHalf
  encoder : E
  src : Bytes
  encode : PooledBuffer
  unwritten : Option Bytes
  /-- Records asked for so far; the environment answers each. -/
  asked : Nat

namespace RecordWriter

variable {E : Type} [RecordEncoder E]

def start (env : ReplyEnv) (writer : WriteHalf) (encoder : E) (src : Bytes) (asked : Nat) : RecordWriter E :=
  ⟨writer, encoder, src, env.lease, none, asked⟩

def turn (env : ReplyEnv) (s : RecordWriter E) : Turn (RecordWriter E) (SessionRes Unit) :=
  match s.unwritten with
  | some rest =>
    match s.writer.writeAllTurn rest with
    | .again (writer, rest) => .again { s with writer, unwritten := some rest }
    | .pending (writer, rest) => .pending { s with writer, unwritten := some rest }
    | .ready (.error f) (writer, rest) => .ready (.error f) { s with writer, unwritten := some rest }
    | .ready (.ok ()) (writer, rest) =>
      match drained s.encode with
      | .error f => .ready (.error f) { s with writer, unwritten := some rest }
      | .ok encode => .again { s with writer, encode, unwritten := none }
  | none =>
    if s.src = [] then .ready (.ok ()) s
    else
      match encodePlain env s.asked s.encoder s.encode s.src with
      | (.error f, encoder, encode) => .ready (.error f) { s with encoder, encode, asked := s.asked + 1 }
      | (.ok (take, split), encoder, encode) =>
        let s := { s with encoder, encode, asked := s.asked + 1 }
        if encode.buffer.filled.length < split then .ready (.error .panic) s
        else .again { s with src := s.src.drop take, unwritten := some (rotate split encode.buffer.filled) }

/-- What is on the wire stays there. -/
theorem turn_appends (env : ReplyEnv) (s : RecordWriter E) :
    (s.turn env).Keeps fun s' => s.writer.sent <+: s'.writer.sent := by
  have hrefl := List.prefix_refl s.writer.sent
  have hwrote {w : WriteHalf} {rest rest' : Bytes} (h : s.writer.Wrote rest w rest') : s.writer.sent <+: w.sent := by
    obtain ⟨bytes, hbytes⟩ := h.front
    exact ⟨bytes, hbytes.symm⟩
  unfold turn
  cases s.unwritten with
  | some rest =>
    have hturn := s.writer.writeAllTurn_leads rest
    simp only
    generalize s.writer.writeAllTurn rest = written at hturn
    rcases written with ⟨w, rest'⟩ | ⟨w, rest'⟩ | ⟨_ | _, w, rest'⟩
    · exact hwrote hturn
    · exact hwrote hturn
    · exact hwrote hturn.1
    · simp only
      split <;> exact hwrote hturn.1
  | none =>
    simp only
    split
    · exact hrefl
    · split
      · exact hrefl
      · split <;> exact hrefl

variable [EncoderSpec E] [LawfulEncoder E] [DatagramEncoder E] [StreamEncoder E] {env : ReplyEnv} {p₀ : Pos E}
  {out₀ records : List (Bytes × Bytes)} {src : Bytes} {s : RecordWriter E}

/-- Behind the records `out₀` of a connection, `records` were sealed of `src`. -/
structure Inv (env : ReplyEnv) (p₀ : Pos E) (out₀ : List (Bytes × Bytes)) (src : Bytes) (s : RecordWriter E)
    (records : List (Bytes × Bytes)) : Prop where
  chain : Chain Frame p₀ (out₀ ++ records) (pos s.encoder)
  data : PlainToSnell.AllData records
  payload : (records.map Prod.fst).flatten ++ s.src = src
  sustains : Sustains s.encoder env.sealing
  wf : s.encode.buffer.Wf
  max_eq : s.encode.buffer.max = v6WireCap
  empty : s.unwritten = none → s.encode.buffer.filled = []
  sent : s.writer.sent ++ s.unwritten.getD [] = wireOf (out₀ ++ records)
  closing : s.writer.closing = false

theorem start_inv {writer : WriteHalf} {encoder : E} (src : Bytes) (asked : Nat)
    (hchain : Chain Frame p₀ out₀ (pos encoder)) (hsent : writer.sent = wireOf out₀) (hopen : writer.closing = false)
    (h : Sustains encoder env.sealing) : Inv env p₀ out₀ src (start env writer encoder src asked) [] where
  chain := by rwa [List.append_nil]
  data r hr := by cases hr
  payload := rfl
  sustains := h
  wf := ⟨Nat.zero_le _, Nat.zero_le _⟩
  max_eq := rfl
  empty _ := rfl
  sent := by rw [List.append_nil]; exact (List.append_nil _).trans hsent
  closing := hopen

/-- The writer took some of the record. -/
theorem Inv.wrote (h : Inv env p₀ out₀ src s records) {writer : WriteHalf} {rest rest' : Bytes}
    (hrest : s.unwritten = some rest) (hw : s.writer.Wrote rest writer rest') :
    Inv env p₀ out₀ src { s with writer, unwritten := some rest' } records :=
  { h with
    empty := fun h => by cases h
    sent := by
      have := h.sent
      rw [hrest] at this
      exact hw.sent.trans this
    closing := hw.closing.trans h.closing }

/-- All of the source is on the wire. -/
def Finished (s : RecordWriter E) (out : List (Bytes × Bytes)) : Prop := s.src = [] ∧ s.writer.sent = wireOf out

theorem turn_leads (h : Inv env p₀ out₀ src s records) :
    (s.turn env).Until (fun s' => ∃ records', Inv env p₀ out₀ src s' records')
      fun r s' => ∃ records', Inv env p₀ out₀ src s' records' ∧ (r = .ok () → Finished s' (out₀ ++ records')) := by
  unfold turn
  cases hrest : s.unwritten with
  | some rest =>
    have hturn := s.writer.writeAllTurn_leads rest
    simp only
    generalize s.writer.writeAllTurn rest = written at hturn
    rcases written with ⟨writer, rest'⟩ | ⟨writer, rest'⟩ | ⟨r, writer, rest'⟩
    · exact ⟨records, h.wrote hrest hturn⟩
    · exact ⟨records, h.wrote hrest hturn⟩
    · have hwrote := h.wrote hrest hturn.1
      cases r with
      | error f => exact ⟨records, hwrote, fun hok => by cases hok⟩
      | ok _ =>
        obtain rfl := hturn.2 rfl
        obtain ⟨encode, hdrained, hw, hempty, hmax⟩ := drained_empty h.wf
        simp only [hdrained]
        exact ⟨records, { hwrote with wf := hw, max_eq := hmax.trans h.max_eq, empty := fun _ => hempty }⟩
  | none =>
  simp only
  by_cases hsrc : s.src = []
  · rw [if_pos hsrc]
    refine ⟨records, h, fun _ => ⟨hsrc, ?_⟩⟩
    have := h.sent
    rwa [hrest, Option.getD_none, List.append_nil] at this
  rw [if_neg hsrc]
  have hone := encodeRecord_plain encodeTurns (env.clock s.asked) (env.sealing s.asked) h.sustains.valid h.sustains.roomy
    h.sustains.ready h.wf (h.empty hrest) h.max_eq (List.length_pos_iff.mpr hsrc) (by simp only [encodeTurns]; omega)
  change PlainSealed s.encoder s.src (env.sealing s.asked) (encodePlain env s.asked s.encoder s.encode s.src) at hone
  generalize encodePlain env s.asked s.encoder s.encode s.src = encoded at hone
  cases hone with
  | failed hf hs => exact absurd (h.sustains.serves s.asked) hs
  | @sealed n split e' encode' hpos hle hsealed hr' hmax' hnext =>
    simp only [if_neg (Nat.not_lt.mpr hsealed.split_le)]
    refine ⟨records ++ [(s.src.take n, rotate split encode'.buffer.filled)], {
      chain := by rw [← List.append_assoc]; exact h.chain.snoc hsealed.frame
      data := ?_, payload := ?_, wf := hsealed.wf, max_eq := hmax', empty := (fun h => by cases h), sent := ?_
      sustains := ⟨hsealed.valid, hr', hsealed.ready, fun i => hnext _ (h.sustains.aead i), h.sustains.aead⟩
      closing := h.closing }⟩
    · intro r hr
      rcases List.mem_append.mp hr with hr | hr
      · exact h.data r hr
      · rw [List.mem_singleton.mp hr]
        exact List.ne_nil_of_length_pos (by rw [List.length_take]; omega)
    · rw [← h.payload, List.map_append, List.flatten_append]
      simp
    · have := h.sent
      rw [hrest, Option.getD_none, List.append_nil] at this
      rw [this]
      simp [wireOf]

end RecordWriter

end Snell
