/-
What a turn does to the sockets, whatever the codec does: a read half hands
out what was to come, a write half is given more. Nothing else happens to
either, so a turn leaves what is in flight between two parties where it is.
-/
import Snell.PlainToSnell
import Snell.SnellToPlain

namespace Snell

open Polling

/-! ## Reading -/

/-- Bytes were read, or none. -/
def ReadHalf.Moves (r r' : ReadHalf) : Prop := ∃ bytes, r.Gave r' bytes

theorem ReadHalf.Moves.refl (r : ReadHalf) : r.Moves r := ⟨[], .refl r⟩

theorem ReadHalf.Moves.trans {r r' r'' : ReadHalf} (h : r.Moves r') (h' : r'.Moves r'') : r.Moves r'' := by
  obtain ⟨bytes, hg⟩ := h
  obtain ⟨bytes', hg'⟩ := h'
  exact ⟨_, hg.trans hg'⟩

/-- What was read and what is to come are the same together. -/
theorem ReadHalf.Moves.stream {r r' : ReadHalf} (h : r.Moves r') : r'.received ++ r'.coming = r.received ++ r.coming := by
  obtain ⟨bytes, hg⟩ := h
  rw [hg.received, hg.coming, List.append_assoc]

theorem ReadHalf.Moves.atEnd {r r' : ReadHalf} (h : r.Moves r') (hend : r.AtEnd) : r'.AtEnd := by
  obtain ⟨bytes, hg⟩ := h
  have hcoming := hg.coming
  rw [hend.1] at hcoming
  exact ⟨(List.append_eq_nil_iff.mp hcoming.symm).2, hg.closed.trans hend.2⟩

theorem ReadHalf.pollReady_moves (r : ReadHalf) : r.Moves r.pollReady.2 := by
  have h := r.pollReady_readies
  generalize r.pollReady = result at h
  cases h with
  | pending hg | failed _ hg | ready hg => exact ⟨[], hg⟩

theorem ReadHalf.pollRead_moves (r : ReadHalf) (room : Nat) : r.Moves (r.pollRead room).2 := by
  unfold pollRead
  have hnone {reads : List ReadAnswer} (h : reads <:+ r.reads) : r.Moves { r with reads } :=
    ⟨[], (List.append_nil _).symm, rfl, rfl, List.suffix_refl _, h⟩
  cases hr : r.reads with
  | nil => exact .refl r
  | cons a reads =>
    have hsuf : reads <:+ r.reads := by rw [hr]; exact List.suffix_cons _ _
    cases a with
    | pending | failed kind => exact hnone hsuf
    | upTo n =>
      simp only
      by_cases hidle : r.coming = [] ∧ r.closed = false
      · rw [if_pos hidle]
        exact hnone hsuf
      · rw [if_neg hidle]
        refine ⟨_, rfl, ?_, rfl, List.suffix_refl _, hsuf⟩
        simp only [List.length_take]
        rw [List.take_eq_take_min, List.take_append_drop]

theorem pollReadInto_moves (reader : ReadHalf) (recv : PooledBuffer) (minimum window : Nat) :
    reader.Moves (pollReadInto reader recv minimum window).2.1 := by
  unfold pollReadInto
  have hready := reader.pollReady_moves
  rcases hr : reader.pollReady with ⟨_ | ⟨_ | _⟩, reader'⟩ <;> rw [hr] at hready <;> simp only
  · exact hready
  · exact hready
  · split
    · exact hready
    · split
      · exact hready
      · next buffer _ =>
        have hread := reader'.pollRead_moves buffer.writable
        rcases hr' : reader'.pollRead buffer.writable with ⟨_ | ⟨_ | _⟩, reader''⟩ <;> rw [hr'] at hread <;> simp only
        · exact hready.trans hread
        · exact hready.trans hread
        · split <;> exact hready.trans hread

namespace SnellToPlain

variable {D : Type} [RecordDecoder D]

theorem take_moves (s : SnellToPlain D) (record : DecodedRecord) :
    (s.take record).Keeps fun s' => s.reader.Moves s'.reader := by
  have hrefl := ReadHalf.Moves.refl s.reader
  unfold take
  split
  · split <;> split <;> exact hrefl
  · split
    · exact hrefl
    · split <;> exact hrefl

theorem fillTurn_moves (s : SnellToPlain D) : s.fillTurn.Keeps fun s' => s.reader.Moves s'.reader := by
  have hrefl := ReadHalf.Moves.refl s.reader
  unfold fillTurn
  split
  · next minimum decoder buffer _ =>
    simp only
    split
    · unfold readMore
      have hread := pollReadInto_moves s.reader { s.recv with buffer } minimum readWindow
      simp only
      generalize pollReadInto s.reader { s.recv with buffer } minimum readWindow = result at hread
      obtain ⟨_ | ⟨_ | n⟩, reader, recv⟩ := result
      · exact hread
      · exact hread
      · simp only
        split
        · split <;> exact hread
        · exact hread
    · exact hrefl
  · next record decoder buffer _ => exact take_moves { s with decoder, recv := { s.recv with buffer } } record
  · simp only
    split
    · exact hrefl
    · split <;> exact hrefl

/-- **The pump to the plain side** only reads of the Snell side. -/
theorem turn_moves (s : SnellToPlain D) : s.turn.Keeps fun s' => s.reader.Moves s'.reader := by
  have hrefl := ReadHalf.Moves.refl s.reader
  unfold turn
  split
  · split <;> exact hrefl
  · split
    · have hfill := poll_keeps (I := fun s' : SnellToPlain D => s.reader.Moves s'.reader)
        (fun s' h => (fillTurn_moves s').imp fun _ h' => h.trans h') s.fillTurns hrefl
      generalize Polling.poll fillTurn s.fillTurns s = filled at hfill
      rcases filled with s' | s' | ⟨_ | _, s'⟩ <;> exact hfill
    · split
      · exact hrefl
      · exact hrefl
      · split <;> exact hrefl

end SnellToPlain

/-! ## Writing -/

theorem Writer.poll_appends (w : Writer) (offered : Bytes) : w.sent <+: (w.poll offered).2.sent := by
  unfold poll
  split <;> simp

theorem Unwritten.pollWrite_appends (u : Unwritten) (w : Writer) : w.sent <+: (u.pollWrite w).2.sent := by
  unfold pollWrite
  split
  · exact List.prefix_refl _
  · have hpoll := w.poll_appends u.slices.flatten
    rcases hp : w.poll u.slices.flatten with ⟨_ | ⟨_ | n⟩, w'⟩ <;> rw [hp] at hpoll
    · exact hpoll
    · exact hpoll
    · simp only
      split <;> exact hpoll

theorem writePartsLoop_appends (room : Nat) (parts : List Bytes) (fuel written : Nat) (w : Writer) :
    w.sent <+: (writePartsLoop room parts fuel written w).2.2.sent := by
  induction fuel generalizing written w with
  | zero => exact List.prefix_refl _
  | succ fuel ih =>
    unfold writePartsLoop
    split
    · exact List.prefix_refl _
    · next unwritten _ =>
      have hwrite := unwritten.pollWrite_appends w
      rcases hp : unwritten.pollWrite w with ⟨_ | ⟨_ | n⟩, w'⟩ <;> rw [hp] at hwrite
      · exact hwrite
      · exact hwrite
      · cases n with
        | zero => exact hwrite
        | succ n => exact hwrite.trans (ih _ w')

theorem EncodeBatch.pollWrite_appends (batch : EncodeBatch) (filled : Bytes) (w : Writer) :
    w.sent <+: (batch.pollWrite filled w).2.2.sent := by
  unfold pollWrite
  split
  · exact List.prefix_refl _
  · exact writePartsLoop_appends _ _ _ _ w

theorem WriteHalf.pollShutdown_sent (w : WriteHalf) : w.pollShutdown.2.sent = w.sent := by
  unfold pollShutdown
  split <;> rfl

namespace PlainToSnell

variable {E : Type} [RecordEncoder E]

theorem readOne_writer (env : ReplyEnv) (s : PlainToSnell E) :
    (s.readOne env).Keeps fun s' => s'.writer = s.writer := by
  unfold readOne idle
  split
  · exact rfl
  · simp only
    split
    · split <;> exact rfl
    · split
      · exact rfl
      · split <;> exact rfl
    · split <;> exact rfl

theorem readTurn_writer (env : ReplyEnv) (s : PlainToSnell E) :
    (s.readTurn env).Keeps fun s' => s'.writer = s.writer := by
  unfold readTurn
  split
  · split
    · exact rfl
    · unfold idle
      split <;> exact rfl
    · next reader _ => exact readOne_writer env { s with reader }
  · exact rfl

omit [RecordEncoder E] in
theorem flush_appends (keep : Bool) (s : PlainToSnell E) :
    (s.flush keep).Keeps fun s' => s.writer.sent <+: s'.writer.sent := by
  have hrefl := List.prefix_refl s.writer.sent
  unfold flush
  split
  · split
    · simp only
      split <;> exact hrefl
    · exact hrefl
  · have hwrite := s.batch.pollWrite_appends s.encode.buffer.filled s.writer.toWriter
    rcases hp : s.batch.pollWrite s.encode.buffer.filled s.writer.toWriter with ⟨_ | ⟨_ | _⟩, batch, w⟩ <;>
      rw [hp] at hwrite
    · exact hwrite
    · exact hwrite
    · simp only
      split <;> exact hwrite

theorem queueZeroChunk_writer (env : ReplyEnv) (s : PlainToSnell E) : (s.queueZeroChunk env).2.writer = s.writer := by
  unfold queueZeroChunk
  simp only
  split
  · split <;> rfl
  · split <;> rfl

theorem finishTurn_appends (env : ReplyEnv) (keep : Bool) (s : PlainToSnell E) :
    (s.finishTurn env keep).Keeps fun s' => s.writer.sent <+: s'.writer.sent := by
  unfold finishTurn
  split
  · have hzero := s.queueZeroChunk_writer env
    rcases hq : s.queueZeroChunk env with ⟨_ | _, s'⟩ <;> rw [hq] at hzero
    · exact hzero ▸ List.prefix_refl _
    · have := flush_appends keep s'
      rwa [hzero] at this
  · exact flush_appends keep s

/-- **The pump to the Snell side** only writes more to it. -/
theorem turn_appends (env : ReplyEnv) (keep : Bool) (s : PlainToSnell E) :
    (s.turn env keep).Keeps fun s' => s.writer.sent <+: s'.writer.sent := by
  unfold turn
  split
  · have hshut := s.writer.pollShutdown_sent
    rcases hp : s.writer.pollShutdown with ⟨_ | r, w⟩ <;> rw [hp] at hshut
    · exact hshut ▸ List.prefix_refl _
    · exact hshut ▸ List.prefix_refl _
  · split
    · have hfill := poll_keeps (I := fun s' : PlainToSnell E => s'.writer = s.writer)
        (fun s' h => (readTurn_writer env s').imp fun _ h' => h'.trans h) s.readTurns rfl
      generalize Polling.poll (readTurn env) s.readTurns s = filled at hfill
      have hsame {s' : PlainToSnell E} (h : s'.writer = s.writer) : s.writer.sent <+: s'.writer.sent :=
        h ▸ List.prefix_refl _
      rcases filled with s' | s' | ⟨_ | _, s'⟩
      · exact hsame hfill
      · exact hsame hfill
      · have hfill : s'.writer = s.writer := hfill
        have := finishTurn_appends env keep s'
        rwa [hfill] at this
      · exact hsame hfill
    · exact finishTurn_appends env keep s

end PlainToSnell

end Snell
