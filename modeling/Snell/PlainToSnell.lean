/-
`pump_plain_to_snell` (`snell-runtime/src/session.rs`): records are sealed from
what is read of the local side and gathered in a batch that one vectored write
takes. The end of the local stream is a zero chunk, and then the Snell side is
shut down unless the connection is to be kept.

A batch is written when nothing more is to be had without waiting, or when it
or the buffer is full; that the buffer is full is found out by a reservation
it refuses.
-/
import Snell.EncodeBatch
import Snell.Polling
import Snell.ReadRecord

namespace Snell

open RecordEncoder Polling

/-! ## The pump -/

def recordHint : Nat := maxPacketSizeV6

/-- How far the local-to-Snell direction is through closing. -/
inductive Phase where
  /-- Sealing local reads into records. -/
  | reading
  /-- Local EOF: queue a zero chunk so the peer sees this direction end. -/
  | sendZeroChunk
  /-- The zero chunk is queued; finish once every record is written. -/
  | draining
  /-- Shutting down the Snell write half. -/
  | shuttingDown
  deriving DecidableEq, Repr

structure PlainToSnell (E : Type) where
  reader : ReadHalf
  writer : WriteHalf
  encoder : E
  encode : PooledBuffer
  batch : EncodeBatch
  phase : Phase
  /-- Records asked for so far; the environment answers each. -/
  asked : Nat

namespace PlainToSnell

variable {E : Type} [RecordEncoder E]

def start (env : ReplyEnv) (reader : ReadHalf) (writer : WriteHalf) (encoder : E) : PlainToSnell E :=
  ⟨reader, writer, encoder, ⟨⟨[], env.popped, 0, v6WireCap⟩, env.scans⟩, .default, .reading, 0⟩

/-- Nothing to read: write what there is, or wait. -/
def idle (s : PlainToSnell E) : Turn (PlainToSnell E) (Option (SessionRes Unit)) :=
  if s.batch.isEmpty then .pending { s with encode := s.encode.releaseEmpty } else .ready none s

/-- The local side is readable: seal a record from it. -/
def readOne (env : ReplyEnv) (s : PlainToSnell E) : Turn (PlainToSnell E) (Option (SessionRes Unit)) :=
  -- A lease grown to its maximum holds any record.
  match s.encode.ensure s.encode.buffer.max with
  | .error f => .ready (some (.error f.inSession)) s
  | .ok encode =>
    match readRecord s.reader s.encoder encode.buffer recordHint (env.clock s.asked 0) (env.sealing s.asked) with
    | (r, reader, encoder, buffer) =>
      let s := { s with reader, encoder, encode := { encode with buffer }, asked := s.asked + 1 }
      match r with
      | .pending => s.idle
      | .ready (.ok (n, split)) =>
        if n = 0 then .ready none { s with phase := .sendZeroChunk }
        else
          match s.batch.push buffer.len split with
          | .error f => .ready (some (.error f.inSession)) s
          | .ok batch => .again { s with batch }
      | .ready (.error f) =>
        if f = .err (.protocol .payloadTooLarge) ∧ s.batch.isEmpty = false then .ready none s
        else .ready (some (.error f)) s

/-- A turn of the loop that fills a batch; `ready none` is its end. -/
def readTurn (env : ReplyEnv) (s : PlainToSnell E) : Turn (PlainToSnell E) (Option (SessionRes Unit)) :=
  if s.batch.hasRoom then
    match s.reader.pollReady with
    | (.ready (.error kind), reader) => .ready (some (.error (.err (.io kind)))) { s with reader }
    | (.pending, reader) => idle { s with reader }
    | (.ready (.ok ()), reader) => readOne env { s with reader }
  else .ready none s

/-- Every turn that goes on reads a byte. -/
def readTurns (s : PlainToSnell E) : Nat := s.reader.coming.length + 1

/-- Queue the zero chunk; without room for it, what is queued goes first. -/
def queueZeroChunk (env : ReplyEnv) (s : PlainToSnell E) : SessionRes Unit × PlainToSnell E :=
  match encodeRecord encodeTurns s.encoder s.encode (.stream 0) (env.clock s.asked) (env.sealing s.asked)
      fun slot => .ok (0, slot) with
  | (r, encoder, encode) =>
    let s := { s with encoder, encode, asked := s.asked + 1 }
    match r with
    | .ok (_, split) =>
      match s.batch.push encode.buffer.len split with
      | .error f => (.error f.inSession, s)
      | .ok batch => (.ok (), { s with batch, phase := .draining })
    | .error f =>
      if f = .err (.protocol .payloadTooLarge) ∧ s.batch.isEmpty = false then (.ok (), s) else (.error f, s)

/-- The batch is written, then the next turn; an empty one is the end, or
nothing is to be done. -/
def flush (keepSnellOpen : Bool) (s : PlainToSnell E) : Turn (PlainToSnell E) (SessionRes Unit) :=
  if s.batch.isEmpty then
    if s.phase = .draining then
      let s := { s with encode := s.encode.releaseEmpty }
      if keepSnellOpen then .ready (.ok ()) s else .again { s with phase := .shuttingDown }
    else .pending s
  else
    match s.batch.pollWrite s.encode.buffer.filled s.writer.toWriter with
    | (.pending, batch, writer) => .pending { s with batch, writer := { s.writer with toWriter := writer } }
    | (.ready (.error f), batch, writer) =>
      .ready (.error f) { s with batch, writer := { s.writer with toWriter := writer } }
    | (.ready (.ok ()), batch, writer) =>
      let s := { s with batch := batch.clear, writer := { s.writer with toWriter := writer } }
      match s.encode.buffer.consume s.encode.buffer.len with
      | (.error f, buffer) => .ready (.error f.inSession) { s with encode := { s.encode with buffer } }
      | (.ok (), buffer) => .again { s with encode := { s.encode with buffer } }

/-- The zero chunk, if it is due, and the batch. -/
def finishTurn (env : ReplyEnv) (keepSnellOpen : Bool) (s : PlainToSnell E) : Turn (PlainToSnell E) (SessionRes Unit) :=
  if s.phase = .sendZeroChunk ∧ s.batch.hasRoom then
    match s.queueZeroChunk env with
    | (.error f, s) => .ready (.error f) s
    | (.ok (), s) => s.flush keepSnellOpen
  else s.flush keepSnellOpen

/-- A turn of the outer loop. -/
def turn (env : ReplyEnv) (keepSnellOpen : Bool) (s : PlainToSnell E) : Turn (PlainToSnell E) (SessionRes Unit) :=
  if s.phase = .shuttingDown then
    match s.writer.pollShutdown with
    | (.pending, writer) => .pending { s with writer }
    | (.ready r, writer) => .ready r { s with writer }
  else if s.phase = .reading ∧ s.batch.isEmpty then
    match Polling.poll (readTurn env) s.readTurns s with
    | .again s => .ready (.error .diverged) s
    | .pending s => .pending s
    | .ready none s => s.finishTurn env keepSnellOpen
    | .ready (some r) s => .ready r s
  else s.finishTurn env keepSnellOpen

/-- A turn that goes on read a byte, wrote a batch or came a phase further. -/
def turns (s : PlainToSnell E) : Nat := 2 * s.reader.coming.length + 9

/-- One poll of the future. -/
def poll (env : ReplyEnv) (keepSnellOpen : Bool) (s : PlainToSnell E) : Turn (PlainToSnell E) (SessionRes Unit) :=
  Polling.poll (turn env keepSnellOpen) s.turns s

end PlainToSnell

end Snell
