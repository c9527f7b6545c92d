/-
`pump_snell_to_plain` (`snell-runtime/src/session.rs`): records are decoded
ahead into a batch, the batch is written to the local side and consumed, and
only then is more read. A zero chunk, or the end of the stream between two
records, shuts the local side down; an error found while decoding ahead waits
behind the records before it.

The reader, the writer and the shutdown answer each poll as their scripts say.
-/
import Snell.BufIo
import Snell.DecodeBatch
import Snell.Header
import Snell.Polling

namespace Snell

open RecordDecoder StagedDecoder Staged Polling

def readWindow : Nat := v6WireCap

/-- `SessionError::eof` -/
def SessionError.eof : SessionError := .io .unexpectedEof

structure SnellToPlain (D : Type) where
  reader : ReadHalf
  writer : WriteHalf
  decoder : D
  recv : PooledBuffer
  batch : DecodeBatch
  shuttingDown : Bool

namespace SnellToPlain

variable {D : Type} [RecordDecoder D]

def start (reader : ReadHalf) (writer : WriteHalf) (decoder : D) (recv : PooledBuffer) : SnellToPlain D :=
  ⟨reader, writer, decoder, recv, .default, false⟩

/-- Nothing is decodable and nothing waits to be written: read more. -/
def readMore (s : SnellToPlain D) (minimum : Nat) : Turn (SnellToPlain D) (Option (SessionRes Unit)) :=
  match pollReadInto s.reader s.recv minimum readWindow with
  | (.pending, reader, recv) => .pending { s with reader, recv := recv.releaseEmpty }
  | (.ready (.error f), reader, recv) => .ready (some (.error f)) { s with reader, recv }
  | (.ready (.ok n), reader, recv) =>
    let s := { s with reader, recv }
    if n = 0 then
      if recv.buffer.isEmpty then .ready none { s with shuttingDown := true }
      else .ready (some (.error (.err .eof))) s
    else .again s

/-- A record was decoded. -/
def take (s : SnellToPlain D) (record : DecodedRecord) : Turn (SnellToPlain D) (Option (SessionRes Unit)) :=
  if record.kind = .zeroChunk then
    if s.batch.isEmpty then
      match RecordDecoder.consume s.decoder s.recv.buffer record with
      | (.error f, decoder, buffer) =>
        .ready (some (.error f.inSession)) { s with decoder, recv := { s.recv with buffer } }
      | (.ok (), decoder, buffer) =>
        .ready none { s with decoder, recv := { s.recv with buffer }, shuttingDown := true }
    else
      match s.batch.push record with
      | .error f => .ready (some (.error f.inSession)) s
      | .ok batch => .ready none { s with batch := { batch with ending := some (.ok ()) } }
  else
    match s.batch.push record with
    | .error f => .ready (some (.error f.inSession)) s
    | .ok batch => if batch.isFull then .ready none { s with batch } else .again { s with batch }

/-- A turn of the loop that fills a batch by decode-ahead; `ready none` is its
`break`. -/
def fillTurn (s : SnellToPlain D) : Turn (SnellToPlain D) (Option (SessionRes Unit)) :=
  match decodeBuf s.decoder s.recv.buffer with
  | (.ok (.needMore minimum), decoder, buffer) =>
    let s := { s with decoder, recv := { s.recv with buffer } }
    -- Write what is ready before reading more.
    if s.batch.isEmpty then s.readMore minimum else .ready none s
  | (.ok (.record record), decoder, buffer) => take { s with decoder, recv := { s.recv with buffer } } record
  | (.error f, decoder, buffer) =>
    let s := { s with decoder, recv := { s.recv with buffer } }
    if s.batch.isEmpty then .ready (some (.error f.inSession)) s
    else
      match f with
      | .err e => .ready none { s with batch := { s.batch with ending := some (.error (.ofProtocol e)) } }
      | f => .ready (some (.error f.inSession)) s

/-- Every turn that goes on adds a record to the batch or reads a byte. -/
def fillTurns (s : SnellToPlain D) : Nat := writeBatchMax + s.reader.coming.length + 1

/-- A turn of the outer loop. -/
def turn (s : SnellToPlain D) : Turn (SnellToPlain D) (SessionRes Unit) :=
  if s.shuttingDown then
    match s.writer.pollShutdown with
    | (.pending, writer) => .pending { s with writer, recv := s.recv.releaseEmpty }
    | (.ready r, writer) => .ready r { s with writer, recv := s.recv.releaseEmpty }
  else if s.batch.isEmpty then
    match Polling.poll fillTurn s.fillTurns s with
    | .again s => .ready (.error .diverged) s
    | .pending s => .pending s
    | .ready none s => .again s
    | .ready (some r) s => .ready r s
  else
    match s.batch.pollWrite s.recv.buffer.filled s.writer.toWriter with
    | (.pending, batch, writer) => .pending { s with batch, writer := { s.writer with toWriter := writer } }
    | (.ready (.error f), batch, writer) =>
      .ready (.error f) { s with batch, writer := { s.writer with toWriter := writer } }
    | (.ready (.ok ()), batch, writer) =>
      match batch.consume s.decoder s.recv with
      | (.error f, batch, decoder, recv) =>
        .ready (.error f) { s with batch, decoder, recv, writer := { s.writer with toWriter := writer } }
      | (.ok ended, batch, decoder, recv) =>
        .again { s with
          batch, decoder, recv, writer := { s.writer with toWriter := writer }, shuttingDown := ended }

/-- Every batch that was written takes a byte off what is there and to come. -/
def turns (s : SnellToPlain D) : Nat := 3 * (s.reader.coming.length + s.recv.buffer.len) + 3

/-- One poll of the future. -/
def poll (s : SnellToPlain D) : Turn (SnellToPlain D) (SessionRes Unit) := Polling.poll turn s.turns s

end SnellToPlain

end Snell
