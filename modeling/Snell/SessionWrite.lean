/-
Writing records from a session (`snell-runtime/src/session.rs`, `bufio.rs`):
reserve in a pooled buffer, fill, seal, and write what was sealed in wire
order.

An `async` function that waits for the writer is that wait and then the rest;
the waiting itself is not seen here.
-/
import Snell.Control
import Snell.PooledBuffer
import Snell.Record
import Snell.SessionError

namespace Snell

open RecordEncoder

/-! ## The writer -/

/-- `AsyncWrite`: offered bytes, it takes some of the front, or fails. -/
class AsyncWrite (W : Type) where
  write : W → Bytes → Except IoErrorKind Nat × W

section Writer

variable {W : Type} [AsyncWrite W]

/-- `write_all_buf`. Each turn takes at least one byte, so `fuel` is the length. -/
def writeAllBuf : (fuel : Nat) → W → Bytes → SessionRes Unit × W
  | _, w, [] => (.ok (), w)
  | 0, w, _ => (.error .diverged, w)
  | fuel + 1, w, bytes =>
    match AsyncWrite.write w bytes with
    | (.error kind, w) => (.error (.err (.io kind)), w)
    | (.ok n, w) =>
      if n = 0 then (.error (.err (.io .writeZero)), w)
      else if bytes.length < n then (.error .panic, w)
      else writeAllBuf fuel w (bytes.drop n)

/-- `drain_encode`: write `[split..]` then `[..split]`, and return the lease. -/
def drainEncode (w : W) (encode : PooledBuffer) (split : Nat) : SessionRes Unit × W × PooledBuffer :=
  let filled := encode.buffer.filled
  if filled.length < split then (.error .panic, w, encode)
  else
    match writeAllBuf filled.length w (filled.drop split ++ filled.take split) with
    | (.error f, w) => (.error f, w, encode)
    | (.ok (), w) =>
      match encode.buffer.consume encode.buffer.len with
      | (.error f, buffer) => (.error f.inSession, w, { encode with buffer })
      | (.ok (), buffer) => (.ok (), w, PooledBuffer.releaseEmpty { encode with buffer })

end Writer

/-! ## One record -/

/-- `payload_mut`'s slice, and the buffer it is in. -/
def Slot.payloadSlice (s : Slot) (b : Buffer) : Res (Bytes × Buffer) := do
  let b ← b.zeroExtendTo s.payloadEnd
  let region ← b.range s.unwrittenStart s.payloadEnd
  return (region, b)

/-- What the environment answers while a record is written: the block the
lease starts with, what the pool's scans find, what each `reserve` reads from
the clock, and how sealing goes. -/
structure WriteEnv where
  popped : Bytes
  scans : List (List Bytes)
  clock : Nat → Nat
  sealing : SealEnv

section Record

variable {E : Type} [RecordEncoder E]

/-- The part of `encode_record` behind a successful `reserve`. -/
def fillAndSeal (e : E) (encode : PooledBuffer) (slot : Slot) (record : Record E) (env : SealEnv)
    (fill : Bytes → Res (Nat × Bytes)) : SessionRes (Nat × Nat) × E × PooledBuffer :=
  let ended (r : SessionRes (Nat × Nat)) (eb : E × Buffer) := (r, eb.1, { encode with buffer := eb.2 })
  match slot.payloadSlice encode.buffer with
  | .error f => ended (.error f.inSession) (Reservation.cancel e encode.buffer slot)
  | .ok (region, b) =>
    match fill region with
    | .error f => ended (.error f.inSession) (Reservation.cancel e b slot)
    | .ok (n, region) =>
      match Reservation.sealMut e (b.writeAt slot.unwrittenStart region) slot record n env with
      | (.ok split, eb) => ended (.ok (n, split)) eb
      | (.error f, eb) => ended (.error f.inSession) eb

/-- `encode_record`: the codec says how much room it needs. Returns how much
`fill` wrote and the split. -/
def encodeRecord (fuel : Nat) (e : E) (encode : PooledBuffer) (size : RecordSize) (clock : Nat → Nat) (env : SealEnv)
    (fill : Bytes → Res (Nat × Bytes)) : SessionRes (Nat × Nat) × E × PooledBuffer :=
  match fuel with
  | 0 => (.error .diverged, e, encode)
  | fuel + 1 =>
    match reserve e encode.buffer [] size (clock 0) with
    | (.error (.err (.bufferTooSmall needed _)), e, b) =>
      match PooledBuffer.ensure { encode with buffer := b } needed with
      | .error f => (.error f.inSession, e, { encode with buffer := b })
      | .ok encode => encodeRecord fuel e encode size (fun i => clock (i + 1)) env fill
    | (.error f, e, b) => (.error f.inSession, e, { encode with buffer := b })
    | (.ok (slot, record), e, b) => fillAndSeal e { encode with buffer := b } slot record env fill

end Record

/-! ## UDP -/

section Udp

variable {E W : Type} [RecordEncoder E] [AsyncWrite W]

/-- The turns of `encode_record` that are followed: every turn but the last
grows the buffer. -/
def encodeTurns : Nat := v6WireCap + 2

def writeUdpPlain (e : E) (w : W) (needed : Nat) (env : WriteEnv) (fill : Bytes → Res (Nat × Bytes)) :
    SessionRes Unit × E × W :=
  match PooledBuffer.get v6WireCap env.popped env.scans with
  | .error f => (.error f.inSession, e, w)
  | .ok encode =>
    match encodeRecord encodeTurns e encode (.datagram needed) env.clock env.sealing fill with
    | (.error f, e, _) => (.error f, e, w)
    | (.ok (_, split), e, encode) =>
      match drainEncode w encode split with
      | (r, w, _) => (r, e, w)

def writeUdpRequest (e : E) (w : W) (address : Address) (payload : Bytes) (env : WriteEnv) :
    SessionRes Unit × E × W :=
  match udpRequestLen address payload.length with
  | .error f => (.error f.inSession, e, w)
  | .ok needed => writeUdpPlain e w needed env fun dst => encodeUdpRequest dst address payload

end Udp

end Snell
