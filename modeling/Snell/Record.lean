/-
What every record codec shares (`codec/mod.rs`, `codec/record.rs`, and the
reservations of `buffer.rs`): the encoder's lifecycle, the slot a record is
written into, decode-ahead accounting, and the two traits.

A Rust `&mut self` becomes the state before as an argument and the state
after in the result, on errors too. What the environment decides during a
call (the clock, whether `ring` refuses) is an argument of that call.
-/
import Snell.Buffer
import Snell.Crypto

namespace Snell

abbrev Salt := ByteArr saltLen

/-! ## Decoding -/

inductive RecordKind where
  | data
  | zeroChunk
  deriving DecidableEq, Repr

structure DecodedRecord where
  /-- Ciphertext length of the record. -/
  consumed : Nat
  /-- Plaintext range inside `filled()` as of decode time. -/
  plaintextStart : Nat
  plaintextEnd : Nat
  kind : RecordKind
  deriving DecidableEq, Repr

/-- `record.plaintext(filled)` -/
def DecodedRecord.plaintext (r : DecodedRecord) (filled : Bytes) : Res Bytes :=
  slice filled r.plaintextStart r.plaintextEnd

inductive DecodeStatus where
  | needMore (minimum : Nat)
  | record (r : DecodedRecord)
  deriving DecidableEq, Repr

namespace Pending

/-- `Pending::need` for `pending` outstanding bytes, on a buffer of `len` live
bytes and limit `max`. -/
def need (pending max len minimum : Nat) : Res (Option DecodeStatus) := do
  let own ← sub minimum pending
  if max < own then throw (.err .payloadTooLarge)
  else if len < minimum then return some (.needMore minimum)
  else return none

/-- `Pending::emit`: the record handed out, and the bytes outstanding after. -/
def emit (pending stop start finish : Nat) (kind : RecordKind) : Res (DecodeStatus × Nat) := do
  let consumed ← sub stop pending
  return (.record ⟨consumed, start, finish, kind⟩, stop)

def data (pending stop start finish : Nat) : Res (DecodeStatus × Nat) := emit pending stop start finish .data

def zeroChunk (pending stop : Nat) : Res (DecodeStatus × Nat) := emit pending stop 0 0 .zeroChunk

end Pending

/-- `RecordDecoder`. `decode` reads `filled()` and `max()` of the buffer and
writes back through `filled_mut()`. Every implementation keeps its `Pending`
in a field and consumes through it. -/
class RecordDecoder (D : Type) where
  pending : D → Nat
  setPending : D → Nat → D
  decode : D → (max : Nat) → (filled : Bytes) → Res DecodeStatus × D × Bytes
  replayIdentity : D → Option Salt
  kdfNeed : D → Nat
  kdfSalt : D → (filled : Bytes) → Res Salt
  installAead : D → Salt → ByteArr aes128KeyLen → Res D

namespace RecordDecoder

variable {D : Type} [RecordDecoder D]

/-- `decoder.decode(buf)` -/
def decodeBuf (d : D) (b : Buffer) : Res DecodeStatus × D × Buffer :=
  let r := decode d b.max b.filled
  (r.1, r.2.1, b.setFilled r.2.2)

/-- `decoder.consume(buf, record)` -/
def consume (d : D) (b : Buffer) (r : DecodedRecord) : Res Unit × D × Buffer :=
  if pending d < r.consumed then (.error (.err .plaintextNotDrained), d, b)
  else
    let d := setPending d (pending d - r.consumed)
    let r := b.consume r.consumed
    (r.1, d, r.2)

def hasUnconsumedPlaintext (d : D) : Bool := pending d != 0

end RecordDecoder

/-! ## Encoding -/

inductive EncoderState where
  | ready
  | reserving
  | poisoned
  deriving DecidableEq, Repr

namespace EncoderState

def ensureReady : EncoderState → Res Unit
  | .ready => .ok ()
  | .reserving => .error (.err .pendingWire)
  | .poisoned => .error (.err .poisoned)

def afterSeal (failedAfterNonce : Bool) : EncoderState := if failedAfterNonce then .poisoned else .ready

end EncoderState

/-- Capacity requested after the record's plaintext prefix. -/
inductive RecordSize where
  | stream (hint : Nat)
  | datagram (len : Nat)
  deriving DecidableEq, Repr

def RecordSize.payloadLen (size : RecordSize) (prefixLen limit : Nat) : Res Nat :=
  match size with
  | .stream hint =>
    if prefixLen ≤ limit then .ok (min (prefixLen + hint) limit) else .error (.err .payloadTooLarge)
  | .datagram len =>
    if prefixLen + len ≤ limit then .ok (prefixLen + len) else .error (.err .payloadTooLarge)

/-- Payload slot of a reserved record, in absolute indices of the buffer. -/
structure Slot where
  recordStart : Nat
  payloadStart : Nat
  prefixLen : Nat
  maxPayload : Nat
  deriving DecidableEq, Repr

/-- What the environment answers while a record is sealed: the clock after
it, whether `ring` refuses the header or the body, and how many draws v4's
rejection sampling is followed for. -/
structure SealEnv where
  now : Nat
  headerRefused : Bool
  bodyRefused : Bool
  fuel : Nat
  deriving DecidableEq, Repr

/-- `RecordEncoder` with its sealed half `Seal`. `now` is what the clock
reads during `reserve`. -/
class RecordEncoder (E : Type) where
  Record : Type
  state : E → EncoderState
  setState : E → EncoderState → E
  reserve : E → Buffer → (pfx : Bytes) → RecordSize → (now : Nat) → Res (Slot × Record) × E × Buffer
  finish : E → Buffer → Slot → Record → (payloadLen : Nat) → SealEnv → Res Nat × E × Buffer

namespace Slot

/-- Payload bytes available after the prefix. -/
def capacity (s : Slot) : Nat := s.maxPayload - s.prefixLen

/-- Where the caller's bytes go. -/
def unwrittenStart (s : Slot) : Nat := s.payloadStart + s.prefixLen

def payloadEnd (s : Slot) : Nat := s.payloadStart + s.maxPayload

/-- Payload length for `written` bytes after the prefix. -/
def total (s : Slot) (written : Nat) : Res Nat :=
  if s.prefixLen + written ≤ s.maxPayload then .ok (s.prefixLen + written)
  else .error (.err .payloadTooLarge)

/-- `payload_mut`, the caller writing `data` at the start of the slice. -/
def payloadMut (s : Slot) (b : Buffer) (data : Bytes) : Res Buffer := do
  let b ← b.zeroExtendTo s.payloadEnd
  let region ← b.range s.unwrittenStart s.payloadEnd
  return b.writeAt s.unwrittenStart (data.take region.length)

/-- The length of `payload_uninit`'s slice. -/
def uninitLen (s : Slot) (b : Buffer) : Res Nat :=
  if b.stop ≠ s.unwrittenStart then .ok 0
  else if s.capacity ≤ b.writable then .ok s.capacity
  else .error .panic

/-- `payload_uninit`, the caller writing `data` at the start of the slice. -/
def payloadUninit (s : Slot) (b : Buffer) (data : Bytes) : Res Buffer := do
  let n ← s.uninitLen b
  return b.writeSpare (data.take n)

end Slot

/-- What every `reserve` does once its layout is decided: check the state and
the size, make room for `fixed` bytes, the payload and `room` behind it, write
the salt at the front and the prefix behind the fixed part. -/
def reserveWith (state : EncoderState) (limit : Nat) (salt : Bytes) (fixed room : Nat → Nat) (buf : Buffer)
    (pfx : Bytes) (size : RecordSize) : Res Slot × Buffer :=
  match (do state.ensureReady; size.payloadLen pfx.length limit) with
  | .error f => (.error f, buf)
  | .ok maxPayload =>
    match buf.reserveRecord (fixed maxPayload + maxPayload + room maxPayload) (fixed maxPayload) with
    | (.error f, buf) => (.error f, buf)
    | (.ok recordStart, buf) =>
      match buf.copyAt recordStart salt with
      | .error f => (.error f, buf)
      | .ok buf =>
        match buf.extendFromSlice pfx with
        | (.error f, buf) => (.error f, buf)
        | (.ok (), buf) =>
          (.ok { recordStart, payloadStart := recordStart + fixed maxPayload, prefixLen := pfx.length, maxPayload },
            buf)

/-- What every `finish` does with what `seal_record` made of `e`: poison the
encoder if it failed with the nonce moved, drop a failed record's bytes, and
`commit` a sealed one. -/
def finishWith {E : Type} (nonce : E → Nonce) (setState : E → EncoderState → E) (commit : E → E) (slot : Slot)
    (e : E) (result : Res Nat × E × Buffer) : Res Nat × E × Buffer :=
  match result with
  | (.ok split, e', buf) => (.ok split, commit (setState e' (.afterSeal false)), buf)
  | (.error (.err err), e', buf) =>
    let e' := setState e' (.afterSeal (nonce e' ≠ nonce e))
    match buf.truncate slot.recordStart with
    | (.ok (), buf) => (.error (.err err), e', buf)
    | (.error f, buf) => (.error f, e', buf)
  | (.error f, e', buf) => (.error f, e', buf)

namespace Reservation

open RecordEncoder

variable {E : Type} [RecordEncoder E]

/-- `Drop for Reservation` -/
def cancel (e : E) (b : Buffer) (slot : Slot) : E × Buffer :=
  if state e = .reserving then (setState e .ready, (b.truncate slot.recordStart).2) else (e, b)

/-- The result of a consuming method: the reservation is dropped after it. -/
def dropped (slot : Slot) (r : Res Nat × E × Buffer) : Res Nat × E × Buffer :=
  (r.1, cancel r.2.1 r.2.2 slot)

/-- `Reservation::seal` -/
def sealMut (e : E) (b : Buffer) (slot : Slot) (record : Record E) (written : Nat) (env : SealEnv) :
    Res Nat × E × Buffer :=
  dropped slot <|
    match slot.total written with
    | .error f => (.error f, e, b)
    | .ok total =>
      if b.stop < slot.payloadStart + total then (.error (.err .pendingWire), e, b)
      else finish e b slot record total env

/-- `Reservation::seal_init` -/
def sealInit (e : E) (b : Buffer) (slot : Slot) (record : Record E) (written : Nat) (env : SealEnv) :
    Res Nat × E × Buffer :=
  dropped slot <|
    match slot.total written with
    | .error f => (.error f, e, b)
    | .ok total =>
      if b.stop ≠ slot.unwrittenStart then (.error (.err .pendingWire), e, b)
      else match b.commit written with
        | (.error f, b) => (.error f, e, b)
        | (.ok (), b) => finish e b slot record total env

end Reservation

end Snell
