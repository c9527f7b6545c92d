/-
The v4 record codec (`codec/v4/mod.rs`, `codec/v4/chunk.rs`), which v5 TCP
shares.

A record is `salt? header padding? payload+tag`: the salt and the padding
only on the first record, the padding only if it has a payload. The header
and the payload are sealed under consecutive nonces; a record without payload
has only the header. The padding is exchanged with the ciphertext at every
other byte.
-/
import Snell.Record
import Snell.Header
import Snell.V4Padding

namespace Snell

namespace V4

/-! ## Chunk window -/

def nextV4ChunkLimit (currentLimit : Nat) : Nat :=
  min (currentLimit + v4MssBase - v4ResetOverhead) maxPacketSize

/-- The last sealed record: when, and the limit it grew to. -/
structure Window where
  sealedAt : Nat
  limit : Nat

/-- `V4ChunkState`; `last` is `none` until the first record is sealed. -/
structure ChunkState where
  initialPaddingLen : Nat
  last : Option Window

namespace ChunkState

def new (initialPaddingLen : Nat) : ChunkState := ⟨initialPaddingLen, none⟩

def saltSent (s : ChunkState) : Bool := s.last.isSome

def recordBudget (s : ChunkState) (now : Nat) : Nat :=
  match s.last with
  | none => v4MssBase - (v4FirstRecordOverhead + s.initialPaddingLen)
  | some last => if v4IdleResetSecs < now - last.sealedAt then v4MssBase - v4ResetOverhead else last.limit

def commitWrite (s : ChunkState) (now budget : Nat) : ChunkState :=
  { s with last := some ⟨now, nextV4ChunkLimit budget⟩ }

end ChunkState

/-- The salt in front of the first record. -/
def saltOf (salt : Salt) (first : Bool) : Bytes := if first then salt.1 else []

/-- Per-record layout decided by `reserve`. -/
structure V4Record where
  headerStart : Nat
  paddingLen : Nat
  budget : Nat
  reservedAt : Nat

end V4

open V4

/-! ## Encoder -/

structure V4Encoder (C : Crypto) (ε : Type) where
  aead : C.Key
  nonce : Nonce
  salt : Salt
  entropy : ε
  chunk : ChunkState
  state : EncoderState
  /-- The machine it runs on. -/
  ne : Endian

namespace V4Encoder

variable {C : Crypto} {ε : Type} [Entropy ε]

def withSalt (psk : Psk) (salt : Salt) (initialPaddingLen : Nat) (entropy : ε) (ne : Endian) :
    Res (V4Encoder C ε) := do
  if maxPacketSize < initialPaddingLen then throw (.err .payloadTooLarge)
  let aead ← C.derive psk.bytes salt
  return { aead, nonce := Nonce.new, salt, entropy, chunk := .new initialPaddingLen, state := .ready, ne }

def new (psk : Psk) (entropy : ε) (ne : Endian) : Res (V4Encoder C ε) :=
  match Entropy.fill entropy saltLen with
  | (.error e, _) => .error (.err e)
  | (.ok salt, entropy) =>
    match Entropy.fill entropy 4 with
    | (.error e, _) => .error (.err e)
    | (.ok span, entropy) =>
      withSalt psk salt (v4InitialPaddingMin + LittleEndian.leNat span.1 % v4InitialPaddingSpan) entropy ne

/-- The padding and the sealed payload, as they go into the record. -/
def sealPadding (enc : V4Encoder C ε) (paddingLen : Nat) (cipher : Bytes) (env : SealEnv) :
    Res (Bytes × Bytes) × V4Encoder C ε :=
  if 0 < paddingLen then
    match fillV4Padding enc.ne env.fuel paddingLen cipher enc.entropy with
    | (.error f, entropy) => (.error f, { enc with entropy })
    | (.ok padding, entropy) => (.ok (swapEvenIndices enc.ne padding cipher), { enc with entropy })
  else (.ok ([], cipher), enc)

/-- Everything after the header. -/
def sealBody (enc : V4Encoder C ε) (buf : Buffer) (paddingStart paddingLen recordEnd : Nat) (env : SealEnv) :
    Sealing C (Res Nat × V4Encoder C ε × Buffer) :=
  match buf.range paddingStart recordEnd with
  | .error f => .done (.error f, enc, buf)
  | .ok body =>
    if body.length < paddingLen then .done (.error .panic, enc, buf)
    else .call env.bodyRefused enc.aead enc.nonce [] (body.drop paddingLen) fun
      | (.error f, nonce) => .done (.error f, { enc with nonce }, buf)
      | (.ok cipher, nonce) => .done <|
        match sealPadding { enc with nonce } paddingLen cipher env with
        | (.error f, enc) => (.error f, enc, buf.writeAt (paddingStart + paddingLen) cipher)
        | (.ok (padding, cipher), enc) => (.ok 0, enc, buf.writeAt paddingStart (padding ++ cipher))

/-- `seal_record`; the split is 0, the record is in wire order. -/
def sealRecord (enc : V4Encoder C ε) (buf : Buffer) (slot : Slot) (record : V4Record) (payloadLen : Nat)
    (env : SealEnv) : Sealing C (Res Nat × V4Encoder C ε × Buffer) :=
  let paddingStart := record.headerStart + headerCipherLen
  let paddingLen := if payloadLen = 0 then 0 else record.paddingLen
  let recordEnd := if payloadLen = 0 then paddingStart else slot.payloadStart + payloadLen + tagLen
  match buf.setRecordEnd recordEnd with
  | .error f => .done (.error f, enc, buf)
  | .ok buf =>
    match buf.range record.headerStart paddingStart with
    | .error f => .done (.error f, enc, buf)
    | .ok header =>
      let header := plainHeader paddingLen payloadLen ++ header.drop headerPlainLen
      .call env.headerRefused enc.aead enc.nonce [] header fun
      | (.error f, nonce) => .done (.error f, { enc with nonce }, buf.writeAt record.headerStart header)
      | (.ok header, nonce) =>
        let enc := { enc with nonce }
        let buf := buf.writeAt record.headerStart header
        if 0 < payloadLen then sealBody enc buf paddingStart paddingLen recordEnd env
        else .done (.ok 0, enc, buf)

/-- The payload limit of a reservation; a datagram ignores the chunk window. -/
def limitFor (enc : V4Encoder C ε) (size : RecordSize) (now : Nat) : Nat :=
  match size with
  | .stream _ => enc.chunk.recordBudget now
  | .datagram _ => maxPacketSize

/-- The padding reserved for a payload of up to `maxPayload` bytes. -/
def paddingFor (enc : V4Encoder C ε) (maxPayload : Nat) : Nat :=
  if !enc.chunk.saltSent ∧ 0 < maxPayload then enc.chunk.initialPaddingLen else 0

/-- The salt, in front of the first record. -/
def leadingSalt (enc : V4Encoder C ε) : Bytes := saltOf enc.salt !enc.chunk.saltSent

/-- Bytes in front of a payload of up to `maxPayload` bytes. -/
def fixedFor (enc : V4Encoder C ε) (maxPayload : Nat) : Nat :=
  enc.leadingSalt.length + headerCipherLen + enc.paddingFor maxPayload

def reserve (enc : V4Encoder C ε) (buf : Buffer) (pfx : Bytes) (size : RecordSize) (now : Nat) :
    Res (Slot × V4Record) × V4Encoder C ε × Buffer :=
  match reserveWith enc.state (enc.limitFor size now) enc.leadingSalt enc.fixedFor (fun _ => tagLen) buf pfx size with
  | (.error f, buf) => (.error f, enc, buf)
  | (.ok slot, buf) =>
    (.ok (slot,
        { headerStart := slot.recordStart + enc.leadingSalt.length
          paddingLen := enc.paddingFor slot.maxPayload
          budget := enc.chunk.recordBudget now
          reservedAt := now }),
      { enc with state := .reserving }, buf)

def finish (enc : V4Encoder C ε) (buf : Buffer) (slot : Slot) (record : V4Record) (payloadLen : Nat)
    (env : SealEnv) : Res Nat × V4Encoder C ε × Buffer :=
  finishWith nonce (fun enc state => { enc with state })
    (fun enc => { enc with chunk := enc.chunk.commitWrite record.reservedAt record.budget })
    slot enc (sealRecord enc buf slot record payloadLen env).run

instance : RecordEncoder (V4Encoder C ε) where
  Record := V4Record
  state := state
  setState enc state := { enc with state }
  reserve := reserve
  finish := finish

end V4Encoder

/-! ## Decoder -/

namespace V4

inductive ReadStep where
  | salt
  | header
  | body (header : RecordHeader) (len : Nat)
  deriving DecidableEq, Repr

end V4

structure V4Decoder (C : Crypto) where
  psk : Psk
  aead : Option C.Key
  nonce : Nonce
  includeSalt : Bool
  step : V4.ReadStep
  pending : Nat
  /-- The machine it runs on. -/
  ne : Endian

namespace V4Decoder

variable {C : Crypto}

def new (C : Crypto) (psk : Psk) (ne : Endian) : V4Decoder C :=
  { psk, aead := none, nonce := Nonce.new, includeSalt := true, step := .salt, pending := 0, ne }

/-- Where the header starts in a record's own bytes. -/
def saltSpan (d : V4Decoder C) : Nat := if d.includeSalt then saltLen else 0

def headerOffset (d : V4Decoder C) : Nat := d.pending + d.saltSpan

/-- `kdf_salt` -/
def kdfSalt (filled : Bytes) : Res Salt :=
  if h : saltLen ≤ filled.length then .ok ⟨filled.take saltLen, by simp; omega⟩
  else .error (.err .truncated)

/-- The salt is there: derive the key unless it was installed. -/
def readSalt (d : V4Decoder C) (filled : Bytes) : Res (V4Decoder C) :=
  match d.aead with
  | some _ => .ok { d with step := .header }
  | none => do
    let salt ← kdfSalt filled
    let aead ← C.derive d.psk.bytes salt
    return { d with aead := some aead, step := .header }

/-- The header block is there: open and parse it. -/
def readHeader (d : V4Decoder C) (hdr : Bytes) : Res (RecordHeader × Nat) × V4Decoder C :=
  match d.aead with
  | none => (.error (.err .aead), d)
  | some aead =>
    match C.aesOpen aead d.nonce [] hdr with
    | (.error f, _, nonce) => (.error f, { d with nonce })
    | (.ok (), hdr, nonce) =>
      ((do
        let header ← parseV4PlainHeader (openedHeader hdr)
        let len ← header.bodyLenV4
        return (header, len)), { d with nonce })

/-- The body is there: undo the swap and open it. -/
def readBody (d : V4Decoder C) (header : RecordHeader) (body : Bytes) : Res Unit × V4Decoder C × Bytes :=
  if body.length < header.paddingLen then (.error .panic, d, body)
  else
    let swapped := swapEvenIndices d.ne (body.take header.paddingLen) (body.drop header.paddingLen)
    match d.aead with
    | none => (.error (.err .aead), d, swapped.1 ++ swapped.2)
    | some aead =>
      match C.aesOpen aead d.nonce [] swapped.2 with
      | (.error f, cipher, nonce) => (.error f, { d with nonce }, swapped.1 ++ cipher)
      | (.ok (), cipher, nonce) =>
        (.ok (), { d with nonce, includeSalt := false, step := .header }, swapped.1 ++ cipher)

/-- `ReadStep::Body` of the loop. -/
def decodeBody (d : V4Decoder C) (header : RecordHeader) (len max : Nat) (filled : Bytes) :
    Res DecodeStatus × V4Decoder C × Bytes :=
  let bodyOff := d.headerOffset + headerCipherLen
  let bodyEnd := bodyOff + len
  match Pending.need d.pending max filled.length bodyEnd with
  | .error f => (.error f, d, filled)
  | .ok (some need) => (.ok need, d, filled)
  | .ok none =>
    match slice filled bodyOff bodyEnd with
    | .error f => (.error f, d, filled)
    | .ok body =>
      match readBody d header body with
      | (.error f, d, body) => (.error f, d, filled.take bodyOff ++ body ++ filled.drop bodyEnd)
      | (.ok (), d, body) =>
        let filled := filled.take bodyOff ++ body ++ filled.drop bodyEnd
        let start := bodyOff + header.paddingLen
        match Pending.data d.pending bodyEnd start (start + header.payloadLen) with
        | .error f => (.error f, d, filled)
        | .ok (status, pending) => (.ok status, { d with pending }, filled)

/-- `ReadStep::Header` of the loop. -/
def decodeHeader (d : V4Decoder C) (max : Nat) (filled : Bytes) : Res DecodeStatus × V4Decoder C × Bytes :=
  let off := d.headerOffset
  let headerEnd := off + headerCipherLen
  match Pending.need d.pending max filled.length headerEnd with
  | .error f => (.error f, d, filled)
  | .ok (some need) => (.ok need, d, filled)
  | .ok none =>
    match chunkAt filled off headerCipherLen with
    | .error f => (.error f, d, filled)
    | .ok hdr =>
      match readHeader d hdr with
      | (.error f, d) => (.error f, d, filled)
      | (.ok (header, len), d) =>
        if len = 0 then
          let d := { d with includeSalt := false }
          match Pending.zeroChunk d.pending headerEnd with
          | .error f => (.error f, d, filled)
          | .ok (status, pending) => (.ok status, { d with pending }, filled)
        else decodeBody { d with step := .body header len } header len max filled

/-- `decode`: each turn of the source's loop moves on to the next step, so
the loop is its three arms in order. -/
def decode (d : V4Decoder C) (max : Nat) (filled : Bytes) : Res DecodeStatus × V4Decoder C × Bytes :=
  match d.step with
  | .salt =>
    match Pending.need d.pending max filled.length saltLen with
    | .error f => (.error f, d, filled)
    | .ok (some need) => (.ok need, d, filled)
    | .ok none =>
      match readSalt d filled with
      | .error f => (.error f, d, filled)
      | .ok d => decodeHeader d max filled
  | .header => decodeHeader d max filled
  | .body header len => decodeBody d header len max filled

def kdfNeed (d : V4Decoder C) : Nat := if d.aead.isNone ∧ d.step = .salt then saltLen else 0

def installAead (d : V4Decoder C) (_salt : Salt) (key : ByteArr aes128KeyLen) : Res (V4Decoder C) := do
  let aead ← C.aesNew key
  return { d with aead := some aead }

instance : RecordDecoder (V4Decoder C) where
  pending := pending
  setPending d pending := { d with pending }
  decode := decode
  replayIdentity _ := none
  kdfNeed := kdfNeed
  kdfSalt _ := kdfSalt
  installAead := installAead

end V4Decoder

end Snell
