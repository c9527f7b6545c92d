/-
The v6 shaped record codec (`codec/v6/shaped.rs`): every record is shaped by
the key's profile.

On the wire a record is `salt block? prefix header padding payload+tag`, the
salt block only on the first record, the padding mixed with the ciphertext.
The prefix authenticates the header, the padding the payload. The encoder
leaves the payload where the caller wrote it, at the record's start, and
returns where to cut the record to put it back in wire order.
-/
import Snell.Profile
import Snell.Record

namespace Snell

/-! ## Encoder -/

structure V6ShapedEncoder (C : Crypto) where
  aead : C.Key
  nonce : Nonce
  salt : Salt
  seq : UInt32
  psk : ProfiledPsk C
  chunkSize : Nat
  /-- `none` until the first record, which carries the salt block, is sealed. -/
  lastWriteSecs : Option Nat
  state : EncoderState

/-- Per-record layout decided by `reserve`. -/
structure ShapedRecord where
  saltBlockLen : Nat
  prefixLen : Nat

namespace V6ShapedEncoder

variable {C : Crypto}

def profile (enc : V6ShapedEncoder C) : Profile := enc.psk.profile

def withSalt (psk : ProfiledPsk C) (salt : Salt) : Res (V6ShapedEncoder C) := do
  let aead ← C.derive psk.bytes salt
  return { aead, nonce := Nonce.new, salt, seq := 0, psk, chunkSize := 0, lastWriteSecs := none, state := .ready }

def new {ε : Type} [Entropy ε] (psk : ProfiledPsk C) (entropy : ε) : Res (V6ShapedEncoder C) :=
  match Entropy.fill entropy saltLen with
  | (.error e, _) => .error (.err e)
  | (.ok salt, _) => withSalt psk salt

/-- The chunk size `payload_budget` leaves: back to the initial one after an
idle connection. -/
def chunkSizeAt (enc : V6ShapedEncoder C) (now : Nat) : Nat :=
  let idle : Bool := match enc.lastWriteSecs with
    | some last => decide (enc.profile.idleResetSecs < now - last)
    | none => false
  if enc.chunkSize = 0 ∨ idle then enc.profile.chunkInitial else enc.chunkSize

/-- `payload_budget`, on the chunk size it leaves. -/
def payloadBudget (enc : V6ShapedEncoder C) : Nat :=
  let limit := min (enc.profile.chunkLimit enc.seq enc.chunkSize) maxPacketSizeV6
  if enc.seq = 0 then min limit enc.profile.firstRecordCap else limit

/-- The payload limit of a reservation, and the encoder after asking for it; a
datagram ignores the chunk window. -/
def limitFor (enc : V6ShapedEncoder C) (size : RecordSize) (now : Nat) : Nat × V6ShapedEncoder C :=
  match size with
  | .stream _ =>
    let enc := { enc with chunkSize := enc.chunkSizeAt now }
    (enc.payloadBudget, enc)
  | .datagram _ => (maxPacketSizeV6, enc)

/-- The layout of the next record. -/
def layout (enc : V6ShapedEncoder C) : ShapedRecord where
  saltBlockLen := if enc.lastWriteSecs.isNone then enc.profile.saltBlockLen else 0
  prefixLen := enc.profile.recordPrefixLen enc.seq

/-- Room kept for everything but the payload. -/
def roomFor (enc : V6ShapedEncoder C) : Nat :=
  enc.layout.saltBlockLen + enc.layout.prefixLen + headerCipherLen + enc.profile.maxPaddingLen + tagLen

def reserve (enc : V6ShapedEncoder C) (buf : Buffer) (pfx : Bytes) (size : RecordSize) (now : Nat) :
    Res (Slot × ShapedRecord) × V6ShapedEncoder C × Buffer :=
  match enc.state.ensureReady with
  | .error f => (.error f, enc, buf)
  | .ok () =>
    let (limit, enc) := enc.limitFor size now
    -- nothing is fixed in front of the payload
    match reserveWith enc.state limit [] (fun _ => 0) (fun _ => enc.roomFor) buf pfx size with
    | (.error f, buf) => (.error f, enc, buf)
    | (.ok slot, buf) => (.ok (slot, enc.layout), { enc with state := .reserving }, buf)

/-- The salt block of a first record, in front of the prefix. -/
def writeBlock (enc : V6ShapedEncoder C) (buf : Buffer) (record : ShapedRecord) (prefixStart : Nat) : Res Buffer :=
  if 0 < record.saltBlockLen then do
    let start ← sub prefixStart record.saltBlockLen
    let region ← buf.range start prefixStart
    let block ← enc.profile.writeSaltBlock enc.salt region.length
    return buf.writeAt start block
  else .ok buf

/-- The buffer with the record's end set and the salt block written, and the
bytes of the prefix and the header. -/
def prepare (enc : V6ShapedEncoder C) (buf : Buffer) (slot : Slot) (record : ShapedRecord)
    (payloadLen prefixStart paddingStart recordEnd : Nat) : Res (Buffer × Bytes) := do
  let buf ← buf.setRecordEnd (slot.payloadStart + payloadLen)
  let buf ← buf.zeroExtendTo recordEnd
  let buf ← writeBlock enc buf record prefixStart
  let region ← buf.range prefixStart paddingStart
  return (buf, region)

/-- Seal the payload against the padding, and mix the two. -/
def sealBody (enc : V6ShapedEncoder C) (buf : Buffer) (recordStart bodyLen paddingStart recordEnd : Nat)
    (env : SealEnv) : Sealing C (Res Nat × V6ShapedEncoder C × Buffer) :=
  match buf.range recordStart recordEnd with
  | .error f => .done (.error f, enc, buf)
  | .ok record =>
    let body := record.take bodyLen
    let padding := record.drop (paddingStart - recordStart)
    .call env.bodyRefused enc.aead enc.nonce padding body fun
    | (.error f, nonce) => .done (.error f, { enc with nonce }, buf)
    | (.ok body, nonce) =>
      let mixed := enc.profile.mixPaddingPayload enc.seq padding body
      .done (.ok bodyLen, { enc with nonce }, (buf.writeAt recordStart mixed.2).writeAt paddingStart mixed.1)

/-- What `seal_record` does behind the header: fill the padding, seal the body. -/
def sealRest (enc : V6ShapedEncoder C) (buf : Buffer) (recordStart bodyLen paddingStart recordEnd payloadLen : Nat)
    (env : SealEnv) : Sealing C (Res Nat × V6ShapedEncoder C × Buffer) :=
  match buf.range paddingStart recordEnd with
  | .error f => .done (.error f, enc, buf)
  | .ok region =>
    let buf := buf.writeAt paddingStart (enc.profile.fillOfficial enc.seq region.length)
    if 0 < payloadLen then sealBody enc buf recordStart bodyLen paddingStart recordEnd env
    else .done (.ok bodyLen, enc, buf)

/-- `seal_record`; the split is the payload and its tag. -/
def sealRecord (enc : V6ShapedEncoder C) (buf : Buffer) (slot : Slot) (record : ShapedRecord)
    (paddingLen payloadLen : Nat) (env : SealEnv) : Sealing C (Res Nat × V6ShapedEncoder C × Buffer) :=
  let bodyLen := if payloadLen = 0 then 0 else payloadLen + tagLen
  let prefixStart := slot.recordStart + bodyLen + record.saltBlockLen
  let paddingStart := prefixStart + record.prefixLen + headerCipherLen
  let recordEnd := paddingStart + paddingLen
  match prepare enc buf slot record payloadLen prefixStart paddingStart recordEnd with
  | .error f => .done (.error f, enc, buf)
  | .ok (buf, region) =>
    let pfx := enc.profile.fillOfficial enc.seq record.prefixLen
    let header := plainHeader paddingLen payloadLen ++ region.drop (record.prefixLen + headerPlainLen)
    .call env.headerRefused enc.aead enc.nonce pfx header fun
    | (.error f, nonce) => .done (.error f, { enc with nonce }, buf.writeAt prefixStart (pfx ++ header))
    | (.ok header, nonce) =>
      sealRest { enc with nonce } (buf.writeAt prefixStart (pfx ++ header)) slot.recordStart bodyLen paddingStart recordEnd
        payloadLen env

/-- `seal_record`, with the padding the profile gives the record. -/
def sealPadded (enc : V6ShapedEncoder C) (buf : Buffer) (slot : Slot) (record : ShapedRecord) (payloadLen : Nat)
    (env : SealEnv) : Sealing C (Res Nat × V6ShapedEncoder C × Buffer) :=
  let paddingLen := enc.profile.finalPaddingLen enc.seq record.prefixLen payloadLen enc.lastWriteSecs.isNone
  sealRecord enc buf slot record paddingLen payloadLen env

/-- A sealed record advances the profile. -/
def advance (now : Nat) (enc : V6ShapedEncoder C) : V6ShapedEncoder C :=
  { enc with
    chunkSize := enc.profile.advanceChunkSize enc.chunkSize
    seq := enc.seq + 1
    lastWriteSecs := some now }

def finish (enc : V6ShapedEncoder C) (buf : Buffer) (slot : Slot) (record : ShapedRecord) (payloadLen : Nat)
    (env : SealEnv) : Res Nat × V6ShapedEncoder C × Buffer :=
  finishWith nonce (fun enc state => { enc with state }) (advance env.now) slot enc
    (sealPadded enc buf slot record payloadLen env).run

instance : RecordEncoder (V6ShapedEncoder C) where
  Record := ShapedRecord
  state := state
  setState enc state := { enc with state }
  reserve := reserve
  finish := finish

end V6ShapedEncoder

/-! ## Decoder -/

namespace V6Shaped

inductive ReadStep where
  | salt
  | header (prefixLen : Nat)
  | body (header : RecordHeader) (prefixLen : Nat)
  deriving DecidableEq, Repr

end V6Shaped

structure V6ShapedDecoder (C : Crypto) where
  psk : ProfiledPsk C
  /-- Session cipher and the salt it was derived from (the replay identity). -/
  key : Option (C.Key × Salt)
  nonce : Nonce
  seq : UInt32
  includeSalt : Bool
  step : V6Shaped.ReadStep
  pending : Nat

namespace V6ShapedDecoder

variable {C : Crypto}

def new (psk : ProfiledPsk C) : V6ShapedDecoder C :=
  { psk, key := none, nonce := Nonce.new, seq := 0, includeSalt := true, step := .salt, pending := 0 }

def profile (d : V6ShapedDecoder C) : Profile := d.psk.profile

def headerStep (d : V6ShapedDecoder C) : V6Shaped.ReadStep := .header (d.profile.recordPrefixLen d.seq)

def nextRecord (d : V6ShapedDecoder C) : V6ShapedDecoder C :=
  let d := { d with includeSalt := false, seq := d.seq + 1 }
  { d with step := d.headerStep }

/-- Where the prefix starts in a record's own bytes. -/
def saltSpan (d : V6ShapedDecoder C) : Nat := if d.includeSalt then d.profile.saltBlockLen else 0

def headerOffset (d : V6ShapedDecoder C) : Nat := d.pending + d.saltSpan

/-- `kdf_salt` -/
def kdfSalt (d : V6ShapedDecoder C) (filled : Bytes) : Res Salt :=
  if d.profile.saltBlockLen ≤ filled.length then d.profile.extractSalt (filled.take d.profile.saltBlockLen)
  else .error (.err .truncated)

/-- The salt block is there: derive the key unless it was installed. -/
def readSalt (d : V6ShapedDecoder C) (filled : Bytes) : Res (V6ShapedDecoder C) :=
  match d.key with
  | some _ => .ok { d with step := d.headerStep }
  | none => do
    let salt ← kdfSalt d filled
    let aead ← C.derive d.psk.bytes salt
    return { d with key := some (aead, salt), step := d.headerStep }

/-- The header block is there, with its prefix: open and parse it. -/
def readHeader (d : V6ShapedDecoder C) (pfx hdr : Bytes) : Res RecordHeader × V6ShapedDecoder C :=
  match d.key with
  | none => (.error (.err .aead), d)
  | some (aead, _) =>
    match C.aesOpen aead d.nonce pfx hdr with
    | (.error f, _, nonce) => (.error f, { d with nonce })
    | (.ok (), hdr, nonce) => (parseV6PlainHeader (openedHeader hdr), { d with nonce })

/-- Open a payload against its padding. -/
def openBody (d : V6ShapedDecoder C) (padding cipher : Bytes) : Res Unit × V6ShapedDecoder C × Bytes :=
  match d.key with
  | none => (.error (.err .aead), d, padding ++ cipher)
  | some (aead, _) =>
    match C.aesOpen aead d.nonce padding cipher with
    | (.error f, cipher, nonce) => (.error f, { d with nonce }, padding ++ cipher)
    | (.ok (), cipher, nonce) => (.ok (), nextRecord { d with nonce }, padding ++ cipher)

/-- The body is there: undo the mixing and open it. -/
def readBody (d : V6ShapedDecoder C) (header : RecordHeader) (body : Bytes) : Res Unit × V6ShapedDecoder C × Bytes :=
  if body.length < header.paddingLen then (.error .panic, d, body)
  else
    let mixed := d.profile.mixPaddingPayload d.seq (body.take header.paddingLen) (body.drop header.paddingLen)
    openBody d mixed.1 mixed.2

/-- `ReadStep::Body` of the loop. -/
def decodeBody (d : V6ShapedDecoder C) (header : RecordHeader) (prefixLen max : Nat) (filled : Bytes) :
    Res DecodeStatus × V6ShapedDecoder C × Bytes :=
  let bodyOff := d.headerOffset + prefixLen + headerCipherLen
  let bodyEnd := bodyOff + header.bodyLenV6Shaped
  match Pending.need d.pending max filled.length bodyEnd with
  | .error f => (.error f, d, filled)
  | .ok (some need) => (.ok need, d, filled)
  | .ok none =>
    if header.payloadLen = 0 then
      let d := d.nextRecord
      match Pending.zeroChunk d.pending bodyEnd with
      | .error f => (.error f, d, filled)
      | .ok (status, pending) => (.ok status, { d with pending }, filled)
    else
      match slice filled bodyOff bodyEnd with
      | .error f => (.error f, d, filled)
      | .ok body =>
        match readBody d header body with
        | (.error f, d, body) => (.error f, d, filled.take bodyOff ++ body ++ filled.drop bodyEnd)
        | (.ok (), d, body) =>
          let filled := filled.take bodyOff ++ body ++ filled.drop bodyEnd
          let start := bodyOff + header.paddingLen
          match Pending.data d.pending bodyEnd start (start + header.payloadLen) with
          | .error f => (.error f, d, filled)
          | .ok (status, pending) => (.ok status, { d with pending }, filled)

/-- `ReadStep::Header` of the loop. -/
def decodeHeader (d : V6ShapedDecoder C) (prefixLen max : Nat) (filled : Bytes) :
    Res DecodeStatus × V6ShapedDecoder C × Bytes :=
  let headerStart := d.headerOffset + prefixLen
  let headerEnd := headerStart + headerCipherLen
  match Pending.need d.pending max filled.length headerEnd with
  | .error f => (.error f, d, filled)
  | .ok (some need) => (.ok need, d, filled)
  | .ok none =>
    match (do
      let pfx ← slice filled d.headerOffset headerStart
      let hdr ← chunkAt filled headerStart headerCipherLen
      return (pfx, hdr)) with
    | .error f => (.error f, d, filled)
    | .ok (pfx, hdr) =>
      match readHeader d pfx hdr with
      | (.error f, d) => (.error f, d, filled)
      | (.ok header, d) =>
        if header.bodyLenV6Shaped = 0 then
          let d := d.nextRecord
          match Pending.zeroChunk d.pending headerEnd with
          | .error f => (.error f, d, filled)
          | .ok (status, pending) => (.ok status, { d with pending }, filled)
        else decodeBody { d with step := .body header prefixLen } header prefixLen max filled

/-- `decode`: the source's loop is its three arms in order. -/
def decode (d : V6ShapedDecoder C) (max : Nat) (filled : Bytes) : Res DecodeStatus × V6ShapedDecoder C × Bytes :=
  match d.step with
  | .salt =>
    match Pending.need d.pending max filled.length d.profile.saltBlockLen with
    | .error f => (.error f, d, filled)
    | .ok (some need) => (.ok need, d, filled)
    | .ok none =>
      match readSalt d filled with
      | .error f => (.error f, d, filled)
      | .ok d => decodeHeader d (d.profile.recordPrefixLen d.seq) max filled
  | .header prefixLen => decodeHeader d prefixLen max filled
  | .body header prefixLen => decodeBody d header prefixLen max filled

def kdfNeed (d : V6ShapedDecoder C) : Nat := if d.key.isNone ∧ d.step = .salt then d.profile.saltBlockLen else 0

def installAead (d : V6ShapedDecoder C) (salt : Salt) (key : ByteArr aes128KeyLen) : Res (V6ShapedDecoder C) := do
  let aead ← C.aesNew key
  return { d with key := some (aead, salt) }

instance : RecordDecoder (V6ShapedDecoder C) where
  pending := pending
  setPending d pending := { d with pending }
  decode := decode
  replayIdentity d := d.key.map Prod.snd
  kdfNeed := kdfNeed
  kdfSalt := kdfSalt
  installAead := installAead

end V6ShapedDecoder

end Snell
