/-
The v6 unshaped record codec (`codec/v6/unshaped.rs`): no padding, no chunk
window.

A record is `salt? header payload+tag`, the salt only on the first record; a
record without payload has only the header.
-/
import Snell.V4

namespace Snell

open V4 (saltOf)

/-! ## Encoder -/

structure V6UnshapedEncoder (C : Crypto) where
  aead : C.Key
  nonce : Nonce
  salt : Salt
  saltSent : Bool
  state : EncoderState

namespace V6UnshapedEncoder

variable {C : Crypto}

def withSalt (psk : Psk) (salt : Salt) : Res (V6UnshapedEncoder C) := do
  let aead ← C.derive psk.bytes salt
  return { aead, nonce := Nonce.new, salt, saltSent := false, state := .ready }

def new {ε : Type} [Entropy ε] (psk : Psk) (entropy : ε) : Res (V6UnshapedEncoder C) :=
  match Entropy.fill entropy saltLen with
  | (.error e, _) => .error (.err e)
  | (.ok salt, _) => withSalt psk salt

/-- The payload and its tag. -/
def sealBody (enc : V6UnshapedEncoder C) (buf : Buffer) (payloadStart recordEnd : Nat) (env : SealEnv) :
    Sealing C (Res Nat × V6UnshapedEncoder C × Buffer) :=
  match buf.range payloadStart recordEnd with
  | .error f => .done (.error f, enc, buf)
  | .ok payload =>
    .call env.bodyRefused enc.aead enc.nonce [] payload fun
    | (.error f, nonce) => .done (.error f, { enc with nonce }, buf)
    | (.ok cipher, nonce) => .done (.ok 0, { enc with nonce }, buf.writeAt payloadStart cipher)

/-- `seal_record`; the split is 0, the record is in wire order. -/
def sealRecord (enc : V6UnshapedEncoder C) (buf : Buffer) (slot : Slot) (payloadLen : Nat) (env : SealEnv) :
    Sealing C (Res Nat × V6UnshapedEncoder C × Buffer) :=
  let recordEnd := if payloadLen = 0 then slot.payloadStart else slot.payloadStart + payloadLen + tagLen
  match (do
    let headerStart ← sub slot.payloadStart headerCipherLen
    let buf ← buf.setRecordEnd recordEnd
    let header ← buf.range headerStart slot.payloadStart
    return (headerStart, buf, header)) with
  | .error f => .done (.error f, enc, buf)
  | .ok (headerStart, buf, header) =>
    let header := plainHeader 0 payloadLen ++ header.drop headerPlainLen
    .call env.headerRefused enc.aead enc.nonce [] header fun
    | (.error f, nonce) => .done (.error f, { enc with nonce }, buf.writeAt headerStart header)
    | (.ok header, nonce) =>
      let enc := { enc with nonce }
      let buf := buf.writeAt headerStart header
      if 0 < payloadLen then sealBody enc buf slot.payloadStart recordEnd env else .done (.ok 0, enc, buf)

/-- The payload limit of a reservation. -/
def limitFor : RecordSize → Nat
  | .stream _ => maxPacketSize
  | .datagram _ => maxPacketSizeV6

/-- The salt, in front of the first record. -/
def leadingSalt (enc : V6UnshapedEncoder C) : Bytes := saltOf enc.salt !enc.saltSent

def reserve (enc : V6UnshapedEncoder C) (buf : Buffer) (pfx : Bytes) (size : RecordSize) (_now : Nat) :
    Res (Slot × Unit) × V6UnshapedEncoder C × Buffer :=
  match reserveWith enc.state (limitFor size) enc.leadingSalt (fun _ => enc.leadingSalt.length + headerCipherLen)
      (fun _ => tagLen) buf pfx size with
  | (.error f, buf) => (.error f, enc, buf)
  | (.ok slot, buf) => (.ok (slot, ()), { enc with state := .reserving }, buf)

def finish (enc : V6UnshapedEncoder C) (buf : Buffer) (slot : Slot) (_record : Unit) (payloadLen : Nat)
    (env : SealEnv) : Res Nat × V6UnshapedEncoder C × Buffer :=
  finishWith nonce (fun enc state => { enc with state }) (fun enc => { enc with saltSent := true })
    slot enc (sealRecord enc buf slot payloadLen env).run

instance : RecordEncoder (V6UnshapedEncoder C) where
  Record := Unit
  state := state
  setState enc state := { enc with state }
  reserve := reserve
  finish := finish

end V6UnshapedEncoder

/-! ## Decoder -/

namespace V6Unshaped

inductive ReadStep where
  | salt
  | header
  | body (payloadLen len : Nat)
  deriving DecidableEq, Repr

end V6Unshaped

structure V6UnshapedDecoder (C : Crypto) where
  psk : Psk
  /-- Session cipher and the salt it was derived from (the replay identity). -/
  key : Option (C.Key × Salt)
  nonce : Nonce
  includeSalt : Bool
  step : V6Unshaped.ReadStep
  pending : Nat

namespace V6UnshapedDecoder

variable {C : Crypto}

def new (C : Crypto) (psk : Psk) : V6UnshapedDecoder C :=
  { psk, key := none, nonce := Nonce.new, includeSalt := true, step := .salt, pending := 0 }

/-- Where the header starts in a record's own bytes. -/
def saltSpan (d : V6UnshapedDecoder C) : Nat := if d.includeSalt then saltLen else 0

def headerOffset (d : V6UnshapedDecoder C) : Nat := d.pending + d.saltSpan

/-- The salt is there: derive the key unless it was installed. -/
def readSalt (d : V6UnshapedDecoder C) (filled : Bytes) : Res (V6UnshapedDecoder C) :=
  match d.key with
  | some _ => .ok { d with step := .header }
  | none => do
    let salt ← V4Decoder.kdfSalt filled
    let aead ← C.derive d.psk.bytes salt
    return { d with key := some (aead, salt), step := .header }

/-- The header block is there: open and parse it. -/
def readHeader (d : V6UnshapedDecoder C) (hdr : Bytes) : Res (RecordHeader × Nat) × V6UnshapedDecoder C :=
  match d.key with
  | none => (.error (.err .aead), d)
  | some (aead, _) =>
    match C.aesOpen aead d.nonce [] hdr with
    | (.error f, _, nonce) => (.error f, { d with nonce })
    | (.ok (), hdr, nonce) =>
      ((do
        let header ← parseV6PlainHeader (openedHeader hdr)
        let len ← header.bodyLenV6Unshaped
        return (header, len)), { d with nonce })

/-- The body is there: open it. -/
def readBody (d : V6UnshapedDecoder C) (body : Bytes) : Res Unit × V6UnshapedDecoder C × Bytes :=
  match d.key with
  | none => (.error (.err .aead), d, body)
  | some (aead, _) =>
    match C.aesOpen aead d.nonce [] body with
    | (.error f, body, nonce) => (.error f, { d with nonce }, body)
    | (.ok (), body, nonce) => (.ok (), { d with nonce, includeSalt := false, step := .header }, body)

/-- `ReadStep::Body` of the loop. -/
def decodeBody (d : V6UnshapedDecoder C) (payloadLen len max : Nat) (filled : Bytes) :
    Res DecodeStatus × V6UnshapedDecoder C × Bytes :=
  let bodyOff := d.headerOffset + headerCipherLen
  let bodyEnd := bodyOff + len
  match Pending.need d.pending max filled.length bodyEnd with
  | .error f => (.error f, d, filled)
  | .ok (some need) => (.ok need, d, filled)
  | .ok none =>
    match slice filled bodyOff bodyEnd with
    | .error f => (.error f, d, filled)
    | .ok body =>
      match readBody d body with
      | (.error f, d, body) => (.error f, d, filled.take bodyOff ++ body ++ filled.drop bodyEnd)
      | (.ok (), d, body) =>
        let filled := filled.take bodyOff ++ body ++ filled.drop bodyEnd
        match Pending.data d.pending bodyEnd bodyOff (bodyOff + payloadLen) with
        | .error f => (.error f, d, filled)
        | .ok (status, pending) => (.ok status, { d with pending }, filled)

/-- `ReadStep::Header` of the loop. -/
def decodeHeader (d : V6UnshapedDecoder C) (max : Nat) (filled : Bytes) :
    Res DecodeStatus × V6UnshapedDecoder C × Bytes :=
  let off := d.headerOffset
  let headerEnd := off + headerCipherLen
  match Pending.need d.pending max filled.length headerEnd with
  | .error f => (.error f, d, filled)
  | .ok (some need) => (.ok need, d, filled)
  | .ok none =>
    match chunkAt filled off headerCipherLen with
    | .error f => (.error f, d, filled)
    | .ok hdr =>
      match readHeader d hdr with
      | (.error f, d) => (.error f, d, filled)
      | (.ok (header, len), d) =>
        if len = 0 then
          let d := { d with includeSalt := false }
          match Pending.zeroChunk d.pending headerEnd with
          | .error f => (.error f, d, filled)
          | .ok (status, pending) => (.ok status, { d with pending }, filled)
        else decodeBody { d with step := .body header.payloadLen len } header.payloadLen len max filled

/-- `decode`: the source's loop is its three arms in order. -/
def decode (d : V6UnshapedDecoder C) (max : Nat) (filled : Bytes) :
    Res DecodeStatus × V6UnshapedDecoder C × Bytes :=
  match d.step with
  | .salt =>
    match Pending.need d.pending max filled.length saltLen with
    | .error f => (.error f, d, filled)
    | .ok (some need) => (.ok need, d, filled)
    | .ok none =>
      match readSalt d filled with
      | .error f => (.error f, d, filled)
      | .ok d => decodeHeader d max filled
  | .header => decodeHeader d max filled
  | .body payloadLen len => decodeBody d payloadLen len max filled

def kdfNeed (d : V6UnshapedDecoder C) : Nat := if d.key.isNone ∧ d.step = .salt then saltLen else 0

def installAead (d : V6UnshapedDecoder C) (salt : Salt) (key : ByteArr aes128KeyLen) :
    Res (V6UnshapedDecoder C) := do
  let aead ← C.aesNew key
  return { d with key := some (aead, salt) }

instance : RecordDecoder (V6UnshapedDecoder C) where
  pending := pending
  setPending d pending := { d with pending }
  decode := decode
  replayIdentity d := d.key.map Prod.snd
  kdfNeed := kdfNeed
  kdfSalt _ := V4Decoder.kdfSalt
  installAead := installAead

end V6UnshapedDecoder

end Snell
