/-
`codec/header.rs`: the 7-byte plaintext record header.
-/
import Snell.Base

namespace Snell

structure RecordHeader where
  paddingLen : Nat
  payloadLen : Nat
  deriving DecidableEq, Repr

namespace RecordHeader

/-- Payload plus its tag; a zero-length payload carries no tag. -/
def payloadBodyLen (h : RecordHeader) : Nat := if h.payloadLen = 0 then 0 else h.payloadLen + tagLen

def bodyLenV4 (h : RecordHeader) : Res Nat :=
  if h.payloadLen = 0 ∧ h.paddingLen ≠ 0 then .error (.err .zeroChunkWithPadding)
  else .ok (h.paddingLen + h.payloadBodyLen)

def bodyLenV6Unshaped (h : RecordHeader) : Res Nat :=
  if h.paddingLen ≠ 0 then .error (.err .invalidHeader) else .ok h.payloadBodyLen

def bodyLenV6Shaped (h : RecordHeader) : Nat := h.paddingLen + h.payloadBodyLen

end RecordHeader

/-- `u16::from_be_bytes` -/
def u16be (hi lo : UInt8) : Nat := hi.toNat * 256 + lo.toNat

/-- `(n as u16).to_be_bytes()` -/
def beBytes16 (n : Nat) : Bytes := [UInt8.ofNat (n / 256), UInt8.ofNat n]

/-- `WirePlainHeader`: `marker(1) reserved(2) padding_len(2) payload_len(2)`. -/
structure WirePlainHeader where
  marker : UInt8
  reserved : UInt8 × UInt8
  header : RecordHeader

/-- The header's fields, of exactly 7 bytes. -/
def wirePlainHeader : Bytes → Res WirePlainHeader
  | [marker, r₀, r₁, p₀, p₁, l₀, l₁] => .ok ⟨marker, (r₀, r₁), ⟨u16be p₀ p₁, u16be l₀ l₁⟩⟩
  | _ => .error .panic

def parsePlainHeader (header : Bytes) : Res WirePlainHeader := do
  let wire ← wirePlainHeader header
  if wire.marker ≠ headerVersionMarker then throw (.err .invalidHeader)
  return wire

def parseV4PlainHeader (header : Bytes) : Res RecordHeader := do
  let wire ← parsePlainHeader header
  if maxPacketSize < wire.header.paddingLen ∨ maxPacketSize < wire.header.payloadLen then
    throw (.err .payloadTooLarge)
  return wire.header

def parseV6PlainHeader (header : Bytes) : Res RecordHeader := do
  let wire ← parsePlainHeader header
  let reserved := wire.reserved.1 ||| wire.reserved.2
  if reserved ≠ 0 then throw (.err (.invalidReserved reserved))
  return wire.header

/-- Plaintext half of an opened `header + tag` block. -/
def openedHeader (block : Bytes) : Bytes := block.take headerPlainLen

def plainHeader (paddingLen payloadLen : Nat) : Bytes :=
  [headerVersionMarker, 0, 0] ++ beBytes16 paddingLen ++ beBytes16 payloadLen

@[simp] theorem length_plainHeader (p l : Nat) : (plainHeader p l).length = headerPlainLen := rfl

theorem u16be_beBytes16 {n : Nat} (h : n < 65536) : u16be (UInt8.ofNat (n / 256)) (UInt8.ofNat n) = n := by
  simp only [u16be, UInt8.toNat_ofNat']; omega

theorem beBytes16_u16be (hi lo : UInt8) : beBytes16 (u16be hi lo) = [hi, lo] := by
  have hlo := lo.toNat_lt
  have hhi := hi.toNat_lt
  rw [beBytes16, u16be, show (hi.toNat * 256 + lo.toNat) / 256 = hi.toNat by omega, UInt8.ofNat_toNat]
  congr 2
  rw [← UInt8.toNat_inj, UInt8.toNat_ofNat']
  omega

theorem parsePlainHeader_plainHeader {p l : Nat} (hp : p < 65536) (hl : l < 65536) :
    parsePlainHeader (plainHeader p l) = .ok ⟨headerVersionMarker, (0, 0), ⟨p, l⟩⟩ := by
  show Except.ok _ = _
  simp only [u16be_beBytes16 hp, u16be_beBytes16 hl]

theorem parseV4PlainHeader_plainHeader {p l : Nat} (hp : p ≤ maxPacketSize) (hl : l ≤ maxPacketSize) :
    parseV4PlainHeader (plainHeader p l) = .ok ⟨p, l⟩ := by
  have : maxPacketSize < 65536 := by decide
  simp only [parseV4PlainHeader, parsePlainHeader_plainHeader (p := p) (l := l) (by omega) (by omega),
    bind, Except.bind]
  rw [if_neg (by simp; omega)]
  rfl

theorem parseV6PlainHeader_plainHeader {p l : Nat} (hp : p < 65536) (hl : l < 65536) :
    parseV6PlainHeader (plainHeader p l) = .ok ⟨p, l⟩ := by
  simp only [parseV6PlainHeader, parsePlainHeader_plainHeader hp hl, bind, Except.bind]
  rw [if_neg (by decide)]
  rfl

end Snell
