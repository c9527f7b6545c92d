/-
Bytes, the protocol's constants (`snell-protocol/src/lib.rs`) and its errors
(`error.rs`), and how the model reports a call that does not return.
-/
import Mathlib.Data.Vector.Basic

namespace Snell

abbrev Bytes := List UInt8

/-- `[u8; n]`. -/
abbrev ByteArr (n : Nat) := List.Vector UInt8 n

def protocolVersion : UInt8 := 0x01
def commandConnect : UInt8 := 0x01
def commandConnectV2 : UInt8 := 0x05
def commandUdp : UInt8 := 0x06
def commandUdpForward : UInt8 := 0x01
def commandTunnel : UInt8 := 0x00
def commandError : UInt8 := 0x02
def errorReject : UInt8 := 0x01
def udpRequestIpLen : UInt8 := 0x00
def atypIpv4 : UInt8 := 0x04
def atypIpv6 : UInt8 := 0x06

def saltLen : Nat := 16
def nonceLen : Nat := 12
def tagLen : Nat := 16
def headerPlainLen : Nat := 7
def headerCipherLen : Nat := headerPlainLen + tagLen
def headerVersionMarker : UInt8 := 4
def maxPacketSize : Nat := 0x3fff
def v4WireCap : Nat := saltLen + headerCipherLen + maxPacketSize + maxPacketSize + tagLen
def maxPacketSizeV6 : Nat := 65535
def maxConnectRequestLen : Nat := 3 + 255 + 1 + 255 + 2
def maxSaltBlockLen : Nat := 256
def v6MaxPrefixLen : Nat := 0x80
def v6MaxPaddingReserve : Nat := 0x02da * 2
def v6WireCap : Nat :=
  maxSaltBlockLen + v6MaxPrefixLen + headerCipherLen + v6MaxPaddingReserve + maxPacketSizeV6 + tagLen
def v4MssBase : Nat := 0x05b4
def v4FirstRecordOverhead : Nat := 0x37
def v4ResetOverhead : Nat := 0x27
def v4InitialPaddingMin : Nat := 0x100
def v4InitialPaddingSpan : Nat := 0x100
def v4IdleResetSecs : Nat := 30
def aes128KeyLen : Nat := 16
def pskMinLen : Nat := 16
def pskMaxLen : Nat := 255
def maxDomainLen : Nat := 255
def serverEarlyPayloadMax : Nat := 64 * 1024

/-- `Error` of the protocol crate. -/
inductive Error where
  | truncated
  | invalidVersion (v : UInt8)
  | unknownCommand (c : UInt8)
  | emptyHost
  | hostTooLong
  | hostContainsNul
  | invalidHostUtf8
  | invalidAddressType (t : UInt8)
  | invalidHeader
  | zeroChunkWithPadding
  | payloadTooLarge
  | bufferTooSmall (needed available : Nat)
  | invalidReserved (b : UInt8)
  | malformed (what : String)
  | invalidPskLen (n : Nat)
  | kdf
  | entropyExhausted
  | entropy
  | aead
  | pendingWire
  | plaintextNotDrained
  | poisoned
  deriving DecidableEq, Repr

/-- Why a call gave no value: it returned an error, it panicked (an index out
of range, a subtraction below zero), or it was still looping when the model
stopped counting. -/
inductive Fault where
  | err (e : Error)
  | panic
  | diverged
  deriving DecidableEq, Repr

abbrev Res (α : Type) := Except Fault α

/-- `a - b` on `usize`. -/
def sub (a b : Nat) : Res Nat := if b ≤ a then .ok (a - b) else .error .panic

/-- `&bytes[i..j]`. -/
def slice (l : Bytes) (i j : Nat) : Res Bytes :=
  if i ≤ j ∧ j ≤ l.length then .ok ((l.drop i).take (j - i)) else .error .panic

/-- `bytes[i..].first_chunk::<n>().ok_or(Error::Truncated)?` -/
def chunkAt (l : Bytes) (i n : Nat) : Res Bytes :=
  if l.length < i then .error .panic
  else if l.length < i + n then .error (.err .truncated)
  else .ok ((l.drop i).take n)

theorem sub_ok {a b : Nat} (h : b ≤ a) : sub a b = .ok (a - b) := if_pos h

theorem slice_ok {l : Bytes} {i j : Nat} (hij : i ≤ j) (hj : j ≤ l.length) :
    slice l i j = .ok ((l.drop i).take (j - i)) := if_pos ⟨hij, hj⟩

theorem chunkAt_ok {l : Bytes} {i n : Nat} (h : i + n ≤ l.length) :
    chunkAt l i n = .ok ((l.drop i).take n) := by
  rw [chunkAt, if_neg (by omega), if_neg (by omega)]

/-- A slice is decided by what is before its end. -/
theorem slice_of_take {l m : Bytes} {i j k : Nat} (hj : j ≤ k) (hk : k ≤ l.length) (hk' : k ≤ m.length)
    (h : l.take k = m.take k) : slice l i j = slice m i j := by
  unfold slice
  by_cases hi : i ≤ j
  · rw [if_pos ⟨hi, by omega⟩, if_pos ⟨hi, by omega⟩]
    have hcut : ∀ m : Bytes, (m.drop i).take (j - i) = ((m.take k).drop i).take (j - i) := by
      intro m
      rw [List.drop_take, List.take_take, Nat.min_eq_left (by omega)]
    rw [hcut l, hcut m, h]
  · rw [if_neg (by omega), if_neg (by omega)]

theorem slice_append_right (P A : Bytes) (i j : Nat) :
    slice (P ++ A) (P.length + i) (P.length + j) = slice A i j := by
  simp only [slice, List.length_append, Nat.add_le_add_iff_left, Nat.add_sub_add_left,
    List.drop_length_add_append]

theorem chunkAt_append_right (P A : Bytes) (i n : Nat) : chunkAt (P ++ A) (P.length + i) n = chunkAt A i n := by
  simp only [chunkAt, List.length_append, Nat.add_lt_add_iff_left, Nat.add_assoc, List.drop_length_add_append]

/-- Rewriting the middle of `P ++ A` behind `P` is rewriting it in `A`. -/
theorem splice_append_right (P A body : Bytes) (i j : Nat) :
    (P ++ A).take (P.length + i) ++ body ++ (P ++ A).drop (P.length + j) =
      P ++ (A.take i ++ body ++ A.drop j) := by
  simp only [List.take_length_add_append, List.drop_length_add_append, List.append_assoc]

/-- A slice of a concatenation that is its middle part. -/
theorem slice_middle (a b c : Bytes) : slice (a ++ b ++ c) a.length (a.length + b.length) = .ok b := by
  rw [slice_ok (by omega) (by simp)]
  simp [List.append_assoc]

end Snell
