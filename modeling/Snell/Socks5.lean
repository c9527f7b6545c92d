/-
SOCKS5 messages (`socks5.rs`). The streaming parsers are called on what was
read so far and say how much they need in all.
-/
import Snell.Control

namespace Snell.Socks5

def version : UInt8 := 0x05
def methodNoAuth : UInt8 := 0x00
def methodNoAcceptable : UInt8 := 0xff
def cmdConnect : UInt8 := 0x01
def cmdBind : UInt8 := 0x02
def cmdUdpAssociate : UInt8 := 0x03
def atypIpv4 : UInt8 := 0x01
def atypDomain : UInt8 := 0x03
def atypIpv6 : UInt8 := 0x04

def maxGreetingLen : Nat := 2 + 255
def maxRequestLen : Nat := 3 + 1 + 1 + maxDomainLen + 2

inductive Command where
  | connect
  | bind
  | udpAssociate
  | other (value : UInt8)
  deriving DecidableEq

/-- `From<u8>` -/
def Command.ofByte (value : UInt8) : Command :=
  if value = cmdConnect then .connect
  else if value = cmdBind then .bind
  else if value = cmdUdpAssociate then .udpAssociate
  else .other value

/-- `From<Command> for u8` -/
def Command.byte : Command → UInt8
  | .connect => cmdConnect
  | .bind => cmdBind
  | .udpAssociate => cmdUdpAssociate
  | .other value => value

inductive Reply where
  | succeeded
  | generalFailure
  | connectionNotAllowed
  | networkUnreachable
  | hostUnreachable
  | connectionRefused
  | ttlExpired
  | commandNotSupported
  | addressTypeNotSupported
  | other (value : UInt8)
  deriving DecidableEq

/-- `From<u8>` -/
def Reply.ofByte (value : UInt8) : Reply :=
  match value.toNat with
  | 0x00 => .succeeded
  | 0x01 => .generalFailure
  | 0x02 => .connectionNotAllowed
  | 0x03 => .networkUnreachable
  | 0x04 => .hostUnreachable
  | 0x05 => .connectionRefused
  | 0x06 => .ttlExpired
  | 0x07 => .commandNotSupported
  | 0x08 => .addressTypeNotSupported
  | _ => .other value

/-- `From<Reply> for u8` -/
def Reply.byte : Reply → UInt8
  | .succeeded => 0x00
  | .generalFailure => 0x01
  | .connectionNotAllowed => 0x02
  | .networkUnreachable => 0x03
  | .hostUnreachable => 0x04
  | .connectionRefused => 0x05
  | .ttlExpired => 0x06
  | .commandNotSupported => 0x07
  | .addressTypeNotSupported => 0x08
  | .other value => value

structure GreetingRef where
  methods : Bytes
  consumedLen : Nat
  deriving DecidableEq

structure RequestRef where
  command : Command
  destination : Address
  headerLen : Nat
  deriving DecidableEq

structure ReplyRef where
  reply : Reply
  bind : Address
  headerLen : Nat
  deriving DecidableEq

structure UdpPacketRef where
  frag : UInt8
  destination : Address
  headerLen : Nat
  payload : Bytes
  deriving DecidableEq

/-! ## Addresses -/

/-- The length `ATYP ADDR PORT` at the start of `buf` says it has. -/
def addrLen : Bytes → Res (ParseState Nat)
  | [] => .ok (.need 1)
  | atyp :: rest =>
    if atyp = atypIpv4 then .ok (.done (1 + 4 + 2))
    else if atyp = atypIpv6 then .ok (.done (1 + 16 + 2))
    else if atyp = atypDomain then
      match rest with
      | [] => .ok (.need 2)
      | hostLen :: _ => if hostLen = 0 then .error (.err .emptyHost) else .ok (.done (1 + 1 + hostLen.toNat + 2))
    else .error (.err (.invalidAddressType atyp))

/-- An address of the type `atyp`, all of it there. -/
def parseTail (atyp : UInt8) (tail : Bytes) : Res Address :=
  if atyp = atypIpv4 then do
    let addr ← okOr (ipPort 4 .v4 tail) .truncated
    return .ip addr
  else if atyp = atypIpv6 then do
    let addr ← okOr (ipPort 16 .v6 tail) .truncated
    return .ip addr
  else do
    let (host, port, _) ← splitHostPort tail
    return .domain host port

/-- `ATYP ADDR PORT` at the start of `buf`. `need` counts from `buf[0]`. -/
def parseAddr (buf : Bytes) : Res (ParseState (Address × Nat)) :=
  match addrLen buf with
  | .error f => .error f
  | .ok (.need n) => .ok (.need n)
  | .ok (.done len) =>
    if buf.length < len then .ok (.need len)
    else
      match buf with
      | [] => .error .panic
      | atyp :: tail => do
        let address ← parseTail atyp tail
        return .done (address, len)

def parseCmdAddr {α : Type} (buf : Bytes) (build : UInt8 → Address → Nat → α) : Res (ParseState α) :=
  match buf with
  | b₀ :: b₁ :: b₂ :: b₃ :: rest =>
    if b₀ ≠ version then .error (.err (.invalidVersion b₀))
    else if b₂ ≠ 0 then .error (.err (.invalidReserved b₂))
    else do
      match ← parseAddr (b₃ :: rest) with
      | .need n => return .need (3 + n)
      | .done (address, len) => return .done (build b₁ address (3 + len))
  | _ => .ok (.need 4)

def encodedAddrLen (address : Address) : Res Nat :=
  match address with
  | .ip (.v4 ..) => .ok (1 + 4 + 2)
  | .ip (.v6 ..) => .ok (1 + 16 + 2)
  | .domain host _ =>
    if host.bytes = [] then .error (.err .emptyHost)
    else if maxDomainLen < host.len then .error (.err .hostTooLong)
    else .ok (1 + 1 + host.len + 2)

/-- `ATYP ADDR PORT` -/
def addrField : Address → Bytes
  | .ip (.v4 ip port) => atypIpv4 :: ip.toList ++ portBytes port
  | .ip (.v6 ip port _ _) => atypIpv6 :: ip.toList ++ portBytes port
  | .domain host port => [atypDomain, UInt8.ofNat host.len] ++ host.bytes ++ portBytes port

/-- `head(3) ATYP ADDR PORT`, the shape shared by requests, replies and UDP headers. -/
def encodeThreeAddr (dst : Bytes) (b₀ b₁ b₂ : UInt8) (address : Address) : Res (Nat × Bytes) := do
  let len ← encodedAddrLen address
  fillPrefix dst (3 + len) ([b₀, b₁, b₂] ++ addrField address)

/-! ## Messages -/

def greetingNeed (buf : Bytes) : Res (ParseState GreetingRef) :=
  match buf with
  | v :: nmethods :: methods =>
    if v ≠ version then .error (.err (.invalidVersion v))
    else if nmethods = 0 then .error (.err (.malformed "empty method list"))
    else
      let total := 2 + nmethods.toNat
      if nmethods.toNat ≤ methods.length then .ok (.done ⟨methods.take nmethods.toNat, total⟩)
      else .ok (.need total)
  | _ => .ok (.need 2)

def encodeGreeting (dst methods : Bytes) : Res (Nat × Bytes) :=
  if methods = [] then .error (.err (.malformed "empty method list"))
  else fillPrefix dst (2 + methods.length) ([version, UInt8.ofNat methods.length] ++ methods)

def encodeMethodSelection (dst : Bytes) (method : UInt8) : Res (Nat × Bytes) := fillPrefix dst 2 [version, method]

def methodSelectionNeed (buf : Bytes) : Res (ParseState UInt8) :=
  match buf with
  | v :: method :: _ => if v = version then .ok (.done method) else .error (.err (.invalidVersion v))
  | _ => .ok (.need 2)

def requestNeed (buf : Bytes) : Res (ParseState RequestRef) :=
  parseCmdAddr buf fun command destination headerLen => ⟨.ofByte command, destination, headerLen⟩

def encodeRequest (dst : Bytes) (command : Command) (destination : Address) : Res (Nat × Bytes) :=
  encodeThreeAddr dst version command.byte 0 destination

def replyNeed (buf : Bytes) : Res (ParseState ReplyRef) :=
  parseCmdAddr buf fun rep bind headerLen => ⟨.ofByte rep, bind, headerLen⟩

def encodeReply (dst : Bytes) (reply : Reply) (bind : Address) : Res (Nat × Bytes) :=
  encodeThreeAddr dst version reply.byte 0 bind

def parseUdpPacket (buf : Bytes) : Res UdpPacketRef :=
  match buf with
  | b₀ :: b₁ :: frag :: b₃ :: rest =>
    if b₀ ≠ 0 ∨ b₁ ≠ 0 then .error (.err (.invalidReserved (b₀ ||| b₁)))
    else do
      match ← parseAddr (b₃ :: rest) with
      | .need _ => throw (.err .truncated)
      | .done (destination, len) =>
        let headerLen := 3 + len
        let payload ← sliceFrom buf headerLen
        return { frag, destination, headerLen, payload }
  | _ => .error (.err .truncated)

def encodeUdpHeader (dst : Bytes) (frag : UInt8) (destination : Address) : Res (Nat × Bytes) :=
  encodeThreeAddr dst 0 0 frag destination

def encodeUdpPacket (dst : Bytes) (frag : UInt8) (destination : Address) (payload : Bytes) : Res (Nat × Bytes) := do
  let len ← encodedAddrLen destination
  fillPrefix dst (3 + len + payload.length) ([0, 0, frag] ++ addrField destination ++ payload)

end Snell.Socks5
