/-
Control messages carried in record plaintext (`control/mod.rs`): CONNECT, UDP
setup, server replies and UDP datagrams.

An encoder writes into a slice of the caller's; here it returns the length
written and the slice after.
-/
import Snell.Address

namespace Snell

/-- `&bytes[i..]` -/
def sliceFrom (l : Bytes) (i : Nat) : Res Bytes := if i ≤ l.length then .ok (l.drop i) else .error .panic

/-- A parse that may need more input: at least so many bytes in all. -/
inductive ParseState (α : Type) where
  | need (total : Nat)
  | done (a : α)
  deriving DecidableEq

structure ConnectRequest where
  destination : Address
  reuse : Bool
  deriving DecidableEq

structure UdpPacket where
  address : Address
  payload : Bytes
  headerLen : Nat
  deriving DecidableEq

/-! ## CONNECT -/

/-- `size_of::<WireControlHead>()`: `VERSION CMD CLIENT_ID_LEN`. -/
def controlHeadLen : Nat := 3

/-- `size_of::<WireControlPrefix>()`: the head, then `HOST_LEN`. -/
def controlPrefixLen : Nat := 4

def connectLen (hostLen : Nat) : Res Nat :=
  if hostLen = 0 ∨ 255 < hostLen then .error (.err .hostTooLong) else .ok (controlPrefixLen + hostLen + 2)

def connectRequestLen (T : IpText) (destination : Address) : Res Nat := connectLen (destination.host T).len

def encodeConnectRequest (T : IpText) (dst : Bytes) (destination : Address) (reuse : Bool) : Res (Nat × Bytes) := do
  let host := destination.host T
  let needed ← connectLen host.len
  let wire := [protocolVersion, if reuse then commandConnectV2 else commandConnect, 0, UInt8.ofNat host.len]
  fillPrefix dst needed (wire ++ host.bytes ++ portBytes destination.port)

/-- The destination of a request: a host that is an IP literal is that IP. -/
def connectDestination (T : IpText) (host : Str) (port : UInt16) : Res Address :=
  match T.parse host with
  | some ip => .ok (.ip (.new ip port))
  | none => Address.ofDomain host port

/-- Whether a CONNECT asks for reuse. -/
def connectReuse (command : UInt8) : Res Bool :=
  if command = commandConnect then .ok false
  else if command = commandConnectV2 then .ok true
  else .error (.err (.unknownCommand command))

/-- What follows the client id, if it starts with a host. -/
def connectHostField (after : Bytes) (clientIdLen : Nat) : Res Bytes :=
  if after.length < clientIdLen then .error (.err .truncated)
  else
    match after.drop clientIdLen with
    | [] => .error (.err .truncated)
    | hostLen :: rest => if hostLen = 0 then .error (.err .emptyHost) else .ok (hostLen :: rest)

def decodeConnectRequestPrefix (T : IpText) (src : Bytes) : Res (ConnectRequest × Nat) :=
  match src with
  | version :: command :: clientIdLen :: after =>
    if version ≠ protocolVersion then .error (.err (.invalidVersion version))
    else do
      let reuse ← connectReuse command
      let field ← connectHostField after clientIdLen.toNat
      let (host, port, hostPortLen) ← splitHostPort field
      let destination ← connectDestination T host port
      return (⟨destination, reuse⟩, controlHeadLen + clientIdLen.toNat + hostPortLen)
  | _ => .error (.err .truncated)

/-! ## UDP setup and server replies -/

def encodeUdpSetup (dst : Bytes) : Res (Nat × Bytes) := fillPrefix dst controlHeadLen [protocolVersion, commandUdp, 0]

def decodeUdpSetupPrefix (src : Bytes) : Res Nat :=
  match src with
  | version :: command :: clientIdLen :: after =>
    if version ≠ protocolVersion then .error (.err (.invalidVersion version))
    else if command ≠ commandUdp then .error (.err (.unknownCommand command))
    else if after.length < clientIdLen.toNat then .error (.err .truncated)
    else .ok (controlHeadLen + clientIdLen.toNat)
  | _ => .error (.err .truncated)

def encodeTunnelReply (dst : Bytes) : Res (Nat × Bytes) := fillPrefix dst 1 [commandTunnel]

/-- Server error reply; the message is cut to 255 bytes. -/
def encodeReject (dst : Bytes) (message : Str) : Res (Nat × Bytes) :=
  let msg := message.bytes.take (min message.len 255)
  fillPrefix dst (3 + msg.length) ([commandError, errorReject, UInt8.ofNat msg.length] ++ msg)

inductive ServerReply where
  | tunnel
  | error (code : UInt8) (message : Bytes)
  deriving DecidableEq

def decodeServerReply (src : Bytes) : Res (ParseState (ServerReply × Nat)) :=
  match src with
  | [] => .ok (.need 1)
  | command :: after =>
    if command = commandTunnel then .ok (.done (.tunnel, 1))
    else if command = commandError then
      match after with
      | code :: msgLen :: rest =>
        if msgLen.toNat ≤ rest.length then .ok (.done (.error code (rest.take msgLen.toNat), 3 + msgLen.toNat))
        else .ok (.need (3 + msgLen.toNat))
      | _ => .ok (.need 3)
    else .error (.err (.unknownCommand command))

/-! ## UDP datagrams

IP     `ATYP(1) ADDR(4|16) PORT(2)`
domain `LEN(1)  HOST(LEN)  PORT(2)`

A request has `COMMAND_UDP_FORWARD` in front, and `UDP_REQUEST_IP_LEN` before an
IP address; a response is an IP address alone. -/

def udpTailLen (address : Address) : Res Nat :=
  match address with
  | .domain host _ => do
    validateDomain host
    return 1 + host.len + 2
  | .ip (.v4 ..) => .ok (1 + 4 + 2)
  | .ip (.v6 ..) => .ok (1 + 16 + 2)

/-- What is in front of the address in a request. -/
def udpRequestMarker : Address → Bytes
  | .ip _ => [commandUdpForward, udpRequestIpLen]
  | .domain _ _ => [commandUdpForward]

def udpRequestHeaderLen (address : Address) : Res Nat := do
  let marker := match address with
    | .ip _ => 2
    | .domain _ _ => 1
  let tail ← udpTailLen address
  return marker + tail

def udpRequestLen (address : Address) (payloadLen : Nat) : Res Nat := do
  let header ← udpRequestHeaderLen address
  return header + payloadLen

def udpResponseLen (source : SocketAddr) (payloadLen : Nat) : Nat :=
  let addrLen := match source with
    | .v4 .. => 4
    | .v6 .. => 16
  1 + addrLen + 2 + payloadLen

/-- The address as a datagram carries it. -/
def udpTail : Address → Bytes
  | .domain host port => UInt8.ofNat host.len :: host.bytes ++ portBytes port
  | .ip (.v4 ip port) => atypIpv4 :: ip.toList ++ portBytes port
  | .ip (.v6 ip port _ _) => atypIpv6 :: ip.toList ++ portBytes port

def encodeUdpDatagram (dst : Bytes) (headerLen : Nat) (marker : Bytes) (address : Address) (payload : Bytes) :
    Res (Nat × Bytes) :=
  fillPrefix dst (headerLen + payload.length) (marker ++ udpTail address ++ payload)

def encodeUdpRequest (dst : Bytes) (address : Address) (payload : Bytes) : Res (Nat × Bytes) := do
  let headerLen ← udpRequestHeaderLen address
  encodeUdpDatagram dst headerLen (udpRequestMarker address) address payload

def encodeUdpResponse (dst : Bytes) (source : SocketAddr) (payload : Bytes) : Res (Nat × Bytes) :=
  encodeUdpDatagram dst (udpResponseLen source 0) [] (.ip source) payload

def parseIpTail (src : Bytes) : Res (Address × Nat) :=
  match src with
  | [] => .error (.err .truncated)
  | atyp :: rest =>
    if atyp = atypIpv4 then do
      let addr ← okOr (ipPort 4 .v4 rest) .truncated
      return (.ip addr, 1 + 4 + 2)
    else if atyp = atypIpv6 then do
      let addr ← okOr (ipPort 16 .v6 rest) .truncated
      return (.ip addr, 1 + 16 + 2)
    else .error (.err (.invalidAddressType atyp))

def parseDomainTail (src : Bytes) : Res (Address × Nat) := do
  let (host, port, len) ← splitHostPort src
  let address ← Address.ofDomain host port
  return (address, len)

def decodeUdpDatagram (src : Bytes) (markerLen : Nat) (parseTail : Bytes → Res (Address × Nat)) : Res UdpPacket := do
  let tail ← sliceFrom src markerLen
  let (address, tailLen) ← parseTail tail
  let headerLen := markerLen + tailLen
  let payload ← sliceFrom src headerLen
  return { address, payload, headerLen }

def decodeUdpRequest (src : Bytes) : Res UdpPacket :=
  match src with
  | command :: hostLen :: _ =>
    if command ≠ commandUdpForward then .error (.err (.unknownCommand command))
    else if hostLen = udpRequestIpLen then decodeUdpDatagram src 2 parseIpTail
    else decodeUdpDatagram src 1 parseDomainTail
  | _ => .error (.err .truncated)

def decodeUdpResponse (src : Bytes) : Res UdpPacket := decodeUdpDatagram src 0 parseIpTail

end Snell
