/-
One Snell connection of the client (`snell-runtime/src/client/mod.rs`), through
all the tunnels it carries: `open_tunnel`, `open`, `relay_tunnel`, and the pool
between two tunnels.

A step is a turn of the future under way, the handshake's deadline, a new local
connection that takes the connection out of the pool (or dials it: the first
tunnel), or the end of it all. What is proved is what the connection carries at
any time: in each tunnel the request and what was read of the local connection,
and to the local connection a SOCKS5 reply and what was heard in that tunnel.
-/
import Snell.SocksHandshake
import Snell.Tunnels
import Snell.WireFormats

namespace Snell

open RecordEncoder EncoderSpec LawfulEncoder DatagramEncoder StreamEncoder ClosingEncoder RecordDecoder
  StagedDecoder Staged
  Polling Segments Socks5

/-! ## Replies to the local side -/

/-- `SessionError::is_stale_pool_error` -/
def SessionError.isStalePoolError : SessionError → Bool
  | .handshakeTimeout | .connectTimeout | .reuseIdleTimeout => true
  | .io .unexpectedEof | .io .brokenPipe | .io .connectionAborted | .io .connectionReset | .io .notConnected |
    .io .timedOut => true
  | _ => false

/-- `Reply::from_io_error`, without its rows for `NotFound` and
`AddrNotAvailable`, which are not among the kinds of `IoErrorKind`. -/
def Socks5.Reply.fromIoError : IoErrorKind → Reply
  | .connectionRefused => .connectionRefused
  | .connectionAborted | .connectionReset => .generalFailure
  | .timedOut => .ttlExpired
  | _ => .generalFailure

def socks5ReplyFromError : SessionError → Reply
  | .commandNotSupported => .commandNotSupported
  | .connectTimeout | .handshakeTimeout => .ttlExpired
  | .io kind => Reply.fromIoError kind
  | _ => .generalFailure

/-- What `write_socks5_reply` writes. -/
def socks5Reply (reply : Reply) : SessionRes Bytes :=
  match encodeReply (List.replicate maxRequestLen 0) reply (.ip unspecified) with
  | .error f => .error f.inSession
  | .ok (n, buf) => .ok (buf.take n)

/-- What `write_connect` writes. -/
def connectRequest (T : IpText) (destination : Address) (reuse : Bool) : SessionRes Bytes :=
  match encodeConnectRequest T (List.replicate maxConnectRequestLen 0) destination reuse with
  | .error f => .error f.inSession
  | .ok (n, req) => .ok (req.take n)

/-! ## The connection -/

/-- A tunnel of the client: where to, the CONNECT as it was encoded, and the
local connection. -/
structure ClientTunnel where
  destination : Address
  request : Bytes
  plain : TcpStream

inductive ClientPhase where
  /-- In the pool, or just dialed. -/
  | idle
  /-- `write_connect` -/
  | connecting (w : Writing)
  /-- `read_server_tunnel` -/
  | awaiting (minimum : Nat) (plain : PlainStream)
  /-- `write_socks5_reply`, with stream bytes that arrived with the reply. -/
  | greeting (rest leftover : Bytes)
  /-- Those bytes. -/
  | forwarding (rest : Bytes)
  /-- `write_socks5_fail` -/
  | refusing (rest : Bytes)
  | relaying (r : Relaying)
  | ended

/-- A connection to the server. `past` is history: the tunnels that are over;
`current` is the one under way, with `tunnel.plain` as its local connection. -/
structure Client (E D : Type) where
  env : ReplyEnv
  asked : Nat
  psk : Psk
  /-- Whether there is a reuse pool. -/
  reuse : Bool
  tunnel : Tunnel E D
  past : List ClientTunnel
  current : Option (Address × Bytes)
  phase : ClientPhase

inductive ClientInput where
  /-- `establish` over this connection. -/
  | connect (destination : Address) (recv encode : PoolAnswer)
  | turn (kdf : KdfAnswer) (encode : PoolAnswer) (pump : Pump)
  /-- The handshake's deadline passes. -/
  | expire
  /-- The connection is dropped: by the pool, or with its task. -/
  | drop

namespace Client

variable {E D : Type}

/-- A connection that was just dialed. -/
def new (env : ReplyEnv) (psk : Psk) (reuse : Bool) (encoder : E) (decoder : D) : Client E D :=
  ⟨env, 0, psk, reuse, ⟨.new, .new, encoder, decoder, env.lease⟩, [], none, .idle⟩

def tunnels (c : Client E D) : List ClientTunnel :=
  c.past ++ (c.current.map fun x => ⟨x.1, x.2, c.tunnel.plain⟩).toList

/-- The end of `open` with an error: a reply that says so, unless a fresh
connection is to be tried. A panic ends the task. -/
def fail (c : Client E D) : SessionFault → Client E D
  | .err error =>
    if c.past ≠ [] ∧ error.isStalePoolError then { c with phase := .ended }
    else
      match socks5Reply (socks5ReplyFromError error) with
      | .error _ => { c with phase := .ended }
      | .ok bytes => { c with phase := .refusing bytes }
  | _ => { c with phase := .ended }

/-- The server's Tunnel reply is there. -/
def answer (c : Client E D) (leftover : Bytes) : Client E D :=
  match socks5Reply .succeeded with
  | .error _ => { c with phase := .ended }
  | .ok bytes => { c with phase := .greeting bytes leftover }

variable [RecordEncoder E] [RecordDecoder D]

def connect (T : IpText) (c : Client E D) (destination : Address) (recv encode : PoolAnswer) : Client E D :=
  match c.phase with
  | .idle =>
    let c := { c with tunnel := { c.tunnel with plain := .new, recv := (c.env.leased recv).lease } }
    match connectRequest T destination c.reuse with
    | .error f => fail { c with current := some (destination, []) } f
    | .ok request =>
      { c with current := some (destination, request)
               phase := .connecting (Tunnel.startWriting (c.env.leased encode) request c.asked) }
  | _ => c

/-- What `read_server_tunnel` does with a data record. -/
def readReply (c : Client E D) (plain : PlainStream) (record : DecodedRecord) : Client E D :=
  match record.plaintext c.tunnel.recv.buffer.filled with
  | .error f => c.fail f.inSession
  | .ok bytes =>
    match plain.push bytes with
    | .error f => c.fail f.inSession
    | .ok plain =>
      match consume c.tunnel.decoder c.tunnel.recv.buffer record with
      | (r, decoder, buffer) =>
        let c := { c with tunnel := { c.tunnel with decoder, recv := { c.tunnel.recv with buffer } } }
        match r with
        | .error f => c.fail f.inSession
        | .ok () =>
          match decodeServerReply plain.filled with
          | .error f => c.fail f.inSession
          | .ok (.need _) => { c with phase := .awaiting 0 plain }
          | .ok (.done (.error code _, _)) => c.fail (.err (.serverReject code))
          | .ok (.done (.tunnel, n)) =>
            match sliceFrom plain.filled n with
            | .error f => c.fail f.inSession
            | .ok leftover => c.answer leftover

/-- `relay_tunnel` starts. -/
def startRelay (c : Client E D) (encode : PoolAnswer) : Client E D :=
  { c with phase := .relaying (c.tunnel.startRelay (c.env.leased encode) c.reuse c.asked) }

/-- `relay_tunnel` returned; a connection that can be used again goes to the
pool. -/
def finish (c : Client E D) (asked : Nat) : Client E D :=
  if c.reuse ∧ c.tunnel.recv.buffer.isEmpty ∧ hasUnconsumedPlaintext c.tunnel.decoder = false then
    { c with past := c.tunnels, current := none, asked, phase := .idle }
  else { c with phase := .ended }

def turn (C : Crypto) (c : Client E D) (kdf : KdfAnswer) (encode : PoolAnswer) (pump : Pump) : Client E D :=
  match c.phase with
  | .idle | .ended => c
  | .connecting w =>
    match c.tunnel.writeTurn w with
    | .again (tunnel, w) | .pending (tunnel, w) => { c with tunnel, phase := .connecting w }
    | .ready (.error f) (tunnel, _) => fail { c with tunnel } f
    | .ready (.ok ()) (tunnel, w) =>
      { c with tunnel, asked := w.asked, phase := .awaiting 0 (.new handshakePlainMax) }
  | .awaiting minimum plain =>
    match c.tunnel.decodeTurn C c.psk kdf minimum with
    | .again (tunnel, minimum) | .pending (tunnel, minimum) => { c with tunnel, phase := .awaiting minimum plain }
    | .ready (.error f) (tunnel, _) => fail { c with tunnel } f
    | .ready (.ok .zero) (tunnel, _) => fail { c with tunnel } (.err .eof)
    | .ready (.ok (.data record)) (tunnel, _) => readReply { c with tunnel } plain record
  | .greeting rest leftover =>
    match c.tunnel.forwardTurn rest with
    | .again (tunnel, rest) | .pending (tunnel, rest) => { c with tunnel, phase := .greeting rest leftover }
    | .ready (.error _) (tunnel, _) => { c with tunnel, phase := .ended }
    | .ready (.ok ()) (tunnel, _) =>
      if leftover = [] then startRelay { c with tunnel } encode else { c with tunnel, phase := .forwarding leftover }
  | .forwarding rest =>
    match c.tunnel.forwardTurn rest with
    | .again (tunnel, rest) | .pending (tunnel, rest) => { c with tunnel, phase := .forwarding rest }
    | .ready (.error _) (tunnel, _) => { c with tunnel, phase := .ended }
    | .ready (.ok ()) (tunnel, _) => startRelay { c with tunnel } encode
  | .refusing rest =>
    match c.tunnel.forwardTurn rest with
    | .again (tunnel, rest) | .pending (tunnel, rest) => { c with tunnel, phase := .refusing rest }
    | .ready _ (tunnel, _) => { c with tunnel, phase := .ended }
  | .relaying r =>
    match c.tunnel.relayTurn r pump with
    | .again (tunnel, r) | .pending (tunnel, r) => { c with tunnel, phase := .relaying r }
    | .ready (.error _) (tunnel, _) => { c with tunnel, phase := .ended }
    | .ready (.ok ()) (tunnel, r) => finish { c with tunnel } r.asked

def step (C : Crypto) (T : IpText) (c : Client E D) : ClientInput → Client E D
  | .connect destination recv encode => c.connect T destination recv encode
  | .turn kdf encode pump => c.turn C kdf encode pump
  | .expire =>
    match c.phase with
    | .connecting _ | .awaiting _ _ => c.fail (.err .handshakeTimeout)
    | _ => c
  | .drop => { c with phase := .ended }

end Client

end Snell
