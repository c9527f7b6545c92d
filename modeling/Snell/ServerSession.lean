/-
One Snell connection of the server (`snell-runtime/src/server/mod.rs`,
`session.rs`), through all the requests it serves: `read_server_connect` with
`drain_early_payload`, `open_remote`, `relay` and `wait_reuse_idle`.

A step is a turn of the future under way, the dial's result, a deadline, or
the end of the task. The replay cache is asked for the first record of the
connection; what it answers is an input, as is what the dial comes to. A
session that turns out to be UDP leaves this model (`udp`).
-/
import Snell.OpenRemote
import Snell.Tunnels

namespace Snell

open RecordEncoder RecordDecoder Polling

/-! ## Replies to the client -/

/-- What `write_tunnel` writes. -/
def tunnelReply : SessionRes Bytes :=
  match encodeTunnelReply (List.replicate 1 0) with
  | .error f => .error f.inSession
  | .ok (n, buf) => .ok (buf.take n)

/-- What `write_reject` writes. -/
def rejection (message : Str) : SessionRes Bytes :=
  match encodeReject (List.replicate (3 + 255) 0) message with
  | .error f => .error f.inSession
  | .ok (n, buf) => .ok (buf.take n)

/-! ## The connection -/

/-- A tunnel of the server: what was asked for, the length of the CONNECT in
the plaintext, and the remote. -/
structure ServerTunnel where
  request : ConnectRequest
  headerLen : Nat
  plain : TcpStream

inductive ServerPhase where
  /-- `read_server_connect` -/
  | reading (minimum : Nat) (plain : PlainStream) (replayChecked : Bool)
  /-- `drain_early_payload` -/
  | draining (request : ConnectRequest) (headerLen : Nat) (leftover : Bytes)
  /-- `outbound.connect` -/
  | dialing (request : ConnectRequest) (headerLen : Nat) (earlyPayload : Bytes)
  /-- `write_tunnel` -/
  | replying (earlyPayload : Bytes) (w : Writing)
  /-- `write_reject` -/
  | rejecting (w : Writing)
  /-- The early payload, to the remote. -/
  | forwarding (rest : Bytes)
  | relaying (r : Relaying)
  /-- `wait_reuse_idle` -/
  | idling
  /-- `run_server_udp` -/
  | udp
  | ended

/-- A connection of a client. `past` is history: the tunnels that are over;
`current` is the one that is open, with `tunnel.plain` as its remote. -/
structure Server (E D : Type) where
  env : ReplyEnv
  asked : Nat
  psk : Psk
  describe : SessionError → Str
  tunnel : Tunnel E D
  past : List ServerTunnel
  current : Option (ConnectRequest × Nat)
  /-- History: a Tunnel reply was given up, so the rejection behind it may
  follow half a record. -/
  replyCut : Bool
  phase : ServerPhase

inductive ServerInput where
  /-- `replay` is the cache's answer, where it is asked. -/
  | turn (kdf : KdfAnswer) (replay : SessionRes Unit) (encode : PoolAnswer) (pump : Pump)
  | dialed (encode : PoolAnswer) (result : Except SessionError Unit)
  /-- The deadline of the step under way passes. -/
  | expire (encode : PoolAnswer)
  | drop

namespace Server

variable {E D : Type}

/-- A connection that was just accepted; `replay` says whether there is a
cache. -/
def new (env : ReplyEnv) (psk : Psk) (describe : SessionError → Str) (replay : Bool) (encoder : E) (decoder : D) :
    Server E D :=
  ⟨env, 0, psk, describe, ⟨.new, .new, encoder, decoder, env.lease⟩, [], none, false,
    .reading 0 (.new handshakePlainMax) (!replay)⟩

def tunnels (c : Server E D) : List ServerTunnel :=
  c.past ++ (c.current.map fun x => ⟨x.1, x.2, c.tunnel.plain⟩).toList

def reuse (c : Server E D) : Bool :=
  match c.current with
  | some (request, _) => request.reuse
  | none => false

variable [RecordEncoder E] [RecordDecoder D]

/-- The dial or the Tunnel reply failed: the client is told. A panic ends the
task. -/
def refuse (c : Server E D) (encode : PoolAnswer) : SessionFault → Server E D
  | .err error =>
    match rejection (c.describe error) with
    | .error _ => { c with phase := .ended }
    | .ok bytes => { c with phase := .rejecting (Tunnel.startWriting (c.env.leased encode) bytes c.asked) }
  | _ => { c with phase := .ended }

/-- What `read_server_connect` does with a data record. -/
def readRequest (T : IpText) (c : Server E D) (plain : PlainStream) (record : DecodedRecord) : Server E D :=
  match record.plaintext c.tunnel.recv.buffer.filled with
  | .error _ => { c with phase := .ended }
  | .ok bytes =>
    match plain.push bytes with
    | .error _ => { c with phase := .ended }
    | .ok plain =>
      match consume c.tunnel.decoder c.tunnel.recv.buffer record with
      | (r, decoder, buffer) =>
        let c := { c with tunnel := { c.tunnel with decoder, recv := { c.tunnel.recv with buffer } } }
        match r with
        | .error _ => { c with phase := .ended }
        | .ok () =>
          match parseFirstRequest T plain with
          | .error _ => { c with phase := .ended }
          | .ok (.need _) => { c with phase := .reading 0 plain true }
          | .ok (.done .udp) => { c with phase := .udp }
          | .ok (.done (.connect request n)) =>
            match sliceFrom plain.filled n with
            | .error _ => { c with phase := .ended }
            | .ok leftover =>
              if serverEarlyPayloadMax < leftover.length then { c with phase := .ended }
              else { c with phase := .draining request n leftover }

/-- The drain asks for what is ready and never waits. -/
def drainRead (c : Server E D) (request : ConnectRequest) (n : Nat) (leftover : Bytes) (minimum : Nat) : Server E D :=
  match pollReadInto c.tunnel.snell.reader c.tunnel.recv minimum 4096 with
  | (r, reader, recv) =>
    let c := { c with tunnel := { c.tunnel with snell := { c.tunnel.snell with reader }, recv } }
    match r with
    | .pending | .ready (.ok 0) => { c with phase := .dialing request n leftover }
    | .ready (.ok (_ + 1)) => { c with phase := .draining request n leftover }
    | .ready (.error _) => { c with phase := .ended }

/-- A data record in `drain_early_payload`. -/
def drainData (c : Server E D) (request : ConnectRequest) (n : Nat) (leftover : Bytes) (record : DecodedRecord) :
    Server E D :=
  match record.plaintext c.tunnel.recv.buffer.filled with
  | .error _ => { c with phase := .ended }
  | .ok bytes =>
    match drainRecord leftover bytes with
    | .error _ => { c with phase := .ended }
    | .ok leftover =>
      match consume c.tunnel.decoder c.tunnel.recv.buffer record with
      | (r, decoder, buffer) =>
        let c := { c with tunnel := { c.tunnel with decoder, recv := { c.tunnel.recv with buffer } } }
        match r with
        | .error _ => { c with phase := .ended }
        | .ok () => { c with phase := .draining request n leftover }

/-- `outbound.connect` returned. -/
def dialed (c : Server E D) (encode : PoolAnswer) (result : Except SessionError Unit) : Server E D :=
  match c.phase with
  | .dialing request n earlyPayload =>
    match result with
    | .error error => c.refuse encode (.err error)
    | .ok () =>
      match tunnelReply with
      | .error f => c.refuse encode f
      | .ok bytes =>
        { c with
          tunnel := { c.tunnel with plain := .new }
          current := some (request, n)
          phase := .replying earlyPayload (Tunnel.startWriting (c.env.leased encode) bytes c.asked) }
  | _ => c

def startRelay (c : Server E D) (encode : PoolAnswer) : Server E D :=
  { c with phase := .relaying (c.tunnel.startRelay (c.env.leased encode) c.reuse c.asked) }

/-- `relay` returned. -/
def finish (c : Server E D) (asked : Nat) : Server E D :=
  if c.reuse = false ∨ hasUnconsumedPlaintext c.tunnel.decoder = true then { c with phase := .ended }
  else
    { c with
      past := c.tunnels, current := none, asked, tunnel := { c.tunnel with recv := c.tunnel.recv.releaseEmpty }
      phase := .idling }

/-- `wait_reuse_idle`; then the next request is read. -/
def idle (c : Server E D) : Server E D :=
  if c.tunnel.recv.buffer.isEmpty = false then { c with phase := .reading 0 (.new handshakePlainMax) true }
  else
    match pollReadInto c.tunnel.snell.reader c.tunnel.recv 1 4096 with
    | (r, reader, recv) =>
      let c := { c with tunnel := { c.tunnel with snell := { c.tunnel.snell with reader }, recv } }
      match r with
      | .pending => c
      | .ready (.ok 0) | .ready (.error _) => { c with phase := .ended }
      | .ready (.ok (_ + 1)) => { c with phase := .reading 0 (.new handshakePlainMax) true }

def turn (C : Crypto) (T : IpText) (c : Server E D) (kdf : KdfAnswer) (replay : SessionRes Unit) (encode : PoolAnswer)
    (pump : Pump) : Server E D :=
  match c.phase with
  | .dialing _ _ _ | .udp | .ended => c
  | .reading minimum plain replayChecked =>
    match c.tunnel.decodeTurn C c.psk kdf minimum with
    | .again (tunnel, minimum) | .pending (tunnel, minimum) =>
      { c with tunnel, phase := .reading minimum plain replayChecked }
    | .ready (.error _) (tunnel, _) | .ready (.ok .zero) (tunnel, _) => { c with tunnel, phase := .ended }
    | .ready (.ok (.data record)) (tunnel, _) =>
      match (if replayChecked then .ok () else replay) with
      | .error _ => { c with tunnel, phase := .ended }
      | .ok () => readRequest T { c with tunnel } plain record
  | .draining request n leftover =>
    match c.tunnel.decodeTurn C c.psk kdf 0 with
    | .pending (tunnel, _) => { c with tunnel }
    | .again (tunnel, minimum) => drainRead { c with tunnel } request n leftover minimum
    | .ready (.error _) (tunnel, _) => { c with tunnel, phase := .ended }
    -- A zero chunk ends the drain and is gone.
    | .ready (.ok .zero) (tunnel, _) => { c with tunnel, phase := .dialing request n leftover }
    | .ready (.ok (.data record)) (tunnel, _) => drainData { c with tunnel } request n leftover record
  | .replying earlyPayload w =>
    match c.tunnel.writeTurn w with
    | .again (tunnel, w) | .pending (tunnel, w) => { c with tunnel, phase := .replying earlyPayload w }
    | .ready (.error f) (tunnel, w) => refuse { c with tunnel, asked := w.asked, replyCut := true } encode f
    | .ready (.ok ()) (tunnel, w) =>
      if earlyPayload = [] then startRelay { c with tunnel, asked := w.asked } encode
      else { c with tunnel, asked := w.asked, phase := .forwarding earlyPayload }
  | .rejecting w =>
    match c.tunnel.writeTurn w with
    | .again (tunnel, w) | .pending (tunnel, w) => { c with tunnel, phase := .rejecting w }
    | .ready _ (tunnel, _) => { c with tunnel, phase := .ended }
  | .forwarding rest =>
    match c.tunnel.forwardTurn rest with
    | .again (tunnel, rest) | .pending (tunnel, rest) => { c with tunnel, phase := .forwarding rest }
    | .ready (.error _) (tunnel, _) => { c with tunnel, phase := .ended }
    | .ready (.ok ()) (tunnel, _) => startRelay { c with tunnel } encode
  | .relaying r =>
    match c.tunnel.relayTurn r pump with
    | .again (tunnel, r) | .pending (tunnel, r) => { c with tunnel, phase := .relaying r }
    | .ready (.error _) (tunnel, _) => { c with tunnel, phase := .ended }
    | .ready (.ok ()) (tunnel, r) => finish { c with tunnel } r.asked
  | .idling => c.idle

/-- Which deadline there is depends on the phase. -/
def expire (c : Server E D) (encode : PoolAnswer) : Server E D :=
  match c.phase with
  | .reading _ _ _ | .draining _ _ _ | .idling => { c with phase := .ended }
  | .dialing _ _ _ => c.refuse encode (.err .handshakeTimeout)
  | .replying _ w => refuse { c with asked := w.asked, replyCut := true } encode (.err .handshakeTimeout)
  | _ => c

def step (C : Crypto) (T : IpText) (c : Server E D) : ServerInput → Server E D
  | .turn kdf replay encode pump => c.turn C T kdf replay encode pump
  | .dialed encode result => c.dialed encode result
  | .expire encode => c.expire encode
  | .drop => { c with phase := .ended }

end Server

end Snell
