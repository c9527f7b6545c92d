/-
A client and a server with one Snell connection between them, and everything
around it: the network delivers in pieces of any size and may cut the streams
anywhere, local connections and remotes send and close when they like, sockets
answer as they like, deadlines pass and tasks are dropped at any time.

However the steps interleave, the `i`-th remote is dialed for the `i`-th local
connection and the two are connected to each other alone (`Isolated`): no byte
of one tunnel is ever in another, none is lost, repeated or out of order, and
the end of a stream is passed on only behind all of it. The argument is that
both sides cut the same sequence of messages at the same zero chunks, and that
a client does not close a tunnel before it was answered.
-/
import Snell.ClientFacts
import Snell.ServerFacts
import Snell.ShapedRoundTrip
import Snell.UnshapedRoundTrip
import Snell.V4RoundTrip

namespace Snell

open RecordEncoder EncoderSpec LawfulEncoder DatagramEncoder StreamEncoder ClosingEncoder RecordDecoder
  StagedDecoder Staged
  Polling Segments Socks5

/-! ## The CONNECT in a segment -/

theorem connectDestination_ok {T : IpText} {d d' : Address} (h : connectDestination T (d.host T) d.port = .ok d') :
    d' = d.canonical T := by
  cases d with
  | ip addr =>
    simp only [Address.host, Address.port, connectDestination, T.parse_display] at h
    cases h
    rfl
  | domain host port =>
    simp only [Address.host, Address.port, connectDestination] at h
    simp only [Address.canonical]
    cases hparse : T.parse host with
    | some literal =>
      rw [hparse] at h
      cases h
      rfl
    | none =>
      rw [hparse] at h
      simp only [Address.ofDomain, bind, Except.bind] at h
      split at h
      · cases h
      · cases h
        rfl

section Request

variable {T : IpText} {destination : Address} {reuse : Bool} {request segment rest : Bytes}

/-- What the reader makes of a CONNECT it finds in front of a segment. -/
theorem connectReader_request (h : connectRequest T destination reuse = .ok request) (hseg : segment <+: request ++ rest)
    {got : ConnectRequest} {n : Nat} (hrun : (connectReader T).run segment = .ok (.done (got, n))) :
    got = ⟨destination.canonical T, reuse⟩ ∧ n = request.length := by
  obtain ⟨⟨hpos, hle⟩, rfl⟩ := connectRequest_ok h
  obtain ⟨more, hmore⟩ := hseg
  have hall := (Reader.run_done (connectReader_ordered T) (Nat.zero_le _) hrun).2.2 more
  rw [hmore] at hall
  have hanswer := connectReader_answer T (connectImage (destination.host T) destination.port reuse ++ rest)
  rw [hall, decodeConnectRequestPrefix_image hpos hle] at hanswer
  cases hanswer with
  | done hdecoded =>
    cases hdest : connectDestination T (destination.host T) destination.port with
    | error f =>
      rw [hdest] at hdecoded
      cases hdecoded
    | ok d =>
      rw [hdest] at hdecoded
      cases hdecoded
      exact ⟨by rw [connectDestination_ok hdest], rfl⟩

/-- It is not taken for UDP. -/
theorem connectReader_not_udp (h : connectRequest T destination reuse = .ok request) (hseg : segment <+: request ++ rest) :
    (connectReader T).run segment ≠ .error (.err (.unknownCommand commandUdp)) := by
  intro hrun
  obtain ⟨-, rfl⟩ := connectRequest_ok h
  obtain ⟨more, hmore⟩ := hseg
  have hall := (Reader.run_error (connectReader_ordered T) hrun).2 more
  rw [hmore] at hall
  have hanswer := connectReader_answer T (connectImage (destination.host T) destination.port reuse ++ rest)
  rw [hall] at hanswer
  cases hanswer with
  | error _ _ hcommand =>
    have := hcommand rfl
    cases reuse <;> exact absurd (Option.some.inj this) (by decide)

end Request

/-! ## The system -/

structure TunnelSystem (E D : Type) where
  client : Client E D
  server : Server E D

inductive Side where
  | client
  | server
  deriving DecidableEq, Repr

def Side.other : Side → Side
  | .client => .server
  | .server => .client

/-- How the polls of a socket will be answered. -/
structure SocketAnswers where
  readies : List ReadyAnswer
  reads : List ReadAnswer
  writes : List WriteAnswer
  shutdowns : List ShutdownAnswer

inductive TunnelEvent where
  | client (input : ClientInput)
  | server (input : ServerInput)
  /-- The next `n` bytes on their way to a party arrive. -/
  | deliver (side : Side) (n : Nat)
  /-- The stream to a party ends behind what has arrived. -/
  | cut (side : Side)
  /-- The local connection or the remote sends, or sends its last. -/
  | plain (side : Side) (bytes : Bytes) (last : Bool)
  | answers (side : Side) (plain snell : SocketAnswers)

/-- More arrives, unless the stream has ended. -/
def ReadHalf.arrive (r : ReadHalf) (bytes : Bytes) (last : Bool) : ReadHalf :=
  if r.closed then r else { r with coming := r.coming ++ bytes, closed := last }

def TcpStream.answered (s : TcpStream) (a : SocketAnswers) : TcpStream :=
  ⟨{ s.reader with readies := a.readies, reads := a.reads },
    { s.writer with answers := a.writes, shutdowns := a.shutdowns }⟩

namespace Tunnel

variable {E D : Type}

def snellArrives (t : Tunnel E D) (bytes : Bytes) (last : Bool) : Tunnel E D :=
  { t with snell := { t.snell with reader := t.snell.reader.arrive bytes last } }

def plainArrives (t : Tunnel E D) (bytes : Bytes) (last : Bool) : Tunnel E D :=
  { t with plain := { t.plain with reader := t.plain.reader.arrive bytes last } }

def answered (t : Tunnel E D) (plain snell : SocketAnswers) : Tunnel E D :=
  { t with plain := t.plain.answered plain, snell := t.snell.answered snell }

/-- What was sent by `sender` and is on its way to `t`. -/
def onTheWay (t sender : Tunnel E D) : Bytes :=
  sender.snell.writer.sent.drop (t.snell.reader.received ++ t.snell.reader.coming).length

end Tunnel

namespace TunnelSystem

variable {E D : Type}

def tunnel (s : TunnelSystem E D) : Side → Tunnel E D
  | .client => s.client.tunnel
  | .server => s.server.tunnel

def put (s : TunnelSystem E D) (side : Side) (t : Tunnel E D) : TunnelSystem E D :=
  match side with
  | .client => { s with client := { s.client with tunnel := t } }
  | .server => { s with server := { s.server with tunnel := t } }

variable [RecordEncoder E] [RecordDecoder D]

def step (C : Crypto) (T : IpText) (s : TunnelSystem E D) : TunnelEvent → TunnelSystem E D
  | .client input => { s with client := s.client.step C T input }
  | .server input => { s with server := s.server.step C T input }
  | .deliver side n =>
    s.put side ((s.tunnel side).snellArrives (((s.tunnel side).onTheWay (s.tunnel side.other)).take n) false)
  | .cut side => s.put side ((s.tunnel side).snellArrives [] true)
  | .plain side bytes last => s.put side ((s.tunnel side).plainArrives bytes last)
  | .answers side plain snell => s.put side ((s.tunnel side).answered plain snell)

def run (C : Crypto) (T : IpText) (s : TunnelSystem E D) (events : List TunnelEvent) : TunnelSystem E D :=
  events.foldl (step C T) s

end TunnelSystem

/-! ## What happens outside -/

section Outside

variable {E D : Type}

theorem ReadHalf.arrive_grows (r : ReadHalf) (bytes : Bytes) (last : Bool) : r.Grows (r.arrive bytes last) := by
  unfold arrive
  split
  · exact ⟨rfl, List.prefix_refl _, fun h => ⟨h, rfl⟩⟩
  · next hopen => exact ⟨rfl, List.prefix_append _ _, fun h => absurd h hopen⟩

theorem TcpStream.answered_grows (s : TcpStream) (a : SocketAnswers) : s.Grows (s.answered a) :=
  ⟨⟨rfl, List.prefix_refl _, fun h => ⟨h, rfl⟩⟩, rfl, rfl⟩

theorem TcpStream.Grows.refl (s : TcpStream) : s.Grows s := ⟨⟨rfl, List.prefix_refl _, fun h => ⟨h, rfl⟩⟩, rfl, rfl⟩

theorem Tunnel.snellArrives_grows (t : Tunnel E D) (bytes : Bytes) (last : Bool) : t.Grows (t.snellArrives bytes last) :=
  ⟨.refl _, ⟨ReadHalf.arrive_grows _ bytes last, rfl, rfl⟩, rfl, rfl, rfl⟩

theorem Tunnel.plainArrives_grows (t : Tunnel E D) (bytes : Bytes) (last : Bool) : t.Grows (t.plainArrives bytes last) :=
  ⟨⟨ReadHalf.arrive_grows _ bytes last, rfl, rfl⟩, .refl _, rfl, rfl, rfl⟩

theorem Tunnel.answered_grows (t : Tunnel E D) (plain snell : SocketAnswers) : t.Grows (t.answered plain snell) :=
  ⟨TcpStream.answered_grows _ plain, TcpStream.answered_grows _ snell, rfl, rfl, rfl⟩

/-- What `t` has read and what is there for it are a front of what the sender
wrote. -/
def Tunnel.Fed (t sender : Tunnel E D) : Prop :=
  t.snell.reader.received ++ t.snell.reader.coming <+: sender.snell.writer.sent

variable {t u sender : Tunnel E D}

theorem Tunnel.Fed.reads (h : t.Fed sender) (hm : t.Moves u) : u.Fed sender := by
  have := hm.reader.stream
  unfold Fed at h ⊢
  rwa [this]

theorem Tunnel.Fed.writes (h : t.Fed sender) (hm : sender.Moves u) : t.Fed u := List.IsPrefix.trans h hm.writer

theorem Tunnel.Fed.arrives (h : t.Fed sender) (n : Nat) (last : Bool) :
    (t.snellArrives ((t.onTheWay sender).take n) last).Fed sender := by
  unfold Fed snellArrives ReadHalf.arrive
  simp only
  split
  · exact h
  · obtain ⟨rest, hrest⟩ := h
    have hway : t.onTheWay sender = rest := by
      rw [onTheWay, ← hrest, List.drop_left]
    rw [hway, ← List.append_assoc, ← hrest]
    exact (List.prefix_append_right_inj _).mpr (List.take_prefix _ _)

/-- Where the Snell side only answers or ends, nothing is on the way that was
not. -/
theorem Tunnel.Fed.same (h : t.Fed sender) {t' sender' : Tunnel E D}
    (hr : t'.snell.reader.received = t.snell.reader.received) (hc : t'.snell.reader.coming = t.snell.reader.coming)
    (hw : sender'.snell.writer.sent = sender.snell.writer.sent) : t'.Fed sender' := by
  unfold Fed at h ⊢
  rw [hr, hc, hw]
  exact h

end Outside

/-! ## The two sides agree -/

section Agreement

variable {E D : Type} [RecordEncoder E] [EncoderSpec E] [LawfulEncoder E] [DatagramEncoder E] [StreamEncoder E]
  [RecordDecoder D] [StagedDecoder D] {C : Crypto} [KdfDecoder C D] [SafeDecoder D] {T : IpText}
    {p₀ p₁ : Pos E} {d₀ d₁ : D}
  {out out' : List (Bytes × Bytes)} {xs xs' : List (Item × Bytes)} {t u : Tunnel E D} {c : Client E D} {s : Server E D}

omit [DatagramEncoder E] [StreamEncoder E] [SafeDecoder D] in
/-- What a party heard is, segment by segment, a front of what the other
sealed. -/
theorem Spoken.front {max : Nat} (hread : InStep E max p₀ d₁) (h : Spoken max p₁ d₁ t out xs)
    (h' : Spoken max p₀ d₀ u out' xs') (hfed : t.Fed u) : Cut.Front (cut (heardMsgs xs)) (cut (sealedMsgs out')) := by
  obtain ⟨p, hchain⟩ := h'.chain
  exact cut_front (hread.heard hchain (hfed.trans h'.sent) h.hears)

/-- What holds of both ends at any time: `p₀` and `d₀` are the client's, where
the connection began, `p₁` and `d₁` the server's. -/
structure Agree (C : Crypto) [KdfDecoder C D] (T : IpText) (p₀ p₁ : Pos E) (d₀ d₁ : D) (c : Client E D) (s : Server E D) :
    Prop where
  client : ∃ out xs, c.Inv C T p₀ d₀ out xs
  server : ∃ out xs, s.Inv C T p₁ d₁ out xs
  up : s.tunnel.Fed c.tunnel
  down : c.tunnel.Fed s.tunnel

omit [DatagramEncoder E] [StreamEncoder E] [SafeDecoder D] in
/-- **A client of ours does not lead the server astray**: what it closed was
answered, so something was said; and what it asks for is a CONNECT. -/
theorem Server.Strays.absurd (h : s.Strays T p₁ d₁) (hc : c.Sound T p₀ d₀ out xs) (hup : InStep E v6WireCap p₀ d₁)
    (hdown : InStep E v6WireCap p₁ d₀) (hfed : s.tunnel.Fed c.tunnel) (hfed' : c.tunnel.Fed s.tunnel) : False := by
  obtain ⟨out', xs', hspoken, hcount, hsaid, hstray⟩ := h
  have hfront := Spoken.front hup hspoken hc.spoken hfed
  have hfront' := Spoken.front hdown hc.spoken hspoken hfed'
  rcases hstray with hclosed | hudp
  · have hlt : s.past.length < (cut (sealedMsgs out)).closed.length := Nat.lt_of_lt_of_le hclosed hfront.length_le
    have hin : s.past.length < c.tunnels.length := by
      by_contra hge
      have := (hc.quiet _ (Nat.not_lt.mp hge)).2
      omega
    have hanswered := (hc.known _ _ (List.getElem?_eq_getElem hin)).answered hlt
    have hnil : [commandTunnel] <+: (cut (sealedMsgs out')).segment s.past.length := hanswered.trans (hfront'.segment _)
    rw [← hcount, Cut.segment_current, hsaid] at hnil
    exact Server.tunnel_not_prefix_nil hnil
  · have hseg := hfront.segment s.past.length
    have hne (hnil : (cut (sealedMsgs out)).segment s.past.length = []) : False := by
      rw [hnil] at hseg
      rw [List.prefix_nil.mp hseg] at hudp
      cases hudp
    rcases Nat.lt_or_ge s.past.length c.tunnels.length with hin | hge
    · have hknown := hc.known _ _ (List.getElem?_eq_getElem hin)
      rcases hknown.asked with ⟨hreq, hrecv⟩ | hreq
      · have hsaid' := hknown.speaks.said
        rw [hreq, hrecv] at hsaid'
        exact hne (List.prefix_nil.mp hsaid')
      · exact connectReader_not_udp hreq (hseg.trans hknown.speaks.said) hudp
    · exact hne (hc.quiet _ hge).1

/-- The system's invariant; a Tunnel reply that was given up is the way out. -/
def TunnelSystem.Inv (C : Crypto) [KdfDecoder C D] (T : IpText) (p₀ p₁ : Pos E) (d₀ d₁ : D) (s : TunnelSystem E D) :
    Prop :=
  s.server.replyCut = true ∨ Agree C T p₀ p₁ d₀ d₁ s.client s.server

theorem Agree.client_step [ClosingEncoder E] (h : Agree C T p₀ p₁ d₀ d₁ c s) (input : ClientInput) :
    Agree C T p₀ p₁ d₀ d₁ (c.step C T input) s := by
  obtain ⟨out, xs, hinv⟩ := h.client
  have hmoves := c.step_moves C T input
  exact ⟨Client.step_leads hinv input, h.server, h.up.writes hmoves, h.down.reads hmoves⟩

theorem Agree.server_step [ClosingEncoder E] (hup : InStep E v6WireCap p₀ d₁) (hdown : InStep E v6WireCap p₁ d₀)
    (h : Agree C T p₀ p₁ d₀ d₁ c s) (input : ServerInput) :
    TunnelSystem.Inv C T p₀ p₁ d₀ d₁ ⟨c, s.step C T input⟩ := by
  obtain ⟨out, xs, hinv⟩ := h.server
  obtain ⟨out', xs', hclient⟩ := h.client
  have hgoes := s.step_goes C T input
  have hfed := h.up.reads hgoes.moves
  have hfed' := h.down.writes hgoes.moves
  rcases Server.step_leads hinv input with hstep | hstray | hcut
  · exact .inr ⟨h.client, hstep, hfed, hfed'⟩
  · exact (hstray.absurd hclient.standing.sound hup hdown hfed hfed').elim
  · exact .inl hcut

/-- Something happened around the client. -/
theorem Agree.client_grows (h : Agree C T p₀ p₁ d₀ d₁ c s) (hg : c.tunnel.Grows t) (hfed : t.Fed s.tunnel) :
    Agree C T p₀ p₁ d₀ d₁ { c with tunnel := t } s := by
  obtain ⟨out, xs, hinv⟩ := h.client
  exact ⟨⟨out, xs, hinv.grows hg⟩, h.server, h.up.same rfl rfl hg.snell.writer.sent, hfed⟩

theorem Agree.server_grows (h : Agree C T p₀ p₁ d₀ d₁ c s) (hg : s.tunnel.Grows t) (hfed : t.Fed c.tunnel) :
    Agree C T p₀ p₁ d₀ d₁ c { s with tunnel := t } := by
  obtain ⟨out, xs, hinv⟩ := h.server
  exact ⟨h.client, ⟨out, xs, hinv.grows hg⟩, hfed, h.down.same rfl rfl hg.snell.writer.sent⟩

theorem TunnelSystem.Inv.put {w : TunnelSystem E D} (h : w.Inv C T p₀ p₁ d₀ d₁) (side : Side)
    (hg : (w.tunnel side).Grows t) (hfed : (w.tunnel side).Fed (w.tunnel side.other) → t.Fed (w.tunnel side.other)) :
    (w.put side t).Inv C T p₀ p₁ d₀ d₁ := by
  cases side with
  | client => exact h.imp id fun h => h.client_grows hg (hfed h.down)
  | server => exact h.imp id fun h => h.server_grows hg (hfed h.up)

theorem TunnelSystem.Inv.step [ClosingEncoder E] (hup : InStep E v6WireCap p₀ d₁) (hdown : InStep E v6WireCap p₁ d₀)
    {w : TunnelSystem E D} (h : w.Inv C T p₀ p₁ d₀ d₁) (event : TunnelEvent) :
    (w.step C T event).Inv C T p₀ p₁ d₀ d₁ := by
  cases event with
  | client input => exact h.imp id fun h => h.client_step input
  | server input =>
    rcases h with hcut | h
    · exact .inl ((w.server.step_goes C T input).replyCut hcut)
    · exact h.server_step hup hdown input
  | deliver side n => exact h.put side (Tunnel.snellArrives_grows _ _ _) fun hfed => hfed.arrives n false
  | cut side => exact h.put side (Tunnel.snellArrives_grows _ _ _) fun hfed => hfed.arrives 0 true
  | plain side bytes last => exact h.put side (Tunnel.plainArrives_grows _ _ _) fun hfed => hfed.same rfl rfl rfl
  | answers side plain snell => exact h.put side (Tunnel.answered_grows _ _ _) fun hfed => hfed.same rfl rfl rfl

theorem TunnelSystem.Inv.run [ClosingEncoder E] (hup : InStep E v6WireCap p₀ d₁) (hdown : InStep E v6WireCap p₁ d₀)
    (events : List TunnelEvent) {w : TunnelSystem E D} (h : w.Inv C T p₀ p₁ d₀ d₁) :
    (w.run C T events).Inv C T p₀ p₁ d₀ d₁ := by
  induction events generalizing w with
  | nil => exact h
  | cons event events ih => exact ih (h.step hup hdown event)

end Agreement

/-! ## Isolation -/

/-- At most some of a refusal was written. -/
def WriteHalf.Refused (w : WriteHalf) : Prop :=
  w.closing = false ∧ ∃ reply : Reply, reply ≠ .succeeded ∧ w.sent <+: replyImage reply

/-- The two ends of one tunnel: the local connection `a` and the remote `b`. -/
structure SameTunnel (T : IpText) (reuse : Bool) (clientHung serverHung : Prop) (a : ClientTunnel) (b : ServerTunnel) :
    Prop where
  request : b.request = ⟨a.destination.canonical T, reuse⟩
  up : b.plain.writer.sent <+: a.plain.reader.received
  upShut : b.plain.writer.closing = true →
    b.plain.writer.sent = a.plain.reader.received ∧ a.plain.reader.AtEnd ∨ serverHung
  down : a.plain.writer.sent <+: replyImage .succeeded ++ b.plain.reader.received ∨ a.plain.writer.Refused
  downShut : a.plain.writer.closing = true →
    a.plain.writer.sent = replyImage .succeeded ++ b.plain.reader.received ∧ b.plain.reader.AtEnd ∨ clientHung

/-- Each tunnel has its two ends, and they are connected to each other alone. -/
structure TunnelSystem.Isolated {E D : Type} (T : IpText) (w : TunnelSystem E D) : Prop where
  tcp : w.server.phase ≠ .udp
  count : w.server.tunnels.length ≤ w.client.tunnels.length
  same : ∀ (i : Nat) a b, w.client.tunnels[i]? = some a → w.server.tunnels[i]? = some b →
    SameTunnel T w.client.reuse w.client.tunnel.snell.reader.AtEnd w.server.tunnel.snell.reader.AtEnd a b
  refused : ∀ (i : Nat) a, w.client.tunnels[i]? = some a → w.server.tunnels.length ≤ i → a.plain.writer.Refused

section Isolation

variable {E D : Type} [RecordEncoder E] [EncoderSpec E] [LawfulEncoder E] [DatagramEncoder E] [StreamEncoder E]
  [RecordDecoder D] [StagedDecoder D] {C : Crypto} [KdfDecoder C D] [SafeDecoder D] {T : IpText} {reuse : Bool}
  {oc ic oc' ic' : Cut UInt8} {hung hung' : Prop} {i : Nat} {a : ClientTunnel} {b : ServerTunnel}

theorem replyImage_refused {w : WriteHalf} (h : w.closing = false) (hsent : w.sent = []) : w.Refused :=
  ⟨h, .generalFailure, Reply.noConfusion, by rw [hsent]; exact List.nil_prefix⟩

/-- What the client's segment says is the CONNECT the server read, if it read
one. -/
theorem ClientTunnel.Holds.requested (ha : a.Holds T reuse oc ic hung i) (hb : b.Holds T oc' ic' hung' i)
    (hup : Cut.Front ic' oc) : b.request = ⟨a.destination.canonical T, reuse⟩ ∧ b.headerLen = a.request.length := by
  have hseg := (hup.segment i).trans ha.speaks.said
  rcases ha.asked with ⟨hreq, hrecv⟩ | hreq
  · rw [hreq, hrecv] at hseg
    have hrun := hb.asked
    rw [List.prefix_nil.mp hseg] at hrun
    cases hrun
  · exact connectReader_request hreq hseg hb.asked

theorem ClientTunnel.Holds.sameTunnel (ha : a.Holds T reuse oc ic hung i) (hb : b.Holds T oc' ic' hung' i)
    (hup : Cut.Front ic' oc) (hdown : Cut.Front ic oc') : SameTunnel T reuse hung hung' a b := by
  obtain ⟨hrequest, hlen⟩ := ha.requested hb hup
  have hheader : (a.request ++ a.plain.reader.received).drop b.headerLen = a.plain.reader.received := by
    rw [hlen, List.drop_left]
  have htold : (ic.segment i).drop 1 <+: b.plain.reader.received :=
    ((hdown.segment i).trans hb.speaks.said).drop 1
  refine ⟨hrequest, ?_, fun hshut => ?_, ?_, fun hshut => ?_⟩
  · have htold' := (((hup.segment i).trans ha.speaks.said).drop b.headerLen)
    rw [hheader] at htold'
    exact hb.tells.told.trans htold'
  · obtain ⟨hsent, hclosed | hhung⟩ := hb.tells.shut hshut
    · have hsame := hup.same hclosed
      obtain ⟨hall, hend⟩ := ha.speaks.finished (hsame.closed.mpr hclosed)
      left
      rw [hsent, List.nil_append, ← hsame.segment, hall, hheader]
      exact ⟨rfl, hend⟩
    · exact .inr hhung
  · cases ha.answer with
    | silent hsent hopen => exact .inr (replyImage_refused hopen hsent)
    | opened _ htells => exact .inl (htells.told.trans ((List.prefix_append_right_inj _).mpr htold))
    | refused reply hne hsent hopen => exact .inr ⟨hopen, reply, hne, hsent⟩
  · cases ha.answer with
    | silent _ hopen => rw [hopen] at hshut; cases hshut
    | opened _ htells =>
      obtain ⟨hsent, hclosed | hhung⟩ := htells.shut hshut
      · have hsame := hdown.same hclosed
        obtain ⟨hall, hend⟩ := hb.speaks.finished (hsame.closed.mpr hclosed)
        left
        rw [hsent, ← hsame.segment, hall]
        exact ⟨rfl, hend⟩
      · exact .inr hhung
    | refused _ _ _ hopen => rw [hopen] at hshut; cases hshut

variable {p₀ p₁ : Pos E} {d₀ d₁ : D}

theorem Server.Inv.tcp {s : Server E D} {out : List (Bytes × Bytes)} {xs : List (Item × Bytes)}
    (h : s.Inv C T p₁ d₁ out xs) : s.phase ≠ .udp := by
  intro hudp
  cases h.standing with
  | reading h | draining h | dialing h | replying h | rejecting h | forwarding h | relaying h | idling h | ended h =>
    rw [hudp] at h
    cases h

theorem Agree.isolated {c : Client E D} {s : Server E D} (h : Agree C T p₀ p₁ d₀ d₁ c s) (hup : InStep E v6WireCap p₀ d₁)
    (hdown : InStep E v6WireCap p₁ d₀) : TunnelSystem.Isolated T ⟨c, s⟩ := by
  obtain ⟨out, xs, hclient⟩ := h.client
  obtain ⟨out', xs', hserver⟩ := h.server
  have hc := hclient.standing.sound
  have hs := hserver.standing.sound
  have hfront := Spoken.front hup hs.spoken hc.spoken h.up
  have hfront' := Spoken.front hdown hc.spoken hs.spoken h.down
  refine ⟨hserver.tcp, ?_, fun i a b ha hb => (hc.known i a ha).sameTunnel (hs.known i b hb) hfront hfront',
    fun i a ha hi => ?_⟩
  · -- A tunnel of the server's was asked for in a segment of the client's.
    by_contra hlt
    have hlt : c.tunnels.length < s.tunnels.length := Nat.not_le.mp hlt
    have hrun := (hs.known _ _ (List.getElem?_eq_getElem hlt)).asked
    have hseg := hfront.segment c.tunnels.length
    rw [(hc.quiet _ (Nat.le_refl _)).1] at hseg
    rw [List.prefix_nil.mp hseg] at hrun
    cases hrun
  · cases (hc.known i a ha).answer with
    | silent hsent hopen => exact replyImage_refused hopen hsent
    | opened hopened _ => exact absurd (hopened.trans (hfront'.segment i)) (hs.quiet i hi).2
    | refused reply hne hsent hopen => exact ⟨hopen, reply, hne, hsent⟩

end Isolation

/-! ## The codecs -/

section Codecs

variable {C : Crypto} {ε : Type} [Entropy ε]

theorem Reached.refl {D : Type} [RecordDecoder D] (d : D) : Reached d d := ⟨.new 0, [], Buffer.new_wf _, rfl⟩

theorem V4Encoder.new_inStep (hC : C.Inverts) {psk : Psk} {entropy : ε} {ne : V4.Endian} {e : V4Encoder C ε}
    (h : V4Encoder.new psk entropy ne = .ok e) (ne' : V4.Endian) :
    state e = .ready ∧ InStep (V4Encoder C ε) v6WireCap (pos e) (V4Decoder.new C psk ne') := by
  unfold V4Encoder.new at h
  split at h
  · cases h
  next salt _ _ =>
  split at h
  · cases h
  obtain ⟨-, hready, hsalt, hnonce, hchunk, hkey⟩ := V4Encoder.withSalt_valid h
  refine ⟨hready, fun records p' hchain => ?_⟩
  have hpos : pos e = (⟨e.aead, salt, true, Nonce.new⟩ : V4.Pos C) := by
    rw [V4Encoder.pos, hsalt, hnonce, hchunk]
    rfl
  rw [hpos] at hchain
  exact (V4Decoder.new_synced ne' hkey).reads hC (by decide) hchain

theorem V6UnshapedEncoder.new_inStep (hC : C.Inverts) {psk : Psk} {entropy : ε} {e : V6UnshapedEncoder C}
    (h : V6UnshapedEncoder.new psk entropy = .ok e) :
    state e = .ready ∧ InStep (V6UnshapedEncoder C) v6WireCap (pos e) (V6UnshapedDecoder.new C psk) := by
  unfold V6UnshapedEncoder.new at h
  split at h
  · cases h
  obtain ⟨hready, hpos, hkey⟩ := V6UnshapedEncoder.withSalt_ok h
  refine ⟨hready, fun records p' hchain => ?_⟩
  have hchain : Chain V6Unshaped.Pos.Frame e.pos records p' := hchain
  rw [hpos] at hchain
  exact (V6UnshapedDecoder.new_at hkey).reads hC (Nat.le_refl _) hchain

theorem V6ShapedEncoder.new_inStep (hC : C.Inverts) {psk : ProfiledPsk C} {entropy : ε} {e : V6ShapedEncoder C}
    (h : V6ShapedEncoder.new psk entropy = .ok e) :
    state e = .ready ∧ InStep (V6ShapedEncoder C) v6WireCap (pos e) (V6ShapedDecoder.new psk) := by
  unfold V6ShapedEncoder.new at h
  split at h
  · cases h
  obtain ⟨hready, hpos, hkey⟩ := V6ShapedEncoder.withSalt_ok h
  refine ⟨hready, fun records p' hchain => ?_⟩
  have hchain : Chain V6Shaped.Pos.Frame e.pos records p' := hchain
  rw [hpos] at hchain
  exact (V6ShapedDecoder.new_at hkey).reads hC (Nat.le_refl _) hchain

end Codecs

section Isolates

variable {E D : Type} [RecordEncoder E] [EncoderSpec E] [LawfulEncoder E] [DatagramEncoder E] [StreamEncoder E]
  [ClosingEncoder E]
  [RecordDecoder D] [StagedDecoder D] [SafeDecoder D]

/-- However a connection between a client with `e` and `d` and a server with
`e'` and `d'` runs, its tunnels are isolated, or the server gave up a Tunnel
reply half way; as long as the AEAD and the entropy serve. -/
def IsolatesTunnels (C : Crypto) (psk : Psk) (e : E) (d : D) (e' : E) (d' : D) : Prop :=
  ∀ (T : IpText) (env env' : ReplyEnv) (reuse replay : Bool) (describe : SessionError → Str),
    (∀ i, Serves e (env.sealing i) ∧ (env.sealing i).AeadServes) →
      (∀ i, Serves e' (env'.sealing i) ∧ (env'.sealing i).AeadServes) →
    ∀ events : List TunnelEvent,
      let w := TunnelSystem.run C T ⟨.new env psk reuse e d, .new env' psk describe replay e' d'⟩ events
      w.server.replyCut = true ∨ w.Isolated T

theorem isolatesTunnels {C : Crypto} [KdfDecoder C D] {psk : Psk} {e e' : E} {d d' : D} (hv : Valid e) (hr : Roomy e)
    (hready : state e = .ready) (hv' : Valid e') (hr' : Roomy e') (hready' : state e' = .ready)
    (hpsk : KdfDecoder.psk C d = psk) (hpsk' : KdfDecoder.psk C d' = psk) (hp : pending d = 0) (hp' : pending d' = 0)
    (hd : SafeDecoder.Valid d) (hd' : SafeDecoder.Valid d') (hup : InStep E v6WireCap (pos e) d')
    (hdown : InStep E v6WireCap (pos e') d) : IsolatesTunnels C psk e d e' d' := by
  intro T env env' reuse replay describe hserves hserves' events
  have hclient := Client.new_inv (C := C) T reuse ⟨hv, hr, hready, fun i => (hserves i).1, fun i => (hserves i).2⟩ hp hd
  have hserver := Server.new_inv (C := C) T describe replay
    ⟨hv', hr', hready', fun i => (hserves' i).1, fun i => (hserves' i).2⟩ hp' hd'
  rw [hpsk] at hclient
  rw [hpsk'] at hserver
  have hstart : TunnelSystem.Inv C T (pos e) (pos e') d d'
      ⟨.new env psk reuse e d, .new env' psk describe replay e' d'⟩ :=
    .inr ⟨⟨_, _, hclient⟩, ⟨_, _, hserver⟩, List.nil_prefix, List.nil_prefix⟩
  exact (hstart.run hup hdown events).imp id fun h => h.isolated hup hdown

end Isolates

/-- **Tunnels are isolated.** Over any Snell connection whose AEAD and entropy
serve, from its first byte and in any run of it in which the server gave up no
Tunnel reply half way, the `i`-th remote was dialed for the `i`-th local
connection. What was written to either is a front of what was read of the
other, and all of it once the write half is shut down, unless the connection
itself has ended there. Who has no remote is told nothing but a refusal. -/
theorem tunnels_isolated {C : Crypto} (hC : C.Inverts) (ε : Type) [Entropy ε] :
    (∀ psk (entropy entropy' : ε) ne ne' (e e' : V4Encoder C ε), V4Encoder.new psk entropy ne = .ok e →
      V4Encoder.new psk entropy' ne' = .ok e' →
        IsolatesTunnels C psk e (V4Decoder.new C psk ne) e' (V4Decoder.new C psk ne')) ∧
    (∀ psk (entropy entropy' : ε) (e e' : V6UnshapedEncoder C), V6UnshapedEncoder.new psk entropy = .ok e →
      V6UnshapedEncoder.new psk entropy' = .ok e' →
        IsolatesTunnels C psk e (V6UnshapedDecoder.new C psk) e' (V6UnshapedDecoder.new C psk)) ∧
    ∀ (psk : ProfiledPsk C) (entropy entropy' : ε) (e e' : V6ShapedEncoder C), V6ShapedEncoder.new psk entropy = .ok e →
      V6ShapedEncoder.new psk entropy' = .ok e' →
        IsolatesTunnels C psk.toPsk e (V6ShapedDecoder.new psk) e' (V6ShapedDecoder.new psk) := by
  refine ⟨fun psk entropy entropy' ne ne' e e' h h' => ?_, fun psk entropy entropy' e e' h h' => ?_,
    fun psk entropy entropy' e e' h h' => ?_⟩
  · obtain ⟨hready, hup⟩ := V4Encoder.new_inStep hC h ne'
    obtain ⟨hready', hdown⟩ := V4Encoder.new_inStep hC h' ne
    obtain ⟨hv, hr⟩ := V4Encoder.new_roomy h
    obtain ⟨hv', hr'⟩ := V4Encoder.new_roomy h'
    exact isolatesTunnels hv hr hready hv' hr' hready' rfl rfl rfl rfl
      ((Reached.refl _).valid (S := V4Decoder.safeStages C) rfl rfl)
      ((Reached.refl _).valid (S := V4Decoder.safeStages C) rfl rfl) hup hdown
  · obtain ⟨hready, hup⟩ := V6UnshapedEncoder.new_inStep hC h
    obtain ⟨hready', hdown⟩ := V6UnshapedEncoder.new_inStep hC h'
    have hd := (Reached.refl (V6UnshapedDecoder.new C psk)).valid (S := V6UnshapedDecoder.safeStages C) rfl rfl
    exact isolatesTunnels trivial trivial hready trivial trivial hready' rfl rfl rfl rfl hd hd hup hdown
  · obtain ⟨hready, hup⟩ := V6ShapedEncoder.new_inStep hC h
    obtain ⟨hready', hdown⟩ := V6ShapedEncoder.new_inStep hC h'
    have hd := (Reached.refl (V6ShapedDecoder.new psk)).valid (S := V6ShapedDecoder.safeStages C) rfl rfl
    exact isolatesTunnels trivial trivial hready trivial trivial hready' rfl rfl rfl rfl hd hd hup hdown

/-- Two tunnels, one after the other over one connection, each with a byte or
more in both directions. -/
theorem tunnels_isolated_twice :
    let C := Crypto.transparent
    let psk : Psk := ⟨List.replicate pskMinLen 7, by decide⟩
    let e : V6UnshapedEncoder C := ⟨(), Nonce.new, .replicate saltLen 1, false, .ready⟩
    let d := V6UnshapedDecoder.new C psk
    let host : Str := ⟨[97], by decide⟩
    let env : ReplyEnv := ⟨[], [], fun _ _ => 0, fun _ => ⟨0, false, false, 0⟩⟩
    let pool : PoolAnswer := ⟨[], []⟩
    let answers : SocketAnswers := ⟨List.replicate 40 .ready, List.replicate 40 (.upTo 90), List.replicate 40 (.took 90),
      List.replicate 4 .done⟩
    let client (n : Nat) (pump : Pump) := List.replicate n (TunnelEvent.client (.turn .derived pool pump))
    let server (n : Nat) (pump : Pump) := List.replicate n (TunnelEvent.server (.turn .derived (.ok ()) pool pump))
    let tunnel (port : UInt16) (up down : Bytes) : List TunnelEvent :=
      [.client (.connect (.domain host port) pool pool), .answers .client answers answers] ++ client 2 .plainToSnell ++
      [.answers .server answers answers, .deliver .server 500] ++ server 4 .plainToSnell ++
      [.server (.dialed pool (.ok ())), .answers .server answers answers] ++ server 4 .plainToSnell ++
      [.deliver .client 500] ++ client 3 .plainToSnell ++
      [.plain .client up true] ++ client 6 .plainToSnell ++ [.deliver .server 500] ++ server 5 .snellToPlain ++
      [.plain .server down true] ++ server 1 .plainToSnell ++ [.deliver .client 500] ++ client 3 .snellToPlain
    let w := TunnelSystem.run C .lettered ⟨.new env psk true e d, .new env psk (fun _ => host) true e d⟩
      (tunnel 80 [1, 2, 3] [4] ++ tunnel 443 [5] [6, 7])
    (w.server.replyCut, w.server.tunnels.map (fun b => (b.request, b.plain.writer.sent, b.plain.writer.closing)),
        w.client.tunnels.map fun a => a.plain.writer.sent) =
      (false, [(⟨.domain host 80, true⟩, [1, 2, 3], true), (⟨.domain host 443, true⟩, [5], true)],
        [replyImage .succeeded ++ [4], replyImage .succeeded ++ [6, 7]]) ∧
      IsolatesTunnels C psk e d e d := by
  intro C psk e d host env pool answers client server tunnel w
  exact ⟨by decide +kernel, (tunnels_isolated Crypto.transparent_inverts RepeatEntropy).2.1 psk ⟨1⟩ ⟨1⟩ e e rfl rfl⟩

end Snell
