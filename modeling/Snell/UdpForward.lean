/-
The client's UDP path (`snell-runtime/src/client/udp.rs`): one datagram from
the SOCKS5 client is forwarded as one record, or counted and dropped, unless
its destination has a NUL byte, which ends the session
(`datagrams_forwarded_or_dropped`).

Of `UdpMetrics` there are the counters this path counts in.
-/
import Snell.ControlFacts
import Snell.Datagrams
import Snell.Reservations
import Snell.Socks5Facts

namespace Snell

open RecordEncoder

structure UdpMetrics where
  fragDropped : UInt64
  oversize : UInt64
  invalid : UInt64
  deriving DecidableEq

/-- The packet in a client datagram. Malformed and fragmented datagrams are
counted and dropped. -/
def clientPacket (datagram : Bytes) (metrics : UdpMetrics) : SessionRes (Option Socks5.UdpPacketRef) × UdpMetrics :=
  match Socks5.parseUdpPacket datagram with
  | .error (.err _) => (.ok none, { metrics with invalid := metrics.invalid + 1 })
  | .error f => (.error f.inSession, metrics)
  | .ok packet =>
    if packet.frag ≠ 0 then (.ok none, { metrics with fragDropped := metrics.fragDropped + 1 })
    else (.ok (some packet), metrics)

section Forward

variable {E W : Type} [RecordEncoder E] [AsyncWrite W]

/-- Send one client datagram through the session. -/
def forward (e : E) (w : W) (metrics : UdpMetrics) (datagram : Bytes) (env : WriteEnv) :
    SessionRes Unit × E × W × UdpMetrics :=
  match clientPacket datagram metrics with
  | (.error f, metrics) => (.error f, e, w, metrics)
  | (.ok none, metrics) => (.ok (), e, w, metrics)
  | (.ok (some packet), metrics) =>
    match writeUdpRequest e w packet.destination packet.payload env with
    | (.error (.err (.protocol .payloadTooLarge)), e, w) =>
      (.ok (), e, w, { metrics with oversize := metrics.oversize + 1 })
    | (r, e, w) => (r, e, w, metrics)

/-! ## What becomes of a datagram -/

/-- One of the counters counted one datagram. -/
inductive UdpMetrics.Counted (metrics : UdpMetrics) : UdpMetrics → Prop
  | invalid : Counted metrics { metrics with invalid := metrics.invalid + 1 }
  | fragDropped : Counted metrics { metrics with fragDropped := metrics.fragDropped + 1 }
  | oversize : Counted metrics { metrics with oversize := metrics.oversize + 1 }

variable [EncoderSpec E] [LawfulEncoder E] [LawfulWriter W] {e : E} {w : W} {metrics : UdpMetrics} {datagram : Bytes}
  {env : WriteEnv}

open LawfulEncoder LawfulWriter DatagramEncoder

/-- The session goes on, after one record that carries the destination and the
payload of the datagram, or after nothing was written and the datagram was
counted. -/
structure Forwarded (e : E) (w : W) (metrics : UdpMetrics) (datagram : Bytes)
    (r : SessionRes Unit × E × W × UdpMetrics) : Prop where
  ok : r.1 = .ok ()
  ready : state r.2.1 = .ready
  outcome : (∃ packet plain headerLen wire, Socks5.parseUdpPacket datagram = .ok packet ∧ packet.frag = 0 ∧
      decodeUdpRequest plain = .ok ⟨packet.destination, packet.payload, headerLen⟩ ∧
      Frame (pos e) plain wire (pos r.2.1) ∧ written r.2.2.1 = written w ++ wire ∧ r.2.2.2 = metrics) ∨
    r.2.1 = e ∧ written r.2.2.1 = written w ∧ metrics.Counted r.2.2.2

/-- A datagram that would be forwarded has no NUL in its destination. -/
def PlainDestination (datagram : Bytes) : Prop :=
  ∀ packet, Socks5.parseUdpPacket datagram = .ok packet → packet.frag = 0 → packet.destination.NulFree

omit [EncoderSpec E] [LawfulEncoder E] [LawfulWriter W] in
/-- A NUL in the destination fails the length computation, and `forward` with it. -/
theorem forward_nul {packet : Socks5.UdpPacketRef} (hparse : Socks5.parseUdpPacket datagram = .ok packet)
    (hfrag : packet.frag = 0) (hparsed : packet.destination.Parsed) (hnul : ¬ packet.destination.NulFree) :
    forward e w metrics datagram env = (.error (.err (.protocol .hostContainsNul)), e, w, metrics) := by
  have hpacket : clientPacket datagram metrics = (.ok (some packet), metrics) := by
    simp only [clientPacket, hparse, hfrag, ne_eq, not_true_eq_false, ↓reduceIte]
  simp only [forward, hpacket, writeUdpRequest, udpRequestLen_nul hparsed hnul]
  rfl

variable [DatagramEncoder E]

theorem forward_request {packet : Socks5.UdpPacketRef} (hv : Valid e) (hready : state e = .ready)
    (hserves : Serves e env.sealing) (hparse : Socks5.parseUdpPacket datagram = .ok packet) (hfrag : packet.frag = 0)
    (hparsed : packet.destination.Parsed) (hnul : packet.destination.NulFree) :
    Forwarded e w metrics datagram (forward e w metrics datagram env) := by
  have hpacket : clientPacket datagram metrics = (.ok (some packet), metrics) := by
    simp only [clientPacket, hparse, hfrag, ne_eq, not_true_eq_false, ↓reduceIte]
  have hencodable := Address.encodable_of_nulFree hparsed hnul
  let image := udpRequestImage packet.destination packet.payload
  let fill (dst : Bytes) := encodeUdpRequest dst packet.destination packet.payload
  have hwrite : writeUdpRequest e w packet.destination packet.payload env = writeUdpPlain e w image.length env fill := by
    simp only [writeUdpRequest, udpRequestLen_encodable hencodable, image, fill]
  simp only [forward, hpacket, hwrite]
  by_cases hfits : Fits e image.length
  · have hfill : fill (List.replicate image.length 0) = .ok (image.length, image) := by
      simp only [fill, encodeUdpRequest_fits hencodable List.length_replicate, List.length_replicate, image]
    obtain ⟨e', w', wire, hplain, hready', hframe, hwritten⟩ := writeUdpPlain_fits w hv hready hserves hfits hfill rfl
    rw [hplain]
    exact ⟨rfl, hready', .inl ⟨packet, image, _, wire, hparse, hfrag,
      decodeUdpRequest_image hparsed hencodable packet.payload, hframe, hwritten, rfl⟩⟩
  · rw [writeUdpPlain_tooLarge w hready hfits]
    exact ⟨rfl, hready, .inr ⟨rfl, rfl, .oversize⟩⟩

theorem forward_iff (hv : Valid e) (hready : state e = .ready) (hserves : Serves e env.sealing) :
    Forwarded e w metrics datagram (forward e w metrics datagram env) ↔ PlainDestination datagram := by
  rcases Socks5.parseUdpPacket_cases datagram with ⟨err, hparse⟩ | ⟨packet, hparse, hparsed⟩
  · have hplain : PlainDestination datagram := by
      intro packet hpacket
      cases hparse.symm.trans hpacket
    refine iff_of_true ?_ hplain
    simp only [forward, clientPacket, hparse]
    exact ⟨rfl, hready, .inr ⟨rfl, rfl, .invalid⟩⟩
  · have hplain : PlainDestination datagram ↔ (packet.frag = 0 → packet.destination.NulFree) := by
      refine ⟨fun h => h packet hparse, fun h packet' hpacket => ?_⟩
      cases hparse.symm.trans hpacket
      exact h
    rw [hplain]
    by_cases hfrag : packet.frag = 0
    · by_cases hnul : packet.destination.NulFree
      · exact iff_of_true (forward_request hv hready hserves hparse hfrag hparsed hnul) fun _ => hnul
      · refine iff_of_false (fun h => ?_) fun h => hnul (h hfrag)
        rw [forward_nul hparse hfrag hparsed hnul] at h
        cases h.ok
    · refine iff_of_true ?_ fun h => absurd h hfrag
      simp only [forward, clientPacket, hparse, ne_eq, hfrag, not_false_eq_true, ↓reduceIte]
      exact ⟨rfl, hready, .inr ⟨rfl, rfl, .fragDropped⟩⟩

/-- From every ready state a run leads to, whatever the datagram, if neither
the AEAD nor the entropy source fails: it is forwarded or dropped exactly if
its destination is plain. -/
def ForwardsPlain (W : Type) [AsyncWrite W] [LawfulWriter W] (e₀ : E) : Prop :=
  ∀ e b, Reaches e₀ e b → state e = .ready → ∀ (w : W) metrics datagram env, Serves e env.sealing →
    (Forwarded e w metrics datagram (forward e w metrics datagram env) ↔ PlainDestination datagram)

theorem forwardsPlain {e₀ : E} (hv : Valid e₀) : ForwardsPlain W e₀ := by
  intro e b hreaches hready w metrics datagram env hserves
  exact forward_iff (hreaches.valid hv).1 hready hserves

end Forward

/-- **No client datagram ends the session, but for a NUL in its destination**,
whatever the codec. -/
theorem datagrams_forwarded_or_dropped (C : Crypto) (ε W : Type) [Entropy ε] [AsyncWrite W] [LawfulWriter W] :
    (∀ psk salt n entropy ne (enc : V4Encoder C ε), V4Encoder.withSalt psk salt n entropy ne = .ok enc →
      ForwardsPlain W enc) ∧
      (∀ enc : V6UnshapedEncoder C, ForwardsPlain W enc) ∧ ∀ enc : V6ShapedEncoder C, ForwardsPlain W enc :=
  ⟨fun _ _ _ _ _ _ h => forwardsPlain (V4Encoder.withSalt_valid h).1, fun _ => forwardsPlain trivial,
    fun _ => forwardsPlain trivial⟩

/-- A datagram for the domain `a`, through a writer that takes three bytes at a
time. -/
theorem datagrams_forwarded_or_dropped_transparent :
    let enc : V6UnshapedEncoder Crypto.transparent := ⟨(), Nonce.new, .replicate saltLen 1, false, .ready⟩
    let datagram : Bytes := [0, 0, 0, 3, 1, 0x61, 0, 80, 9, 9]
    let env : WriteEnv := ⟨[], [], fun _ => 0, ⟨0, false, false, 0⟩⟩
    PlainDestination datagram ∧
      Forwarded enc (⟨[], 2⟩ : Sink) ⟨0, 0, 0⟩ datagram (forward enc ⟨[], 2⟩ ⟨0, 0, 0⟩ datagram env) := by
  intro enc datagram env
  have hplain : PlainDestination datagram := by
    intro packet hparse _
    have hpacket : Socks5.parseUdpPacket datagram = .ok ⟨0, .domain ⟨[0x61], by decide⟩ 80, 8, [9, 9]⟩ := by decide
    cases hpacket.symm.trans hparse
    exact show (0 : UInt8) ∉ [0x61] by decide
  exact ⟨hplain, ((datagrams_forwarded_or_dropped Crypto.transparent RepeatEntropy Sink).2.1 enc enc (.new 64)
    ⟨64, [], .inl rfl⟩ rfl ⟨[], 2⟩ ⟨0, 0, 0⟩ datagram env ⟨rfl, rfl⟩).mpr hplain⟩

/-- A datagram for a domain of one NUL byte: `forward` returns the error, with
nothing written and nothing counted. -/
theorem nul_datagram_ends_session :
    let enc : V6UnshapedEncoder Crypto.transparent := ⟨(), Nonce.new, .replicate saltLen 1, false, .ready⟩
    let datagram : Bytes := [0, 0, 0, 3, 1, 0, 0, 80]
    let env : WriteEnv := ⟨[], [], fun _ => 0, ⟨0, false, false, 0⟩⟩
    let w : Sink := ⟨[], 2⟩
    forward enc w ⟨0, 0, 0⟩ datagram env = (.error (.err (.protocol .hostContainsNul)), enc, w, ⟨0, 0, 0⟩) ∧
      ¬ Forwarded enc w ⟨0, 0, 0⟩ datagram (forward enc w ⟨0, 0, 0⟩ datagram env) := by
  intro enc datagram env w
  have hforward : forward enc w ⟨0, 0, 0⟩ datagram env =
      (.error (.err (.protocol .hostContainsNul)), enc, w, ⟨0, 0, 0⟩) := rfl
  refine ⟨hforward, fun h => ?_⟩
  rw [hforward] at h
  cases h.ok

end Snell
