/-
The message formats, decoder against encoder: what the SOCKS5 parsers and the
parsers of Snell's UDP datagrams accept is exactly what their encoders write
(`socks5_formats_bijective`, `udp_formats_bijective`), and a CONNECT request
comes back as its canonical form (`connect_round_trip`).
-/
import Snell.ControlFacts
import Snell.SocksConnect

namespace Snell

/-- `encode` writes `image`: to the front of any slice that is long enough,
returning its length. -/
def Produces (encode : Bytes → Res (Nat × Bytes)) (image : Bytes) : Prop :=
  ∀ dst, image.length ≤ dst.length → encode dst = .ok (image.length, image ++ dst.drop image.length)

theorem Produces.unique {encode : Bytes → Res (Nat × Bytes)} {image image' : Bytes} (h : Produces encode image)
    (h' : Produces encode image') : image = image' := by
  have h₁ := h (List.replicate (image.length + image'.length) 0) (by simp)
  have h₂ := h' (List.replicate (image.length + image'.length) 0) (by simp)
  rw [h₁] at h₂
  obtain ⟨hlen, hout⟩ := Prod.mk.inj (Except.ok.inj h₂)
  exact (List.append_inj hout hlen).1

theorem fillPrefix_produces {needed : Nat} {image : Bytes} (h : image.length = needed) :
    Produces (fun dst => fillPrefix dst needed image) image := by
  intro dst hdst
  rw [← h]
  exact fillPrefix_ok hdst

/-! ## SOCKS5 -/

namespace Socks5

@[simp] theorem Command.byte_ofByte (b : UInt8) : (Command.ofByte b).byte = b := by
  unfold Command.ofByte
  split
  · next h => exact h.symm
  · split
    · next h => exact h.symm
    · split
      · next h => exact h.symm
      · rfl

@[simp] theorem Reply.byte_ofByte (b : UInt8) : (Reply.ofByte b).byte = b := by
  unfold Reply.ofByte
  split
  case h_10 => rfl
  all_goals
    next h => exact UInt8.toNat_inj.mp h.symm

/-- An address without a length on the wire is written by no encoder. -/
theorem addrLen_of_produces {address : Address} {image : Bytes} {then_ : Bytes → Nat → Res (Nat × Bytes)}
    (h : Produces (fun dst => do let len ← encodedAddrLen address; then_ dst len) image) :
    encodedAddrLen address = .ok (addrField address).length := by
  have hdst := h image (Nat.le_refl _)
  rcases encodedAddrLen_cases address with hlen | hlen | hlen
  · exact hlen
  · rw [hlen] at hdst; cases hdst
  · rw [hlen] at hdst; cases hdst

theorem encodeThreeAddr_produces (b₀ b₁ b₂ : UInt8) {address : Address}
    (h : encodedAddrLen address = .ok (addrField address).length) :
    Produces (fun dst => encodeThreeAddr dst b₀ b₁ b₂ address) ([b₀, b₁, b₂] ++ addrField address) := by
  have hlen : ([b₀, b₁, b₂] ++ addrField address).length = 3 + (addrField address).length := by
    rw [List.length_append]; rfl
  intro dst hdst
  simp only [encodeThreeAddr, h, bind, Except.bind]
  exact fillPrefix_produces hlen dst hdst

theorem parseCmdAddr_image {α : Type} (build : UInt8 → Address → Nat → α) (cmd : UInt8) {address : Address}
    (h : address.Parsed) (rest : Bytes) :
    parseCmdAddr ([version, cmd, 0] ++ addrField address ++ rest) build =
      .ok (.done (build cmd address ([version, cmd, 0] ++ addrField address).length)) := by
  have hparse := parseAddr_addrField h rest
  obtain ⟨atyp, tail, htail⟩ : ∃ atyp tail, addrField address = atyp :: tail := by
    rcases address with (_ | _) | _ <;> exact ⟨_, _, rfl⟩
  have hlen : ([version, cmd, 0] ++ addrField address).length = 3 + (addrField address).length := by
    rw [List.length_append]; rfl
  rw [hlen]
  rw [htail] at hparse ⊢
  simp only [List.cons_append, List.nil_append, parseCmdAddr, ne_eq, not_true_eq_false, ↓reduceIte] at hparse ⊢
  rw [hparse]
  rfl

/-- A message with an address is accepted exactly if it starts with what the
encoder writes. -/
theorem parseCmdAddr_iff {α : Type} {build : UInt8 → Address → Nat → α} {buf : Bytes} {a : α} :
    parseCmdAddr buf build = .ok (.done a) ↔
      ∃ (cmd : UInt8) (address : Address) (image : Bytes), address.Parsed ∧
        Produces (fun dst => encodeThreeAddr dst version cmd 0 address) image ∧ image <+: buf ∧
        a = build cmd address image.length := by
  constructor
  · intro h
    obtain ⟨cmd, address, n, rest, rfl, haddr, rfl⟩ := parseCmdAddr_done h
    obtain ⟨-, hparsed, rfl, after, rfl⟩ := parseAddr_done haddr
    refine ⟨cmd, address, _, hparsed, encodeThreeAddr_produces _ _ _ (encodedAddrLen_parsed hparsed), ⟨after, ?_⟩, ?_⟩
    · rw [List.append_assoc]
    · rw [List.length_append]; rfl
  · rintro ⟨cmd, address, image, hparsed, himage, ⟨rest, rfl⟩, rfl⟩
    rw [himage.unique (encodeThreeAddr_produces _ _ _ (encodedAddrLen_parsed hparsed))]
    exact parseCmdAddr_image build cmd hparsed rest

theorem requestNeed_iff {buf : Bytes} {command : Command} {destination : Address} {n : Nat} :
    requestNeed buf = .ok (.done ⟨command, destination, n⟩) ↔
      (∃ b, command = .ofByte b) ∧ destination.Parsed ∧
        ∃ image, Produces (fun dst => encodeRequest dst command destination) image ∧ image.length = n ∧ image <+: buf := by
  constructor
  · intro h
    obtain ⟨cmd, address, image, hparsed, himage, hstart, heq⟩ := parseCmdAddr_iff.mp h
    cases heq
    refine ⟨⟨cmd, rfl⟩, hparsed, image, ?_, rfl, hstart⟩
    simp only [encodeRequest, Command.byte_ofByte]
    exact himage
  · rintro ⟨⟨b, rfl⟩, hparsed, image, himage, rfl, hstart⟩
    simp only [encodeRequest, Command.byte_ofByte] at himage
    exact parseCmdAddr_iff.mpr ⟨b, destination, image, hparsed, himage, hstart, rfl⟩

theorem replyNeed_iff {buf : Bytes} {reply : Reply} {bind : Address} {n : Nat} :
    replyNeed buf = .ok (.done ⟨reply, bind, n⟩) ↔
      (∃ b, reply = .ofByte b) ∧ bind.Parsed ∧
        ∃ image, Produces (fun dst => encodeReply dst reply bind) image ∧ image.length = n ∧ image <+: buf := by
  constructor
  · intro h
    obtain ⟨rep, address, image, hparsed, himage, hstart, heq⟩ := parseCmdAddr_iff.mp h
    cases heq
    refine ⟨⟨rep, rfl⟩, hparsed, image, ?_, rfl, hstart⟩
    simp only [encodeReply, Reply.byte_ofByte]
    exact himage
  · rintro ⟨⟨b, rfl⟩, hparsed, image, himage, rfl, hstart⟩
    simp only [encodeReply, Reply.byte_ofByte] at himage
    exact parseCmdAddr_iff.mpr ⟨b, bind, image, hparsed, himage, hstart, rfl⟩

/-! ### UDP packets -/

theorem encodeUdpPacket_produces (frag : UInt8) {destination : Address}
    (h : encodedAddrLen destination = .ok (addrField destination).length) (payload : Bytes) :
    Produces (fun dst => encodeUdpPacket dst frag destination payload)
      ([0, 0, frag] ++ addrField destination ++ payload) := by
  have hlen : ([0, 0, frag] ++ addrField destination ++ payload).length =
      3 + (addrField destination).length + payload.length := by
    rw [List.length_append, List.length_append]; rfl
  intro dst hdst
  simp only [encodeUdpPacket, h, bind, Except.bind]
  exact fillPrefix_produces hlen dst hdst

theorem parseUdpPacket_image (frag : UInt8) {destination : Address} (h : destination.Parsed) (payload : Bytes) :
    parseUdpPacket ([0, 0, frag] ++ addrField destination ++ payload) =
      .ok ⟨frag, destination, ([0, 0, frag] ++ addrField destination).length, payload⟩ := by
  have hparse := parseAddr_addrField h payload
  have hlen : 3 + (addrField destination).length = ([0, 0, frag] ++ addrField destination).length := by
    rw [List.length_append]; rfl
  have hslice := sliceFrom_append ([0, 0, frag] ++ addrField destination) payload
  rw [← hlen] at hslice ⊢
  obtain ⟨atyp, tail, htail⟩ : ∃ atyp tail, addrField destination = atyp :: tail := by
    rcases destination with (_ | _) | _ <;> exact ⟨_, _, rfl⟩
  rw [htail] at hparse hslice ⊢
  simp only [List.cons_append, List.nil_append] at hparse hslice ⊢
  simp only [parseUdpPacket, ne_eq, not_true_eq_false, or_self, ↓reduceIte, hparse, bind, Except.bind, hslice]
  rfl

/-- What is accepted as a packet is what is written for it. -/
theorem parseUdpPacket_done {buf : Bytes} {packet : UdpPacketRef} (h : parseUdpPacket buf = .ok packet) :
    packet.destination.Parsed ∧ buf = [0, 0, packet.frag] ++ addrField packet.destination ++ packet.payload ∧
      packet.headerLen = ([0, 0, packet.frag] ++ addrField packet.destination).length := by
  unfold parseUdpPacket at h
  split at h
  · next b₀ b₁ frag b₃ rest =>
    split at h
    · cases h
    · next hreserved =>
      obtain ⟨rfl, rfl⟩ := not_or.mp hreserved |>.imp not_not.mp not_not.mp
      simp only [bind, Except.bind] at h
      split at h
      · cases h
      · next state hstate =>
        cases state with
        | need n => cases h
        | done x =>
          obtain ⟨destination, n⟩ := x
          obtain ⟨-, hparsed, rfl, after, hafter⟩ := parseAddr_done hstate
          have hbuf : 0 :: 0 :: frag :: b₃ :: rest = [0, 0, frag] ++ addrField destination ++ after := by
            rw [hafter, List.append_assoc]; rfl
          have hlen : 3 + (addrField destination).length = ([0, 0, frag] ++ addrField destination).length := by
            rw [List.length_append]; rfl
          rw [hbuf] at h ⊢
          simp only [hlen, sliceFrom_append] at h
          cases h
          exact ⟨hparsed, rfl, rfl⟩
  · cases h

theorem parseUdpPacket_iff {buf : Bytes} {frag : UInt8} {destination : Address} {n : Nat} {payload : Bytes} :
    parseUdpPacket buf = .ok ⟨frag, destination, n, payload⟩ ↔
      destination.Parsed ∧ Produces (fun dst => encodeUdpPacket dst frag destination payload) buf ∧
        n + payload.length = buf.length := by
  constructor
  · intro h
    obtain ⟨hparsed, hbuf, hn⟩ := parseUdpPacket_done h
    simp only at hparsed hbuf hn
    rw [hbuf]
    exact ⟨hparsed, encodeUdpPacket_produces frag (encodedAddrLen_parsed hparsed) payload, by
      rw [hn]; exact List.length_append.symm⟩
  · rintro ⟨hparsed, hbuf, hn⟩
    obtain rfl := hbuf.unique (encodeUdpPacket_produces frag (encodedAddrLen_parsed hparsed) payload)
    rw [List.length_append, Nat.add_right_cancel_iff] at hn
    rw [parseUdpPacket_image frag hparsed payload, hn]

/-- A packet is its header and the payload. -/
theorem encodeUdpPacket_iff {frag : UInt8} {destination : Address} {payload image : Bytes} :
    Produces (fun dst => encodeUdpPacket dst frag destination payload) image ↔
      ∃ header, Produces (fun dst => encodeUdpHeader dst frag destination) header ∧ image = header ++ payload := by
  constructor
  · intro h
    have hlen := addrLen_of_produces h
    exact ⟨_, encodeThreeAddr_produces _ _ _ hlen, h.unique (encodeUdpPacket_produces frag hlen payload)⟩
  · rintro ⟨header, h, rfl⟩
    have hlen := addrLen_of_produces h
    rw [h.unique (encodeThreeAddr_produces _ _ _ hlen)]
    exact encodeUdpPacket_produces frag hlen payload

/-- **The SOCKS5 formats are bijective**: requests, replies and UDP packets
are accepted exactly as they are written. -/
theorem socks5_formats_bijective :
    (∀ (buf : Bytes) (command : Command) (destination : Address) (n : Nat),
      requestNeed buf = .ok (.done ⟨command, destination, n⟩) ↔
        (∃ b, command = .ofByte b) ∧ destination.Parsed ∧
          ∃ image, Produces (fun dst => encodeRequest dst command destination) image ∧ image.length = n ∧
            image <+: buf) ∧
    (∀ (buf : Bytes) (reply : Reply) (bind : Address) (n : Nat),
      replyNeed buf = .ok (.done ⟨reply, bind, n⟩) ↔
        (∃ b, reply = .ofByte b) ∧ bind.Parsed ∧
          ∃ image, Produces (fun dst => encodeReply dst reply bind) image ∧ image.length = n ∧ image <+: buf) ∧
    (∀ (buf : Bytes) (frag : UInt8) (destination : Address) (n : Nat) (payload : Bytes),
      parseUdpPacket buf = .ok ⟨frag, destination, n, payload⟩ ↔
        destination.Parsed ∧ Produces (fun dst => encodeUdpPacket dst frag destination payload) buf ∧
          n + payload.length = buf.length) ∧
    (∀ (frag : UInt8) (destination : Address) (payload image : Bytes),
      Produces (fun dst => encodeUdpPacket dst frag destination payload) image ↔
        ∃ header, Produces (fun dst => encodeUdpHeader dst frag destination) header ∧ image = header ++ payload) :=
  ⟨fun _ _ _ _ => requestNeed_iff, fun _ _ _ _ => replyNeed_iff, fun _ _ _ _ _ => parseUdpPacket_iff,
    fun _ _ _ _ => encodeUdpPacket_iff⟩

/-- **A greeting is read back** exactly if its list has at most 255 methods:
the encoder takes longer ones too, and writes their number modulo 256. -/
theorem greeting_round_trip {dst methods out : Bytes} {n : Nat} (h : encodeGreeting dst methods = .ok (n, out)) :
    (∀ trailing, greetingNeed (out.take n ++ trailing) = .ok (.done ⟨methods, n⟩)) ↔ methods.length ≤ 255 := by
  have hne : methods ≠ [] := by
    rintro rfl
    cases h
  have hpos : 0 < methods.length := List.length_pos_iff.mpr hne
  rw [encodeGreeting, if_neg hne, fillPrefix] at h
  split at h
  · cases h
  rw [if_neg (by rw [List.length_append]; exact not_not.mpr rfl)] at h
  cases h
  have htake : ∀ rest : Bytes, (([version, UInt8.ofNat methods.length] ++ methods) ++ rest).take (2 + methods.length) =
      [version, UInt8.ofNat methods.length] ++ methods := by
    intro rest
    exact List.take_left' (by rw [List.length_append]; rfl)
  simp only [htake]
  simp only [List.cons_append, List.nil_append, greetingNeed, ne_eq, not_true_eq_false, if_false, UInt8.toNat_ofNat']
  constructor
  · intro hall
    have hnil := hall []
    split at hnil
    · cases hnil
    · split at hnil
      · -- the count says how many methods were read
        have hcount := congrArg GreetingRef.consumedLen (ParseState.done.inj (Except.ok.inj hnil))
        have hmod := Nat.mod_lt methods.length (by decide : 0 < 2 ^ 8)
        simp only at hcount
        omega
      · cases hnil
  · intro hle trailing
    have hmod : methods.length % 2 ^ 8 = methods.length := Nat.mod_eq_of_lt (by omega)
    have hcount : UInt8.ofNat methods.length ≠ 0 := by
      intro h0
      have := congrArg UInt8.toNat h0
      rw [UInt8.toNat_ofNat', hmod] at this
      exact Nat.ne_of_gt hpos this
    rw [if_neg hcount, hmod, if_pos (by rw [List.length_append]; omega), List.take_left]

theorem greeting_round_trip_three_methods :
    encodeGreeting (List.replicate 8 0) [0x02, methodNoAuth, 0x80] =
        .ok (5, [0x05, 0x03, 0x02, 0x00, 0x80, 0x00, 0x00, 0x00]) ∧
      greetingNeed ([0x05, 0x03, 0x02, 0x00, 0x80] ++ [0x05, 0x01]) = .ok (.done ⟨[0x02, methodNoAuth, 0x80], 5⟩) := by
  have hencode : encodeGreeting (List.replicate 8 0) [0x02, methodNoAuth, 0x80] =
      .ok (5, [0x05, 0x03, 0x02, 0x00, 0x80, 0x00, 0x00, 0x00]) := rfl
  exact ⟨hencode, (greeting_round_trip hencode).mpr (by decide) [0x05, 0x01]⟩

/-- 256 methods are written behind a count of zero, which no reader accepts. -/
theorem greeting_of_256_methods_refused :
    ∃ out, encodeGreeting (List.replicate 258 0) (List.replicate 256 methodNoAuth) = .ok (258, out) ∧
      greetingNeed (out.take 258) = .error (.err (.malformed "empty method list")) :=
  ⟨[version, 0] ++ List.replicate 256 methodNoAuth, by decide +kernel, by decide +kernel⟩

end Socks5

/-! ## UDP datagrams -/

theorem Address.flowless_of_parsed {address : Address} (h : address.Parsed) : address.Flowless := by
  cases address with
  | ip addr => exact h
  | domain host port => trivial

theorem Address.parsed_of_encodable {address : Address} (h : address.Encodable) (hflow : address.Flowless) :
    address.Parsed := by
  cases address with
  | ip addr => exact hflow
  | domain host port =>
    obtain ⟨hpos, hle, -⟩ := validateDomain_ok h
    exact ⟨hpos, hle⟩

theorem encodeUdpRequest_produces {address : Address} (h : address.Encodable) (payload : Bytes) :
    Produces (fun dst => encodeUdpRequest dst address payload) (udpRequestImage address payload) := by
  intro dst hdst
  simp only [encodeUdpRequest, udpRequestHeaderLen_encodable h, bind, Except.bind]
  exact fillPrefix_produces List.length_append dst hdst

theorem encodable_of_produces {address : Address} {payload image : Bytes}
    (h : Produces (fun dst => encodeUdpRequest dst address payload) image) : address.Encodable := by
  obtain ⟨he, -⟩ | ⟨-, err, hlen⟩ := udpTailLen_cases address
  · exact he
  · have hdst := h image (Nat.le_refl _)
    simp only [encodeUdpRequest, udpRequestHeaderLen, hlen, bind, Except.bind] at hdst
    cases hdst

theorem decodeUdpDatagram_done {src : Bytes} {markerLen : Nat} {parseTail : Bytes → Res (Address × Nat)}
    {packet : UdpPacket} (h : decodeUdpDatagram src markerLen parseTail = .ok packet) :
    ∃ n, markerLen + n = packet.headerLen ∧ packet.headerLen ≤ src.length ∧
      parseTail (src.drop markerLen) = .ok (packet.address, n) ∧ packet.payload = src.drop packet.headerLen := by
  simp only [decodeUdpDatagram, sliceFrom, bind, Except.bind] at h
  split at h
  · cases h
  · next tail hslice =>
    split at hslice
    · cases hslice
      split at h
      · cases h
      · next r hparse =>
        split at h
        · cases h
        · next payload hpayload =>
          split at hpayload
          · next hle =>
            cases hpayload
            cases h
            exact ⟨_, rfl, hle, hparse, rfl⟩
          · cases hpayload
    · cases hslice

theorem parseIpTail_done {src : Bytes} {address : Address} {n : Nat} (h : parseIpTail src = .ok (address, n)) :
    ∃ addr rest, address = .ip addr ∧ address.Parsed ∧ n = (udpTail address).length ∧ src = udpTail address ++ rest := by
  unfold parseIpTail at h
  split at h
  · cases h
  · next atyp rest =>
    split at h
    · next h4 =>
      simp only [bind, Except.bind] at h
      split at h
      · cases h
      · next addr haddr =>
        cases h
        obtain ⟨octets, port, after, rfl, rfl⟩ := ipPort_some (okOr_ok.mp haddr)
        refine ⟨_, after, rfl, rfl, by simp [udpTail, SocketAddr.new], ?_⟩
        rw [h4]
        simp only [SocketAddr.new, udpTail, List.cons_append, List.append_assoc]
    · split at h
      · next h6 =>
        simp only [bind, Except.bind] at h
        split at h
        · cases h
        · next addr haddr =>
          cases h
          obtain ⟨octets, port, after, rfl, rfl⟩ := ipPort_some (okOr_ok.mp haddr)
          refine ⟨_, after, rfl, rfl, by simp [udpTail, SocketAddr.new], ?_⟩
          rw [h6]
          simp only [SocketAddr.new, udpTail, List.cons_append, List.append_assoc]
      · cases h

theorem parseDomainTail_done {src : Bytes} {address : Address} {n : Nat} (h : parseDomainTail src = .ok (address, n)) :
    ∃ host port rest, address = .domain host port ∧ validateDomain host = .ok () ∧ n = (hostPort host port).length ∧
      src = hostPort host port ++ rest := by
  simp only [parseDomainTail, Address.ofDomain, bind, Except.bind] at h
  split at h
  · cases h
  · next r hsplit =>
    obtain ⟨host, port, m⟩ := r
    obtain ⟨-, rfl, rest, rfl⟩ := splitHostPort_some hsplit
    cases hv : validateDomain host with
    | error f => rw [hv] at h; cases h
    | ok u =>
      rw [hv] at h
      cases h
      exact ⟨host, port, rest, rfl, hv, rfl, rfl⟩

/-- What is accepted as a request is what is written for it. -/
theorem decodeUdpRequest_done {src : Bytes} {packet : UdpPacket} (h : decodeUdpRequest src = .ok packet) :
    packet.address.Parsed ∧ packet.address.Encodable ∧ src = udpRequestImage packet.address packet.payload ∧
      packet.headerLen = (udpRequestMarker packet.address ++ udpTail packet.address).length := by
  obtain ⟨address, payload, headerLen⟩ := packet
  unfold decodeUdpRequest at h
  split at h
  · next command hostLen after =>
    split at h
    · cases h
    · next hcommand =>
      rw [not_not.mp hcommand] at h ⊢
      split at h
      · next hip =>
        obtain ⟨n, hn, hle, htail, hpayload⟩ := decodeUdpDatagram_done h
        simp only at hn hle htail hpayload
        obtain ⟨addr, rest, rfl, hparsed, rfl, hrest⟩ := parseIpTail_done htail
        have hsrc : commandUdpForward :: hostLen :: after = udpRequestMarker (.ip addr) ++ udpTail (.ip addr) ++ rest := by
          rw [hip, List.append_assoc, ← hrest]; rfl
        have hheader : headerLen = (udpRequestMarker (.ip addr) ++ udpTail (.ip addr)).length := by
          rw [← hn, List.length_append]; rfl
        refine ⟨hparsed, trivial, ?_, hheader⟩
        rw [udpRequestImage, hpayload, hsrc, hheader, List.drop_left]
      · obtain ⟨n, hn, hle, htail, hpayload⟩ := decodeUdpDatagram_done h
        simp only at hn hle htail hpayload
        obtain ⟨host, port, rest, rfl, hvalid, rfl, hrest⟩ := parseDomainTail_done htail
        have hsrc : commandUdpForward :: hostLen :: after =
            udpRequestMarker (.domain host port) ++ udpTail (.domain host port) ++ rest :=
          congrArg (commandUdpForward :: ·) hrest
        have hheader : headerLen = (udpRequestMarker (.domain host port) ++ udpTail (.domain host port)).length := by
          rw [← hn, List.length_append]; rfl
        obtain ⟨hpos, hlong, -⟩ := validateDomain_ok hvalid
        refine ⟨⟨hpos, hlong⟩, hvalid, ?_, hheader⟩
        rw [udpRequestImage, hpayload, hsrc, hheader, List.drop_left]
  · cases h

theorem decodeUdpRequest_iff {src : Bytes} {address : Address} {payload : Bytes} {n : Nat} :
    decodeUdpRequest src = .ok ⟨address, payload, n⟩ ↔
      address.Flowless ∧ Produces (fun dst => encodeUdpRequest dst address payload) src ∧
        udpRequestLen address 0 = .ok n := by
  have hheader : address.Encodable →
      udpRequestLen address 0 = .ok (udpRequestMarker address ++ udpTail address).length := by
    intro he
    have := udpRequestLen_encodable he []
    rwa [udpRequestImage, List.append_nil] at this
  constructor
  · intro h
    obtain ⟨hparsed, he, hsrc, hn⟩ := decodeUdpRequest_done h
    simp only at hparsed he hsrc hn
    rw [hsrc, hheader he, hn]
    exact ⟨Address.flowless_of_parsed hparsed, encodeUdpRequest_produces he payload, rfl⟩
  · rintro ⟨hflow, hsrc, hn⟩
    have he := encodable_of_produces hsrc
    rw [hheader he] at hn
    cases hn
    rw [hsrc.unique (encodeUdpRequest_produces he payload)]
    exact decodeUdpRequest_image (Address.parsed_of_encodable he hflow) he payload

/-! ### Responses -/

theorem length_udpTail_ip (source : SocketAddr) (n : Nat) :
    udpResponseLen source n = (udpTail (.ip source)).length + n := by
  cases source <;> simp [udpResponseLen, udpTail]

theorem encodeUdpResponse_produces (source : SocketAddr) (payload : Bytes) :
    Produces (fun dst => encodeUdpResponse dst source payload) (udpTail (.ip source) ++ payload) := by
  intro dst hdst
  simp only [encodeUdpResponse, encodeUdpDatagram, length_udpTail_ip, Nat.add_zero]
  exact fillPrefix_produces List.length_append dst hdst

theorem decodeUdpResponse_iff {src : Bytes} {source : SocketAddr} {payload : Bytes} {n : Nat} :
    decodeUdpResponse src = .ok ⟨.ip source, payload, n⟩ ↔
      (Address.ip source).Flowless ∧ Produces (fun dst => encodeUdpResponse dst source payload) src ∧
        udpResponseLen source 0 = n := by
  constructor
  · intro h
    obtain ⟨m, hm, hle, htail, hpayload⟩ := decodeUdpDatagram_done h
    simp only at hm hle htail hpayload
    obtain ⟨addr, rest, heq, hparsed, rfl, hrest⟩ := parseIpTail_done htail
    rw [List.drop_zero] at hrest
    have hn : n = (udpTail (.ip source)).length := by omega
    refine ⟨hparsed, ?_, by rw [length_udpTail_ip, hn]; rfl⟩
    rw [hrest] at hpayload ⊢
    rw [hn, List.drop_left] at hpayload
    rw [hpayload]
    exact encodeUdpResponse_produces source rest
  · rintro ⟨hflow, hsrc, rfl⟩
    rw [hsrc.unique (encodeUdpResponse_produces source payload), length_udpTail_ip]
    exact @decodeUdpDatagram_append [] _ _ _ _ (parseIpTail_udpTail hflow payload)

/-- A response has an IP source. -/
theorem decodeUdpResponse_ip {src : Bytes} {packet : UdpPacket} (h : decodeUdpResponse src = .ok packet) :
    ∃ source, packet.address = .ip source := by
  obtain ⟨n, -, -, htail, -⟩ := decodeUdpDatagram_done h
  obtain ⟨addr, -, haddr, -⟩ := parseIpTail_done htail
  exact ⟨addr, haddr⟩

/-! ### Both directions -/

/-- The two forms of a request differ in their second byte. -/
theorem udp_forms_disjoint {src : Bytes} {addr : SocketAddr} {host : Str} {port : UInt16} {payload payload' : Bytes}
    (hip : Produces (fun dst => encodeUdpRequest dst (.ip addr) payload) src)
    (hdomain : Produces (fun dst => encodeUdpRequest dst (.domain host port) payload') src) : False := by
  have he := encodable_of_produces hdomain
  obtain ⟨hpos, hle, -⟩ := validateDomain_ok he
  have h₁ := hip.unique (encodeUdpRequest_produces (show (Address.ip addr).Encodable from trivial) payload)
  have h₂ := hdomain.unique (encodeUdpRequest_produces he payload')
  rw [h₁] at h₂
  have hbyte : udpRequestIpLen = UInt8.ofNat host.len := (List.cons.inj (List.cons.inj h₂).2).1
  have := congrArg UInt8.toNat hbyte
  simp only [maxDomainLen] at hle
  rw [UInt8.toNat_ofNat', Nat.mod_eq_of_lt (by omega)] at this
  exact Nat.ne_of_gt hpos this.symm

/-- **The UDP datagram formats are bijective.** A request or a response is
accepted exactly as it is written, its lengths are those the encoder counts
with, everything valid that is written comes back, and the IP form of a
request is never its domain form. -/
theorem udp_formats_bijective :
    (∀ (src : Bytes) (address : Address) (payload : Bytes) (n : Nat),
      decodeUdpRequest src = .ok ⟨address, payload, n⟩ ↔
        address.Flowless ∧ Produces (fun dst => encodeUdpRequest dst address payload) src ∧
          udpRequestLen address 0 = .ok n) ∧
    (∀ (src : Bytes) (source : SocketAddr) (payload : Bytes) (n : Nat),
      decodeUdpResponse src = .ok ⟨.ip source, payload, n⟩ ↔
        (Address.ip source).Flowless ∧ Produces (fun dst => encodeUdpResponse dst source payload) src ∧
          udpResponseLen source 0 = n) ∧
    (∀ (src : Bytes) (packet : UdpPacket), decodeUdpResponse src = .ok packet → ∃ source, packet.address = .ip source) ∧
    (∀ (src : Bytes) (address : Address) (payload : Bytes),
      Produces (fun dst => encodeUdpRequest dst address payload) src →
        udpRequestLen address payload.length = .ok src.length) ∧
    (∀ (src : Bytes) (source : SocketAddr) (payload : Bytes),
      Produces (fun dst => encodeUdpResponse dst source payload) src →
        udpResponseLen source payload.length = src.length) ∧
    (∀ (address : Address) (payload : Bytes), address.Encodable → address.Flowless →
      ∃ src n, Produces (fun dst => encodeUdpRequest dst address payload) src ∧
        decodeUdpRequest src = .ok ⟨address, payload, n⟩) ∧
    (∀ (source : SocketAddr) (payload : Bytes), (Address.ip source).Flowless →
      ∃ src n, Produces (fun dst => encodeUdpResponse dst source payload) src ∧
        decodeUdpResponse src = .ok ⟨.ip source, payload, n⟩) ∧
    (∀ (src : Bytes) (addr : SocketAddr) (host : Str) (port : UInt16) (payload payload' : Bytes),
      ¬ (Produces (fun dst => encodeUdpRequest dst (.ip addr) payload) src ∧
        Produces (fun dst => encodeUdpRequest dst (.domain host port) payload') src)) := by
  refine ⟨fun _ _ _ _ => decodeUdpRequest_iff, fun _ _ _ _ => decodeUdpResponse_iff, fun _ _ => decodeUdpResponse_ip,
    ?_, ?_, ?_, ?_, ?_⟩
  · intro src address payload h
    have he := encodable_of_produces h
    rw [h.unique (encodeUdpRequest_produces he payload), udpRequestLen_encodable he]
  · intro src source payload h
    rw [h.unique (encodeUdpResponse_produces source payload), length_udpTail_ip, List.length_append]
  · intro address payload he hflow
    have himage := encodeUdpRequest_produces he payload
    exact ⟨_, _, himage, decodeUdpRequest_image (Address.parsed_of_encodable he hflow) he payload⟩
  · intro source payload hflow
    have himage := encodeUdpResponse_produces source payload
    exact ⟨_, _, himage, decodeUdpResponse_iff.mpr ⟨hflow, himage, rfl⟩⟩
  · rintro src addr host port payload payload' ⟨hip, hdomain⟩
    exact udp_forms_disjoint hip hdomain

/-! ## CONNECT -/

/-- The destination a request comes back with: an IP without flow information
and scope, and a domain that is an IP literal as that IP. -/
def Address.canonical (T : IpText) : Address → Address
  | .ip addr => .ip (.new addr.ip addr.port)
  | .domain host port =>
    match T.parse host with
    | some literal => .ip (.new literal port)
    | none => .domain host port

theorem host_len_encodable (T : IpText) {d : Address} (h : d.Encodable) :
    0 < (d.host T).len ∧ (d.host T).len ≤ maxDomainLen := by
  cases d with
  | ip addr =>
    obtain ⟨hpos, hle⟩ := T.display_len addr.ip
    exact ⟨hpos, Nat.le_trans hle (by decide)⟩
  | domain host port =>
    obtain ⟨hpos, hle, -⟩ := validateDomain_ok h
    exact ⟨hpos, hle⟩

theorem connectDestination_canonical (T : IpText) {d : Address} (h : d.Encodable) :
    connectDestination T (d.host T) d.port = .ok (d.canonical T) := by
  cases d with
  | ip addr => simp only [Address.host, Address.port, connectDestination, T.parse_display, Address.canonical]
  | domain host port =>
    have hvalid : validateDomain host = .ok () := h
    simp only [Address.host, Address.port, connectDestination, Address.canonical]
    cases T.parse host with
    | some ip => rfl
    | none =>
      simp only [Address.ofDomain, hvalid, bind, Except.bind]
      rfl

theorem encodeConnectRequest_produces (T : IpText) {d : Address} (h : d.Encodable) (reuse : Bool) :
    Produces (fun dst => encodeConnectRequest T dst d reuse) (connectImage (d.host T) d.port reuse) :=
  fun _ hdst => encodeConnectRequest_ok reuse (host_len_encodable T h) hdst

/-- A request that was cut asks for more. -/
theorem decodeConnectRequestPrefix_cut (T : IpText) {host : Str} (hpos : 0 < host.len) (hlen : host.len ≤ maxDomainLen)
    (port : UInt16) (reuse : Bool) {p : Bytes} (hp : p <+: connectImage host port reuse)
    (hcut : p ≠ connectImage host port reuse) :
    decodeConnectRequestPrefix T p = .error (.err .truncated) := by
  have hshort : p.length < controlPrefixLen + host.len + 2 := by
    rw [← length_connectImage host port reuse]
    exact Nat.lt_of_le_of_ne hp.length_le fun heq => hcut (hp.eq_of_length heq)
  have hreuse : connectReuse (if reuse then commandConnectV2 else commandConnect) = .ok reuse := by
    cases reuse <;> rfl
  simp only [maxDomainLen] at hlen
  have hbyte : (UInt8.ofNat host.len).toNat = host.len := by
    rw [UInt8.toNat_ofNat', Nat.mod_eq_of_lt (by omega)]
  have hne : UInt8.ofNat host.len ≠ 0 := by
    intro h0
    rw [h0] at hbyte
    exact Nat.ne_of_gt hpos hbyte.symm
  rcases p with _ | ⟨version, _ | ⟨command, _ | ⟨clientIdLen, after⟩⟩⟩
  · rfl
  · rfl
  · rfl
  · obtain ⟨rfl, hp₁⟩ := List.cons_prefix_cons.mp hp
    obtain ⟨rfl, hp₂⟩ := List.cons_prefix_cons.mp hp₁
    obtain ⟨rfl, hp₃⟩ := List.cons_prefix_cons.mp hp₂
    simp only [decodeConnectRequestPrefix, ne_eq, not_true_eq_false, ↓reduceIte, hreuse, bind, Except.bind]
    cases after with
    | nil => rfl
    | cons hostLen rest =>
      obtain ⟨rfl, -⟩ := List.cons_prefix_cons.mp hp₃
      have hfield : connectHostField (UInt8.ofNat host.len :: rest) (0 : UInt8).toNat =
          .ok (UInt8.ofNat host.len :: rest) := by
        simp only [connectHostField, UInt8.toNat_zero, Nat.not_lt_zero, ↓reduceIte, List.drop_zero, hne]
      simp only [List.length_cons, controlPrefixLen] at hshort
      rw [hfield]
      simp only [splitHostPort_truncated (show rest.length < (UInt8.ofNat host.len).toNat + 2 by rw [hbyte]; omega)]

/-- What the decoder accepts is canonical. -/
theorem decodeConnectRequestPrefix_canonical (T : IpText) {src : Bytes} {request : ConnectRequest} {n : Nat}
    (h : decodeConnectRequestPrefix T src = .ok (request, n)) :
    request.destination.Encodable ∧ request.destination.canonical T = request.destination := by
  unfold decodeConnectRequestPrefix at h
  split at h
  · split at h
    · cases h
    · simp only [bind, Except.bind] at h
      split at h
      · cases h
      · split at h
        · cases h
        · split at h
          · cases h
          · next r hsplit =>
            split at h
            · cases h
            · next destination hdest =>
              cases h
              simp only
              unfold connectDestination at hdest
              split at hdest
              · cases hdest
                exact ⟨trivial, by simp only [Address.canonical, SocketAddr.ip_new, SocketAddr.port_new]⟩
              · next hparse =>
                simp only [Address.ofDomain, bind, Except.bind] at hdest
                split at hdest
                · cases hdest
                · next hvalid =>
                  cases hdest
                  exact ⟨hvalid, by simp only [Address.canonical, hparse]⟩
  · cases h

/-- **CONNECT comes back.** A request is written as long as it is said to be,
it is read back in canonical form whatever follows, a cut one asks for more,
and what was accepted once is accepted again as it was. -/
theorem connect_round_trip (T : IpText) :
    (∀ (d : Address) (reuse : Bool), d.Encodable →
      ∃ image, connectRequestLen T d = .ok image.length ∧
        Produces (fun dst => encodeConnectRequest T dst d reuse) image ∧
        (∀ rest, decodeConnectRequestPrefix T (image ++ rest) = .ok (⟨d.canonical T, reuse⟩, image.length)) ∧
        ∀ p, p <+: image → p ≠ image → decodeConnectRequestPrefix T p = .error (.err .truncated)) ∧
    (∀ (src : Bytes) (request : ConnectRequest) (n : Nat), decodeConnectRequestPrefix T src = .ok (request, n) →
      ∃ image, Produces (fun dst => encodeConnectRequest T dst request.destination request.reuse) image ∧
        decodeConnectRequestPrefix T image = .ok (request, image.length)) := by
  have hread : ∀ {d : Address} (reuse : Bool), d.Encodable → ∀ rest,
      decodeConnectRequestPrefix T (connectImage (d.host T) d.port reuse ++ rest) =
        .ok (⟨d.canonical T, reuse⟩, (connectImage (d.host T) d.port reuse).length) := by
    intro d reuse he rest
    obtain ⟨hpos, hle⟩ := host_len_encodable T he
    rw [decodeConnectRequestPrefix_image hpos hle, connectDestination_canonical T he]
    rfl
  constructor
  · intro d reuse he
    obtain ⟨hpos, hle⟩ := host_len_encodable T he
    exact ⟨_, connectRequestLen_ok reuse ⟨hpos, hle⟩, encodeConnectRequest_produces T he reuse, hread reuse he,
      fun p hp hcut => decodeConnectRequestPrefix_cut T hpos hle d.port reuse hp hcut⟩
  · intro src request n h
    obtain ⟨he, hcanonical⟩ := decodeConnectRequestPrefix_canonical T h
    refine ⟨_, encodeConnectRequest_produces T he request.reuse, ?_⟩
    have := hread request.reuse he []
    rwa [List.append_nil, hcanonical] at this

end Snell
