/-
UDP datagrams on the wire: what a request is, and that the server's parser
reads back the address and the payload it was written with.
-/
import Snell.Control

namespace Snell

theorem sliceFrom_append (pre rest : Bytes) : sliceFrom (pre ++ rest) pre.length = .ok rest := by
  rw [sliceFrom, if_pos (by rw [List.length_append]; omega), List.drop_left]

/-! ## Requests -/

/-- The bytes of a request. -/
def udpRequestImage (address : Address) (payload : Bytes) : Bytes :=
  udpRequestMarker address ++ udpTail address ++ payload

/-- An encoder of Snell's accepts the address: a domain has to be valid. -/
def Address.Encodable : Address → Prop
  | .ip _ => True
  | .domain host _ => validateDomain host = .ok ()

theorem Address.encodable_of_nulFree {address : Address} (h : address.Parsed) (hnul : address.NulFree) :
    address.Encodable := by
  cases address with
  | ip addr => trivial
  | domain host port => rw [Address.Encodable, validateDomain_iff h.1 h.2, if_neg hnul]

theorem udpTailLen_cases (address : Address) :
    (address.Encodable ∧ udpTailLen address = .ok (udpTail address).length) ∨
      (¬ address.Encodable ∧ ∃ err, udpTailLen address = .error (.err err)) := by
  rcases address with (_ | _) | ⟨host, port⟩
  · exact .inl ⟨trivial, by simp [udpTailLen, udpTail]⟩
  · exact .inl ⟨trivial, by simp [udpTailLen, udpTail]⟩
  · simp only [Address.Encodable, udpTailLen]
    cases hv : validateDomain host with
    | ok u => exact .inl ⟨rfl, congrArg Except.ok (length_hostPort host port).symm⟩
    | error f =>
      refine .inr ⟨nofun, ?_⟩
      unfold validateDomain at hv
      repeat' split at hv
      all_goals first
        | cases hv; exact ⟨_, rfl⟩
        | cases hv

theorem udpRequestHeaderLen_encodable {address : Address} (h : address.Encodable) :
    udpRequestHeaderLen address = .ok (udpRequestMarker address ++ udpTail address).length := by
  obtain ⟨-, hlen⟩ | ⟨hn, -⟩ := udpTailLen_cases address
  · simp only [udpRequestHeaderLen, hlen, bind, Except.bind, List.length_append]
    cases address <;> rfl
  · exact absurd h hn

theorem udpTailLen_nul {address : Address} (h : address.Parsed) (hnul : ¬ address.NulFree) :
    udpTailLen address = .error (.err .hostContainsNul) := by
  cases address with
  | ip addr => exact absurd trivial hnul
  | domain host port =>
    simp only [udpTailLen, validateDomain_iff h.1 h.2, if_pos (not_not.mp hnul), bind, Except.bind]

theorem udpRequestLen_encodable {address : Address} (h : address.Encodable) (payload : Bytes) :
    udpRequestLen address payload.length = .ok (udpRequestImage address payload).length := by
  simp only [udpRequestLen, udpRequestHeaderLen_encodable h, bind, Except.bind, udpRequestImage,
    List.length_append]
  rfl

theorem udpRequestLen_nul {address : Address} (h : address.Parsed) (hnul : ¬ address.NulFree) (n : Nat) :
    udpRequestLen address n = .error (.err .hostContainsNul) := by
  simp only [udpRequestLen, udpRequestHeaderLen, udpTailLen_nul h hnul, bind, Except.bind]

/-- A slice of exactly the length it takes is the request. -/
theorem encodeUdpRequest_fits {address : Address} (h : address.Encodable) {dst payload : Bytes}
    (hdst : dst.length = (udpRequestImage address payload).length) :
    encodeUdpRequest dst address payload = .ok (dst.length, udpRequestImage address payload) := by
  have hlen : (udpRequestImage address payload).length =
      (udpRequestMarker address ++ udpTail address).length + payload.length := by
    rw [udpRequestImage, List.length_append]
  simp only [encodeUdpRequest, udpRequestHeaderLen_encodable h, bind, Except.bind, encodeUdpDatagram]
  rw [← hlen]
  refine (fillPrefix_ok (Nat.le_of_eq hdst.symm)).trans ?_
  rw [← hdst, List.drop_length, List.append_nil]

theorem parseIpTail_udpTail {addr : SocketAddr} (h : (Address.ip addr).Parsed) (rest : Bytes) :
    parseIpTail (udpTail (.ip addr) ++ rest) = .ok (.ip addr, (udpTail (.ip addr)).length) := by
  cases addr with
  | v4 ip port =>
    simp only [udpTail, List.cons_append, List.append_assoc, parseIpTail, ↓reduceIte, ipPort_append, okOr, bind,
      Except.bind]
    simp [SocketAddr.new, pure, Except.pure]
  | v6 ip port flowinfo scopeId =>
    have hsix : atypIpv6 ≠ atypIpv4 := by decide
    simp only [Address.Parsed, Address.Flowless, SocketAddr.ip, SocketAddr.port] at h
    simp only [udpTail, List.cons_append, List.append_assoc, parseIpTail, if_neg hsix, ↓reduceIte, ipPort_append, okOr,
      bind, Except.bind, h]
    simp [pure, Except.pure]

theorem parseDomainTail_udpTail {host : Str} {port : UInt16} (h : (Address.domain host port).Encodable) (rest : Bytes) :
    parseDomainTail (udpTail (.domain host port) ++ rest) =
      .ok (.domain host port, (udpTail (.domain host port)).length) := by
  have htail : udpTail (.domain host port) = hostPort host port := rfl
  have hvalid : validateDomain host = .ok () := h
  simp only [htail, parseDomainTail, splitHostPort_hostPort (validateDomain_ok hvalid).2.1, Address.ofDomain, hvalid,
    length_hostPort, bind, Except.bind]
  rfl

/-- The address after the marker, and the payload after the address. -/
theorem decodeUdpDatagram_append {marker tail payload : Bytes} {parseTail : Bytes → Res (Address × Nat)}
    {address : Address} (h : parseTail (tail ++ payload) = .ok (address, tail.length)) :
    decodeUdpDatagram (marker ++ tail ++ payload) marker.length parseTail =
      .ok ⟨address, payload, (marker ++ tail).length⟩ := by
  have htail : sliceFrom (marker ++ tail ++ payload) marker.length = .ok (tail ++ payload) := by
    rw [List.append_assoc, sliceFrom_append]
  have hpayload : sliceFrom (marker ++ tail ++ payload) (marker.length + tail.length) = .ok payload := by
    rw [← List.length_append, sliceFrom_append]
  simp only [decodeUdpDatagram, htail, h, bind, Except.bind, hpayload, List.length_append]
  rfl

/-- The server reads the address and the payload. -/
theorem decodeUdpRequest_image {address : Address} (h : address.Parsed) (he : address.Encodable) (payload : Bytes) :
    decodeUdpRequest (udpRequestImage address payload) =
      .ok ⟨address, payload, (udpRequestMarker address ++ udpTail address).length⟩ := by
  cases address with
  | ip addr => exact decodeUdpDatagram_append (parseIpTail_udpTail h payload)
  | domain host port =>
    have hlen : UInt8.ofNat host.len ≠ udpRequestIpLen := by
      intro h0
      have := congrArg UInt8.toNat h0
      simp only [Address.Parsed, maxDomainLen] at h
      rw [UInt8.toNat_ofNat', Nat.mod_eq_of_lt (by omega)] at this
      exact Nat.ne_of_gt h.1 this
    rw [← decodeUdpDatagram_append (parseDomainTail_udpTail he payload)]
    exact if_neg hlen

end Snell
