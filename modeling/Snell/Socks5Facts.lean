/-
What the SOCKS5 parsers return: an address has a host of 1 to 255 bytes or is
an IP address without flow information, it ends inside the input, and a parse
that fails returns an error.
-/
import Snell.Socks5

namespace Snell.Socks5

theorem addrLen_domain {rest : Bytes} {len : Nat} (h : addrLen (atypDomain :: rest) = .ok (.done len)) :
    ∃ hostLen after, rest = hostLen :: after ∧ hostLen ≠ 0 ∧ len = 1 + 1 + hostLen.toNat + 2 := by
  simp only [addrLen] at h
  rw [if_neg (by decide), if_neg (by decide), if_pos trivial] at h
  cases rest with
  | nil => cases h
  | cons hostLen after =>
    by_cases h0 : hostLen = 0
    · simp only [h0, ↓reduceIte, reduceCtorEq] at h
    · simp only [h0, ↓reduceIte] at h
      cases h
      exact ⟨hostLen, after, rfl, h0, rfl⟩

/-- An address type whose length is known is one of the three. -/
theorem addrLen_type {atyp : UInt8} {rest : Bytes} {len : Nat} (h : addrLen (atyp :: rest) = .ok (.done len)) :
    (atyp = atypIpv4 ∧ len = 1 + 4 + 2) ∨ (atyp = atypIpv6 ∧ len = 1 + 16 + 2) ∨ atyp = atypDomain := by
  simp only [addrLen] at h
  split at h
  · next h4 => cases h; exact .inl ⟨h4, rfl⟩
  · split at h
    · next h6 => cases h; exact .inr (.inl ⟨h6, rfl⟩)
    · split at h
      · next hd => exact .inr (.inr hd)
      · cases h

/-! ## What an address is -/

theorem length_addrField (address : Address) :
    (addrField address).length =
      match address with
      | .ip (.v4 ..) => 1 + 4 + 2
      | .ip (.v6 ..) => 1 + 16 + 2
      | .domain host _ => 1 + 1 + host.len + 2 := by
  rcases address with (_ | _) | _
  · simp [addrField]
  · simp [addrField]
  · simp only [addrField, List.length_append, List.length_cons, List.length_nil, length_portBytes, Str.len]

theorem addrField_domain (host : Str) (port : UInt16) :
    addrField (.domain host port) = atypDomain :: hostPort host port := rfl

/-- An address that can be written is what its bytes are read as, whatever
follows. -/
theorem parseAddr_addrField {address : Address} (h : address.Parsed) (rest : Bytes) :
    parseAddr (addrField address ++ rest) = .ok (.done (address, (addrField address).length)) := by
  have hlen := length_addrField address
  have hall : ¬ (addrField address ++ rest).length < (addrField address).length := by
    rw [List.length_append]; omega
  rcases address with (⟨ip, port⟩ | ⟨ip, port, flowinfo, scopeId⟩) | ⟨host, port⟩
  · rw [hlen] at hall ⊢
    simp only [parseAddr, addrField, List.cons_append, List.append_assoc, addrLen, ↓reduceIte] at hall ⊢
    rw [if_neg hall]
    simp only [parseTail, ↓reduceIte, ipPort_append, okOr, bind, Except.bind, pure, Except.pure, SocketAddr.new]
  · rw [hlen] at hall ⊢
    have h46 : atypIpv6 ≠ atypIpv4 := by decide
    simp only [Address.Parsed, Address.Flowless, SocketAddr.ip, SocketAddr.port] at h
    simp only [parseAddr, addrField, List.cons_append, List.append_assoc, addrLen, if_neg h46, ↓reduceIte] at hall ⊢
    rw [if_neg hall]
    simp only [parseTail, if_neg h46, ↓reduceIte, ipPort_append, okOr, bind, Except.bind, pure, Except.pure, h]
  · obtain ⟨hpos, hle⟩ := h
    simp only [maxDomainLen] at hle
    have h43 : atypDomain ≠ atypIpv4 := by decide
    have h63 : atypDomain ≠ atypIpv6 := by decide
    have hbyte : (UInt8.ofNat host.len).toNat = host.len := by
      rw [UInt8.toNat_ofNat', Nat.mod_eq_of_lt (by omega)]
    have hne : UInt8.ofNat host.len ≠ 0 := by
      intro h0
      rw [h0] at hbyte
      exact Nat.ne_of_gt hpos hbyte.symm
    have hsize : addrLen (addrField (.domain host port) ++ rest) = .ok (.done (1 + 1 + host.len + 2)) := by
      simp only [addrField_domain, hostPort, List.cons_append, addrLen, if_neg h43, if_neg h63, ↓reduceIte, if_neg hne,
        hbyte]
    rw [hlen] at hall ⊢
    simp only [parseAddr, hsize, if_neg hall]
    simp only [addrField_domain, List.cons_append, parseTail, if_neg h43, if_neg h63, splitHostPort_hostPort hle, bind,
      Except.bind, pure, Except.pure]

theorem parseTail_ip {n : Nat} {ip : ByteArr n → IpAddr} {tail : Bytes} {address : Address}
    (h : (do let addr ← okOr (ipPort n ip tail) .truncated; return .ip addr : Res Address) = .ok address) :
    ∃ octets port rest, address = .ip (.new (ip octets) port) ∧ tail = octets.toList ++ (portBytes port ++ rest) := by
  simp only [bind, Except.bind] at h
  split at h
  · cases h
  · next addr haddr =>
    cases h
    obtain ⟨octets, port, rest, rfl, hrest⟩ := ipPort_some (okOr_ok.mp haddr)
    exact ⟨octets, port, rest, rfl, hrest⟩

/-- What is read as an address is one that can be written, and starts with
what is written for it. -/
theorem parseAddr_done {buf : Bytes} {address : Address} {n : Nat} (h : parseAddr buf = .ok (.done (address, n))) :
    addrLen buf = .ok (.done n) ∧ address.Parsed ∧ n = (addrField address).length ∧
      ∃ rest, buf = addrField address ++ rest := by
  unfold parseAddr at h
  split at h
  · cases h
  · cases h
  · next len hlen =>
    split at h
    · cases h
    · cases buf with
      | nil => cases h
      | cons atyp tail =>
        simp only [bind, Except.bind] at h
        split at h
        · cases h
        · next address' htail =>
          cases h
          refine ⟨hlen, ?_⟩
          rcases addrLen_type hlen with ⟨rfl, rfl⟩ | ⟨rfl, rfl⟩ | rfl
          · rw [parseTail, if_pos rfl] at htail
            obtain ⟨octets, port, rest, rfl, rfl⟩ := parseTail_ip htail
            refine ⟨rfl, by rw [length_addrField]; rfl, rest, ?_⟩
            simp only [SocketAddr.new, addrField, List.cons_append, List.append_assoc]
          · rw [parseTail, if_neg (by decide), if_pos rfl] at htail
            obtain ⟨octets, port, rest, rfl, rfl⟩ := parseTail_ip htail
            refine ⟨rfl, by rw [length_addrField]; rfl, rest, ?_⟩
            simp only [SocketAddr.new, addrField, List.cons_append, List.append_assoc]
          · obtain ⟨hostLen, after, rfl, hne, rfl⟩ := addrLen_domain hlen
            rw [parseTail, if_neg (by decide), if_neg (by decide)] at htail
            simp only [bind, Except.bind] at htail
            split at htail
            · cases htail
            · next r hsplit =>
              obtain ⟨host, port, m⟩ := r
              cases htail
              obtain ⟨hle, -, rest, hrest⟩ := splitHostPort_some hsplit
              have hbyte : hostLen.toNat = host.len := by
                rw [(List.cons.inj hrest).1, UInt8.toNat_ofNat', Nat.mod_eq_of_lt (by omega)]
              have hpos : 0 < hostLen.toNat := Nat.pos_of_ne_zero fun h0 => hne (UInt8.toNat_inj.mp h0)
              rw [hbyte] at hpos
              refine ⟨⟨hpos, hle⟩, ?_, rest, ?_⟩
              · rw [length_addrField, hbyte]
              · rw [hrest, addrField_domain, List.cons_append]

theorem parseAddr_parsed {buf : Bytes} {address : Address} {n : Nat} (h : parseAddr buf = .ok (.done (address, n))) :
    address.Parsed := (parseAddr_done h).2.1

/-- The address is all there. -/
theorem parseAddr_le {buf : Bytes} {address : Address} {n : Nat} (h : parseAddr buf = .ok (.done (address, n))) :
    n ≤ buf.length := by
  obtain ⟨-, -, rfl, rest, rfl⟩ := parseAddr_done h
  rw [List.length_append]
  exact Nat.le_add_right _ _

/-- A message with an address: its head, and what the address is. -/
theorem parseCmdAddr_done {α : Type} {build : UInt8 → Address → Nat → α} {buf : Bytes} {a : α}
    (h : parseCmdAddr buf build = .ok (.done a)) :
    ∃ cmd address n rest, buf = [version, cmd, 0] ++ rest ∧ parseAddr rest = .ok (.done (address, n)) ∧
      a = build cmd address (3 + n) := by
  unfold parseCmdAddr at h
  split at h
  · next b₀ b₁ b₂ b₃ rest =>
    split at h
    · cases h
    · next hv =>
      split at h
      · cases h
      · next hr =>
        simp only [bind, Except.bind] at h
        split at h
        · cases h
        · next state hstate =>
          cases state with
          | need n => cases h
          | done x =>
            obtain ⟨address, n⟩ := x
            cases h
            rw [not_not.mp hv, not_not.mp hr]
            exact ⟨b₁, address, n, b₃ :: rest, rfl, hstate, rfl⟩
  · cases h

theorem requestNeed_parsed {buf : Bytes} {r : RequestRef} (h : requestNeed buf = .ok (.done r)) :
    r.destination.Parsed := by
  obtain ⟨cmd, address, n, rest, -, haddr, rfl⟩ := parseCmdAddr_done h
  exact parseAddr_parsed haddr

/-! ## What an encoder writes -/

/-- An address has a length on the wire unless its host is empty or too long. -/
theorem encodedAddrLen_cases (address : Address) :
    encodedAddrLen address = .ok (addrField address).length ∨
      encodedAddrLen address = .error (.err .emptyHost) ∨ encodedAddrLen address = .error (.err .hostTooLong) := by
  rw [length_addrField]
  rcases address with (_ | _) | ⟨host, port⟩
  · exact .inl rfl
  · exact .inl rfl
  · simp only [encodedAddrLen]
    split
    · exact .inr (.inl rfl)
    · split
      · exact .inr (.inr rfl)
      · exact .inl rfl

theorem encodedAddrLen_parsed {address : Address} (h : address.Parsed) :
    encodedAddrLen address = .ok (addrField address).length := by
  rw [length_addrField]
  rcases address with (_ | _) | ⟨host, port⟩
  · rfl
  · rfl
  · have hne : host.bytes ≠ [] := List.ne_nil_of_length_pos h.1
    simp only [encodedAddrLen, if_neg hne, if_neg (Nat.not_lt.mpr h.2)]

/-! ## How they fail -/

theorem addrLen_error {buf : Bytes} {f : Fault} (h : addrLen buf = .error f) : ∃ err, f = .err err := by
  unfold addrLen at h
  repeat' split at h
  all_goals first
    | cases h; exact ⟨_, rfl⟩
    | cases h

theorem parseTail_error {atyp : UInt8} {tail : Bytes} {f : Fault} (h : parseTail atyp tail = .error f) :
    ∃ err, f = .err err := by
  have hip : ∀ {o : Option SocketAddr}, (do let addr ← okOr o .truncated; return .ip addr : Res Address) = .error f →
      ∃ err, f = .err err := by
    intro o ho
    cases o with
    | none => cases ho; exact ⟨_, rfl⟩
    | some addr => cases ho
  unfold parseTail at h
  split at h
  · exact hip h
  · split at h
    · exact hip h
    · simp only [bind, Except.bind] at h
      split at h
      · next hsplit => cases h; exact splitHostPort_error hsplit
      · cases h

theorem parseAddr_error {buf : Bytes} {f : Fault} (h : parseAddr buf = .error f) : ∃ err, f = .err err := by
  unfold parseAddr at h
  split at h
  · next hlen => cases h; exact addrLen_error hlen
  · cases h
  · next len hlen =>
    split at h
    · cases h
    · cases buf with
      | nil => cases hlen
      | cons atyp tail =>
        simp only [bind, Except.bind] at h
        split at h
        · next htail => cases h; exact parseTail_error htail
        · cases h

/-- A datagram is an error or a packet. -/
theorem parseUdpPacket_cases (buf : Bytes) :
    (∃ err, parseUdpPacket buf = .error (.err err)) ∨
      ∃ packet, parseUdpPacket buf = .ok packet ∧ packet.destination.Parsed := by
  unfold parseUdpPacket
  split
  · next b₀ b₁ frag b₃ rest =>
    split
    · exact .inl ⟨_, rfl⟩
    · simp only [bind, Except.bind]
      cases hparse : parseAddr (b₃ :: rest) with
      | error f => obtain ⟨err, rfl⟩ := parseAddr_error hparse; exact .inl ⟨err, rfl⟩
      | ok state =>
        cases state with
        | need n => exact .inl ⟨_, rfl⟩
        | done x =>
          obtain ⟨address, n⟩ := x
          have hle := parseAddr_le hparse
          have hslice : sliceFrom (b₀ :: b₁ :: frag :: b₃ :: rest) (3 + n) =
              .ok ((b₀ :: b₁ :: frag :: b₃ :: rest).drop (3 + n)) :=
            if_pos (by simp only [List.length_cons] at hle ⊢; omega)
          simp only [hslice]
          exact .inr ⟨_, rfl, parseAddr_parsed hparse⟩
  · exact .inl ⟨_, rfl⟩

end Snell.Socks5
