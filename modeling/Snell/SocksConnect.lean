/-
From the SOCKS5 front end to the CONNECT codec: what `request_need` accepts,
`encode_connect_request` writes, and the server's parser makes of it what was
asked for, unless the host has a NUL byte (`socks_destination_carried`).
-/
import Snell.Socks5Facts

namespace Snell

/-! ## CONNECT -/

/-- The bytes of a CONNECT request. -/
def connectImage (host : Str) (port : UInt16) (reuse : Bool) : Bytes :=
  [protocolVersion, if reuse then commandConnectV2 else commandConnect, 0] ++ hostPort host port

theorem length_connectImage (host : Str) (port : UInt16) (reuse : Bool) :
    (connectImage host port reuse).length = controlPrefixLen + host.len + 2 := by
  rw [connectImage, List.length_append, length_hostPort]
  simp only [List.length_cons, List.length_nil, controlPrefixLen]
  omega

theorem connectRequestLen_ok {T : IpText} {d : Address} (reuse : Bool)
    (hhost : 0 < (d.host T).len ∧ (d.host T).len ≤ maxDomainLen) :
    connectRequestLen T d = .ok (connectImage (d.host T) d.port reuse).length := by
  simp only [maxDomainLen] at hhost
  rw [connectRequestLen, connectLen, if_neg (by omega), length_connectImage]

theorem encodeConnectRequest_ok {T : IpText} {dst : Bytes} {d : Address} (reuse : Bool)
    (hhost : 0 < (d.host T).len ∧ (d.host T).len ≤ maxDomainLen)
    (hdst : (connectImage (d.host T) d.port reuse).length ≤ dst.length) :
    let image := connectImage (d.host T) d.port reuse
    encodeConnectRequest T dst d reuse = .ok (image.length, image ++ dst.drop image.length) := by
  intro image
  have hlen := connectRequestLen_ok reuse hhost
  rw [connectRequestLen] at hlen
  simp only [encodeConnectRequest, hlen, bind, Except.bind]
  exact fillPrefix_ok hdst

/-- A request fits the buffer it is written into. -/
theorem length_connectImage_le {host : Str} (hlen : host.len ≤ maxDomainLen) (port : UInt16) (reuse : Bool) :
    (connectImage host port reuse).length ≤ maxConnectRequestLen := by
  simp only [maxDomainLen] at hlen
  rw [length_connectImage, controlPrefixLen, maxConnectRequestLen]
  omega

/-- Parsing a CONNECT request is looking at its host. -/
theorem decodeConnectRequestPrefix_image {T : IpText} {host : Str} (hpos : 0 < host.len) (hlen : host.len ≤ maxDomainLen)
    (port : UInt16) (reuse : Bool) (rest : Bytes) :
    decodeConnectRequestPrefix T (connectImage host port reuse ++ rest) =
      (connectDestination T host port).map fun d => (⟨d, reuse⟩, (connectImage host port reuse).length) := by
  simp only [maxDomainLen] at hlen
  have hreuse : connectReuse (if reuse then commandConnectV2 else commandConnect) = .ok reuse := by
    cases reuse <;> rfl
  have hfield : connectHostField (hostPort host port ++ rest) (0 : UInt8).toNat = .ok (hostPort host port ++ rest) := by
    have hne : UInt8.ofNat host.len ≠ 0 := by
      intro h0
      have := congrArg UInt8.toNat h0
      rw [UInt8.toNat_ofNat', Nat.mod_eq_of_lt (by omega)] at this
      exact Nat.ne_of_gt hpos this
    simp only [connectHostField, hostPort, List.cons_append, UInt8.toNat_zero, Nat.not_lt_zero, ↓reduceIte,
      List.drop_zero, hne]
  simp only [connectImage, List.cons_append, List.nil_append, decodeConnectRequestPrefix, ne_eq, not_true_eq_false,
    ↓reduceIte, hreuse, hfield, splitHostPort_hostPort hlen, bind, Except.bind, pure, Except.pure, Except.map]
  cases connectDestination T host port with
  | error f => rfl
  | ok d =>
    simp only [List.length_cons, length_hostPort, controlHeadLen, UInt8.toNat_zero]
    rw [show 3 + 0 + (1 + host.len + 2) = 1 + host.len + 2 + 1 + 1 + 1 by omega]

/-- The destination the server is to get: a domain that is an IP literal
becomes that IP. -/
def Address.carried (T : IpText) (d : Address) : Address :=
  match d with
  | .ip addr => .ip addr
  | .domain host port =>
    match T.parse host with
    | some literal => .ip (.new literal port)
    | none => .domain host port

theorem connectDestination_nulFree (T : IpText) {d : Address} (h : d.Parsed) (hnul : d.NulFree) :
    connectDestination T (d.host T) d.port = .ok (d.carried T) := by
  cases d with
  | ip addr =>
    simp only [Address.host, connectDestination, T.parse_display, Address.carried]
    exact congrArg (fun a => Except.ok (Address.ip a)) h
  | domain host port =>
    simp only [Address.host, connectDestination, Address.carried]
    cases T.parse host with
    | some ip => rfl
    | none =>
      simp only [Address.ofDomain, validateDomain_iff h.1 h.2, if_neg hnul, bind, Except.bind]
      rfl

theorem connectDestination_nul (T : IpText) {d : Address} (h : d.Parsed) (hnul : ¬ d.NulFree) :
    connectDestination T (d.host T) d.port = .error (.err .hostContainsNul) := by
  cases d with
  | ip addr => exact absurd trivial hnul
  | domain host port =>
    have hnul : 0 ∈ host.bytes := not_not.mp hnul
    simp only [Address.host, connectDestination, T.parse_nul host hnul, Address.ofDomain, validateDomain_iff h.1 h.2,
      if_pos hnul, bind, Except.bind]

theorem host_len (T : IpText) {d : Address} (h : d.Parsed) :
    0 < (d.host T).len ∧ (d.host T).len ≤ maxDomainLen := by
  cases d with
  | ip addr =>
    obtain ⟨hpos, hle⟩ := T.display_len addr.ip
    exact ⟨hpos, Nat.le_trans hle (by decide)⟩
  | domain host port => exact h

/-- `d` gets through: it is written whatever was in the buffer, and the server
reads it whatever follows. -/
def Carries (T : IpText) (d : Address) (reuse : Bool) : Prop :=
  ∀ dst : Bytes, dst.length = maxConnectRequestLen → ∃ n out, encodeConnectRequest T dst d reuse = .ok (n, out) ∧
    ∀ rest, decodeConnectRequestPrefix T (out.take n ++ rest) = .ok (⟨d.carried T, reuse⟩, n)

/-- **What SOCKS5 accepts, CONNECT carries**, exactly if the host has no NUL. -/
theorem socks_destination_carried (T : IpText) {buf : Bytes} {r : Socks5.RequestRef} (reuse : Bool)
    (h : Socks5.requestNeed buf = .ok (.done r)) : Carries T r.destination reuse ↔ r.destination.NulFree := by
  have hparsed := Socks5.requestNeed_parsed h
  generalize r.destination = d at hparsed
  have hhost := host_len T hparsed
  have hfits := length_connectImage_le hhost.2 d.port reuse
  have hwritten : ∀ dst : Bytes, dst.length = maxConnectRequestLen → ∃ n out,
      encodeConnectRequest T dst d reuse = .ok (n, out) ∧ out.take n = connectImage (d.host T) d.port reuse := by
    intro dst hdst
    exact ⟨_, _, encodeConnectRequest_ok reuse hhost (by rw [hdst]; exact hfits), List.take_left⟩
  have hread := decodeConnectRequestPrefix_image (T := T) hhost.1 hhost.2 d.port reuse
  constructor
  · intro hcarries
    by_contra hnul
    obtain ⟨n, out, hencode, htake⟩ := hwritten (List.replicate maxConnectRequestLen 0) (by simp)
    obtain ⟨n', out', hencode', hdecode⟩ := hcarries (List.replicate maxConnectRequestLen 0) (by simp)
    cases hencode.symm.trans hencode'
    have := hdecode []
    rw [htake, hread, connectDestination_nul T hparsed hnul] at this
    cases this
  · intro hnul dst hdst
    refine ⟨_, _, encodeConnectRequest_ok reuse hhost (by rw [hdst]; exact hfits), fun rest => ?_⟩
    rw [List.take_left, hread, connectDestination_nulFree T hparsed hnul]
    rfl

theorem socks_destination_carried_domain :
    let host : Str := ⟨[0x61], by decide⟩
    Socks5.requestNeed [5, 1, 0, 3, 1, 0x61, 0, 80] = .ok (.done ⟨.connect, .domain host 80, 8⟩) ∧
      Carries .lettered (.domain host 80) true := by
  intro host
  have hrequest : Socks5.requestNeed [5, 1, 0, 3, 1, 0x61, 0, 80] = .ok (.done ⟨.connect, .domain host 80, 8⟩) := by decide
  refine ⟨hrequest, (socks_destination_carried .lettered true hrequest).mpr ?_⟩
  exact show (0 : UInt8) ∉ [0x61] by decide

/-- A host that is one NUL byte is accepted and sent, and the server refuses
the request. -/
theorem socks_nul_destination_refused :
    let host : Str := ⟨[0], by decide⟩
    let out := [1, 5, 0, 1, 0, 0, 80]
    Socks5.requestNeed [5, 1, 0, 3, 1, 0, 0, 80] = .ok (.done ⟨.connect, .domain host 80, 8⟩) ∧
      encodeConnectRequest .lettered (List.replicate maxConnectRequestLen 0) (.domain host 80) true =
        .ok (7, out ++ List.replicate 509 0) ∧
      decodeConnectRequestPrefix .lettered out = .error (.err .hostContainsNul) ∧
      ¬ Carries .lettered (.domain host 80) true := by
  intro host out
  have hwrite : encodeConnectRequest .lettered (List.replicate maxConnectRequestLen 0) (.domain host 80) true =
      .ok (7, out ++ List.replicate 509 0) := by decide +kernel
  have hread : decodeConnectRequestPrefix .lettered out = .error (.err .hostContainsNul) := by decide
  refine ⟨by decide, hwrite, hread, fun h => ?_⟩
  obtain ⟨n, dst, hencode, hdecode⟩ := h (List.replicate maxConnectRequestLen 0) (by simp)
  cases hwrite.symm.trans hencode
  have := hdecode []
  rw [List.append_nil] at this
  cases hread.symm.trans this

end Snell
