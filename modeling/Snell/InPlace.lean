/-
The message encoders of `control/mod.rs` and `socks5.rs` as they write into
the caller's slice: the destination is cut by `split_at_mut` into areas for
head, tag, host, port and payload, each filled by `copy_from_slice`, which
panics unless the area has the length of what it gets. What was written before
a failure stays written.

Each leaves exactly what its counterpart in `Snell.Control` and `Snell.Socks5`
returns (`encodeConnectRequest_eq` and so on), so it writes what its length
function says or nothing at all (`encoders_write_or_nothing`).
-/
import Snell.WireFormats

namespace Snell

/-! ## Writing into a slice -/

/-- A computation on the destination slice: its result, and the slice after. -/
structure Dst (α : Type) where
  run : Bytes → Res α × Bytes

namespace Dst

variable {α β : Type}

instance : Monad Dst where
  pure a := ⟨fun dst => (.ok a, dst)⟩
  bind x f := ⟨fun dst =>
    match x.run dst with
    | (.ok a, dst) => (f a).run dst
    | (.error e, dst) => (.error e, dst)⟩

/-- A computation that does not look at the slice, `?` included. -/
def of (r : Res α) : Dst α := ⟨fun dst => (r, dst)⟩

theorem run_pure (a : α) (dst : Bytes) : (pure a : Dst α).run dst = (.ok a, dst) := rfl

theorem run_of (r : Res α) (dst : Bytes) : (of r).run dst = (r, dst) := rfl

theorem bind_ok {x : Dst α} {f : α → Dst β} {dst dst' : Bytes} {a : α} (h : x.run dst = (.ok a, dst')) :
    (x >>= f).run dst = (f a).run dst' := by
  simp only [bind, h]

theorem bind_error {x : Dst α} {f : α → Dst β} {dst dst' : Bytes} {e : Fault} (h : x.run dst = (.error e, dst')) :
    (x >>= f).run dst = (.error e, dst') := by
  simp only [bind, h]

end Dst

/-- A part of the destination slice. -/
structure Area where
  start : Nat
  len : Nat

/-- `dst_prefix` -/
def dstPrefix (needed : Nat) : Dst Area := ⟨fun dst =>
  if needed ≤ dst.length then (.ok ⟨0, needed⟩, dst) else (.error (.err (.bufferTooSmall needed dst.length)), dst)⟩

namespace Area

def splitAtMut (a : Area) (mid : Nat) : Dst (Area × Area) :=
  if mid ≤ a.len then pure (⟨a.start, mid⟩, ⟨a.start + mid, a.len - mid⟩) else .of (.error .panic)

def copyFromSlice (a : Area) (src : Bytes) : Dst Unit := ⟨fun dst =>
  if src.length = a.len then (.ok (), dst.take a.start ++ src ++ dst.drop (a.start + src.length))
  else (.error .panic, dst)⟩

/-- `area[i] = b` -/
def setByte (a : Area) (i : Nat) (b : UInt8) : Dst Unit := ⟨fun dst =>
  if i < a.len then (.ok (), dst.set (a.start + i) b) else (.error .panic, dst)⟩

theorem splitAtMut_ok {start len mid : Nat} (h : mid ≤ len) (dst : Bytes) :
    ((Area.mk start len).splitAtMut mid).run dst = (.ok (⟨start, mid⟩, ⟨start + mid, len - mid⟩), dst) := by
  rw [splitAtMut, if_pos h, Dst.run_pure]

/-- Filling the area behind what is written already. -/
theorem copyFromSlice_next {image dst src : Bytes} {start len : Nat} (hstart : start = image.length)
    (hlen : src.length = len) :
    ((Area.mk start len).copyFromSlice src).run (image ++ dst.drop image.length) =
      (.ok (), (image ++ src) ++ dst.drop (image ++ src).length) := by
  subst hstart
  have hdrop : (image ++ dst.drop image.length).drop (image.length + src.length) =
      dst.drop (image ++ src).length := by
    rw [List.drop_append, List.drop_eq_nil_of_le (by omega), List.nil_append, List.drop_drop, List.length_append]
    congr 1
    omega
  simp only [copyFromSlice, if_pos hlen, List.take_left, hdrop]

theorem setByte_next {image dst : Bytes} {start len : Nat} (b : UInt8) (hstart : start = image.length) (hlen : 0 < len)
    (hdst : image.length < dst.length) :
    ((Area.mk start len).setByte 0 b).run (image ++ dst.drop image.length) =
      (.ok (), (image ++ [b]) ++ dst.drop (image ++ [b]).length) := by
  subst hstart
  have hset : (image ++ dst.drop image.length).set (image.length + 0) b =
      (image ++ [b]) ++ dst.drop (image ++ [b]).length := by
    rw [Nat.add_zero, List.set_append_right _ _ (Nat.le_refl _), Nat.sub_self, List.drop_eq_getElem_cons hdst,
      List.set_cons_zero, List.length_append, List.append_assoc]
    rfl
  simp only [setByte, if_pos hlen, hset]

end Area

theorem dstPrefix_ok {needed : Nat} {dst : Bytes} (h : needed ≤ dst.length) :
    (dstPrefix needed).run dst = (.ok ⟨0, needed⟩, [] ++ dst.drop ([] : Bytes).length) := by
  simp only [dstPrefix, if_pos h]
  rfl

theorem dstPrefix_small {needed : Nat} {dst : Bytes} (h : dst.length < needed) :
    (dstPrefix needed).run dst = (.error (.err (.bufferTooSmall needed dst.length)), dst) := by
  simp only [dstPrefix, if_neg (Nat.not_le.mpr h)]

/-! ## The encoders -/

namespace InPlace

def encodeConnectRequest (T : IpText) (destination : Address) (reuse : Bool) : Dst Nat := do
  let host := destination.host T
  let needed ← Dst.of (connectLen host.len)
  let wire := [protocolVersion, if reuse then commandConnectV2 else commandConnect, 0, UInt8.ofNat host.len]
  let (head, rest) ← (← dstPrefix needed).splitAtMut controlPrefixLen
  head.copyFromSlice wire
  let (hostDst, portDst) ← rest.splitAtMut host.len
  hostDst.copyFromSlice host.bytes
  portDst.copyFromSlice (portBytes destination.port)
  return needed

def encodeUdpSetup : Dst Nat := do
  (← dstPrefix controlHeadLen).copyFromSlice [protocolVersion, commandUdp, 0]
  return controlHeadLen

def encodeTunnelReply : Dst Nat := do
  (← dstPrefix 1).setByte 0 commandTunnel
  return 1

def encodeReject (message : Str) : Dst Nat := do
  let msg := message.bytes.take (min message.len 255)
  let needed := 3 + msg.length
  let (head, tail) ← (← dstPrefix needed).splitAtMut 3
  head.copyFromSlice [commandError, errorReject, UInt8.ofNat msg.length]
  tail.copyFromSlice msg
  return needed

/-- The tag and the address bytes of a datagram. -/
def udpAddr : Address → UInt8 × Bytes
  | .domain host _ => (UInt8.ofNat host.len, host.bytes)
  | .ip (.v4 ip _) => (atypIpv4, ip.toList)
  | .ip (.v6 ip _ _ _) => (atypIpv6, ip.toList)

def encodeUdpDatagram (headerLen : Nat) (marker : Bytes) (address : Address) (payload : Bytes) : Dst Nat := do
  let needed := headerLen + payload.length
  let (header, payloadDst) ← (← dstPrefix needed).splitAtMut headerLen
  let (markerDst, tail) ← header.splitAtMut marker.length
  markerDst.copyFromSlice marker
  let (tag, addr) := udpAddr address
  let (tagDst, rest) ← tail.splitAtMut 1
  tagDst.setByte 0 tag
  let (addrDst, portDst) ← rest.splitAtMut addr.length
  addrDst.copyFromSlice addr
  portDst.copyFromSlice (portBytes address.port)
  payloadDst.copyFromSlice payload
  return needed

def encodeUdpRequest (address : Address) (payload : Bytes) : Dst Nat := do
  let headerLen ← Dst.of (udpRequestHeaderLen address)
  encodeUdpDatagram headerLen (udpRequestMarker address) address payload

def encodeUdpResponse (source : SocketAddr) (payload : Bytes) : Dst Nat :=
  encodeUdpDatagram (udpResponseLen source 0) [] (.ip source) payload

/-- The tag and the address bytes of a SOCKS5 message. -/
def socksAddr : Address → Bytes × Bytes
  | .ip (.v4 ip _) => ([Socks5.atypIpv4], ip.toList)
  | .ip (.v6 ip _ _ _) => ([Socks5.atypIpv6], ip.toList)
  | .domain host _ => ([Socks5.atypDomain, UInt8.ofNat host.len], host.bytes)

/-- `dst` is exactly `3 + encoded_addr_len(address)` bytes. -/
def writeThreeAddr (dst : Area) (head : Bytes) (address : Address) : Dst Unit := do
  let (headDst, field) ← dst.splitAtMut 3
  headDst.copyFromSlice head
  let (tag, addr) := socksAddr address
  let (tagDst, rest) ← field.splitAtMut tag.length
  tagDst.copyFromSlice tag
  let (addrDst, portDst) ← rest.splitAtMut addr.length
  addrDst.copyFromSlice addr
  portDst.copyFromSlice (portBytes address.port)

def encodeThreeAddr (b₀ b₁ b₂ : UInt8) (address : Address) : Dst Nat := do
  let needed := 3 + (← Dst.of (Socks5.encodedAddrLen address))
  writeThreeAddr (← dstPrefix needed) [b₀, b₁, b₂] address
  return needed

def encodeRequest (command : Socks5.Command) (destination : Address) : Dst Nat :=
  encodeThreeAddr Socks5.version command.byte 0 destination

def encodeReply (reply : Socks5.Reply) (bind : Address) : Dst Nat :=
  encodeThreeAddr Socks5.version reply.byte 0 bind

def encodeUdpHeader (frag : UInt8) (destination : Address) : Dst Nat := encodeThreeAddr 0 0 frag destination

def encodeUdpPacket (frag : UInt8) (destination : Address) (payload : Bytes) : Dst Nat := do
  let headerLen := 3 + (← Dst.of (Socks5.encodedAddrLen destination))
  let needed := headerLen + payload.length
  let (header, payloadDst) ← (← dstPrefix needed).splitAtMut headerLen
  writeThreeAddr header [0, 0, frag] destination
  payloadDst.copyFromSlice payload
  return needed

/-! ## What they leave -/

/-- The slice after an encoder that returned it, and the untouched one after
an encoder that failed. -/
def settle (dst : Bytes) : Res (Nat × Bytes) → Res Nat × Bytes
  | .ok (n, out) => (.ok n, out)
  | .error f => (.error f, dst)

theorem settle_ok {dst image : Bytes} {needed : Nat} (hlen : image.length = needed) (h : needed ≤ dst.length) :
    settle dst (fillPrefix dst needed image) = (.ok needed, image ++ dst.drop image.length) := by
  subst hlen
  rw [fillPrefix_ok h]
  rfl

theorem settle_small {dst image : Bytes} {needed : Nat} (h : dst.length < needed) :
    settle dst (fillPrefix dst needed image) = (.error (.err (.bufferTooSmall needed dst.length)), dst) := by
  rw [fillPrefix, if_pos h]
  rfl

theorem encodeConnectRequest_eq (T : IpText) (destination : Address) (reuse : Bool) (dst : Bytes) :
    (encodeConnectRequest T destination reuse).run dst =
      settle dst (Snell.encodeConnectRequest T dst destination reuse) := by
  simp only [encodeConnectRequest, Snell.encodeConnectRequest]
  generalize destination.host T = host
  by_cases hhost : host.len = 0 ∨ 255 < host.len
  · have hlen : connectLen host.len = .error (.err .hostTooLong) := if_pos hhost
    rw [hlen, Dst.bind_error (Dst.run_of _ _)]
    rfl
  · have hlen : connectLen host.len = .ok (controlPrefixLen + host.len + 2) := if_neg hhost
    rw [hlen, Dst.bind_ok (Dst.run_of _ _)]
    change _ = settle dst (fillPrefix dst (controlPrefixLen + host.len + 2) _)
    rcases Nat.lt_or_ge dst.length (controlPrefixLen + host.len + 2) with hsmall | hfits
    · rw [settle_small hsmall]
      exact Dst.bind_error (dstPrefix_small hsmall)
    · rw [settle_ok (by simp only [List.length_append, List.length_cons, List.length_nil, controlPrefixLen,
        length_portBytes, Str.len]) hfits]
      refine (Dst.bind_ok (dstPrefix_ok hfits)).trans ?_
      refine (Dst.bind_ok (Area.splitAtMut_ok (by omega) _)).trans ?_
      refine (Dst.bind_ok (Area.copyFromSlice_next (by rfl) (by rfl))).trans ?_
      refine (Dst.bind_ok (Area.splitAtMut_ok (by omega) _)).trans ?_
      refine (Dst.bind_ok (Area.copyFromSlice_next (by rfl) (by rfl))).trans ?_
      refine (Dst.bind_ok (Area.copyFromSlice_next ?_ ?_)).trans ?_
      · simp only [List.length_append, List.length_cons, List.length_nil, controlPrefixLen, Str.len]
      · rw [length_portBytes]; omega
      · rfl

theorem encodeUdpSetup_eq (dst : Bytes) : encodeUdpSetup.run dst = settle dst (Snell.encodeUdpSetup dst) := by
  rcases Nat.lt_or_ge dst.length controlHeadLen with hsmall | hfits
  · rw [Snell.encodeUdpSetup, settle_small hsmall]
    exact Dst.bind_error (dstPrefix_small hsmall)
  · rw [Snell.encodeUdpSetup, settle_ok (by rfl) hfits]
    refine (Dst.bind_ok (dstPrefix_ok hfits)).trans ?_
    refine (Dst.bind_ok (Area.copyFromSlice_next (by rfl) (by rfl))).trans ?_
    rfl

theorem encodeTunnelReply_eq (dst : Bytes) : encodeTunnelReply.run dst = settle dst (Snell.encodeTunnelReply dst) := by
  rcases Nat.lt_or_ge dst.length 1 with hsmall | hfits
  · rw [Snell.encodeTunnelReply, settle_small hsmall]
    exact Dst.bind_error (dstPrefix_small hsmall)
  · rw [Snell.encodeTunnelReply, settle_ok (by rfl) hfits]
    refine (Dst.bind_ok (dstPrefix_ok hfits)).trans ?_
    refine (Dst.bind_ok (Area.setByte_next _ (by rfl) (by decide) (by exact hfits))).trans ?_
    rfl

theorem encodeReject_eq (message : Str) (dst : Bytes) :
    (encodeReject message).run dst = settle dst (Snell.encodeReject dst message) := by
  simp only [encodeReject, Snell.encodeReject]
  generalize message.bytes.take (min message.len 255) = msg
  rcases Nat.lt_or_ge dst.length (3 + msg.length) with hsmall | hfits
  · rw [settle_small hsmall]
    exact Dst.bind_error (dstPrefix_small hsmall)
  · rw [settle_ok (by rw [List.length_append]; rfl) hfits]
    refine (Dst.bind_ok (dstPrefix_ok hfits)).trans ?_
    refine (Dst.bind_ok (Area.splitAtMut_ok (by omega) _)).trans ?_
    refine (Dst.bind_ok (Area.copyFromSlice_next (by rfl) (by rfl))).trans ?_
    refine (Dst.bind_ok (Area.copyFromSlice_next (by rfl) ?_)).trans ?_
    · omega
    · rfl

/-! ### Datagrams -/

theorem udpTail_eq (address : Address) :
    udpTail address = [(udpAddr address).1] ++ (udpAddr address).2 ++ portBytes address.port := by
  rcases address with (_ | _) | _ <;> rfl

/-- A header as long as its parts is filled to the last byte. -/
theorem encodeUdpDatagram_eq {headerLen : Nat} {marker : Bytes} {address : Address}
    (hlen : headerLen = marker.length + (udpTail address).length) (payload dst : Bytes) :
    (encodeUdpDatagram headerLen marker address payload).run dst =
      settle dst (Snell.encodeUdpDatagram dst headerLen marker address payload) := by
  simp only [encodeUdpDatagram, Snell.encodeUdpDatagram]
  have htail := udpTail_eq address
  have htlen : (udpTail address).length = 1 + (udpAddr address).2.length + 2 := by
    rw [htail, List.length_append, List.length_append, length_portBytes]; rfl
  rcases Nat.lt_or_ge dst.length (headerLen + payload.length) with hsmall | hfits
  · rw [settle_small hsmall]
    exact Dst.bind_error (dstPrefix_small hsmall)
  · rw [settle_ok (by rw [List.length_append, List.length_append]; omega) hfits]
    refine (Dst.bind_ok (dstPrefix_ok hfits)).trans ?_
    refine (Dst.bind_ok (Area.splitAtMut_ok (by omega) _)).trans ?_
    refine (Dst.bind_ok (Area.splitAtMut_ok (by omega) _)).trans ?_
    refine (Dst.bind_ok (Area.copyFromSlice_next (by rfl) (by rfl))).trans ?_
    refine (Dst.bind_ok (Area.splitAtMut_ok (by omega) _)).trans ?_
    refine (Dst.bind_ok (Area.setByte_next _ ?_ (by decide) ?_)).trans ?_
    · exact Nat.zero_add _
    · rw [List.nil_append]; omega
    refine (Dst.bind_ok (Area.splitAtMut_ok (by omega) _)).trans ?_
    refine (Dst.bind_ok (Area.copyFromSlice_next ?_ (by rfl))).trans ?_
    · simp only [List.nil_append, List.length_append, List.length_cons, List.length_nil, Nat.zero_add]
    refine (Dst.bind_ok (Area.copyFromSlice_next ?_ ?_)).trans ?_
    · simp only [List.nil_append, List.length_append, List.length_cons, List.length_nil, Nat.zero_add]
    · rw [length_portBytes]; omega
    refine (Dst.bind_ok (Area.copyFromSlice_next ?_ ?_)).trans ?_
    · simp only [List.nil_append, List.length_append, List.length_cons, List.length_nil, length_portBytes]; omega
    · omega
    rw [Dst.run_pure, htail]
    simp only [List.nil_append, List.append_assoc]

theorem encodeUdpRequest_eq (address : Address) (payload dst : Bytes) :
    (encodeUdpRequest address payload).run dst = settle dst (Snell.encodeUdpRequest dst address payload) := by
  simp only [encodeUdpRequest, Snell.encodeUdpRequest]
  cases hlen : udpRequestHeaderLen address with
  | error f =>
    rw [Dst.bind_error (Dst.run_of _ _)]
    rfl
  | ok headerLen =>
    rw [Dst.bind_ok (Dst.run_of _ _)]
    refine encodeUdpDatagram_eq ?_ payload dst
    obtain ⟨he, -⟩ | ⟨-, err, herr⟩ := udpTailLen_cases address
    · rw [udpRequestHeaderLen_encodable he, List.length_append] at hlen
      exact (Except.ok.inj hlen).symm
    · simp only [udpRequestHeaderLen, herr, bind, Except.bind] at hlen
      cases hlen

theorem encodeUdpResponse_eq (source : SocketAddr) (payload dst : Bytes) :
    (encodeUdpResponse source payload).run dst = settle dst (Snell.encodeUdpResponse dst source payload) := by
  refine encodeUdpDatagram_eq ?_ payload dst
  cases source <;> simp [udpResponseLen, udpTail]

/-! ### SOCKS5 -/

theorem addrField_eq (address : Address) :
    Socks5.addrField address = (socksAddr address).1 ++ (socksAddr address).2 ++ portBytes address.port := by
  rcases address with (_ | _) | _ <;> rfl

theorem writeThreeAddr_eq (b₀ b₁ b₂ : UInt8) (address : Address) (dst : Bytes) :
    (writeThreeAddr ⟨0, 3 + (Socks5.addrField address).length⟩ [b₀, b₁, b₂] address).run
        ([] ++ dst.drop ([] : Bytes).length) =
      (.ok (), ([b₀, b₁, b₂] ++ Socks5.addrField address) ++
        dst.drop ([b₀, b₁, b₂] ++ Socks5.addrField address).length) := by
  have hfield := addrField_eq address
  simp only [writeThreeAddr]
  generalize socksAddr address = pair at *
  obtain ⟨tag, addr⟩ := pair
  dsimp only at hfield ⊢
  have hlen : (Socks5.addrField address).length = tag.length + addr.length + 2 := by
    rw [hfield, List.length_append, List.length_append, length_portBytes]
  refine (Dst.bind_ok (Area.splitAtMut_ok (by omega) _)).trans ?_
  refine (Dst.bind_ok (Area.copyFromSlice_next (by rfl) (by rfl))).trans ?_
  refine (Dst.bind_ok (Area.splitAtMut_ok (by omega) _)).trans ?_
  refine (Dst.bind_ok (Area.copyFromSlice_next (by rfl) (by rfl))).trans ?_
  refine (Dst.bind_ok (Area.splitAtMut_ok (by omega) _)).trans ?_
  refine (Dst.bind_ok (Area.copyFromSlice_next ?_ (by rfl))).trans ?_
  · simp only [List.nil_append, List.length_append, List.length_cons, List.length_nil]
  refine (Area.copyFromSlice_next ?_ ?_).trans ?_
  · simp only [List.nil_append, List.length_append, List.length_cons, List.length_nil]
  · rw [length_portBytes]; omega
  · rw [hfield]
    simp only [List.nil_append, List.append_assoc]

theorem encodeThreeAddr_eq (b₀ b₁ b₂ : UInt8) (address : Address) (dst : Bytes) :
    (encodeThreeAddr b₀ b₁ b₂ address).run dst = settle dst (Socks5.encodeThreeAddr dst b₀ b₁ b₂ address) := by
  simp only [encodeThreeAddr, Socks5.encodeThreeAddr]
  rcases Socks5.encodedAddrLen_cases address with hlen | hlen | hlen
  · rw [hlen, Dst.bind_ok (Dst.run_of _ _)]
    change _ = settle dst (fillPrefix dst (3 + (Socks5.addrField address).length) _)
    rcases Nat.lt_or_ge dst.length (3 + (Socks5.addrField address).length) with hsmall | hfits
    · rw [settle_small hsmall]
      exact Dst.bind_error (dstPrefix_small hsmall)
    · rw [settle_ok (by rw [List.length_append]; rfl) hfits]
      refine (Dst.bind_ok (dstPrefix_ok hfits)).trans ?_
      refine (Dst.bind_ok (writeThreeAddr_eq b₀ b₁ b₂ address dst)).trans ?_
      rfl
  · rw [hlen, Dst.bind_error (Dst.run_of _ _)]
    rfl
  · rw [hlen, Dst.bind_error (Dst.run_of _ _)]
    rfl

theorem encodeUdpPacket_eq (frag : UInt8) (destination : Address) (payload dst : Bytes) :
    (encodeUdpPacket frag destination payload).run dst =
      settle dst (Socks5.encodeUdpPacket dst frag destination payload) := by
  simp only [encodeUdpPacket, Socks5.encodeUdpPacket]
  rcases Socks5.encodedAddrLen_cases destination with hlen | hlen | hlen
  · rw [hlen, Dst.bind_ok (Dst.run_of _ _)]
    change _ = settle dst (fillPrefix dst (3 + (Socks5.addrField destination).length + payload.length) _)
    rcases Nat.lt_or_ge dst.length (3 + (Socks5.addrField destination).length + payload.length) with hsmall | hfits
    · rw [settle_small hsmall]
      exact Dst.bind_error (dstPrefix_small hsmall)
    · rw [settle_ok (by rw [List.length_append, List.length_append]; rfl) hfits]
      refine (Dst.bind_ok (dstPrefix_ok hfits)).trans ?_
      refine (Dst.bind_ok (Area.splitAtMut_ok (by omega) _)).trans ?_
      refine (Dst.bind_ok (writeThreeAddr_eq 0 0 frag destination dst)).trans ?_
      refine (Dst.bind_ok (Area.copyFromSlice_next ?_ ?_)).trans ?_
      · simp only [List.length_append, List.length_cons, List.length_nil]; omega
      · omega
      · rfl
  · rw [hlen, Dst.bind_error (Dst.run_of _ _)]
    rfl
  · rw [hlen, Dst.bind_error (Dst.run_of _ _)]
    rfl

/-! ## The frame -/

/-- An encoder that writes what its length function says, or nothing: `len` is
the length its arguments take, or what is wrong with them. -/
structure WritesOrNothing (encode : Dst Nat) (len : Res Nat) : Prop where
  /-- On success nothing behind the message has changed. -/
  written : ∀ {dst out n}, encode.run dst = (.ok n, out) →
    len = .ok n ∧ n ≤ dst.length ∧ out.length = dst.length ∧ ∀ i, n ≤ i → out[i]? = dst[i]?
  /-- The message does not depend on what was there. -/
  fresh : ∀ {dst dst' out out' n n'}, encode.run dst = (.ok n, out) → encode.run dst' = (.ok n', out') →
    n = n' ∧ out.take n = out'.take n
  /-- A failure leaves the slice as it was. -/
  untouched : ∀ {dst out f}, encode.run dst = (.error f, out) → out = dst
  small : ∀ dst needed available, (encode.run dst).1 = .error (.err (.bufferTooSmall needed available)) ↔
    len = .ok needed ∧ dst.length < needed ∧ available = dst.length
  /-- Valid arguments and a slice that is long enough succeed. -/
  fits : ∀ {dst n}, len = .ok n → n ≤ dst.length → (encode.run dst).1 = .ok n
  /-- No `split_at_mut`, `copy_from_slice` or index panics. -/
  no_panic : ∀ dst, (encode.run dst).1 ≠ .error .panic

theorem settle_fillPrefix_cases (dst : Bytes) {image : Bytes} {needed : Nat} (hlen : image.length = needed) :
    (dst.length < needed ∧
        settle dst (fillPrefix dst needed image) = (.error (.err (.bufferTooSmall needed dst.length)), dst)) ∨
      (needed ≤ dst.length ∧ settle dst (fillPrefix dst needed image) = (.ok needed, image ++ dst.drop needed)) := by
  rcases Nat.lt_or_ge dst.length needed with hsmall | hfits
  · exact .inl ⟨hsmall, settle_small hsmall⟩
  · refine .inr ⟨hfits, (settle_ok hlen hfits).trans ?_⟩
    rw [hlen]

theorem writesOrNothing_of {encode : Dst Nat} {len : Res Nat} (image : Bytes)
    (hrun : ∀ dst, encode.run dst = settle dst (len >>= fun needed => fillPrefix dst needed image))
    (hlen : ∀ n, len = .ok n → image.length = n)
    (hfault : ∀ f, len = .error f → f ≠ .panic ∧ ∀ needed available, f ≠ .err (.bufferTooSmall needed available)) :
    WritesOrNothing encode len := by
  cases len with
  | error f =>
    have hrun' : ∀ dst, encode.run dst = (.error f, dst) := hrun
    obtain ⟨hpanic, hsmall⟩ := hfault f rfl
    refine ⟨?_, ?_, ?_, ?_, ?_, ?_⟩
    · intro dst out n h; rw [hrun'] at h; cases h
    · intro dst dst' out out' n n' h; rw [hrun'] at h; cases h
    · intro dst out f' h; rw [hrun'] at h; cases h; rfl
    · intro dst needed available
      rw [hrun']
      exact ⟨fun h => absurd (Except.error.inj h) (hsmall needed available), fun h => by cases h.1⟩
    · intro dst n h; cases h
    · intro dst h; rw [hrun'] at h; exact hpanic (Except.error.inj h)
  | ok needed =>
    have himage := hlen needed rfl
    have hrun' : ∀ dst, encode.run dst = settle dst (fillPrefix dst needed image) := hrun
    -- what a successful run leaves
    have hok : ∀ {dst out n}, encode.run dst = (.ok n, out) →
        n = needed ∧ needed ≤ dst.length ∧ out = image ++ dst.drop needed := by
      intro dst out n h
      rw [hrun'] at h
      rcases settle_fillPrefix_cases dst himage with ⟨-, hs⟩ | ⟨hfits, hs⟩
      · rw [hs] at h; cases h
      · rw [hs] at h; cases h; exact ⟨rfl, hfits, rfl⟩
    refine ⟨?_, ?_, ?_, ?_, ?_, ?_⟩
    · intro dst out n h
      obtain ⟨rfl, hfits, rfl⟩ := hok h
      refine ⟨rfl, hfits, by rw [List.length_append, List.length_drop]; omega, fun i hi => ?_⟩
      rw [List.getElem?_append_right (by omega), List.getElem?_drop]
      congr 1
      omega
    · intro dst dst' out out' n n' h h'
      obtain ⟨rfl, -, rfl⟩ := hok h
      obtain ⟨rfl, -, rfl⟩ := hok h'
      rw [List.take_left' himage, List.take_left' himage]
      exact ⟨rfl, rfl⟩
    · intro dst out f h
      rw [hrun'] at h
      rcases settle_fillPrefix_cases dst himage with ⟨-, hs⟩ | ⟨-, hs⟩
      · rw [hs] at h; cases h; rfl
      · rw [hs] at h; cases h
    · intro dst n available
      rw [hrun']
      rcases settle_fillPrefix_cases dst himage with ⟨hsmall, hs⟩ | ⟨hfits, hs⟩
      · rw [hs]
        constructor
        · intro h; cases h; exact ⟨rfl, hsmall, rfl⟩
        · rintro ⟨h, -, rfl⟩; cases h; rfl
      · rw [hs]
        constructor
        · intro h; cases h
        · rintro ⟨h, hlt, -⟩; cases h; omega
    · intro dst n h hle
      cases h
      rw [hrun']
      rcases settle_fillPrefix_cases dst himage with ⟨hsmall, -⟩ | ⟨-, hs⟩
      · omega
      · rw [hs]
    · intro dst
      rw [hrun']
      rcases settle_fillPrefix_cases dst himage with ⟨-, hs⟩ | ⟨-, hs⟩ <;> rw [hs] <;> exact nofun

/-! ### Lengths -/

theorem bind_map_fillPrefix (x : Res Nat) (g : Nat → Nat) (dst image : Bytes) :
    (x >>= fun len => fillPrefix dst (g len) image) = ((x.map g) >>= fun needed => fillPrefix dst needed image) := by
  cases x <;> rfl

theorem validateDomain_fault {host : Str} {f : Fault} (h : validateDomain host = .error f) :
    f ≠ .panic ∧ ∀ needed available, f ≠ .err (.bufferTooSmall needed available) := by
  unfold validateDomain at h
  split at h
  · cases h; exact ⟨nofun, nofun⟩
  split at h
  · cases h; exact ⟨nofun, nofun⟩
  split at h
  · cases h; exact ⟨nofun, nofun⟩
  · cases h

theorem udpRequestLen_fault {address : Address} {n : Nat} {f : Fault} (h : udpRequestLen address n = .error f) :
    f ≠ .panic ∧ ∀ needed available, f ≠ .err (.bufferTooSmall needed available) := by
  rcases address with (_ | _) | ⟨host, port⟩
  · cases h
  · cases h
  · cases hv : validateDomain host with
    | ok u =>
      simp only [udpRequestLen, udpRequestHeaderLen, udpTailLen, hv, bind, Except.bind] at h
      cases h
    | error f' =>
      simp only [udpRequestLen, udpRequestHeaderLen, udpTailLen, hv, bind, Except.bind] at h
      cases h
      exact validateDomain_fault hv

theorem encodedAddrLen_fault {address : Address} {g : Nat → Nat} {f : Fault}
    (h : (Socks5.encodedAddrLen address).map g = .error f) :
    f ≠ .panic ∧ ∀ needed available, f ≠ .err (.bufferTooSmall needed available) := by
  rcases Socks5.encodedAddrLen_cases address with hlen | hlen | hlen <;> rw [hlen] at h <;> cases h
  · exact ⟨nofun, nofun⟩
  · exact ⟨nofun, nofun⟩

theorem encodedAddrLen_map {address : Address} {g : Nat → Nat} {n : Nat}
    (h : (Socks5.encodedAddrLen address).map g = .ok n) : g (Socks5.addrField address).length = n := by
  rcases Socks5.encodedAddrLen_cases address with hlen | hlen | hlen <;> rw [hlen] at h <;> cases h
  rfl

/-! ### Each encoder -/

theorem encodeConnectRequest_frame (T : IpText) (destination : Address) (reuse : Bool) :
    WritesOrNothing (encodeConnectRequest T destination reuse) (connectRequestLen T destination) := by
  refine writesOrNothing_of _ (encodeConnectRequest_eq T destination reuse) ?_ ?_
  · intro n h
    simp only [connectRequestLen, connectLen] at h
    split at h
    · cases h
    · cases h
      simp only [List.length_append, List.length_cons, List.length_nil, length_portBytes, controlPrefixLen, Str.len]
  · intro f h
    simp only [connectRequestLen, connectLen] at h
    split at h
    · cases h
      exact ⟨fun h => (by cases h), fun _ _ h => by cases h⟩
    · cases h

theorem encodeUdpRequest_frame (address : Address) (payload : Bytes) :
    WritesOrNothing (encodeUdpRequest address payload) (udpRequestLen address payload.length) := by
  refine writesOrNothing_of (udpRequestMarker address ++ udpTail address ++ payload)
    (fun dst => ?_) (fun n h => ?_) fun f h => udpRequestLen_fault h
  · rw [encodeUdpRequest_eq]
    exact congrArg (settle dst) (bind_map_fillPrefix _ (· + payload.length) dst _)
  · obtain ⟨he, -⟩ | ⟨-, err, herr⟩ := udpTailLen_cases address
    · rw [udpRequestLen_encodable he] at h
      exact Except.ok.inj h
    · simp only [udpRequestLen, udpRequestHeaderLen, herr, bind, Except.bind] at h
      cases h

theorem encodeUdpResponse_frame (source : SocketAddr) (payload : Bytes) :
    WritesOrNothing (encodeUdpResponse source payload) (.ok (udpResponseLen source payload.length)) := by
  refine writesOrNothing_of ([] ++ udpTail (.ip source) ++ payload) (fun dst => ?_) (fun n h => ?_) nofun
  · rw [encodeUdpResponse_eq]
    rfl
  · cases h
    cases source <;>
      simp only [udpResponseLen, udpTail, List.nil_append, List.length_append, List.length_cons,
        List.Vector.toList_length, length_portBytes]

theorem encodeThreeAddr_frame (b₀ b₁ b₂ : UInt8) (address : Address) :
    WritesOrNothing (encodeThreeAddr b₀ b₁ b₂ address) ((Socks5.encodedAddrLen address).map (3 + ·)) := by
  refine writesOrNothing_of ([b₀, b₁, b₂] ++ Socks5.addrField address)
    (fun dst => ?_) (fun n h => ?_) fun f h => encodedAddrLen_fault h
  · rw [encodeThreeAddr_eq]
    exact congrArg (settle dst) (bind_map_fillPrefix _ (3 + ·) dst _)
  · rw [List.length_append, ← encodedAddrLen_map h]
    rfl

theorem encodeUdpPacket_frame (frag : UInt8) (destination : Address) (payload : Bytes) :
    WritesOrNothing (encodeUdpPacket frag destination payload)
      ((Socks5.encodedAddrLen destination).map (3 + · + payload.length)) := by
  refine writesOrNothing_of ([0, 0, frag] ++ Socks5.addrField destination ++ payload)
    (fun dst => ?_) (fun n h => ?_) fun f h => encodedAddrLen_fault h
  · rw [encodeUdpPacket_eq]
    exact congrArg (settle dst) (bind_map_fillPrefix _ (3 + · + payload.length) dst _)
  · rw [List.length_append, List.length_append, ← encodedAddrLen_map h]
    rfl

/-- **Every message encoder writes exactly what its length function promises,
or nothing.** -/
theorem encoders_write_or_nothing (T : IpText) :
    (∀ destination reuse, WritesOrNothing (encodeConnectRequest T destination reuse)
      (connectRequestLen T destination)) ∧
    WritesOrNothing encodeUdpSetup (.ok 3) ∧
    WritesOrNothing encodeTunnelReply (.ok 1) ∧
    (∀ message, WritesOrNothing (encodeReject message) (.ok (3 + min message.len 255))) ∧
    (∀ address payload, WritesOrNothing (encodeUdpRequest address payload) (udpRequestLen address payload.length)) ∧
    (∀ source payload, WritesOrNothing (encodeUdpResponse source payload)
      (.ok (udpResponseLen source payload.length))) ∧
    (∀ command destination, WritesOrNothing (encodeRequest command destination)
      ((Socks5.encodedAddrLen destination).map (3 + ·))) ∧
    (∀ reply bind, WritesOrNothing (encodeReply reply bind) ((Socks5.encodedAddrLen bind).map (3 + ·))) ∧
    (∀ frag destination, WritesOrNothing (encodeUdpHeader frag destination)
      ((Socks5.encodedAddrLen destination).map (3 + ·))) ∧
    ∀ frag destination payload, WritesOrNothing (encodeUdpPacket frag destination payload)
      ((Socks5.encodedAddrLen destination).map (3 + · + payload.length)) := by
  refine ⟨encodeConnectRequest_frame T, ?_, ?_, ?_, encodeUdpRequest_frame, encodeUdpResponse_frame,
    fun command destination => encodeThreeAddr_frame _ _ _ destination,
    fun reply bind => encodeThreeAddr_frame _ _ _ bind,
    fun frag destination => encodeThreeAddr_frame _ _ _ destination, encodeUdpPacket_frame⟩
  · exact writesOrNothing_of _ encodeUdpSetup_eq (fun n h => by cases h; rfl) nofun
  · exact writesOrNothing_of _ encodeTunnelReply_eq (fun n h => by cases h; rfl) nofun
  · intro message
    have hmsg : (message.bytes.take (min message.len 255)).length = min message.len 255 := by
      rw [List.length_take, Str.len]; omega
    rw [← hmsg]
    refine writesOrNothing_of _ (encodeReject_eq message) (fun n h => ?_) nofun
    cases h
    rw [List.length_append]
    rfl

end InPlace

end Snell
