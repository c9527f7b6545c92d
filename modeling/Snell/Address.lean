/-
Destinations and their wire fields (`snell-protocol/src/address.rs`), and what
the standard library supplies for them: UTF-8 text, socket addresses, and the
text form of IP addresses.

`Address` stands for the owned type and for the borrowed `AddressRef`.
-/
import Snell.Header

namespace Snell

/-! ## Text -/

/-- The bytes allowed next: how many continuation bytes are missing, and the
range of the first of them. -/
structure Utf8State where
  missing : Nat
  low : UInt8
  high : UInt8
  deriving DecidableEq, Repr

namespace Utf8State

def boundary : Utf8State := ⟨0, 0x80, 0xbf⟩

/-- The lead byte of a scalar value, by the well-formed ranges of UTF-8. -/
def lead (b : UInt8) : Option Utf8State :=
  if b ≤ 0x7f then some boundary
  else if 0xc2 ≤ b ∧ b ≤ 0xdf then some ⟨1, 0x80, 0xbf⟩
  else if b = 0xe0 then some ⟨2, 0xa0, 0xbf⟩
  else if b = 0xed then some ⟨2, 0x80, 0x9f⟩
  else if 0xe1 ≤ b ∧ b ≤ 0xef then some ⟨2, 0x80, 0xbf⟩
  else if b = 0xf0 then some ⟨3, 0x90, 0xbf⟩
  else if 0xf1 ≤ b ∧ b ≤ 0xf3 then some ⟨3, 0x80, 0xbf⟩
  else if b = 0xf4 then some ⟨3, 0x80, 0x8f⟩
  else none

def next (s : Utf8State) (b : UInt8) : Option Utf8State :=
  match s.missing with
  | 0 => lead b
  | n + 1 => if s.low ≤ b ∧ b ≤ s.high then some ⟨n, 0x80, 0xbf⟩ else none

end Utf8State

/-- Whether `std::str::from_utf8` accepts. -/
def validUtf8 (bytes : Bytes) : Bool := bytes.foldlM Utf8State.next .boundary = some .boundary

/-- `str` -/
structure Str where
  bytes : Bytes
  valid : validUtf8 bytes = true
  deriving DecidableEq

namespace Str

def fromUtf8 (bytes : Bytes) : Option Str := if h : validUtf8 bytes = true then some ⟨bytes, h⟩ else none

def len (s : Str) : Nat := s.bytes.length

theorem fromUtf8_bytes (s : Str) : fromUtf8 s.bytes = some s := dif_pos s.valid

theorem fromUtf8_some {bytes : Bytes} {s : Str} (h : fromUtf8 bytes = some s) : s.bytes = bytes := by
  unfold fromUtf8 at h
  split at h <;> cases h
  rfl

end Str

/-! ## Socket addresses -/

inductive IpAddr where
  | v4 (octets : ByteArr 4)
  | v6 (octets : ByteArr 16)
  deriving DecidableEq

inductive SocketAddr where
  | v4 (ip : ByteArr 4) (port : UInt16)
  | v6 (ip : ByteArr 16) (port : UInt16) (flowinfo scopeId : UInt32)
  deriving DecidableEq

namespace SocketAddr

def new : IpAddr → UInt16 → SocketAddr
  | .v4 ip, port => .v4 ip port
  | .v6 ip, port => .v6 ip port 0 0

def ip : SocketAddr → IpAddr
  | .v4 ip _ => .v4 ip
  | .v6 ip _ _ _ => .v6 ip

def port : SocketAddr → UInt16
  | .v4 _ port => port
  | .v6 _ port _ _ => port

@[simp] theorem ip_new (i : IpAddr) (p : UInt16) : (new i p).ip = i := by cases i <;> rfl

@[simp] theorem port_new (i : IpAddr) (p : UInt16) : (new i p).port = p := by cases i <;> rfl

end SocketAddr

/-- `IpAddr`'s `Display` and `FromStr`. -/
structure IpText where
  display : IpAddr → Str
  parse : Str → Option IpAddr
  parse_display : ∀ ip, parse (display ip) = some ip
  display_len : ∀ ip, 0 < (display ip).len ∧ (display ip).len ≤ 45
  /-- No IP literal contains NUL. -/
  parse_nul : ∀ s, 0 ∈ s.bytes → parse s = none

/-! ### A text form

Two letters for each octet: enough to have an `IpText` to compute with. -/

theorem validUtf8_ascii {bytes : Bytes} (h : ∀ b ∈ bytes, b ≤ 0x7f) : validUtf8 bytes = true := by
  have hfold : bytes.foldlM Utf8State.next .boundary = some .boundary := by
    induction bytes with
    | nil => rfl
    | cons b bytes ih =>
      have hb : Utf8State.next .boundary b = some .boundary := if_pos (h b List.mem_cons_self)
      simp only [List.foldlM_cons, hb]
      exact ih fun b hb => h b (List.mem_cons_of_mem _ hb)
  simp only [validUtf8, hfold, decide_true]

namespace IpText

def letter (n : Nat) : UInt8 := UInt8.ofNat (97 + n % 16)

def letters (octets : Bytes) : Bytes := octets.flatMap fun b => [letter (b.toNat / 16), letter b.toNat]

def ofLetters : Bytes → Bytes
  | high :: low :: rest => UInt8.ofNat ((high.toNat - 97) * 16 + (low.toNat - 97)) :: ofLetters rest
  | _ => []

theorem toNat_letter (n : Nat) : (letter n).toNat = 97 + n % 16 := by
  rw [letter, UInt8.toNat_ofNat', Nat.mod_eq_of_lt (by omega)]

theorem mem_letters {octets : Bytes} {b : UInt8} (h : b ∈ letters octets) : 97 ≤ b.toNat ∧ b.toNat ≤ 0x7f := by
  obtain ⟨o, _, hb⟩ := List.mem_flatMap.mp h
  simp only [List.mem_cons, List.not_mem_nil, or_false] at hb
  rcases hb with rfl | rfl <;> rw [toNat_letter] <;> omega

theorem ofLetters_letters (octets : Bytes) : ofLetters (letters octets) = octets := by
  induction octets with
  | nil => rfl
  | cons b octets ih =>
    have hb := b.toNat_lt
    simp only [letters] at ih
    simp only [letters, List.flatMap_cons, List.cons_append, List.nil_append, ofLetters, toNat_letter, ih,
      Nat.add_sub_cancel_left]
    rw [show b.toNat / 16 % 16 * 16 + b.toNat % 16 = b.toNat by omega, UInt8.ofNat_toNat]

theorem length_letters (octets : Bytes) : (letters octets).length = 2 * octets.length := by
  induction octets with
  | nil => rfl
  | cons b octets ih =>
    simp only [letters, List.flatMap_cons, List.length_append, List.length_cons, List.length_nil] at ih ⊢
    omega

def octets : IpAddr → Bytes
  | .v4 ip => ip.toList
  | .v6 ip => ip.toList

/-- The address of 4 or 16 octets. -/
def ofOctets (octets : Bytes) : Option IpAddr :=
  if h : octets.length = 4 then some (.v4 ⟨octets, h⟩)
  else if h : octets.length = 16 then some (.v6 ⟨octets, h⟩)
  else none

theorem ofOctets_octets (ip : IpAddr) : ofOctets (octets ip) = some ip := by
  cases ip with
  | v4 ip => obtain ⟨l, hl⟩ := ip; exact dif_pos hl
  | v6 ip =>
    obtain ⟨l, hl⟩ := ip
    exact (dif_neg (by simp only [octets, List.Vector.toList_mk]; omega)).trans (dif_pos hl)

def lettered : IpText where
  display ip := ⟨letters (octets ip), validUtf8_ascii fun _ hb => (mem_letters hb).2⟩
  parse s := if letters (ofLetters s.bytes) = s.bytes then ofOctets (ofLetters s.bytes) else none
  parse_display ip := by
    simp only [ofLetters_letters, ↓reduceIte]
    exact ofOctets_octets ip
  display_len ip := by
    simp only [Str.len, length_letters]
    cases ip <;> simp [octets]
  parse_nul s h := by
    refine if_neg fun heq => ?_
    rw [← heq] at h
    exact absurd (mem_letters h).1 (by decide)

end IpText

/-! ## Addresses -/

inductive Address where
  | ip (addr : SocketAddr)
  | domain (host : Str) (port : UInt16)
  deriving DecidableEq

def validateDomain (host : Str) : Res Unit :=
  if host.bytes = [] then .error (.err .emptyHost)
  else if 0 ∈ host.bytes then .error (.err .hostContainsNul)
  else if maxDomainLen < host.len then .error (.err .hostTooLong)
  else .ok ()

namespace Address

/-- `Address::domain` -/
def ofDomain (host : Str) (port : UInt16) : Res Address := do
  validateDomain host
  return .domain host port

def port : Address → UInt16
  | .ip addr => addr.port
  | .domain _ port => port

def host (T : IpText) : Address → Str
  | .ip addr => T.display addr.ip
  | .domain host _ => host

end Address

/-! ## Wire fields -/

/-- `option.ok_or(e)` -/
def okOr {α : Type} (o : Option α) (e : Error) : Res α :=
  match o with
  | some a => .ok a
  | none => .error (.err e)

/-- `port.to_be_bytes()` -/
def portBytes (port : UInt16) : Bytes := beBytes16 port.toNat

/-- `u16::from_be_bytes` of the first two bytes. -/
def portOf : Bytes → Option UInt16
  | hi :: lo :: _ => some (UInt16.ofNat (u16be hi lo))
  | _ => none

/-- `ADDR(n) PORT(2)` -/
def ipPort (n : Nat) (ip : ByteArr n → IpAddr) (src : Bytes) : Option SocketAddr :=
  if h : n ≤ src.length then
    (portOf (src.drop n)).map (SocketAddr.new (ip ⟨src.take n, by rw [List.length_take]; omega⟩))
  else none

/-- `LEN(1) HOST(LEN) PORT(2)` without host validation. Returns the encoded length. -/
def splitHostPort : Bytes → Res (Str × UInt16 × Nat)
  | [] => .error (.err .truncated)
  | hostLen :: rest =>
    if rest.length < hostLen.toNat then .error (.err .truncated)
    else
      match portOf (rest.drop hostLen.toNat) with
      | none => .error (.err .truncated)
      | some port =>
        match Str.fromUtf8 (rest.take hostLen.toNat) with
        | none => .error (.err .invalidHostUtf8)
        | some host => .ok (host, port, 1 + host.len + 2)

/-- The bytes `splitHostPort` reads. -/
def hostPort (host : Str) (port : UInt16) : Bytes := UInt8.ofNat host.len :: host.bytes ++ portBytes port

/-- `dst_prefix(dst, needed)?`, its parts then filled by `copy_from_slice` with
the parts of `image`; a part of another length panics. Returns `needed`. -/
def fillPrefix (dst : Bytes) (needed : Nat) (image : Bytes) : Res (Nat × Bytes) :=
  if dst.length < needed then .error (.err (.bufferTooSmall needed dst.length))
  else if image.length ≠ needed then .error .panic
  else .ok (needed, image ++ dst.drop needed)

theorem okOr_ok {α : Type} {o : Option α} {e : Error} {a : α} : okOr o e = .ok a ↔ o = some a := by
  cases o <;> simp [okOr]

@[simp] theorem length_portBytes (port : UInt16) : (portBytes port).length = 2 := rfl

theorem portOf_portBytes (port : UInt16) (rest : Bytes) : portOf (portBytes port ++ rest) = some port := by
  show some (UInt16.ofNat _) = _
  rw [u16be_beBytes16 port.toNat_lt, UInt16.ofNat_toNat]

theorem length_hostPort (host : Str) (port : UInt16) : (hostPort host port).length = 1 + host.len + 2 := by
  simp only [hostPort, List.cons_append, List.length_cons, List.length_append, length_portBytes, Str.len]
  omega

theorem splitHostPort_hostPort {host : Str} (hlen : host.len ≤ 255) (port : UInt16) (rest : Bytes) :
    splitHostPort (hostPort host port ++ rest) = .ok (host, port, 1 + host.len + 2) := by
  have hbyte : (UInt8.ofNat host.len).toNat = host.bytes.length := by
    rw [UInt8.toNat_ofNat']; exact Nat.mod_eq_of_lt (by simp only [Str.len] at hlen ⊢; omega)
  simp only [hostPort, List.cons_append, List.append_assoc, splitHostPort, hbyte, List.length_append,
    List.drop_left, List.take_left, portOf_portBytes, Str.fromUtf8_bytes]
  rw [if_neg (by omega)]

theorem fillPrefix_ok {dst image : Bytes} (h : image.length ≤ dst.length) :
    fillPrefix dst image.length image = .ok (image.length, image ++ dst.drop image.length) := by
  rw [fillPrefix, if_neg (by omega), if_neg (by simp)]

/-! ## What the fields read -/

theorem ipPort_append {n : Nat} (ip : ByteArr n → IpAddr) (octets : ByteArr n) (port : UInt16) (rest : Bytes) :
    ipPort n ip (octets.toList ++ (portBytes port ++ rest)) = some (.new (ip octets) port) := by
  obtain ⟨l, rfl⟩ := octets
  simp only [List.Vector.toList_mk, ipPort, List.length_append, Nat.le_add_right, ↓reduceDIte, List.drop_left,
    List.take_left, portOf_portBytes, Option.map_some]

theorem portOf_some {src : Bytes} {port : UInt16} (h : portOf src = some port) :
    ∃ rest, src = portBytes port ++ rest := by
  unfold portOf at h
  split at h
  · next hi lo rest =>
    cases h
    have hlo := lo.toNat_lt
    have hhi := hi.toNat_lt
    refine ⟨rest, ?_⟩
    rw [portBytes, UInt16.toNat_ofNat', Nat.mod_eq_of_lt (by rw [u16be]; omega), beBytes16_u16be]
    rfl
  · cases h

theorem portOf_eq_none {src : Bytes} : portOf src = none ↔ src.length < 2 := by
  match src with
  | [] => simp [portOf]
  | [_] => simp [portOf]
  | _ :: _ :: _ => simp [portOf]

theorem ipPort_some {n : Nat} {ip : ByteArr n → IpAddr} {src : Bytes} {addr : SocketAddr}
    (h : ipPort n ip src = some addr) :
    ∃ octets port rest, addr = .new (ip octets) port ∧ src = octets.toList ++ (portBytes port ++ rest) := by
  unfold ipPort at h
  split at h
  · next hle =>
    obtain ⟨port, hport, rfl⟩ := Option.map_eq_some_iff.mp h
    obtain ⟨rest, hrest⟩ := portOf_some hport
    refine ⟨_, port, rest, rfl, ?_⟩
    rw [List.Vector.toList_mk, ← hrest, List.take_append_drop]
  · cases h

theorem ipPort_eq_none {n : Nat} {ip : ByteArr n → IpAddr} {src : Bytes} :
    ipPort n ip src = none ↔ src.length < n + 2 := by
  unfold ipPort
  split
  · rw [Option.map_eq_none_iff, portOf_eq_none, List.length_drop]
    omega
  · next hlt => exact ⟨fun _ => by omega, fun _ => rfl⟩

theorem ipPort_extend {n : Nat} {ip : ByteArr n → IpAddr} {src : Bytes} (h : n + 2 ≤ src.length) (t : Bytes) :
    ipPort n ip (src ++ t) = ipPort n ip src := by
  cases haddr : ipPort n ip src with
  | none =>
    rw [ipPort_eq_none] at haddr
    omega
  | some addr =>
    obtain ⟨octets, port, rest, rfl, rfl⟩ := ipPort_some haddr
    rw [List.append_assoc, List.append_assoc, ipPort_append]

/-- What `splitHostPort` accepts: a host that fits its length byte, then a port. -/
theorem splitHostPort_some {src : Bytes} {host : Str} {port : UInt16} {n : Nat}
    (h : splitHostPort src = .ok (host, port, n)) :
    host.len ≤ 255 ∧ n = (hostPort host port).length ∧ ∃ rest, src = hostPort host port ++ rest := by
  unfold splitHostPort at h
  split at h
  · cases h
  · next hostLen rest =>
    split at h
    · cases h
    · next hle =>
      split at h
      · cases h
      · next port' hport =>
        split at h
        · cases h
        · next host' hhost =>
          cases h
          obtain ⟨after, hafter⟩ := portOf_some hport
          have hbytes := Str.fromUtf8_some hhost
          have hlen : host.len = hostLen.toNat := by
            rw [Str.len, hbytes, List.length_take, Nat.min_eq_left (by omega)]
          have hlt := hostLen.toNat_lt
          refine ⟨by omega, (length_hostPort _ _).symm, after, ?_⟩
          rw [hostPort, hlen, UInt8.ofNat_toNat, hbytes, List.cons_append, List.cons_append, List.append_assoc, ← hafter,
            List.take_append_drop]

/-- Cut before its end, it asks for more. -/
theorem splitHostPort_truncated {hostLen : UInt8} {rest : Bytes} (h : rest.length < hostLen.toNat + 2) :
    splitHostPort (hostLen :: rest) = .error (.err .truncated) := by
  simp only [splitHostPort]
  split
  · rfl
  · rw [portOf_eq_none.mpr (by rw [List.length_drop]; omega)]

/-- All there, it can only fail for its text. -/
theorem splitHostPort_complete {hostLen : UInt8} {rest : Bytes} (h : hostLen.toNat + 2 ≤ rest.length) {f : Fault}
    (hf : splitHostPort (hostLen :: rest) = .error f) : f = .err .invalidHostUtf8 := by
  simp only [splitHostPort] at hf
  rw [if_neg (by omega)] at hf
  split at hf
  · next hport =>
    rw [portOf_eq_none, List.length_drop] at hport
    omega
  · split at hf
    · cases hf; rfl
    · cases hf

/-- Once it is all there, what follows does not matter. -/
theorem splitHostPort_append {hostLen : UInt8} {rest : Bytes} (h : hostLen.toNat + 2 ≤ rest.length) (t : Bytes) :
    splitHostPort (hostLen :: rest ++ t) = splitHostPort (hostLen :: rest) := by
  have hport : portOf ((rest ++ t).drop hostLen.toNat) = portOf (rest.drop hostLen.toNat) := by
    rw [List.drop_append_of_le_length (by omega)]
    cases hp : portOf (rest.drop hostLen.toNat) with
    | none => 
      rw [portOf_eq_none, List.length_drop] at hp
      omega
    | some port =>
      obtain ⟨after, hafter⟩ := portOf_some hp
      rw [hafter, List.append_assoc, portOf_portBytes]
  simp only [List.cons_append, splitHostPort, List.length_append, hport,
    List.take_append_of_le_length (show hostLen.toNat ≤ rest.length by omega)]
  rw [if_neg (by omega), if_neg (by omega)]

/-! ## Which addresses there are on the wire -/

namespace Address

/-- An IP address has no flow information and no scope. -/
def Flowless : Address → Prop
  | .ip addr => SocketAddr.new addr.ip addr.port = addr
  | .domain _ _ => True

/-- An address a parser of this crate returns: flowless, and a host has 1 to
255 bytes. -/
def Parsed : Address → Prop
  | .ip addr => Flowless (.ip addr)
  | .domain host _ => 0 < host.len ∧ host.len ≤ maxDomainLen

/-- The host has no NUL; an IP address has none. -/
def NulFree : Address → Prop
  | .ip _ => True
  | .domain host _ => 0 ∉ host.bytes

end Address

theorem splitHostPort_error {src : Bytes} {f : Fault} (h : splitHostPort src = .error f) : ∃ err, f = .err err := by
  unfold splitHostPort at h
  repeat' split at h
  all_goals first
    | cases h; exact ⟨_, rfl⟩
    | cases h

theorem validateDomain_ok {host : Str} (h : validateDomain host = .ok ()) :
    0 < host.len ∧ host.len ≤ maxDomainLen ∧ 0 ∉ host.bytes := by
  unfold validateDomain at h
  split at h
  · cases h
  · next hne =>
    split at h
    · cases h
    · next hnul =>
      split at h
      · cases h
      · next hle => exact ⟨List.length_pos_iff.mpr hne, Nat.not_lt.mp hle, hnul⟩

theorem validateDomain_iff {host : Str} (hpos : 0 < host.len) (hlen : host.len ≤ maxDomainLen) :
    validateDomain host = if 0 ∈ host.bytes then .error (.err .hostContainsNul) else .ok () := by
  have hne : host.bytes ≠ [] := List.ne_nil_of_length_pos hpos
  rw [validateDomain, if_neg hne]
  split
  · rfl
  · rw [if_neg (by omega)]

end Snell
