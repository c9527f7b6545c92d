/-
Parsers that are called on what was read so far and say how much they need.

`Streams` is what such a parser owes its caller: an answer does not change
when more is read, and what it asks for is more than there is and never more
than the message. It holds of every parser that decides by waiting for more
and more of the front (`Reader.streams`), and the SOCKS5 parsers and the
parser of server replies are such.
-/
import Snell.Socks5Facts

namespace Snell

/-- An answer of `p` is final, and `p` asks for more than is there but for no
more than the message; `consumed` is the length of the message. -/
structure Streams {α : Type} (p : Bytes → Res (ParseState α)) (consumed : α → Nat) : Prop where
  done_append : ∀ {s a}, p s = .ok (.done a) → consumed a ≤ s.length ∧ ∀ t, p (s ++ t) = .ok (.done a)
  error_append : ∀ {s f}, p s = .error f → (∃ err, f = .err err) ∧ ∀ t, p (s ++ t) = .error f
  need_bound : ∀ {s n}, p s = .ok (.need n) → s.length < n ∧ ∀ t a, p (s ++ t) = .ok (.done a) → n ≤ consumed a

/-! ## Readers -/

/-- A parser by what it waits for: `need k` looks at the first `k` bytes once
they are there. -/
inductive Reader (α : Type) where
  | fail (f : Fault)
  | done (a : α)
  | need (k : Nat) (next : Bytes → Reader α)

namespace Reader

variable {α : Type} {consumed : α → Nat} {cap : Nat}

def ofRes : Res α → Reader α
  | .ok a => .done a
  | .error f => .fail f

def run (s : Bytes) : Reader α → Res (ParseState α)
  | .fail f => .error f
  | .done a => .ok (.done a)
  | .need k next => if s.length < k then .ok (.need k) else run s (next (s.take k))

/-- Having seen `seen` bytes, the reader waits for no fewer and for no more
than `cap`, and a message ends where it last looked. -/
def Ordered (consumed : α → Nat) (cap seen : Nat) : Reader α → Prop
  | .fail f => ∃ err, f = .err err
  | .done a => consumed a = seen
  | .need k next => seen ≤ k ∧ k ≤ cap ∧ ∀ w : Bytes, w.length = k → (next w).Ordered consumed cap k

theorem run_need {s : Bytes} {k : Nat} {next : Bytes → Reader α} (h : k ≤ s.length) :
    run s (.need k next) = run s (next (s.take k)) := if_neg (by omega)

theorem run_done {r : Reader α} {seen : Nat} {s : Bytes} {a : α} (hr : r.Ordered consumed cap seen) (hs : seen ≤ s.length)
    (h : r.run s = .ok (.done a)) : seen ≤ consumed a ∧ consumed a ≤ s.length ∧ ∀ t, r.run (s ++ t) = .ok (.done a) := by
  induction r generalizing seen with
  | fail f => cases h
  | done b =>
    cases h
    have hb : consumed a = seen := hr
    exact ⟨by omega, by omega, fun _ => rfl⟩
  | need k next ih =>
    by_cases hk : k ≤ s.length
    · rw [run_need hk] at h
      have hw : (s.take k).length = k := by rw [List.length_take]; omega
      obtain ⟨hlo, hhi, hstable⟩ := ih _ (hr.2.2 _ hw) hk h
      refine ⟨Nat.le_trans hr.1 hlo, hhi, fun t => ?_⟩
      rw [run_need (by rw [List.length_append]; omega), List.take_append_of_le_length hk]
      exact hstable t
    · rw [run, if_pos (by omega)] at h
      cases h

theorem run_error {r : Reader α} {seen : Nat} {s : Bytes} {f : Fault} (hr : r.Ordered consumed cap seen)
    (h : r.run s = .error f) : (∃ err, f = .err err) ∧ ∀ t, r.run (s ++ t) = .error f := by
  induction r generalizing seen with
  | fail g =>
    cases h
    exact ⟨hr, fun _ => rfl⟩
  | done b => cases h
  | need k next ih =>
    by_cases hk : k ≤ s.length
    · rw [run_need hk] at h
      have hw : (s.take k).length = k := by rw [List.length_take]; omega
      obtain ⟨herr, hstable⟩ := ih _ (hr.2.2 _ hw) h
      refine ⟨herr, fun t => ?_⟩
      rw [run_need (by rw [List.length_append]; omega), List.take_append_of_le_length hk]
      exact hstable t
    · rw [run, if_pos (by omega)] at h
      cases h

theorem run_needs {r : Reader α} {seen n : Nat} {s : Bytes} (hr : r.Ordered consumed cap seen)
    (h : r.run s = .ok (.need n)) :
    n ≤ cap ∧ s.length < n ∧ ∀ t a, r.run (s ++ t) = .ok (.done a) → n ≤ consumed a := by
  induction r generalizing seen with
  | fail f => cases h
  | done b => cases h
  | need k next ih =>
    by_cases hk : k ≤ s.length
    · rw [run_need hk] at h
      have hw : (s.take k).length = k := by rw [List.length_take]; omega
      obtain ⟨hcap, hlt, hbound⟩ := ih _ (hr.2.2 _ hw) h
      refine ⟨hcap, hlt, fun t a ht => ?_⟩
      rw [run_need (by rw [List.length_append]; omega), List.take_append_of_le_length hk] at ht
      exact hbound t a ht
    · rw [run, if_pos (by omega)] at h
      cases h
      refine ⟨hr.2.1, by omega, fun t a ht => ?_⟩
      -- whatever arrives, the message is at least what is waited for
      by_cases hk' : n ≤ (s ++ t).length
      · rw [run_need hk'] at ht
        have hw : ((s ++ t).take n).length = n := by rw [List.length_take]; omega
        exact (run_done (hr.2.2 _ hw) hk' ht).1
      · rw [run, if_pos (by omega)] at ht
        cases ht

/-- **A reader that looks further and further streams.** -/
theorem streams {r : Reader α} {p : Bytes → Res (ParseState α)} (hr : r.Ordered consumed cap 0) (hp : ∀ s, p s = r.run s) :
    Streams p consumed where
  done_append {s a} h := by
    rw [hp] at h
    simp only [hp]
    exact (run_done hr (Nat.zero_le _) h).2
  error_append {s f} h := by
    rw [hp] at h
    simp only [hp]
    exact run_error hr h
  need_bound {s n} h := by
    rw [hp] at h
    simp only [hp]
    exact (run_needs hr h).2

theorem need_le {r : Reader α} {p : Bytes → Res (ParseState α)} (hr : r.Ordered consumed cap 0) (hp : ∀ s, p s = r.run s)
    {s : Bytes} {n : Nat} (h : p s = .ok (.need n)) : n ≤ cap := by
  rw [hp] at h
  exact (run_needs hr h).1

theorem ordered_ofRes {r : Res α} {seen : Nat} (hok : ∀ a, r = .ok a → consumed a = seen)
    (herr : ∀ f, r = .error f → ∃ err, f = .err err) : (ofRes r).Ordered consumed cap seen := by
  cases r with
  | ok a => exact hok a rfl
  | error f => exact herr f rfl

theorem run_ofRes (r : Res α) (s : Bytes) : (ofRes r).run s = r.map .done := by
  cases r <;> rfl

end Reader

/-! ## Server replies -/

def replyReader : Reader (ServerReply × Nat) :=
  .need 1 fun w =>
    match w with
    | command :: _ =>
      if command = commandTunnel then .done (.tunnel, 1)
      else if command = commandError then
        .need 3 fun w =>
          match w with
          | [_, code, msgLen] => .need (3 + msgLen.toNat) fun w => .done (.error code (w.drop 3), 3 + msgLen.toNat)
          | _ => .fail .panic
      else .fail (.err (.unknownCommand command))
    | [] => .fail .panic

theorem replyReader_ordered : replyReader.Ordered Prod.snd (3 + 255) 0 := by
  refine ⟨Nat.zero_le _, by decide, fun w hw => ?_⟩
  match w, hw with
  | [command], _ =>
    show Reader.Ordered _ _ _ (ite _ _ _)
    split
    · exact rfl
    · split
      · refine ⟨by omega, by omega, fun w hw => ?_⟩
        match w, hw with
        | [_, code, msgLen], _ =>
          have := msgLen.toNat_lt
          exact ⟨by omega, by omega, fun _ _ => rfl⟩
      · exact ⟨_, rfl⟩

theorem decodeServerReply_eq (s : Bytes) : decodeServerReply s = replyReader.run s := by
  match s with
  | [] => rfl
  | command :: after =>
    rw [replyReader, Reader.run_need (by simp)]
    simp only [decodeServerReply, List.take_succ_cons, List.take_zero]
    split
    · rfl
    · split
      · match after with
        | [] => rfl
        | [_] => rfl
        | code :: msgLen :: rest =>
          rw [Reader.run_need (by simp)]
          simp only [List.take_succ_cons, List.take_zero]
          by_cases hle : msgLen.toNat ≤ rest.length
          · rw [if_pos hle, Reader.run_need (by simp only [List.length_cons]; omega)]
            rw [Nat.add_comm 3]
            rfl
          · rw [if_neg hle, Reader.run, if_pos (by simp only [List.length_cons]; omega)]
      · rfl

theorem decodeServerReply_streams : Streams decodeServerReply Prod.snd :=
  Reader.streams replyReader_ordered decodeServerReply_eq

/-! ## SOCKS5 -/

namespace Socks5

def greetingReader : Reader GreetingRef :=
  .need 2 fun w =>
    match w with
    | [v, nmethods] =>
      if v ≠ version then .fail (.err (.invalidVersion v))
      else if nmethods = 0 then .fail (.err (.malformed "empty method list"))
      else .need (2 + nmethods.toNat) fun w => .done ⟨w.drop 2, 2 + nmethods.toNat⟩
    | _ => .fail .panic

theorem greetingReader_ordered : greetingReader.Ordered GreetingRef.consumedLen maxGreetingLen 0 := by
  refine ⟨Nat.zero_le _, by decide, fun w hw => ?_⟩
  match w, hw with
  | [v, nmethods], _ =>
    show Reader.Ordered _ _ _ (ite _ _ _)
    split
    · exact ⟨_, rfl⟩
    · split
      · exact ⟨_, rfl⟩
      · have := nmethods.toNat_lt
        exact ⟨by omega, by simp only [maxGreetingLen]; omega, fun _ _ => rfl⟩

theorem greetingNeed_eq (s : Bytes) : greetingNeed s = greetingReader.run s := by
  match s with
  | [] => rfl
  | [_] => rfl
  | v :: nmethods :: methods =>
    rw [greetingReader, Reader.run_need (by simp)]
    simp only [greetingNeed, List.take_succ_cons, List.take_zero]
    split
    · rfl
    · split
      · rfl
      · by_cases hle : nmethods.toNat ≤ methods.length
        · rw [if_pos hle, Reader.run_need (by simp only [List.length_cons]; omega), Nat.add_comm 2]
          rfl
        · rw [if_neg hle, Reader.run, if_pos (by simp only [List.length_cons]; omega)]

theorem greetingNeed_streams : Streams greetingNeed GreetingRef.consumedLen :=
  Reader.streams greetingReader_ordered greetingNeed_eq

def methodReader : Reader UInt8 :=
  .need 2 fun w =>
    match w with
    | [v, method] => if v = version then .done method else .fail (.err (.invalidVersion v))
    | _ => .fail .panic

theorem methodReader_ordered : methodReader.Ordered (fun _ => 2) 2 0 := by
  refine ⟨Nat.zero_le _, by decide, fun w hw => ?_⟩
  match w, hw with
  | [v, method], _ =>
    show Reader.Ordered _ _ _ (ite _ _ _)
    split
    · exact rfl
    · exact ⟨_, rfl⟩

theorem methodSelectionNeed_eq (s : Bytes) : methodSelectionNeed s = methodReader.run s := by
  match s with
  | [] => rfl
  | [_] => rfl
  | v :: method :: rest =>
    rw [methodReader, Reader.run_need (by simp)]
    simp only [methodSelectionNeed, List.take_succ_cons, List.take_zero]
    split <;> rfl

theorem methodSelectionNeed_streams : Streams methodSelectionNeed fun _ => 2 :=
  Reader.streams methodReader_ordered methodSelectionNeed_eq

/-! ### Addresses -/

section Address

variable {α : Type} {consumed : α → Nat} {cap : Nat}

/-- All of the address, behind `skip` bytes. -/
def addrEnd (skip len : Nat) (atyp : UInt8) (build : Address → Nat → α) : Reader α :=
  .need (skip + len) fun w =>
    .ofRes (do
      let address ← parseTail atyp ((w.drop skip).drop 1)
      return build address (skip + len))

/-- An address behind `skip` bytes. -/
def addrReader (skip : Nat) (build : Address → Nat → α) : Reader α :=
  .need (skip + 1) fun w =>
    match w.drop skip with
    | atyp :: _ =>
      if atyp = atypIpv4 then addrEnd skip (1 + 4 + 2) atyp build
      else if atyp = atypIpv6 then addrEnd skip (1 + 16 + 2) atyp build
      else if atyp = atypDomain then
        .need (skip + 2) fun w =>
          match w.drop skip with
          | _ :: hostLen :: _ =>
            if hostLen = 0 then .fail (.err .emptyHost) else addrEnd skip (1 + 1 + hostLen.toNat + 2) atyp build
          | _ => .fail .panic
      else .fail (.err (.invalidAddressType atyp))
    | [] => .fail .panic

theorem addrEnd_ordered {skip len seen : Nat} {atyp : UInt8} {build : Address → Nat → α}
    (hbuild : ∀ address n, consumed (build address n) = n) (hseen : seen ≤ skip + len) (hcap : skip + len ≤ cap) :
    (addrEnd skip len atyp build).Ordered consumed cap seen := by
  refine ⟨hseen, hcap, fun w hw => Reader.ordered_ofRes (fun a ha => ?_) fun f hf => ?_⟩
  · simp only [bind, Except.bind] at ha
    split at ha
    · cases ha
    · cases ha; exact hbuild _ _
  · simp only [bind, Except.bind] at hf
    split at hf
    · next htail => cases hf; exact parseTail_error htail
    · cases hf

theorem addrReader_ordered {skip seen : Nat} {build : Address → Nat → α}
    (hbuild : ∀ address n, consumed (build address n) = n) (hseen : seen ≤ skip + 1)
    (hcap : skip + (1 + 1 + maxDomainLen + 2) ≤ cap) : (addrReader skip build).Ordered consumed cap seen := by
  simp only [maxDomainLen] at hcap
  refine ⟨hseen, by omega, fun w hw => ?_⟩
  have hlen : (w.drop skip).length = 1 := by rw [List.length_drop]; omega
  obtain ⟨atyp, hd⟩ := List.length_eq_one_iff.mp hlen
  simp only [hd]
  split
  · exact addrEnd_ordered hbuild (by omega) (by omega)
  · split
    · exact addrEnd_ordered hbuild (by omega) (by omega)
    · split
      · refine ⟨by omega, by omega, fun w hw => ?_⟩
        have hlen : (w.drop skip).length = 2 := by rw [List.length_drop]; omega
        obtain ⟨_, hostLen, hd⟩ := List.length_eq_two.mp hlen
        simp only [hd]
        split
        · exact ⟨_, rfl⟩
        · have := hostLen.toNat_lt
          exact addrEnd_ordered hbuild (by omega) (by omega)
      · exact ⟨_, rfl⟩

/-- Once the address is all there, what follows does not matter. -/
theorem parseTail_take {atyp : UInt8} {tail : Bytes} {len : Nat} (hlen : addrLen (atyp :: tail) = .ok (.done len))
    (hle : len ≤ tail.length + 1) : parseTail atyp (tail.take (len - 1)) = parseTail atyp tail := by
  have hip : ∀ {n : Nat} (ip : ByteArr n → IpAddr), len = 1 + n + 2 →
      ipPort n ip (tail.take (len - 1)) = ipPort n ip tail := by
    intro n ip hn
    rw [← ipPort_extend (by rw [List.length_take]; omega) (tail.drop (len - 1)), List.take_append_drop]
  rcases addrLen_type hlen with ⟨rfl, rfl⟩ | ⟨rfl, rfl⟩ | rfl
  · simp only [parseTail, ↓reduceIte, hip .v4 rfl]
  · have h46 : atypIpv6 ≠ atypIpv4 := by decide
    simp only [parseTail, if_neg h46, ↓reduceIte, hip .v6 rfl]
  · obtain ⟨hostLen, after, rfl, -, rfl⟩ := addrLen_domain hlen
    have h43 : atypDomain ≠ atypIpv4 := by decide
    have h63 : atypDomain ≠ atypIpv6 := by decide
    simp only [List.length_cons] at hle
    have htake : (hostLen :: after).take (1 + 1 + hostLen.toNat + 2 - 1) = hostLen :: after.take (hostLen.toNat + 2) := by
      rw [show 1 + 1 + hostLen.toNat + 2 - 1 = hostLen.toNat + 2 + 1 by omega, List.take_succ_cons]
    have hsplit : splitHostPort (hostLen :: after.take (hostLen.toNat + 2)) = splitHostPort (hostLen :: after) := by
      rw [← splitHostPort_append (by rw [List.length_take]; omega) (after.drop (hostLen.toNat + 2)), List.cons_append,
        List.take_append_drop]
    simp only [parseTail, if_neg h43, if_neg h63, htake, hsplit]

/-- What `parseAddr` answers behind `skip` bytes. -/
def shifted (skip : Nat) (build : Address → Nat → α) : Res (ParseState (Address × Nat)) → Res (ParseState α)
  | .error f => .error f
  | .ok (.need n) => .ok (.need (skip + n))
  | .ok (.done (address, n)) => .ok (.done (build address (skip + n)))

theorem run_addrEnd {s tail : Bytes} {skip len : Nat} {atyp : UInt8} {build : Address → Nat → α}
    (hs : s.drop skip = atyp :: tail) (hlen : addrLen (atyp :: tail) = .ok (.done len)) :
    (addrEnd skip len atyp build).run s = shifted skip build (parseAddr (s.drop skip)) := by
  have hall : s.length = skip + (tail.length + 1) := by
    have := congrArg List.length hs
    rw [List.length_drop, List.length_cons] at this
    omega
  rw [hs]
  simp only [parseAddr, hlen, List.length_cons]
  by_cases hle : len ≤ tail.length + 1
  · have htake : ((s.take (skip + len)).drop skip).drop 1 = tail.take (len - 1) := by
      rw [List.drop_take, hs, Nat.add_sub_cancel_left, List.drop_take]
      rfl
    rw [if_neg (by omega), addrEnd, Reader.run_need (by omega), Reader.run_ofRes, htake, parseTail_take hlen hle]
    cases parseTail atyp tail <;> rfl
  · rw [if_pos (by omega), addrEnd, Reader.run, if_pos (by omega)]
    rfl

theorem run_addrReader {s : Bytes} {skip : Nat} (hskip : skip ≤ s.length) (build : Address → Nat → α) :
    (addrReader skip build).run s = shifted skip build (parseAddr (s.drop skip)) := by
  have hlen := List.length_drop (i := skip) (l := s)
  cases hs : s.drop skip with
  | nil =>
    rw [hs, List.length_nil] at hlen
    rw [addrReader, Reader.run, if_pos (by omega)]
    rfl
  | cons atyp tail =>
    rw [hs, List.length_cons] at hlen
    have hfirst : (s.take (skip + 1)).drop skip = [atyp] := by
      rw [List.drop_take, hs, Nat.add_sub_cancel_left, List.take_succ_cons, List.take_zero]
    rw [addrReader, Reader.run_need (by omega)]
    simp only [hfirst]
    have hend : ∀ {len}, addrLen (atyp :: tail) = .ok (.done len) →
        (addrEnd skip len atyp build).run s = shifted skip build (parseAddr (atyp :: tail)) := by
      intro len hl
      rw [run_addrEnd hs hl, hs]
    by_cases h4 : atyp = atypIpv4
    · rw [if_pos h4]
      exact hend (by simp only [addrLen, if_pos h4])
    rw [if_neg h4]
    by_cases h6 : atyp = atypIpv6
    · rw [if_pos h6]
      exact hend (by simp only [addrLen, if_neg h4, if_pos h6])
    rw [if_neg h6]
    by_cases hd : atyp = atypDomain
    · rw [if_pos hd]
      cases tail with
      | nil =>
        rw [Reader.run, if_pos (by rw [List.length_nil] at hlen; omega)]
        simp only [parseAddr, addrLen, if_neg h4, if_neg h6, if_pos hd, shifted]
      | cons hostLen after =>
        rw [List.length_cons] at hlen
        have hsecond : (s.take (skip + 2)).drop skip = [atyp, hostLen] := by
          rw [List.drop_take, hs, Nat.add_sub_cancel_left, List.take_succ_cons, List.take_succ_cons, List.take_zero]
        rw [Reader.run_need (by omega)]
        simp only [hsecond]
        by_cases h0 : hostLen = 0
        · simp only [if_pos h0, parseAddr, addrLen, if_neg h4, if_neg h6, if_pos hd, shifted, Reader.run]
        · rw [if_neg h0]
          exact hend (by simp only [addrLen, if_neg h4, if_neg h6, if_pos hd, if_neg h0])
    · simp only [if_neg hd, parseAddr, addrLen, if_neg h4, if_neg h6, shifted, Reader.run]

/-- `VER CMD RSV`, then an address. -/
def cmdAddrReader (build : UInt8 → Address → Nat → α) : Reader α :=
  .need 4 fun w =>
    match w with
    | [b₀, b₁, b₂, _] =>
      if b₀ ≠ version then .fail (.err (.invalidVersion b₀))
      else if b₂ ≠ 0 then .fail (.err (.invalidReserved b₂))
      else addrReader 3 (build b₁)
    | _ => .fail .panic

theorem cmdAddrReader_ordered {build : UInt8 → Address → Nat → α}
    (hbuild : ∀ cmd address n, consumed (build cmd address n) = n) :
    (cmdAddrReader build).Ordered consumed maxRequestLen 0 := by
  refine ⟨Nat.zero_le _, by decide, fun w hw => ?_⟩
  match w, hw with
  | [b₀, b₁, b₂, _], _ =>
    show Reader.Ordered _ _ _ (ite _ _ _)
    split
    · exact ⟨_, rfl⟩
    · split
      · exact ⟨_, rfl⟩
      · exact addrReader_ordered (hbuild b₁) (Nat.le_refl _) (Nat.le_refl _)

theorem parseCmdAddr_eq (build : UInt8 → Address → Nat → α) (s : Bytes) :
    parseCmdAddr s build = (cmdAddrReader build).run s := by
  match s with
  | [] => rfl
  | [_] => rfl
  | [_, _] => rfl
  | [_, _, _] => rfl
  | b₀ :: b₁ :: b₂ :: b₃ :: rest =>
    rw [cmdAddrReader, Reader.run_need (by simp)]
    simp only [parseCmdAddr, List.take_succ_cons, List.take_zero]
    split
    · rfl
    · split
      · rfl
      · rw [run_addrReader (by simp)]
        show _ = shifted 3 _ (parseAddr (b₃ :: rest))
        rcases parseAddr (b₃ :: rest) with f | (n | ⟨address, n⟩) <;> rfl

theorem parseCmdAddr_streams {build : UInt8 → Address → Nat → α}
    (hbuild : ∀ cmd address n, consumed (build cmd address n) = n) :
    Streams (fun s => parseCmdAddr s build) consumed :=
  Reader.streams (cmdAddrReader_ordered hbuild) (parseCmdAddr_eq build)

end Address

theorem requestNeed_streams : Streams requestNeed RequestRef.headerLen := parseCmdAddr_streams fun _ _ _ => rfl

theorem replyNeed_streams : Streams replyNeed ReplyRef.headerLen := parseCmdAddr_streams fun _ _ _ => rfl

/-! ### What is asked for at most -/

theorem greetingNeed_le {s : Bytes} {n : Nat} (h : greetingNeed s = .ok (.need n)) : n ≤ maxGreetingLen :=
  Reader.need_le greetingReader_ordered greetingNeed_eq h

theorem requestNeed_le {s : Bytes} {n : Nat} (h : requestNeed s = .ok (.need n)) : n ≤ maxRequestLen := by
  have hr := cmdAddrReader_ordered fun cmd address n => (rfl : RequestRef.headerLen ⟨.ofByte cmd, address, n⟩ = n)
  exact Reader.need_le hr (parseCmdAddr_eq _) h

theorem replyNeed_le {s : Bytes} {n : Nat} (h : replyNeed s = .ok (.need n)) : n ≤ maxRequestLen := by
  have hr := cmdAddrReader_ordered fun rep bind n => (rfl : ReplyRef.headerLen ⟨.ofByte rep, bind, n⟩ = n)
  exact Reader.need_le hr (parseCmdAddr_eq _) h

end Socks5

end Snell
