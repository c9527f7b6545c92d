/-
What a client's connection carries, after any steps.

Each phase says how far the tunnel under way is (`Standing`); what holds in
every phase, also once the connection is gone, is `Sound`: the segments sealed
are the tunnels' requests and what was read of their local connections, and
each local connection was told what was heard in its tunnel, or refused.
-/
import Snell.ClientSession

namespace Snell

open RecordEncoder EncoderSpec LawfulEncoder DatagramEncoder StreamEncoder ClosingEncoder RecordDecoder
  StagedDecoder Staged
  Polling Segments Socks5

/-! ## Messages -/

def replyImage (reply : Reply) : Bytes := [Socks5.version, reply.byte, 0] ++ addrField (.ip unspecified)

theorem socks5Reply_eq (reply : Reply) : socks5Reply reply = .ok (replyImage reply) := by
  have hlen : encodedAddrLen (.ip unspecified) = .ok (addrField (.ip unspecified)).length := rfl
  have himage : encodeReply (List.replicate maxRequestLen 0) reply (.ip unspecified) =
      .ok ((replyImage reply).length, _) :=
    encodeThreeAddr_produces Socks5.version reply.byte 0 hlen _
      (by rw [List.length_replicate]; exact Nat.le_of_ble_eq_true rfl)
  unfold socks5Reply
  rw [himage]
  exact congrArg Except.ok List.take_left

/-- A CONNECT that was encoded is the image of its destination. -/
theorem connectRequest_ok {T : IpText} {destination : Address} {reuse : Bool} {request : Bytes}
    (h : connectRequest T destination reuse = .ok request) :
    (0 < (destination.host T).len ∧ (destination.host T).len ≤ maxDomainLen) ∧
      request = connectImage (destination.host T) destination.port reuse := by
  by_cases hhost : 0 < (destination.host T).len ∧ (destination.host T).len ≤ maxDomainLen
  · have hfits : (connectImage (destination.host T) destination.port reuse).length ≤
        (List.replicate maxConnectRequestLen (0 : UInt8)).length := by
      rw [List.length_replicate]
      exact length_connectImage_le hhost.2 _ _
    have himage := encodeConnectRequest_ok reuse hhost hfits
    unfold connectRequest at h
    simp only at himage
    rw [himage] at h
    simp only [List.take_left] at h
    cases h
    exact ⟨hhost, rfl⟩
  · have hlen : connectLen (destination.host T).len = .error (.err .hostTooLong) := by
      simp only [maxDomainLen] at hhost
      exact if_pos (by omega)
    simp only [connectRequest, encodeConnectRequest, hlen, bind, Except.bind] at h
    cases h

/-- No error is a success. -/
theorem socks5ReplyFromError_ne (error : SessionError) : socks5ReplyFromError error ≠ .succeeded := by
  cases error with
  | io kind => cases kind <;> exact Reply.noConfusion
  | _ => exact Reply.noConfusion

/-! ## One tunnel -/

/-- What was written to a local connection: nothing yet, success and what was
heard behind the Tunnel reply, or a refusal. -/
inductive ClientTunnel.Answer (writer : WriteHalf) (ic : Cut UInt8) (hung : Prop) (i : Nat) : Prop
  | silent (hsent : writer.sent = []) (hopen : writer.closing = false)
  | opened (hopened : [commandTunnel] <+: ic.segment i) (htells : Tells (replyImage .succeeded) 1 writer ic hung i)
  | refused (reply : Reply) (hne : reply ≠ .succeeded) (hsent : writer.sent <+: replyImage reply)
    (hopen : writer.closing = false)

/-- What is known of the `i`-th tunnel by its segments. -/
structure ClientTunnel.Holds (T : IpText) (reuse : Bool) (oc ic : Cut UInt8) (hung : Prop) (i : Nat) (s : ClientTunnel) :
    Prop where
  asked : s.request = [] ∧ s.plain.reader.received = [] ∨ connectRequest T s.destination reuse = .ok s.request
  speaks : Says s.request s.plain.reader oc i
  answered : i < oc.closed.length → [commandTunnel] <+: ic.segment i
  answer : Answer s.plain.writer ic hung i

namespace ClientTunnel

variable {T : IpText} {reuse : Bool} {oc ic ic' : Cut UInt8} {hung hung' : Prop} {i : Nat} {writer writer' : WriteHalf}

theorem Answer.same (h : Answer writer ic hung i) (hs : ic.Same ic' i) (hh : hung → hung') :
    Answer writer ic' hung' i := by
  cases h with
  | silent hsent hopen => exact .silent hsent hopen
  | opened hopened htells => exact .opened (by rw [hs.segment]; exact hopened) (htells.same hs hh)
  | refused reply hne hsent hopen => exact .refused reply hne hsent hopen

theorem Answer.grows (h : Answer writer ic hung i) (hg : writer.Same writer') (hh : hung → hung') :
    Answer writer' ic hung' i := by
  cases h with
  | silent hsent hopen => exact .silent (hg.sent.trans hsent) (hg.closing.trans hopen)
  | opened hopened htells => exact .opened hopened (htells.grows hg hh)
  | refused reply hne hsent hopen => exact .refused reply hne (by rw [hg.sent]; exact hsent) (hg.closing.trans hopen)

theorem holds_stable (T : IpText) (reuse : Bool) : Stable (Holds T reuse) := by
  intro oc oc' ic ic' hung hung' i s h ho hi hh
  refine ⟨h.asked, h.speaks.same ho, fun hlt => ?_, h.answer.same hi hh⟩
  rw [hi.segment]
  exact h.answered (ho.closed.mp hlt)

end ClientTunnel

namespace Client

/-! ## What is in flight -/

section Moves

variable {E D : Type}

theorem fail_tunnel (c : Client E D) (f : SessionFault) : (c.fail f).tunnel = c.tunnel := by
  unfold fail
  split
  · split
    · rfl
    · split <;> rfl
  · rfl

variable [RecordDecoder D]

theorem readReply_moves (c : Client E D) (plain : PlainStream) (record : DecodedRecord) :
    c.tunnel.Moves (c.readReply plain record).tunnel := by
  have hrefl := Tunnel.Moves.refl c.tunnel
  unfold readReply answer
  split
  · rw [fail_tunnel]; exact hrefl
  · split
    · rw [fail_tunnel]; exact hrefl
    · simp only
      have hsame {decoder : D} {recv : PooledBuffer} : c.tunnel.Moves { c.tunnel with decoder, recv } := hrefl.same rfl rfl
      split
      · rw [fail_tunnel]; exact hsame
      · split
        · rw [fail_tunnel]; exact hsame
        · exact hsame
        · rw [fail_tunnel]; exact hsame
        · split
          · rw [fail_tunnel]; exact hsame
          · split <;> exact hsame

variable [RecordEncoder E]

theorem turn_moves (C : Crypto) (c : Client E D) (kdf : KdfAnswer) (encode : PoolAnswer) (pump : Pump) :
    c.tunnel.Moves (c.turn C kdf encode pump).tunnel := by
  have hrefl := Tunnel.Moves.refl c.tunnel
  unfold turn
  split
  · exact hrefl
  · exact hrefl
  · next w _ =>
    have h := c.tunnel.writeTurn_moves w
    generalize c.tunnel.writeTurn w = turned at h
    rcases turned with ⟨t, w'⟩ | ⟨t, w'⟩ | ⟨_ | _, t, w'⟩
    · exact h
    · exact h
    · simp only [fail_tunnel]; exact h
    · exact h
  · next minimum plain _ =>
    have h := c.tunnel.decodeTurn_moves C c.psk kdf minimum
    generalize c.tunnel.decodeTurn C c.psk kdf minimum = turned at h
    rcases turned with ⟨t, m⟩ | ⟨t, m⟩ | ⟨_ | (_ | record), t, m⟩
    · exact h
    · exact h
    · simp only [fail_tunnel]; exact h
    · simp only [fail_tunnel]; exact h
    · exact Tunnel.Moves.trans h (readReply_moves { c with tunnel := t } plain record)
  · next rest leftover _ =>
    have h := c.tunnel.forwardTurn_moves rest
    generalize c.tunnel.forwardTurn rest = turned at h
    rcases turned with ⟨t, w'⟩ | ⟨t, w'⟩ | ⟨_ | _, t, w'⟩
    · exact h
    · exact h
    · exact h
    · simp only
      split <;> exact h
  · next rest _ =>
    have h := c.tunnel.forwardTurn_moves rest
    generalize c.tunnel.forwardTurn rest = turned at h
    rcases turned with ⟨t, w'⟩ | ⟨t, w'⟩ | ⟨_ | _, t, w'⟩ <;> exact h
  · next rest _ =>
    have h := c.tunnel.forwardTurn_moves rest
    generalize c.tunnel.forwardTurn rest = turned at h
    rcases turned with ⟨t, w'⟩ | ⟨t, w'⟩ | ⟨_, t, w'⟩ <;> exact h
  · next r _ =>
    have h := c.tunnel.relayTurn_moves r pump
    generalize c.tunnel.relayTurn r pump = turned at h
    rcases turned with ⟨t, w'⟩ | ⟨t, w'⟩ | ⟨_ | _, t, w'⟩
    · exact h
    · exact h
    · exact h
    · simp only [finish]
      split <;> exact h

/-- **A step reads of what is there and writes behind what is written.** -/
theorem step_moves (C : Crypto) (T : IpText) (c : Client E D) (input : ClientInput) :
    c.tunnel.Moves (c.step C T input).tunnel := by
  have hrefl := Tunnel.Moves.refl c.tunnel
  cases input with
  | connect destination recv encode =>
    simp only [step, connect]
    split
    · split
      · rw [fail_tunnel]; exact hrefl.same rfl rfl
      · exact hrefl.same rfl rfl
    · exact hrefl
  | turn kdf encode pump => exact turn_moves C c kdf encode pump
  | expire =>
    simp only [step]
    split
    · rw [fail_tunnel]; exact hrefl
    · rw [fail_tunnel]; exact hrefl
    · exact hrefl
  | drop => exact hrefl

end Moves

/-! ## Every phase -/

variable {E D : Type} {T : IpText} {out : List (Bytes × Bytes)} {xs : List (Item × Bytes)} {c : Client E D}
  {u : Tunnel E D} {destination : Address} {request said heard : Bytes}

/-- What is known of the `i`-th tunnel. -/
abbrev Known (T : IpText) (c : Client E D) (out : List (Bytes × Bytes)) (xs : List (Item × Bytes)) (i : Nat)
    (s : ClientTunnel) : Prop :=
  ClientTunnel.Holds T c.reuse (cut (sealedMsgs out)) (cut (heardMsgs xs)) c.tunnel.snell.reader.AtEnd i s

theorem tunnels_some (hcur : c.current = some (destination, request)) :
    c.tunnels = c.past ++ [⟨destination, request, c.tunnel.plain⟩] := by
  rw [tunnels, hcur]
  rfl

/-- Success, and some of what came with the reply. -/
theorem answer_opened {past : List ClientTunnel} {leftover : Bytes} (rest : Bytes)
    (hbase : Base (ClientTunnel.Holds T c.reuse) past c.tunnel out xs said (commandTunnel :: leftover))
    (hsent : c.tunnel.plain.writer.sent ++ rest = replyImage .succeeded ++ leftover)
    (hopen : c.tunnel.plain.writer.closing = false) :
    ClientTunnel.Answer c.tunnel.plain.writer (cut (heardMsgs xs)) c.tunnel.snell.reader.AtEnd past.length := by
  have hseg := hbase.segment (List.cons_ne_nil _ _)
  refine .opened ?_ (.front rest ?_ hopen)
  · rw [hseg]
    exact ⟨leftover, rfl⟩
  · rw [hseg, hsent]
    rfl

variable [RecordEncoder E] [EncoderSpec E] [LawfulEncoder E] [RecordDecoder D] [StagedDecoder D] {p₀ : Pos E} {d₀ : D}

/-- What holds at any time. -/
structure Sound (T : IpText) (p₀ : Pos E) (d₀ : D) (c : Client E D) (out : List (Bytes × Bytes))
    (xs : List (Item × Bytes)) : Prop where
  spoken : Spoken v6WireCap p₀ d₀ c.tunnel out xs
  known : ∀ i s, c.tunnels[i]? = some s → c.Known T out xs i s
  quiet : ∀ i, c.tunnels.length ≤ i → (cut (sealedMsgs out)).segment i = [] ∧ (cut (sealedMsgs out)).closed.length ≤ i

theorem Sound.phase (h : c.Sound T p₀ d₀ out xs) (phase : ClientPhase) : Sound T p₀ d₀ { c with phase } out xs :=
  ⟨h.spoken, h.known, h.quiet⟩

/-- From what is known of each tunnel. -/
theorem Sound.of_current (hcur : c.current = some (destination, request))
    (hspoken : Spoken v6WireCap p₀ d₀ c.tunnel out xs) (hpast : ∀ i s, c.past[i]? = some s → c.Known T out xs i s)
    (hlast : c.Known T out xs c.past.length ⟨destination, request, c.tunnel.plain⟩)
    (hquiet : ∀ i, c.past.length < i → (cut (sealedMsgs out)).segment i = [] ∧ (cut (sealedMsgs out)).closed.length ≤ i) :
    c.Sound T p₀ d₀ out xs := by
  refine ⟨hspoken, fun i s hs => ?_, fun i hi => ?_⟩
  · rw [tunnels_some hcur] at hs
    rcases getElem?_concat_cases hs with hs | ⟨rfl, rfl⟩
    · exact hpast i s hs
    · exact hlast
  · rw [tunnels_some hcur, List.length_append, List.length_singleton] at hi
    exact hquiet i (by omega)

/-- A tunnel in which some of the request was sealed. -/
theorem Sound.of_base (hbase : Base (ClientTunnel.Holds T c.reuse) c.past c.tunnel out xs said heard)
    (hspoken : Spoken v6WireCap p₀ d₀ c.tunnel out xs) (hcur : c.current = some (destination, request))
    (hasked : request = [] ∧ c.tunnel.plain.reader.received = [] ∨ connectRequest T destination c.reuse = .ok request)
    (hsaid : said <+: request)
    (hanswer : ClientTunnel.Answer c.tunnel.plain.writer (cut (heardMsgs xs)) c.tunnel.snell.reader.AtEnd c.past.length) :
    c.Sound T p₀ d₀ out xs := by
  have hlen := hbase.count
  refine .of_current hcur hspoken hbase.holds ⟨hasked, ⟨?_, fun hi => ?_⟩, fun hi => ?_, hanswer⟩ fun i hi =>
    ⟨?_, by omega⟩
  · rw [← hlen, Cut.segment_current, hbase.said]
    exact hsaid.trans (List.prefix_append _ _)
  · omega
  · omega
  · exact Cut.segment_beyond (by omega)

theorem Sound.of_idle (hbase : Base (ClientTunnel.Holds T c.reuse) c.past c.tunnel out xs [] heard)
    (hspoken : Spoken v6WireCap p₀ d₀ c.tunnel out xs) (hcur : c.current = none) : c.Sound T p₀ d₀ out xs := by
  have htunnels : c.tunnels = c.past := by rw [tunnels, hcur]; exact List.append_nil _
  have hlen := hbase.count
  refine ⟨hspoken, fun i s hs => hbase.holds i s (htunnels ▸ hs), fun i hi => ?_⟩
  rw [htunnels] at hi
  refine ⟨?_, by omega⟩
  rcases Nat.lt_or_eq_of_le hi with hlt | rfl
  · exact Cut.segment_beyond (by omega)
  · rw [← hlen, Cut.segment_current, hbase.said]

/-- A relay: what it says and tells. -/
theorem Sound.of_relayed {out₁ : List (Bytes × Bytes)} {xs₁ : List (Item × Bytes)} {v : PlainToSnell.View}
    {w : SnellToPlain.View} {leftover : Bytes} (hcur : c.current = some (destination, request))
    (hasked : connectRequest T destination c.reuse = .ok request)
    (hrel : Relayed v6WireCap p₀ d₀ out₁ xs₁ (replyImage .succeeded ++ leftover) c.tunnel v w)
    (hbase : Base (ClientTunnel.Holds T c.reuse) c.past c.tunnel out₁ xs₁ request (commandTunnel :: leftover)) :
    c.Sound T p₀ d₀ (out₁ ++ v.records) (xs₁ ++ w.xs) := by
  have hcarried := hbase.relayed 1 (ClientTunnel.holds_stable T c.reuse) (List.cons_ne_nil _ _) (by simp) hrel
  have hopened : [commandTunnel] <+: (cut (heardMsgs (xs₁ ++ w.xs))).segment c.past.length :=
    List.IsPrefix.trans ⟨leftover, rfl⟩ hcarried.opened
  exact .of_current hcur hrel.spoken hcarried.holds
    ⟨.inr hasked, hcarried.speaks, fun _ => hopened, .opened hopened hcarried.tells⟩
    hcarried.quiet

/-- The connection went on, the local one did not. -/
theorem Sound.went (h : c.Sound T p₀ d₀ out xs) (hplain : u.plain = c.tunnel.plain)
    (hspoken : Spoken v6WireCap p₀ d₀ u out xs) (hung : c.tunnel.snell.reader.AtEnd → u.snell.reader.AtEnd) :
    Sound T p₀ d₀ { c with tunnel := u } out xs := by
  have htunnels : tunnels { c with tunnel := u } = c.tunnels := by simp only [tunnels, hplain]
  refine ⟨hspoken, fun i s hs => ?_, fun i hi => h.quiet i (htunnels ▸ hi)⟩
  rw [htunnels] at hs
  exact ClientTunnel.holds_stable T c.reuse (h.known i s hs) ⟨rfl, Iff.rfl⟩ ⟨rfl, Iff.rfl⟩ hung

/-- Some of a refusal was written. -/
theorem Sound.refused {reply : Reply} {writer : WriteHalf} (h : c.Sound T p₀ d₀ out xs)
    (hcur : c.current = some (destination, request)) (hne : reply ≠ .succeeded) (hsent : writer.sent <+: replyImage reply)
    (hopen : writer.closing = false) : Sound T p₀ d₀ { c with tunnel := c.tunnel.putPlainWriter writer } out xs := by
  have htunnels := tunnels_some hcur
  refine .of_current (c := { c with tunnel := c.tunnel.putPlainWriter writer }) hcur
    ⟨h.spoken.chain, h.spoken.sent, h.spoken.hears⟩
    (fun i s hs => h.known i s ?_) ?_ fun i hi => h.quiet i ?_
  · rw [htunnels, List.getElem?_append_left (lt_length_of_getElem? hs), hs]
  · have hlast := h.known c.past.length ⟨destination, request, c.tunnel.plain⟩ (by rw [htunnels]; simp)
    exact ⟨hlast.asked, hlast.speaks, hlast.answered, .refused reply hne hsent hopen⟩
  · rw [htunnels, List.length_append, List.length_singleton]
    exact hi

theorem Sound.grows (h : c.Sound T p₀ d₀ out xs) (hg : c.tunnel.Grows u) :
    Sound T p₀ d₀ { c with tunnel := u } out xs := by
  have hstable : Stable (ClientTunnel.Holds T c.reuse) := ClientTunnel.holds_stable T c.reuse
  have hknown {i : Nat} {s : ClientTunnel} (hs : c.tunnels[i]? = some s) : Known T { c with tunnel := u } out xs i s :=
    hstable (h.known i s hs) ⟨rfl, Iff.rfl⟩ ⟨rfl, Iff.rfl⟩ hg.snell.reader.atEnd
  have hspoken := h.spoken.grows hg.snell
  rcases Option.eq_none_or_eq_some c.current with hcur | ⟨⟨destination, request⟩, hcur⟩
  · have htunnels : c.tunnels = c.past := by rw [tunnels, hcur]; exact List.append_nil _
    have htunnels' : tunnels { c with tunnel := u } = c.past := by simp only [tunnels, hcur]; exact List.append_nil _
    refine ⟨hspoken, fun i s hs => hknown ?_, fun i hi => h.quiet i ?_⟩
    · rw [htunnels, ← htunnels', hs]
    · rw [htunnels, ← htunnels']
      exact hi
  · have htunnels := tunnels_some hcur
    refine .of_current (c := { c with tunnel := u }) hcur hspoken (fun i s hs => hknown ?_) ?_ fun i hi => h.quiet i ?_
    · rw [htunnels, List.getElem?_append_left (lt_length_of_getElem? hs), hs]
    · have hlast := hknown (i := c.past.length) (s := ⟨destination, request, c.tunnel.plain⟩) (by rw [htunnels]; simp)
      exact ⟨hlast.asked.imp_left fun h => ⟨h.1, hg.plain.reader.received.trans h.2⟩,
        hlast.speaks.grows hg.plain.reader, hlast.answered, hlast.answer.grows hg.plain.writer id⟩
    · rw [htunnels, List.length_append, List.length_singleton]
      exact hi

variable [DatagramEncoder E] [StreamEncoder E] {C : Crypto} [KdfDecoder C D] [SafeDecoder D]

/-- What each phase adds. -/
inductive Standing (C : Crypto) [KdfDecoder C D] (T : IpText) (p₀ : Pos E) (d₀ : D) (c : Client E D)
    (out : List (Bytes × Bytes)) (xs : List (Item × Bytes)) : Prop
  | idle (hphase : c.phase = .idle) (hcur : c.current = none) (hempty : c.tunnel.recv.buffer.filled = [])
    (hconn : Connected C v6WireCap p₀ d₀ c.env.sealing c.tunnel out xs)
    (hbase : Base (ClientTunnel.Holds T c.reuse) c.past c.tunnel out xs [] [])
  | connecting {w : Writing} {out₀ records : List (Bytes × Bytes)} {destination : Address} {request : Bytes}
    (hphase : c.phase = .connecting w) (hcur : c.current = some (destination, request))
    (hasked : connectRequest T destination c.reuse = .ok request) (hfresh : c.tunnel.plain.Fresh)
    (henv : w.env.sealing = c.env.sealing) (hout : out = out₀ ++ records)
    (hwrites : Writes C v6WireCap p₀ d₀ out₀ request c.tunnel w records xs)
    (hbase : Base (ClientTunnel.Holds T c.reuse) c.past c.tunnel out₀ xs [] [])
  | awaiting {minimum : Nat} {plain : PlainStream} {destination : Address} {request : Bytes}
    (hphase : c.phase = .awaiting minimum plain) (hcur : c.current = some (destination, request))
    (hasked : connectRequest T destination c.reuse = .ok request) (hfresh : c.tunnel.plain.Fresh)
    (hmin : minimum ≤ v6WireCap)
    (hplain : plain.buf.Wf) (hconn : Connected C v6WireCap p₀ d₀ c.env.sealing c.tunnel out xs)
    (hbase : Base (ClientTunnel.Holds T c.reuse) c.past c.tunnel out xs request plain.filled)
  | greeting {rest leftover : Bytes} {destination : Address} {request : Bytes}
    (hphase : c.phase = .greeting rest leftover) (hcur : c.current = some (destination, request))
    (hasked : connectRequest T destination c.reuse = .ok request) (hreceived : c.tunnel.plain.reader.received = [])
    (hsent : c.tunnel.plain.writer.sent ++ rest = replyImage .succeeded) (hopen : c.tunnel.plain.writer.closing = false)
    (hconn : Connected C v6WireCap p₀ d₀ c.env.sealing c.tunnel out xs)
    (hbase : Base (ClientTunnel.Holds T c.reuse) c.past c.tunnel out xs request (commandTunnel :: leftover))
  | forwarding {rest leftover : Bytes} {destination : Address} {request : Bytes}
    (hphase : c.phase = .forwarding rest) (hcur : c.current = some (destination, request))
    (hasked : connectRequest T destination c.reuse = .ok request) (hreceived : c.tunnel.plain.reader.received = [])
    (hsent : c.tunnel.plain.writer.sent ++ rest = replyImage .succeeded ++ leftover)
    (hopen : c.tunnel.plain.writer.closing = false) (hconn : Connected C v6WireCap p₀ d₀ c.env.sealing c.tunnel out xs)
    (hbase : Base (ClientTunnel.Holds T c.reuse) c.past c.tunnel out xs request (commandTunnel :: leftover))
  | relaying {r : Relaying} {out₁ : List (Bytes × Bytes)} {xs₁ : List (Item × Bytes)} {v : PlainToSnell.View}
    {w : SnellToPlain.View} {leftover : Bytes} {destination : Address} {request : Bytes}
    (hphase : c.phase = .relaying r) (hcur : c.current = some (destination, request))
    (hasked : connectRequest T destination c.reuse = .ok request) (henv : r.env.sealing = c.env.sealing)
    (hkeep : r.keepSnellOpen = c.reuse) (hout : out = out₁ ++ v.records) (hxs : xs = xs₁ ++ w.xs)
    (hrel : Relays C v6WireCap p₀ d₀ out₁ xs₁ (replyImage .succeeded ++ leftover) c.tunnel r v w)
    (hbase : Base (ClientTunnel.Holds T c.reuse) c.past c.tunnel out₁ xs₁ request (commandTunnel :: leftover))
  | refusing {rest : Bytes} {reply : Reply} {destination : Address} {request : Bytes} (hphase : c.phase = .refusing rest)
    (hcur : c.current = some (destination, request)) (hne : reply ≠ .succeeded)
    (hsent : c.tunnel.plain.writer.sent ++ rest = replyImage reply) (hopen : c.tunnel.plain.writer.closing = false)
    (hsound : c.Sound T p₀ d₀ out xs)
  | ended (hphase : c.phase = .ended) (hsound : c.Sound T p₀ d₀ out xs)

structure Inv (C : Crypto) [KdfDecoder C D] (T : IpText) (p₀ : Pos E) (d₀ : D) (c : Client E D)
    (out : List (Bytes × Bytes)) (xs : List (Item × Bytes)) : Prop where
  psk_eq : c.psk = KdfDecoder.psk C d₀
  standing : Standing C T p₀ d₀ c out xs

theorem Standing.sound (h : Standing C T p₀ d₀ c out xs) : c.Sound T p₀ d₀ out xs := by
  cases h with
  | idle _ hcur _ hconn hbase => exact .of_idle hbase hconn.spoken hcur
  | connecting _ hcur hasked hfresh _ hout hwrites hbase =>
    subst hout
    have hbase' := hbase.say (ClientTunnel.holds_stable T c.reuse) hwrites.inv.data
    rw [List.nil_append] at hbase'
    exact .of_base hbase' hwrites.spoken hcur (.inr hasked) ⟨_, hwrites.inv.payload⟩ (.silent hfresh.sent hfresh.closing)
  | awaiting _ hcur hasked hfresh _ _ hconn hbase =>
    exact .of_base hbase hconn.spoken hcur (.inr hasked) (List.prefix_refl _) (.silent hfresh.sent hfresh.closing)
  | @greeting rest leftover _ _ _ hcur hasked _ hsent hopen hconn hbase =>
    refine .of_base hbase hconn.spoken hcur (.inr hasked) (List.prefix_refl _)
      (answer_opened (rest ++ leftover) hbase ?_ hopen)
    rw [← List.append_assoc, hsent]
  | forwarding _ hcur hasked _ hsent hopen hconn hbase =>
    exact .of_base hbase hconn.spoken hcur (.inr hasked) (List.prefix_refl _) (answer_opened _ hbase hsent hopen)
  | relaying _ hcur hasked _ _ hout hxs hrel hbase =>
    subst hout hxs
    exact .of_relayed hcur hasked hrel.relayed hbase
  | refusing _ _ _ _ _ hsound => exact hsound
  | ended _ hsound => exact hsound

theorem new_inv {env : ReplyEnv} {encoder : E} {decoder : D} (T : IpText) (reuse : Bool) (h : Sustains encoder env.sealing)
    (hp : pending decoder = 0) (hv : SafeDecoder.Valid decoder) :
    Inv C T (pos encoder) decoder (Client.new env (KdfDecoder.psk C decoder) reuse encoder decoder) [] [] :=
  ⟨rfl, .idle rfl rfl rfl (.new env .new h hp hv) (.new _)⟩

/-! ## Steps -/

/-- The invariant after a step, with what was sealed and heard by then. -/
def Leads (C : Crypto) [KdfDecoder C D] (T : IpText) (p₀ : Pos E) (d₀ : D) (c : Client E D) : Prop :=
  ∃ out xs, c.Inv C T p₀ d₀ out xs

theorem ended_leads (hpsk : c.psk = KdfDecoder.psk C d₀) (hsound : c.Sound T p₀ d₀ out xs) :
    Leads C T p₀ d₀ { c with phase := .ended } :=
  ⟨out, xs, hpsk, .ended rfl (hsound.phase _)⟩

/-- `open` fails before anything was written to the local side. -/
theorem fail_leads (hpsk : c.psk = KdfDecoder.psk C d₀) (hsound : c.Sound T p₀ d₀ out xs)
    (hcur : c.current = some (destination, request)) (hsent : c.tunnel.plain.writer.sent = [])
    (hopen : c.tunnel.plain.writer.closing = false) (f : SessionFault) : Leads C T p₀ d₀ (c.fail f) := by
  have hended := ended_leads hpsk hsound
  cases f with
  | err error =>
    simp only [fail]
    split
    · exact hended
    · rw [socks5Reply_eq]
      refine ⟨out, xs, hpsk, .refusing rfl hcur (socks5ReplyFromError_ne error) ?_ hopen (hsound.phase _)⟩
      rw [hsent]
      rfl
  | panic | diverged => exact hended

theorem connecting_turn {w : Writing} (hpsk : c.psk = KdfDecoder.psk C d₀) {out₀ records : List (Bytes × Bytes)}
    (hphase : c.phase = .connecting w) (hcur : c.current = some (destination, request))
    (hasked : connectRequest T destination c.reuse = .ok request) (hfresh : c.tunnel.plain.Fresh)
    (henv : w.env.sealing = c.env.sealing) (hwrites : Writes C v6WireCap p₀ d₀ out₀ request c.tunnel w records xs)
    (hbase : Base (ClientTunnel.Holds T c.reuse) c.past c.tunnel out₀ xs [] []) (kdf : KdfAnswer) (encode : PoolAnswer)
    (pump : Pump) : Leads C T p₀ d₀ (c.turn C kdf encode pump) := by
  have hturn := hwrites.turn
  have hkept {t : Tunnel E D} {w' : Writing} {records' : List (Bytes × Bytes)}
      (hw : Writes C v6WireCap p₀ d₀ out₀ request t w' records' xs) (haside : c.tunnel.Aside t) (henv' : w'.env = w.env) :
      Standing C T p₀ d₀ { c with tunnel := t, phase := .connecting w' } (out₀ ++ records') xs :=
    .connecting rfl hcur hasked (haside.plain ▸ hfresh) (henv' ▸ henv) rfl hw
      (hbase.of_inbound (ClientTunnel.holds_stable T c.reuse) haside.inbound)
  simp only [turn, hphase]
  generalize c.tunnel.writeTurn w = turned at hturn
  rcases turned with ⟨t, w'⟩ | ⟨t, w'⟩ | ⟨f | _, t, w'⟩
  · obtain ⟨records', hw, henv', haside⟩ := hturn
    exact ⟨_, _, hpsk, hkept hw haside henv'⟩
  · obtain ⟨records', hw, henv', haside⟩ := hturn
    exact ⟨_, _, hpsk, hkept hw haside henv'⟩
  · obtain ⟨records', hw, henv', haside, -⟩ := hturn
    have hfresh' : t.plain.Fresh := haside.plain ▸ hfresh
    exact fail_leads (c := { c with tunnel := t, phase := .connecting w }) hpsk
      ((hkept hw haside henv').sound.phase _) hcur
      hfresh'.sent hfresh'.closing f
  · obtain ⟨records', hw, henv', haside, hdone⟩ := hturn
    obtain ⟨hall, hconn⟩ := hdone rfl
    have hbase' := (hbase.of_inbound (u := t) (ClientTunnel.holds_stable T c.reuse) haside.inbound).say
      (ClientTunnel.holds_stable T c.reuse) hw.inv.data
    rw [List.nil_append, hall] at hbase'
    exact ⟨_, _, hpsk, .awaiting rfl hcur hasked (haside.plain ▸ hfresh) (Nat.zero_le _) (Buffer.new_wf _)
      (henv ▸ hconn) hbase'⟩

theorem answer_leads {leftover : Bytes} (hpsk : c.psk = KdfDecoder.psk C d₀)
    (hcur : c.current = some (destination, request)) (hasked : connectRequest T destination c.reuse = .ok request)
    (hfresh : c.tunnel.plain.Fresh) (hconn : Connected C v6WireCap p₀ d₀ c.env.sealing c.tunnel out xs)
    (hbase : Base (ClientTunnel.Holds T c.reuse) c.past c.tunnel out xs request (commandTunnel :: leftover)) :
    Leads C T p₀ d₀ (c.answer leftover) := by
  unfold answer
  rw [socks5Reply_eq]
  refine ⟨out, xs, hpsk, .greeting rfl hcur hasked hfresh.received ?_ hfresh.closing hconn hbase⟩
  rw [hfresh.sent]
  rfl

/-- A Tunnel reply is one byte. -/
theorem decodeServerReply_tunnel {src : Bytes} {n : Nat} (h : decodeServerReply src = .ok (.done (.tunnel, n))) :
    n = 1 ∧ ∃ leftover, src = commandTunnel :: leftover := by
  unfold decodeServerReply at h
  split at h
  · cases h
  · next command after =>
    split at h
    · next hcommand =>
      cases h
      exact ⟨rfl, after, hcommand ▸ rfl⟩
    · split at h
      · split at h
        · split at h <;> cases h
        · cases h
      · cases h

/-- A record of the server's reply, `u` being the tunnel once it is consumed. -/
theorem readReply_leads {plain : PlainStream} {record : DecodedRecord} {y : Item × Bytes} {d' : D} {b' : Buffer}
    (hpsk : c.psk = KdfDecoder.psk C d₀) (hcur : c.current = some (destination, request))
    (hasked : connectRequest T destination c.reuse = .ok request) (hfresh : c.tunnel.plain.Fresh) (hplain : plain.buf.Wf)
    (hsound : c.Sound T p₀ d₀ out xs) (hbytes : record.plaintext c.tunnel.recv.buffer.filled = .ok (Item.plain y))
    (hconsume : consume c.tunnel.decoder c.tunnel.recv.buffer record = (.ok (), d', b'))
    (hu : u = { c.tunnel with decoder := d', recv := { c.tunnel.recv with buffer := b' } })
    (hconn : Connected C v6WireCap p₀ d₀ c.env.sealing u out (xs ++ [y]))
    (hbase : Base (ClientTunnel.Holds T c.reuse) c.past u out (xs ++ [y]) request (plain.filled ++ Item.plain y)) :
    Leads C T p₀ d₀ (c.readReply plain record) := by
  have hfail := fail_leads hpsk hsound hcur hfresh.sent hfresh.closing
  have hfresh' : u.plain.Fresh := by rw [hu]; exact hfresh
  unfold readReply
  rw [hbytes]
  simp only
  cases hpush : plain.push (Item.plain y) with
  | error f => exact hfail _
  | ok plain' =>
    have hpushed := PlainStream.push_ok hplain hpush
    rw [← hpushed.1] at hbase
    have hsound' : Sound T p₀ d₀ { c with tunnel := u } out (xs ++ [y]) :=
      Standing.sound (.awaiting (c := { c with tunnel := u, phase := .awaiting 0 plain' }) rfl hcur hasked hfresh'
        (Nat.zero_le _) hpushed.2 hconn hbase)|>.phase _
    have hfail' := fail_leads (c := { c with tunnel := u }) hpsk hsound' hcur hfresh'.sent hfresh'.closing
    simp only [hconsume, ← hu]
    cases hreply : decodeServerReply plain'.filled with
    | error f => exact hfail' _
    | ok parsed =>
      rcases parsed with k | ⟨_ | ⟨code, message⟩, n⟩
      · exact ⟨_, _, hpsk, .awaiting rfl hcur hasked hfresh' (Nat.zero_le _) hpushed.2 hconn hbase⟩
      · obtain ⟨rfl, leftover, hleft⟩ := decodeServerReply_tunnel hreply
        have hslice : sliceFrom plain'.filled 1 = .ok leftover := by
          rw [hleft]
          exact if_pos (by simp)
        rw [hleft] at hbase
        simp only [hslice]
        exact answer_leads (c := { c with tunnel := u }) hpsk hcur hasked hfresh' hconn hbase
      · exact hfail' _

theorem awaiting_turn {minimum : Nat} {plain : PlainStream} (hpsk : c.psk = KdfDecoder.psk C d₀)
    (hphase : c.phase = .awaiting minimum plain) (hcur : c.current = some (destination, request))
    (hasked : connectRequest T destination c.reuse = .ok request) (hfresh : c.tunnel.plain.Fresh)
    (hmin : minimum ≤ v6WireCap) (hplain : plain.buf.Wf)
    (hconn : Connected C v6WireCap p₀ d₀ c.env.sealing c.tunnel out xs)
    (hbase : Base (ClientTunnel.Holds T c.reuse) c.past c.tunnel out xs request plain.filled) (kdf : KdfAnswer)
    (encode : PoolAnswer) (pump : Pump) : Leads C T p₀ d₀ (c.turn C kdf encode pump) := by
  have hstable : Stable (ClientTunnel.Holds T c.reuse) := ClientTunnel.holds_stable T c.reuse
  have hsound := (Standing.awaiting hphase hcur hasked hfresh hmin hplain hconn hbase).sound
  have hturn := hconn.decodeTurn hpsk kdf hmin
  simp only [turn, hphase]
  generalize c.tunnel.decodeTurn C c.psk kdf minimum = turned at hturn
  have hgoing {t : Tunnel E D} {m : Nat} (hle : m ≤ v6WireCap) (hl : c.tunnel.Listened t) (hdead : c.tunnel.Dead → t.Dead)
      (hconn' : Connected C v6WireCap p₀ d₀ c.env.sealing t out xs) :
      Leads C T p₀ d₀ { c with tunnel := t, phase := .awaiting m plain } :=
    ⟨out, xs, hpsk,
      .awaiting rfl hcur hasked (hl.plain ▸ hfresh) hle hplain hconn' (hbase.of_tunnel hstable hl.atEnd hdead)⟩
  have hfail {t : Tunnel E D} (hl : c.tunnel.Listened t) (hspoken : Spoken v6WireCap p₀ d₀ t out xs) (f : SessionFault) :
      Leads C T p₀ d₀ (fail { c with tunnel := t, phase := .awaiting minimum plain } f) := by
    have hfresh' : t.plain.Fresh := hl.plain ▸ hfresh
    exact fail_leads (c := { c with tunnel := t, phase := .awaiting minimum plain }) hpsk
      ((hsound.went hl.plain hspoken hl.atEnd).phase _) hcur hfresh'.sent hfresh'.closing f
  rcases turned with ⟨t, m⟩ | ⟨t, m⟩ | ⟨f | (_ | record), t, m⟩
  · obtain ⟨hle, hl, hdead, hconn'⟩ := hturn
    exact hgoing hle hl hdead hconn'
  · obtain ⟨hle, hl, hdead, hconn'⟩ := hturn
    exact hgoing hle hl hdead hconn'
  · obtain ⟨hl, hspoken, -⟩ := hturn
    exact hfail hl hspoken f
  · obtain ⟨hl, hspoken, -⟩ := hturn
    exact hfail hl hspoken _
  · obtain ⟨hl, hspoken, hlive, y, hdata, hbytes, d', b', hconsume, hconn'⟩ := hturn
    have hbase' := (hbase.hear [y] hstable hlive (by simpa using hdata)).of_tunnel
      (u := { t with decoder := d', recv := { t.recv with buffer := b' } }) hstable hl.atEnd fun hd => absurd hd hlive
    rw [show Item.plainOf [y] = Item.plain y from List.flatMap_singleton ..] at hbase'
    exact readReply_leads (c := { c with tunnel := t, phase := .awaiting minimum plain }) hpsk hcur hasked
      (hl.plain ▸ hfresh)
      hplain ((hsound.went hl.plain hspoken hl.atEnd).phase _) hbytes hconsume rfl hconn' hbase'

/-- `relay_tunnel` starts with the reply and what came with it written. -/
theorem startRelay_leads {leftover : Bytes} (hpsk : c.psk = KdfDecoder.psk C d₀)
    (hcur : c.current = some (destination, request)) (hasked : connectRequest T destination c.reuse = .ok request)
    (hreceived : c.tunnel.plain.reader.received = [])
    (hsent : c.tunnel.plain.writer.sent = replyImage .succeeded ++ leftover)
    (hopen : c.tunnel.plain.writer.closing = false) (hconn : Connected C v6WireCap p₀ d₀ c.env.sealing c.tunnel out xs)
    (hbase : Base (ClientTunnel.Holds T c.reuse) c.past c.tunnel out xs request (commandTunnel :: leftover))
    (encode : PoolAnswer) : Leads C T p₀ d₀ (c.startRelay encode) := by
  have hrel := hconn.relays (c.env.leased encode) c.reuse c.asked hreceived hopen
  rw [hsent] at hrel
  exact ⟨_, _, hpsk, .relaying rfl hcur hasked rfl rfl rfl rfl hrel hbase⟩

theorem greeting_turn {rest leftover : Bytes} (hpsk : c.psk = KdfDecoder.psk C d₀)
    (hphase : c.phase = .greeting rest leftover) (hcur : c.current = some (destination, request))
    (hasked : connectRequest T destination c.reuse = .ok request) (hreceived : c.tunnel.plain.reader.received = [])
    (hsent : c.tunnel.plain.writer.sent ++ rest = replyImage .succeeded) (hopen : c.tunnel.plain.writer.closing = false)
    (hconn : Connected C v6WireCap p₀ d₀ c.env.sealing c.tunnel out xs)
    (hbase : Base (ClientTunnel.Holds T c.reuse) c.past c.tunnel out xs request (commandTunnel :: leftover))
    (kdf : KdfAnswer) (encode : PoolAnswer) (pump : Pump) : Leads C T p₀ d₀ (c.turn C kdf encode pump) := by
  have hbase' (w : WriteHalf) := hbase.of_inbound (u := c.tunnel.putPlainWriter w)
    (ClientTunnel.holds_stable T c.reuse) rfl
  have hgoing {w : WriteHalf} {rest' : Bytes} (hw : c.tunnel.plain.writer.Wrote rest w rest') :
      Standing C T p₀ d₀ { c with tunnel := c.tunnel.putPlainWriter w, phase := .greeting rest' leftover } out xs :=
    .greeting rfl hcur hasked hreceived (hw.sent.trans hsent) (hw.closing.trans hopen) (hconn.forwarded w) (hbase' w)
  have hturn := c.tunnel.forwardTurn_leads rest
  simp only [turn, hphase]
  generalize c.tunnel.forwardTurn rest = turned at hturn
  rcases turned with ⟨t, rest'⟩ | ⟨t, rest'⟩ | ⟨_ | _, t, rest'⟩
  · obtain ⟨w, rfl, hw⟩ := hturn
    exact ⟨out, xs, hpsk, hgoing hw⟩
  · obtain ⟨w, rfl, hw⟩ := hturn
    exact ⟨out, xs, hpsk, hgoing hw⟩
  · obtain ⟨w, rfl, hw, -⟩ := hturn
    exact ended_leads (c := { c with tunnel := c.tunnel.putPlainWriter w, phase := .greeting rest' leftover }) hpsk
      (hgoing hw).sound
  · obtain ⟨w, rfl, hw, hdone⟩ := hturn
    obtain rfl : rest' = [] := hdone rfl
    have hall := hw.all hsent
    simp only
    split
    · next hnil =>
      subst hnil
      exact startRelay_leads (c := { c with tunnel := c.tunnel.putPlainWriter w, phase := .greeting rest [] })
        hpsk hcur hasked
        hreceived (hall.trans (List.append_nil _).symm) (hw.closing.trans hopen) (hconn.forwarded w) (hbase' w) encode
    · exact ⟨out, xs, hpsk, .forwarding rfl hcur hasked hreceived (congrArg (· ++ leftover) hall) (hw.closing.trans hopen)
        (hconn.forwarded w) (hbase' w)⟩

theorem forwarding_turn {rest leftover : Bytes} (hpsk : c.psk = KdfDecoder.psk C d₀)
    (hphase : c.phase = .forwarding rest) (hcur : c.current = some (destination, request))
    (hasked : connectRequest T destination c.reuse = .ok request) (hreceived : c.tunnel.plain.reader.received = [])
    (hsent : c.tunnel.plain.writer.sent ++ rest = replyImage .succeeded ++ leftover)
    (hopen : c.tunnel.plain.writer.closing = false) (hconn : Connected C v6WireCap p₀ d₀ c.env.sealing c.tunnel out xs)
    (hbase : Base (ClientTunnel.Holds T c.reuse) c.past c.tunnel out xs request (commandTunnel :: leftover))
    (kdf : KdfAnswer) (encode : PoolAnswer) (pump : Pump) : Leads C T p₀ d₀ (c.turn C kdf encode pump) := by
  have hbase' (w : WriteHalf) := hbase.of_inbound (u := c.tunnel.putPlainWriter w)
    (ClientTunnel.holds_stable T c.reuse) rfl
  have hgoing {w : WriteHalf} {rest' : Bytes} (hw : c.tunnel.plain.writer.Wrote rest w rest') :
      Standing C T p₀ d₀ { c with tunnel := c.tunnel.putPlainWriter w, phase := .forwarding rest' } out xs :=
    .forwarding rfl hcur hasked hreceived (hw.sent.trans hsent) (hw.closing.trans hopen) (hconn.forwarded w) (hbase' w)
  have hturn := c.tunnel.forwardTurn_leads rest
  simp only [turn, hphase]
  generalize c.tunnel.forwardTurn rest = turned at hturn
  rcases turned with ⟨t, rest'⟩ | ⟨t, rest'⟩ | ⟨_ | _, t, rest'⟩
  · obtain ⟨w, rfl, hw⟩ := hturn
    exact ⟨out, xs, hpsk, hgoing hw⟩
  · obtain ⟨w, rfl, hw⟩ := hturn
    exact ⟨out, xs, hpsk, hgoing hw⟩
  · obtain ⟨w, rfl, hw, -⟩ := hturn
    exact ended_leads (c := { c with tunnel := c.tunnel.putPlainWriter w, phase := .forwarding rest' }) hpsk
      (hgoing hw).sound
  · obtain ⟨w, rfl, hw, hdone⟩ := hturn
    obtain rfl : rest' = [] := hdone rfl
    exact startRelay_leads (c := { c with tunnel := c.tunnel.putPlainWriter w, phase := .forwarding rest })
      hpsk hcur hasked
      hreceived (hw.all hsent) (hw.closing.trans hopen) (hconn.forwarded w) (hbase' w) encode

theorem refusing_turn {rest : Bytes} {reply : Reply} (hpsk : c.psk = KdfDecoder.psk C d₀)
    (hphase : c.phase = .refusing rest) (hcur : c.current = some (destination, request)) (hne : reply ≠ .succeeded)
    (hsent : c.tunnel.plain.writer.sent ++ rest = replyImage reply) (hopen : c.tunnel.plain.writer.closing = false)
    (hsound : c.Sound T p₀ d₀ out xs) (kdf : KdfAnswer) (encode : PoolAnswer) (pump : Pump) :
    Leads C T p₀ d₀ (c.turn C kdf encode pump) := by
  have hsound' {w : WriteHalf} {rest' : Bytes} (hw : c.tunnel.plain.writer.Wrote rest w rest') :
      Sound T p₀ d₀ { c with tunnel := c.tunnel.putPlainWriter w } out xs :=
    hsound.refused hcur hne ⟨rest', hw.sent.trans hsent⟩ (hw.closing.trans hopen)
  have hturn := c.tunnel.forwardTurn_leads rest
  simp only [turn, hphase]
  generalize c.tunnel.forwardTurn rest = turned at hturn
  rcases turned with ⟨t, rest'⟩ | ⟨t, rest'⟩ | ⟨_, t, rest'⟩
  · obtain ⟨w, rfl, hw⟩ := hturn
    exact ⟨out, xs, hpsk, .refusing rfl hcur hne (hw.sent.trans hsent) (hw.closing.trans hopen) ((hsound' hw).phase _)⟩
  · obtain ⟨w, rfl, hw⟩ := hturn
    exact ⟨out, xs, hpsk, .refusing rfl hcur hne (hw.sent.trans hsent) (hw.closing.trans hopen) ((hsound' hw).phase _)⟩
  · obtain ⟨w, rfl, hw, -⟩ := hturn
    exact ⟨out, xs, hpsk, .ended rfl ((hsound' hw).phase _)⟩

/-- `relay_tunnel` returned. -/
theorem finish_leads {r : Relaying} {out₁ : List (Bytes × Bytes)} {xs₁ : List (Item × Bytes)} {v : PlainToSnell.View}
    {w : SnellToPlain.View} {leftover : Bytes} (hpsk : c.psk = KdfDecoder.psk C d₀)
    (hcur : c.current = some (destination, request)) (hasked : connectRequest T destination c.reuse = .ok request)
    (henv : r.env.sealing = c.env.sealing) (hkeep : r.keepSnellOpen = c.reuse)
    (hrel : Relays C v6WireCap p₀ d₀ out₁ xs₁ (replyImage .succeeded ++ leftover) c.tunnel r v w) (hdone : r.Done)
    (hbase : Base (ClientTunnel.Holds T c.reuse) c.past c.tunnel out₁ xs₁ request (commandTunnel :: leftover)) :
    Leads C T p₀ d₀ (c.finish r.asked) := by
  have hsound := Sound.of_relayed hcur hasked hrel.relayed hbase
  unfold finish
  split
  · next hreuse =>
    obtain ⟨hreuse, hempty, -⟩ := hreuse
    have hconn := hrel.connected hdone (hkeep.trans hreuse)
    rw [henv] at hconn
    have hlast := hsound.known c.past.length ⟨destination, request, c.tunnel.plain⟩ (by rw [tunnels_some hcur]; simp)
    have hnext := hbase.next 1 (ClientTunnel.holds_stable T c.reuse) (List.cons_ne_nil _ _) (by simp) hrel hdone hlast
    rw [← tunnels_some hcur] at hnext
    exact ⟨_, _, hpsk, .idle rfl rfl ((Buffer.isEmpty_iff hconn.listening.wf).mp hempty) hconn hnext⟩
  · exact ended_leads hpsk hsound

theorem relaying_turn [ClosingEncoder E] {r : Relaying} {out₁ : List (Bytes × Bytes)} {xs₁ : List (Item × Bytes)}
    {v : PlainToSnell.View} {w : SnellToPlain.View} {leftover : Bytes} (hpsk : c.psk = KdfDecoder.psk C d₀)
    (hphase : c.phase = .relaying r) (hcur : c.current = some (destination, request))
    (hasked : connectRequest T destination c.reuse = .ok request) (henv : r.env.sealing = c.env.sealing)
    (hkeep : r.keepSnellOpen = c.reuse)
    (hrel : Relays C v6WireCap p₀ d₀ out₁ xs₁ (replyImage .succeeded ++ leftover) c.tunnel r v w)
    (hbase : Base (ClientTunnel.Holds T c.reuse) c.past c.tunnel out₁ xs₁ request (commandTunnel :: leftover))
    (kdf : KdfAnswer) (encode : PoolAnswer) (pump : Pump) : Leads C T p₀ d₀ (c.turn C kdf encode pump) := by
  have hturn := hrel.turn pump
  have hkept := c.tunnel.relayTurn_kept r pump
  have hmoves := c.tunnel.relayTurn_moves r pump
  have hbase' {t : Tunnel E D} (hm : c.tunnel.Moves t) :
      Base (ClientTunnel.Holds T c.reuse) c.past t out₁ xs₁ request (commandTunnel :: leftover) :=
    hbase.live (ClientTunnel.holds_stable T c.reuse) hm.reader.atEnd (List.cons_ne_nil _ _)
  have hgoing {t : Tunnel E D} {r' : Relaying} (hm : c.tunnel.Moves t) (hk : r.Kept r')
      (h : ∃ v' w', Relays C v6WireCap p₀ d₀ out₁ xs₁ (replyImage .succeeded ++ leftover) t r' v' w') :
      Leads C T p₀ d₀ { c with tunnel := t, phase := .relaying r' } := by
    obtain ⟨v', w', h⟩ := h
    exact ⟨_, _, hpsk, .relaying rfl hcur hasked (hk.env ▸ henv) (hk.keepSnellOpen.trans hkeep) rfl rfl h (hbase' hm)⟩
  simp only [turn, hphase]
  generalize c.tunnel.relayTurn r pump = turned at hturn hkept hmoves
  rcases turned with ⟨t, r'⟩ | ⟨t, r'⟩ | ⟨_ | _, t, r'⟩
  · exact hgoing hmoves hkept hturn
  · exact hgoing hmoves hkept hturn
  · obtain ⟨v', w', h, -⟩ := hturn
    exact ended_leads (c := { c with tunnel := t, phase := .relaying r }) hpsk (.of_relayed hcur hasked h (hbase' hmoves))
  · obtain ⟨v', w', -, hdone⟩ := hturn
    obtain ⟨h, hdone⟩ := hdone rfl
    exact finish_leads (c := { c with tunnel := t, phase := .relaying r }) (r := r') hpsk hcur hasked (hkept.env ▸ henv)
      (hkept.keepSnellOpen.trans hkeep) h hdone (hbase' hmoves)

/-- A connection out of the pool, with a new local connection and a new
lease. -/
def taken (c : Client E D) (recv : PoolAnswer) : Tunnel E D :=
  { c.tunnel with plain := .new, recv := (c.env.leased recv).lease }

theorem taken_connected (hconn : Connected C v6WireCap p₀ d₀ c.env.sealing c.tunnel out xs)
    (hempty : c.tunnel.recv.buffer.filled = []) (recv : PoolAnswer) :
    Connected C v6WireCap p₀ d₀ c.env.sealing (c.taken recv) out xs := by
  have hheard := hconn.listening.heard
  rw [show c.tunnel.inbound.recv.buffer.filled = [] from hempty] at hheard
  exact ⟨hconn.chain, hconn.sent, hconn.closing, hconn.sustains, hheard, hconn.listening.pending, hconn.listening.psk_eq,
    hconn.listening.valid, ⟨Nat.zero_le _, Nat.zero_le _⟩, rfl, hconn.listening.small⟩

theorem connect_leads (hinv : c.Inv C T p₀ d₀ out xs) (destination : Address) (recv encode : PoolAnswer) :
    Leads C T p₀ d₀ (c.connect T destination recv encode) := by
  have hpsk := hinv.psk_eq
  unfold connect
  cases hphase : c.phase with
  | idle =>
    cases hinv.standing with
    | idle _ hcur hempty hconn hbase =>
      have hconn' := taken_connected hconn hempty recv
      have hbase' := hbase.of_tunnel (u := c.taken recv) (ClientTunnel.holds_stable T c.reuse) id fun hd => ⟨hd.1, rfl⟩
      simp only
      cases hasked : connectRequest T destination c.reuse with
      | error f =>
        refine fail_leads (c := { c with tunnel := c.taken recv, current := some (destination, []), phase := .idle }) hpsk
          (.of_base hbase' hconn'.spoken rfl (.inl ⟨rfl, rfl⟩) (List.prefix_refl _) (.silent rfl rfl)) rfl rfl rfl f
      | ok request =>
        exact ⟨_, _, hpsk, .connecting rfl rfl hasked ⟨rfl, rfl, rfl⟩ rfl (List.append_nil _).symm
          (hconn'.writes (c.env.leased encode) request c.asked) hbase'⟩
    | connecting h | awaiting h | greeting h | forwarding h | relaying h | refusing h | ended h =>
      rw [hphase] at h; cases h
  | _ => exact ⟨out, xs, hinv⟩

theorem turn_leads [ClosingEncoder E] (hinv : c.Inv C T p₀ d₀ out xs) (kdf : KdfAnswer) (encode : PoolAnswer)
    (pump : Pump) : Leads C T p₀ d₀ (c.turn C kdf encode pump) := by
  obtain ⟨hpsk, hstanding⟩ := hinv
  cases hstanding with
  | idle hphase hcur hempty hconn hbase =>
    simp only [turn, hphase]
    exact ⟨out, xs, hpsk, .idle hphase hcur hempty hconn hbase⟩
  | connecting hphase hcur hasked hfresh henv _ hwrites hbase =>
    exact connecting_turn hpsk hphase hcur hasked hfresh henv hwrites hbase kdf encode pump
  | awaiting hphase hcur hasked hfresh hmin hplain hconn hbase =>
    exact awaiting_turn hpsk hphase hcur hasked hfresh hmin hplain hconn hbase kdf encode pump
  | greeting hphase hcur hasked hreceived hsent hopen hconn hbase =>
    exact greeting_turn hpsk hphase hcur hasked hreceived hsent hopen hconn hbase kdf encode pump
  | forwarding hphase hcur hasked hreceived hsent hopen hconn hbase =>
    exact forwarding_turn hpsk hphase hcur hasked hreceived hsent hopen hconn hbase kdf encode pump
  | relaying hphase hcur hasked henv hkeep _ _ hrel hbase =>
    exact relaying_turn hpsk hphase hcur hasked henv hkeep hrel hbase kdf encode pump
  | refusing hphase hcur hne hsent hopen hsound =>
    exact refusing_turn hpsk hphase hcur hne hsent hopen hsound kdf encode pump
  | ended hphase hsound =>
    simp only [turn, hphase]
    exact ⟨out, xs, hpsk, .ended hphase hsound⟩

theorem expire_leads (hinv : c.Inv C T p₀ d₀ out xs) : Leads C T p₀ d₀ (c.step C T .expire) := by
  have hsound := hinv.standing.sound
  unfold step
  cases hinv.standing with
  | connecting hphase hcur _ hfresh | awaiting hphase hcur _ hfresh =>
    simp only [hphase]
    exact fail_leads hinv.psk_eq hsound hcur hfresh.sent hfresh.closing _
  | idle hphase | greeting hphase | forwarding hphase | relaying hphase | refusing hphase | ended hphase =>
    simp only [hphase]
    exact ⟨out, xs, hinv⟩

/-- **A step keeps the invariant.** -/
theorem step_leads [ClosingEncoder E] (hinv : c.Inv C T p₀ d₀ out xs) (input : ClientInput) :
    Leads C T p₀ d₀ (c.step C T input) := by
  cases input with
  | connect destination recv encode => exact connect_leads hinv destination recv encode
  | turn kdf encode pump => exact turn_leads hinv kdf encode pump
  | expire => exact expire_leads hinv
  | drop => exact ended_leads hinv.psk_eq hinv.standing.sound

/-! ## What happens outside -/

/-- **What happens outside keeps the invariant.** -/
theorem Inv.grows (h : c.Inv C T p₀ d₀ out xs) (hg : c.tunnel.Grows u) : Inv C T p₀ d₀ { c with tunnel := u } out xs := by
  have hstable : Stable (ClientTunnel.Holds T c.reuse) := ClientTunnel.holds_stable T c.reuse
  have hsent := hg.plain.writer.sent
  have hclosing := hg.plain.writer.closing
  refine ⟨h.psk_eq, ?_⟩
  cases h.standing with
  | idle hphase hcur hempty hconn hbase =>
    exact .idle hphase hcur (by rw [← hempty, ← hg.recv]) (hconn.grows hg) (hbase.grows hstable hg)
  | connecting hphase hcur hasked hfresh henv hout hwrites hbase =>
    exact .connecting hphase hcur hasked (hfresh.grows hg.plain) henv hout (hwrites.grows hg) (hbase.grows hstable hg)
  | awaiting hphase hcur hasked hfresh hmin hplain hconn hbase =>
    exact .awaiting hphase hcur hasked (hfresh.grows hg.plain) hmin hplain (hconn.grows hg) (hbase.grows hstable hg)
  | greeting hphase hcur hasked hreceived hsent' hopen hconn hbase =>
    exact .greeting hphase hcur hasked (hg.plain.reader.received.trans hreceived) (by rw [hsent]; exact hsent')
      (hclosing.trans hopen) (hconn.grows hg) (hbase.grows hstable hg)
  | forwarding hphase hcur hasked hreceived hsent' hopen hconn hbase =>
    exact .forwarding hphase hcur hasked (hg.plain.reader.received.trans hreceived) (by rw [hsent]; exact hsent')
      (hclosing.trans hopen) (hconn.grows hg) (hbase.grows hstable hg)
  | relaying hphase hcur hasked henv hkeep hout hxs hrel hbase =>
    exact .relaying hphase hcur hasked henv hkeep hout hxs (hrel.grows hg) (hbase.grows hstable hg)
  | refusing hphase hcur hne hsent' hopen hsound =>
    exact .refusing hphase hcur hne (by rw [hsent]; exact hsent') (hclosing.trans hopen) (hsound.grows hg)
  | ended hphase hsound => exact .ended hphase (hsound.grows hg)

end Client

end Snell
