/-
What a server's connection carries, after any steps.

As for the client, `Standing` says how far the request under way is and `Sound`
what holds in every phase: behind each Tunnel reply the segments sealed are
what was read of the remotes, and each remote was written what was heard behind
the CONNECT that asked for it.

Two things take a connection out of this (`Strays`, `replyCut`): a client that
closes a tunnel before it is answered, or asks for UDP; and a Tunnel reply that
was given up half way. The first does not happen to a client of ours.
-/
import Snell.ServerSession

namespace Snell

open RecordEncoder EncoderSpec LawfulEncoder DatagramEncoder StreamEncoder ClosingEncoder RecordDecoder
  StagedDecoder Staged
  Polling Segments

/-! ## Messages -/

theorem tunnelReply_eq : tunnelReply = .ok [commandTunnel] := rfl

theorem encodeReject_command {dst buf : Bytes} {message : Str} {n : Nat} (h : encodeReject dst message = .ok (n, buf)) :
    ∃ rest, buf = commandError :: rest := by
  simp only [encodeReject, fillPrefix] at h
  split at h
  · cases h
  · split at h
    · cases h
    · cases h
      exact ⟨_, rfl⟩

theorem rejection_ne_tunnel {message : Str} {bytes front : Bytes} (h : rejection message = .ok bytes)
    (hfront : front <+: bytes) : ¬ [commandTunnel] <+: front := by
  intro htunnel
  unfold rejection at h
  generalize hreject : encodeReject (List.replicate (3 + 255) 0) message = result at h
  rcases result with f | ⟨n, buf⟩
  · cases h
  · cases h
    obtain ⟨rest, rfl⟩ := encodeReject_command hreject
    obtain ⟨rest', hrest⟩ := htunnel.trans (hfront.trans (List.take_prefix _ _))
    exact absurd (List.cons.inj hrest).1 (by decide)

theorem parseFirstRequest_udp {T : IpText} {plain : PlainStream} (h : parseFirstRequest T plain = .ok (.done .udp)) :
    (connectReader T).run plain.filled = .error (.err (.unknownCommand commandUdp)) := by
  rcases hrun : (connectReader T).run plain.filled with f | (k | ⟨request, n⟩)
  · by_cases hudp : f = .err (.unknownCommand commandUdp)
    · rw [hudp]
    · rw [parseFirstRequest_fails hrun hudp] at h
      cases h
  · obtain ⟨n, hn⟩ := parseFirstRequest_waits hrun
    rw [hn] at h
    cases h
  · rw [parseFirstRequest_done hrun] at h
    cases h

/-- A CONNECT stands at the front of what was heard, with `leftover` behind it. -/
structure Asked (T : IpText) (heard : Bytes) (request : ConnectRequest) (n : Nat) (leftover : Bytes) : Prop where
  run : (connectReader T).run heard = .ok (.done (request, n))
  leftover : heard.drop n = leftover

section Asked

variable {T : IpText} {heard leftover : Bytes} {request : ConnectRequest} {n : Nat}

theorem Asked.le (h : Asked T heard request n leftover) : n ≤ heard.length :=
  (Reader.run_done (connectReader_ordered T) (Nat.zero_le _) h.run).2.1

theorem Asked.ne_nil (h : Asked T heard request n leftover) : heard ≠ [] := by
  rintro rfl
  cases h.run

theorem Asked.more (h : Asked T heard request n leftover) (bytes : Bytes) :
    Asked T (heard ++ bytes) request n (leftover ++ bytes) :=
  ⟨(Reader.run_done (connectReader_ordered T) (Nat.zero_le _) h.run).2.2 bytes,
    by rw [List.drop_append_of_le_length h.le, h.leftover]⟩

theorem Asked.front {segment : Bytes} (h : Asked T heard request n leftover) (hseg : heard <+: segment) :
    (connectReader T).run segment = .ok (.done (request, n)) := by
  obtain ⟨rest, rfl⟩ := hseg
  exact (h.more rest).run

end Asked

/-! ## One tunnel -/

/-- What is known of the `i`-th tunnel by its segments. -/
structure ServerTunnel.Holds (T : IpText) (oc ic : Cut UInt8) (hung : Prop) (i : Nat) (s : ServerTunnel) : Prop where
  asked : (connectReader T).run (ic.segment i) = .ok (.done (s.request, s.headerLen))
  speaks : Says [commandTunnel] s.plain.reader oc i
  tells : Tells [] s.headerLen s.plain.writer ic hung i

theorem ServerTunnel.holds_stable (T : IpText) : Stable (ServerTunnel.Holds T) := by
  intro oc oc' ic ic' hung hung' i s h ho hi hh
  exact ⟨by rw [hi.segment]; exact h.asked, h.speaks.same ho, h.tells.same hi hh⟩

namespace Server

/-! ## What is in flight -/

section Goes

variable {E D : Type}

theorem refuse_replyCut (c : Server E D) (encode : PoolAnswer) (f : SessionFault) :
    (c.refuse encode f).replyCut = c.replyCut := by
  unfold refuse
  split
  · split <;> rfl
  · rfl

/-- What a step does besides: it reads of what is there, writes behind what is
written, and a reply that was given up stays so. -/
structure Goes (c c' : Server E D) : Prop where
  moves : c.tunnel.Moves c'.tunnel
  replyCut : c.replyCut = true → c'.replyCut = true

theorem refuse_goes (c : Server E D) (encode : PoolAnswer) (f : SessionFault) : c.Goes (c.refuse encode f) := by
  have hrefl := Tunnel.Moves.refl c.tunnel
  refine ⟨?_, fun h => by rw [refuse_replyCut, h]⟩
  unfold refuse
  split
  · split <;> exact hrefl
  · exact hrefl

theorem drainRead_goes (c : Server E D) (request : ConnectRequest) (n : Nat) (leftover : Bytes) (minimum : Nat) :
    c.Goes (c.drainRead request n leftover minimum) := by
  have hread := pollReadInto_moves c.tunnel.snell.reader c.tunnel.recv minimum 4096
  unfold drainRead
  generalize pollReadInto c.tunnel.snell.reader c.tunnel.recv minimum 4096 = result at hread
  obtain ⟨r, reader, recv⟩ := result
  have hmoves : c.tunnel.Moves { c.tunnel with snell := { c.tunnel.snell with reader }, recv } :=
    ⟨hread, List.prefix_refl _⟩
  simp only
  split <;> exact ⟨hmoves, id⟩

theorem idle_goes (c : Server E D) : c.Goes c.idle := by
  unfold idle
  split
  · exact ⟨.refl _, id⟩
  · have hread := pollReadInto_moves c.tunnel.snell.reader c.tunnel.recv 1 4096
    generalize pollReadInto c.tunnel.snell.reader c.tunnel.recv 1 4096 = result at hread
    obtain ⟨r, reader, recv⟩ := result
    have hmoves : c.tunnel.Moves { c.tunnel with snell := { c.tunnel.snell with reader }, recv } :=
      ⟨hread, List.prefix_refl _⟩
    simp only
    split <;> exact ⟨hmoves, id⟩

variable [RecordDecoder D]

theorem readRequest_goes (T : IpText) (c : Server E D) (plain : PlainStream) (record : DecodedRecord) :
    c.Goes (c.readRequest T plain record) := by
  have hrefl : c.Goes { c with phase := .ended } := ⟨.refl _, id⟩
  unfold readRequest
  split
  · exact hrefl
  · split
    · exact hrefl
    · simp only
      split
      · exact ⟨hrefl.moves.same rfl rfl, id⟩
      · split
        · exact ⟨hrefl.moves.same rfl rfl, id⟩
        · exact ⟨hrefl.moves.same rfl rfl, id⟩
        · exact ⟨hrefl.moves.same rfl rfl, id⟩
        · split
          · exact ⟨hrefl.moves.same rfl rfl, id⟩
          · split <;> exact ⟨hrefl.moves.same rfl rfl, id⟩

theorem drainData_goes (c : Server E D) (request : ConnectRequest) (n : Nat) (leftover : Bytes) (record : DecodedRecord) :
    c.Goes (c.drainData request n leftover record) := by
  have hrefl : c.Goes { c with phase := .ended } := ⟨.refl _, id⟩
  unfold drainData
  split
  · exact hrefl
  · split
    · exact hrefl
    · simp only
      split <;> exact ⟨hrefl.moves.same rfl rfl, id⟩

variable [RecordEncoder E]

theorem turn_goes (C : Crypto) (T : IpText) (c : Server E D) (kdf : KdfAnswer) (replay : SessionRes Unit)
    (encode : PoolAnswer) (pump : Pump) : c.Goes (c.turn C T kdf replay encode pump) := by
  have hput {t : Tunnel E D} {c' : Server E D} (h : c.tunnel.Moves t) (h' : Goes { c with tunnel := t } c') : c.Goes c' :=
    ⟨h.trans h'.moves, h'.replyCut⟩
  unfold turn
  split
  · exact ⟨.refl _, id⟩
  · exact ⟨.refl _, id⟩
  · exact ⟨.refl _, id⟩
  · next minimum plain checked _ =>
    have h := c.tunnel.decodeTurn_moves C c.psk kdf minimum
    generalize c.tunnel.decodeTurn C c.psk kdf minimum = turned at h
    rcases turned with ⟨t, m⟩ | ⟨t, m⟩ | ⟨_ | (_ | record), t, m⟩
    · exact ⟨h, id⟩
    · exact ⟨h, id⟩
    · exact ⟨h, id⟩
    · exact ⟨h, id⟩
    · simp only
      split
      · exact ⟨h, id⟩
      · exact hput h (readRequest_goes T _ plain record)
  · next request n leftover _ =>
    have h := c.tunnel.decodeTurn_moves C c.psk kdf 0
    generalize c.tunnel.decodeTurn C c.psk kdf 0 = turned at h
    rcases turned with ⟨t, m⟩ | ⟨t, m⟩ | ⟨_ | (_ | record), t, m⟩
    · exact hput h (drainRead_goes _ request n leftover m)
    · exact ⟨h, id⟩
    · exact ⟨h, id⟩
    · exact ⟨h, id⟩
    · exact hput h (drainData_goes _ request n leftover record)
  · next leftover w _ =>
    have h := c.tunnel.writeTurn_moves w
    generalize c.tunnel.writeTurn w = turned at h
    rcases turned with ⟨t, w'⟩ | ⟨t, w'⟩ | ⟨f | _, t, w'⟩
    · exact ⟨h, id⟩
    · exact ⟨h, id⟩
    · have hgoes := refuse_goes { c with tunnel := t, asked := w'.asked, replyCut := true } encode f
      exact ⟨Tunnel.Moves.trans h hgoes.moves, fun _ => hgoes.replyCut rfl⟩
    · simp only
      split <;> exact ⟨h, id⟩
  · next w _ =>
    have h := c.tunnel.writeTurn_moves w
    generalize c.tunnel.writeTurn w = turned at h
    rcases turned with ⟨t, w'⟩ | ⟨t, w'⟩ | ⟨_, t, w'⟩ <;> exact ⟨h, id⟩
  · next rest _ =>
    have h := c.tunnel.forwardTurn_moves rest
    generalize c.tunnel.forwardTurn rest = turned at h
    rcases turned with ⟨t, w'⟩ | ⟨t, w'⟩ | ⟨_ | _, t, w'⟩ <;> exact ⟨h, id⟩
  · next r _ =>
    have h := c.tunnel.relayTurn_moves r pump
    generalize c.tunnel.relayTurn r pump = turned at h
    rcases turned with ⟨t, w'⟩ | ⟨t, w'⟩ | ⟨_ | _, t, w'⟩
    · exact ⟨h, id⟩
    · exact ⟨h, id⟩
    · exact ⟨h, id⟩
    · simp only [finish]
      split
      · exact ⟨h, id⟩
      · exact ⟨Tunnel.Moves.same h rfl rfl, id⟩
  · exact c.idle_goes

theorem step_goes (C : Crypto) (T : IpText) (c : Server E D) (input : ServerInput) : c.Goes (c.step C T input) := by
  have hrefl : c.Goes c := ⟨.refl _, id⟩
  cases input with
  | turn kdf replay encode pump => exact turn_goes C T c kdf replay encode pump
  | dialed encode result =>
    simp only [step, dialed]
    split
    · split
      · exact refuse_goes c encode _
      · split
        · exact refuse_goes c encode _
        · exact ⟨hrefl.moves.same rfl rfl, id⟩
    · exact hrefl
  | expire encode =>
    simp only [step, expire]
    split
    · exact ⟨.refl _, id⟩
    · exact ⟨.refl _, id⟩
    · exact ⟨.refl _, id⟩
    · exact refuse_goes c encode _
    · next w _ =>
      have hgoes := refuse_goes { c with asked := w.asked, replyCut := true } encode (.err .handshakeTimeout)
      exact ⟨hgoes.moves, fun _ => hgoes.replyCut rfl⟩
    · exact hrefl
  | drop => exact ⟨.refl _, id⟩

end Goes

/-! ## Every phase -/

variable {E D : Type} {T : IpText} {out : List (Bytes × Bytes)} {xs : List (Item × Bytes)} {c : Server E D}
  {u : Tunnel E D} {request : ConnectRequest} {n : Nat} {said heard leftover : Bytes}

abbrev Known (T : IpText) (c : Server E D) (out : List (Bytes × Bytes)) (xs : List (Item × Bytes)) (i : Nat)
    (s : ServerTunnel) : Prop :=
  ServerTunnel.Holds T (cut (sealedMsgs out)) (cut (heardMsgs xs)) c.tunnel.snell.reader.AtEnd i s

/-- Nothing that opens a tunnel was sealed in the tunnels from `n` on. -/
def Quiet (n : Nat) (out : List (Bytes × Bytes)) : Prop :=
  ∀ i, n ≤ i → (cut (sealedMsgs out)).closed.length ≤ i ∧ ¬ [commandTunnel] <+: (cut (sealedMsgs out)).segment i

theorem tunnels_some (hcur : c.current = some (request, n)) : c.tunnels = c.past ++ [⟨request, n, c.tunnel.plain⟩] := by
  rw [tunnels, hcur]
  rfl

theorem tunnels_none (hcur : c.current = none) : c.tunnels = c.past := by
  rw [tunnels, hcur]
  exact List.append_nil _

/-- Nothing is sealed beyond the segment under way. -/
theorem quiet_of_base {past : List ServerTunnel} {t : Tunnel E D}
    (hbase : Base (ServerTunnel.Holds T) past t out xs said heard) {m : Nat} (hm : past.length ≤ m)
    (hsaid : m = past.length → ¬ [commandTunnel] <+: said) : Quiet m out := by
  intro i hi
  have hlen := hbase.count
  refine ⟨by omega, ?_⟩
  rcases Nat.lt_or_ge past.length i with hlt | hge
  · rw [Cut.segment_beyond (by omega)]
    exact fun h => by cases List.prefix_nil.mp h
  · obtain rfl : i = past.length := by omega
    rw [← hlen, Cut.segment_current, hbase.said]
    exact hsaid (by omega)

variable [RecordEncoder E] [EncoderSpec E] [LawfulEncoder E] [RecordDecoder D] [StagedDecoder D] {p₀ : Pos E} {d₀ : D}

/-- What holds at any time. -/
structure Sound (T : IpText) (p₀ : Pos E) (d₀ : D) (c : Server E D) (out : List (Bytes × Bytes))
    (xs : List (Item × Bytes)) : Prop where
  spoken : Spoken v6WireCap p₀ d₀ c.tunnel out xs
  known : ∀ i s, c.tunnels[i]? = some s → c.Known T out xs i s
  quiet : Quiet c.tunnels.length out

theorem Sound.phase (h : c.Sound T p₀ d₀ out xs) (phase : ServerPhase) : Sound T p₀ d₀ { c with phase } out xs :=
  ⟨h.spoken, h.known, h.quiet⟩

/-- No remote is open. -/
theorem Sound.of_none (hbase : Base (ServerTunnel.Holds T) c.past c.tunnel out xs said heard)
    (hspoken : Spoken v6WireCap p₀ d₀ c.tunnel out xs) (hcur : c.current = none) (hsaid : ¬ [commandTunnel] <+: said) :
    c.Sound T p₀ d₀ out xs := by
  have htunnels := tunnels_none hcur
  refine ⟨hspoken, fun i s hs => hbase.holds i s (htunnels ▸ hs), ?_⟩
  rw [htunnels]
  exact quiet_of_base hbase (Nat.le_refl _) fun _ => hsaid

/-- From what is known of each tunnel. -/
theorem Sound.of_current (hcur : c.current = some (request, n)) (hspoken : Spoken v6WireCap p₀ d₀ c.tunnel out xs)
    (hpast : ∀ i s, c.past[i]? = some s → c.Known T out xs i s)
    (hlast : c.Known T out xs c.past.length ⟨request, n, c.tunnel.plain⟩) (hquiet : Quiet (c.past.length + 1) out) :
    c.Sound T p₀ d₀ out xs := by
  refine ⟨hspoken, fun i s hs => ?_, ?_⟩
  · rw [tunnels_some hcur] at hs
    rcases getElem?_concat_cases hs with hs | ⟨rfl, rfl⟩
    · exact hpast i s hs
    · exact hlast
  · rw [tunnels_some hcur, List.length_append, List.length_singleton]
    exact hquiet

/-- A remote is open, and some of the reply was sealed. -/
theorem Sound.of_base (hbase : Base (ServerTunnel.Holds T) c.past c.tunnel out xs said heard)
    (hspoken : Spoken v6WireCap p₀ d₀ c.tunnel out xs) (hcur : c.current = some (request, n))
    (hasked : Asked T heard request n leftover) (hsaid : said <+: [commandTunnel]) {rest : Bytes}
    (hsent : c.tunnel.plain.writer.sent ++ rest = leftover) (hopen : c.tunnel.plain.writer.closing = false) :
    c.Sound T p₀ d₀ out xs := by
  have hlen := hbase.count
  have hseg := hbase.segment hasked.ne_nil
  refine .of_current hcur hspoken hbase.holds ⟨by rw [hseg]; exact hasked.run, ⟨?_, fun hi => by omega⟩,
    .front rest ?_ hopen⟩
    (quiet_of_base hbase (Nat.le_succ _) fun h => by omega)
  · rw [← hlen, Cut.segment_current, hbase.said]
    exact hsaid.trans (List.prefix_append _ _)
  · rw [hseg, hasked.leftover, hsent]
    rfl

/-- A relay: what it says and tells. -/
theorem Sound.of_relayed {out₁ : List (Bytes × Bytes)} {xs₁ : List (Item × Bytes)} {v : PlainToSnell.View}
    {w : SnellToPlain.View} (hcur : c.current = some (request, n)) (hasked : Asked T heard request n leftover)
    (hrel : Relayed v6WireCap p₀ d₀ out₁ xs₁ leftover c.tunnel v w)
    (hbase : Base (ServerTunnel.Holds T) c.past c.tunnel out₁ xs₁ [commandTunnel] heard) :
    c.Sound T p₀ d₀ (out₁ ++ v.records) (xs₁ ++ w.xs) := by
  rw [← hasked.leftover, ← List.nil_append (heard.drop n)] at hrel
  have hcarried := hbase.relayed n (ServerTunnel.holds_stable T) hasked.ne_nil hasked.le hrel
  refine .of_current hcur hrel.spoken hcarried.holds ⟨hasked.front hcarried.opened, hcarried.speaks, hcarried.tells⟩
    fun i hi => ?_
  obtain ⟨hnil, hle⟩ := hcarried.quiet i hi
  rw [hnil]
  exact ⟨hle, fun h => by cases List.prefix_nil.mp h⟩

/-- The connection went on, the remote did not. -/
theorem Sound.went (h : c.Sound T p₀ d₀ out xs) (hplain : u.plain = c.tunnel.plain)
    (hspoken : Spoken v6WireCap p₀ d₀ u out xs) (hung : c.tunnel.snell.reader.AtEnd → u.snell.reader.AtEnd) :
    Sound T p₀ d₀ { c with tunnel := u } out xs := by
  have htunnels : tunnels { c with tunnel := u } = c.tunnels := by simp only [tunnels, hplain]
  refine ⟨hspoken, fun i s hs => ?_, by rw [htunnels]; exact h.quiet⟩
  rw [htunnels] at hs
  exact ServerTunnel.holds_stable T (h.known i s hs) ⟨rfl, Iff.rfl⟩ ⟨rfl, Iff.rfl⟩ hung

theorem Sound.grows (h : c.Sound T p₀ d₀ out xs) (hg : c.tunnel.Grows u) :
    Sound T p₀ d₀ { c with tunnel := u } out xs := by
  have hstable : Stable (ServerTunnel.Holds T) := ServerTunnel.holds_stable T
  have hknown {i : Nat} {s : ServerTunnel} (hs : c.tunnels[i]? = some s) : Known T { c with tunnel := u } out xs i s :=
    hstable (h.known i s hs) ⟨rfl, Iff.rfl⟩ ⟨rfl, Iff.rfl⟩ hg.snell.reader.atEnd
  have hspoken := h.spoken.grows hg.snell
  have hquiet := h.quiet
  rcases Option.eq_none_or_eq_some c.current with hcur | ⟨⟨request, n⟩, hcur⟩
  · have htunnels := tunnels_none hcur
    have htunnels' := tunnels_none (c := { c with tunnel := u }) hcur
    rw [htunnels] at hquiet
    refine ⟨hspoken, fun i s hs => hknown ?_, by rw [htunnels']; exact hquiet⟩
    rw [htunnels'] at hs
    rw [htunnels, hs]
  · have htunnels := tunnels_some hcur
    rw [htunnels, List.length_append, List.length_singleton] at hquiet
    refine .of_current (c := { c with tunnel := u }) hcur hspoken (fun i s hs => hknown ?_) ?_ hquiet
    · rw [htunnels, List.getElem?_append_left (lt_length_of_getElem? hs), hs]
    · have hlast := hknown (i := c.past.length) (s := ⟨request, n, c.tunnel.plain⟩) (by rw [htunnels]; simp)
      exact ⟨hlast.asked, hlast.speaks.grows hg.plain.reader, hlast.tells.grows hg.plain.writer id⟩

variable [DatagramEncoder E] [StreamEncoder E] {C : Crypto} [KdfDecoder C D] [SafeDecoder D]

/-- What each phase adds. -/
inductive Standing (C : Crypto) [KdfDecoder C D] (T : IpText) (p₀ : Pos E) (d₀ : D) (c : Server E D)
    (out : List (Bytes × Bytes)) (xs : List (Item × Bytes)) : Prop
  | reading {minimum : Nat} {plain : PlainStream} {replayChecked : Bool}
    (hphase : c.phase = .reading minimum plain replayChecked)
    (hcur : c.current = none) (hmin : minimum ≤ v6WireCap) (hplain : plain.buf.Wf)
    (hconn : Connected C v6WireCap p₀ d₀ c.env.sealing c.tunnel out xs)
    (hbase : Base (ServerTunnel.Holds T) c.past c.tunnel out xs [] plain.filled)
  | draining {request : ConnectRequest} {n : Nat} {leftover heard : Bytes}
    (hphase : c.phase = .draining request n leftover)
    (hcur : c.current = none) (hasked : Asked T heard request n leftover)
    (hconn : Connected C v6WireCap p₀ d₀ c.env.sealing c.tunnel out xs)
    (hbase : Base (ServerTunnel.Holds T) c.past c.tunnel out xs [] heard)
  | dialing {request : ConnectRequest} {n : Nat} {leftover heard : Bytes} (hphase : c.phase = .dialing request n leftover)
    (hcur : c.current = none) (hasked : Asked T heard request n leftover)
    (hconn : Connected C v6WireCap p₀ d₀ c.env.sealing c.tunnel out xs)
    (hbase : Base (ServerTunnel.Holds T) c.past c.tunnel out xs [] heard)
  | replying {w : Writing} {out₀ records : List (Bytes × Bytes)} {request : ConnectRequest} {n : Nat}
    {leftover heard : Bytes}
    (hphase : c.phase = .replying leftover w) (hcur : c.current = some (request, n))
    (hasked : Asked T heard request n leftover) (hfresh : c.tunnel.plain.Fresh) (henv : w.env.sealing = c.env.sealing)
    (hout : out = out₀ ++ records) (hwrites : Writes C v6WireCap p₀ d₀ out₀ [commandTunnel] c.tunnel w records xs)
    (hbase : Base (ServerTunnel.Holds T) c.past c.tunnel out₀ xs [] heard)
  | rejecting {w : Writing} {out₀ records : List (Bytes × Bytes)} {src heard : Bytes} (hphase : c.phase = .rejecting w)
    (hcur : c.current = none) (hsrc : ∀ front, front <+: src → ¬ [commandTunnel] <+: front) (hout : out = out₀ ++ records)
    (hwrites : Writes C v6WireCap p₀ d₀ out₀ src c.tunnel w records xs)
    (hbase : Base (ServerTunnel.Holds T) c.past c.tunnel out₀ xs [] heard)
  | forwarding {rest : Bytes} {request : ConnectRequest} {n : Nat} {leftover heard : Bytes}
    (hphase : c.phase = .forwarding rest)
    (hcur : c.current = some (request, n)) (hasked : Asked T heard request n leftover)
    (hreceived : c.tunnel.plain.reader.received = []) (hsent : c.tunnel.plain.writer.sent ++ rest = leftover)
    (hopen : c.tunnel.plain.writer.closing = false) (hconn : Connected C v6WireCap p₀ d₀ c.env.sealing c.tunnel out xs)
    (hbase : Base (ServerTunnel.Holds T) c.past c.tunnel out xs [commandTunnel] heard)
  | relaying {r : Relaying} {out₁ : List (Bytes × Bytes)} {xs₁ : List (Item × Bytes)} {v : PlainToSnell.View}
    {w : SnellToPlain.View} {request : ConnectRequest} {n : Nat} {leftover heard : Bytes} (hphase : c.phase = .relaying r)
    (hcur : c.current = some (request, n)) (hasked : Asked T heard request n leftover)
    (henv : r.env.sealing = c.env.sealing)
    (hkeep : r.keepSnellOpen = request.reuse) (hout : out = out₁ ++ v.records) (hxs : xs = xs₁ ++ w.xs)
    (hrel : Relays C v6WireCap p₀ d₀ out₁ xs₁ leftover c.tunnel r v w)
    (hbase : Base (ServerTunnel.Holds T) c.past c.tunnel out₁ xs₁ [commandTunnel] heard)
  | idling (hphase : c.phase = .idling) (hcur : c.current = none)
    (hconn : Connected C v6WireCap p₀ d₀ c.env.sealing c.tunnel out xs)
    (hbase : Base (ServerTunnel.Holds T) c.past c.tunnel out xs [] [])
  | ended (hphase : c.phase = .ended) (hsound : c.Sound T p₀ d₀ out xs)

structure Inv (C : Crypto) [KdfDecoder C D] (T : IpText) (p₀ : Pos E) (d₀ : D) (c : Server E D)
    (out : List (Bytes × Bytes)) (xs : List (Item × Bytes)) : Prop where
  psk_eq : c.psk = KdfDecoder.psk C d₀
  standing : Standing C T p₀ d₀ c out xs

theorem tunnel_not_prefix_nil : ¬ [commandTunnel] <+: ([] : Bytes) := fun h => by cases List.prefix_nil.mp h

theorem Standing.sound (h : Standing C T p₀ d₀ c out xs) : c.Sound T p₀ d₀ out xs := by
  have hstable : Stable (ServerTunnel.Holds T) := ServerTunnel.holds_stable T
  cases h with
  | reading _ hcur _ _ hconn hbase => exact .of_none hbase hconn.spoken hcur tunnel_not_prefix_nil
  | draining _ hcur _ hconn hbase => exact .of_none hbase hconn.spoken hcur tunnel_not_prefix_nil
  | dialing _ hcur _ hconn hbase => exact .of_none hbase hconn.spoken hcur tunnel_not_prefix_nil
  | replying _ hcur hasked hfresh _ hout hwrites hbase =>
    subst hout
    have hbase' := hbase.say hstable hwrites.inv.data
    rw [List.nil_append] at hbase'
    exact .of_base hbase' hwrites.spoken hcur hasked ⟨_, hwrites.inv.payload⟩ (by rw [hfresh.sent]; rfl) hfresh.closing
  | rejecting _ hcur hsrc hout hwrites hbase =>
    subst hout
    have hbase' := hbase.say hstable hwrites.inv.data
    rw [List.nil_append] at hbase'
    exact .of_none hbase' hwrites.spoken hcur (hsrc _ ⟨_, hwrites.inv.payload⟩)
  | forwarding _ hcur hasked _ hsent hopen hconn hbase =>
    exact .of_base hbase hconn.spoken hcur hasked (List.prefix_refl _) hsent hopen
  | relaying _ hcur hasked _ _ hout hxs hrel hbase =>
    subst hout hxs
    exact .of_relayed hcur hasked hrel.relayed hbase
  | idling _ hcur hconn hbase => exact .of_none hbase hconn.spoken hcur tunnel_not_prefix_nil
  | ended _ hsound => exact hsound

theorem new_inv {env : ReplyEnv} {encoder : E} {decoder : D} (T : IpText) (describe : SessionError → Str) (replay : Bool)
    (h : Sustains encoder env.sealing) (hp : pending decoder = 0) (hv : SafeDecoder.Valid decoder) :
    Inv C T (pos encoder) decoder (Server.new env (KdfDecoder.psk C decoder) describe replay encoder decoder) [] [] :=
  ⟨rfl, .reading rfl rfl (Nat.zero_le _) (Buffer.new_wf _) (.new env .new h hp hv)
    (.new _)⟩

/-! ## Steps -/

/-- The session leaves what this model follows: with nothing said in the tunnel
under way, the client closed it, or what it asked for is UDP. -/
def Strays (T : IpText) (p₀ : Pos E) (d₀ : D) (c : Server E D) : Prop :=
  ∃ out xs, Spoken v6WireCap p₀ d₀ c.tunnel out xs ∧ (cut (sealedMsgs out)).closed.length = c.past.length ∧
    (cut (sealedMsgs out)).current = [] ∧
    (c.past.length < (cut (heardMsgs xs)).closed.length ∨
      (connectReader T).run ((cut (heardMsgs xs)).segment c.past.length) = .error (.err (.unknownCommand commandUdp)))

/-- The invariant after a step, with what was sealed and heard by then; or the
two ways out of it. -/
def Leads (C : Crypto) [KdfDecoder C D] (T : IpText) (p₀ : Pos E) (d₀ : D) (c : Server E D) : Prop :=
  (∃ out xs, c.Inv C T p₀ d₀ out xs) ∨ c.Strays T p₀ d₀ ∨ c.replyCut = true

theorem ended_leads (hpsk : c.psk = KdfDecoder.psk C d₀) (hsound : c.Sound T p₀ d₀ out xs) :
    Leads C T p₀ d₀ { c with phase := .ended } :=
  .inl ⟨out, xs, hpsk, .ended rfl (hsound.phase _)⟩

/-- The client is refused before anything was said to it. -/
theorem refuse_leads (hpsk : c.psk = KdfDecoder.psk C d₀) (hcur : c.current = none)
    (hconn : Connected C v6WireCap p₀ d₀ c.env.sealing c.tunnel out xs)
    (hbase : Base (ServerTunnel.Holds T) c.past c.tunnel out xs [] heard) (encode : PoolAnswer) (f : SessionFault) :
    Leads C T p₀ d₀ (c.refuse encode f) := by
  have hended := ended_leads hpsk (Sound.of_none hbase hconn.spoken hcur tunnel_not_prefix_nil)
  unfold refuse
  split
  · split
    · exact hended
    · next bytes hbytes =>
      exact .inl ⟨_, _, hpsk, .rejecting rfl hcur (fun front => rejection_ne_tunnel hbytes) (List.append_nil _).symm
        (hconn.writes (c.env.leased encode) _ c.asked) hbase⟩
  · exact hended

/-! ### Reading the request -/

/-- A record of the client's request, `u` being the tunnel once it is consumed. -/
theorem readRequest_leads {plain : PlainStream} {record : DecodedRecord} {y : Item × Bytes} {d' : D} {b' : Buffer}
    (hpsk : c.psk = KdfDecoder.psk C d₀) (hcur : c.current = none) (hplain : plain.buf.Wf)
    (hsound : c.Sound T p₀ d₀ out xs) (hbytes : record.plaintext c.tunnel.recv.buffer.filled = .ok (Item.plain y))
    (hconsume : consume c.tunnel.decoder c.tunnel.recv.buffer record = (.ok (), d', b'))
    (hu : u = { c.tunnel with decoder := d', recv := { c.tunnel.recv with buffer := b' } })
    (hconn : Connected C v6WireCap p₀ d₀ c.env.sealing u out (xs ++ [y]))
    (hbase : Base (ServerTunnel.Holds T) c.past u out (xs ++ [y]) [] (plain.filled ++ Item.plain y)) :
    Leads C T p₀ d₀ (c.readRequest T plain record) := by
  unfold readRequest
  rw [hbytes]
  simp only
  cases hpush : plain.push (Item.plain y) with
  | error f => exact ended_leads hpsk hsound
  | ok plain' =>
    obtain ⟨hfilled, hwf⟩ := PlainStream.push_ok hplain hpush
    rw [← hfilled] at hbase
    have hsound' : Sound T p₀ d₀ { c with tunnel := u } out (xs ++ [y]) :=
      .of_none (c := { c with tunnel := u }) hbase hconn.spoken hcur tunnel_not_prefix_nil
    have hended := ended_leads (c := { c with tunnel := u }) hpsk hsound'
    simp only [hconsume, ← hu]
    cases hparse : parseFirstRequest T plain' with
    | error f => exact hended
    | ok parsed =>
      rcases parsed with k | ⟨request, n⟩ | _
      · exact .inl ⟨_, _, hpsk, .reading rfl hcur (Nat.zero_le _) hwf hconn hbase⟩
      · have hrun := parseFirstRequest_connect hparse
        have hasked : Asked T plain'.filled request n (plain'.filled.drop n) := ⟨hrun, rfl⟩
        have hslice : sliceFrom plain'.filled n = .ok (plain'.filled.drop n) := if_pos hasked.le
        simp only [hslice]
        split
        · exact hended
        · exact .inl ⟨_, _, hpsk, .draining rfl hcur hasked hconn hbase⟩
      · have hrun := parseFirstRequest_udp hparse
        have hne : plain'.filled ≠ [] := by
          intro h
          rw [h] at hrun
          cases hrun
        refine .inr (.inl ⟨out, xs ++ [y], hconn.spoken, hbase.count, hbase.said, .inr ?_⟩)
        rw [hbase.segment hne]
        exact hrun

theorem reading_turn {minimum : Nat} {plain : PlainStream} {replayChecked : Bool} (hpsk : c.psk = KdfDecoder.psk C d₀)
    (hphase : c.phase = .reading minimum plain replayChecked) (hcur : c.current = none) (hmin : minimum ≤ v6WireCap)
    (hplain : plain.buf.Wf) (hconn : Connected C v6WireCap p₀ d₀ c.env.sealing c.tunnel out xs)
    (hbase : Base (ServerTunnel.Holds T) c.past c.tunnel out xs [] plain.filled) (kdf : KdfAnswer)
    (replay : SessionRes Unit) (encode : PoolAnswer) (pump : Pump) :
    Leads C T p₀ d₀ (c.turn C T kdf replay encode pump) := by
  have hstable : Stable (ServerTunnel.Holds T) := ServerTunnel.holds_stable T
  have hsound := (Standing.reading hphase hcur hmin hplain hconn hbase).sound
  have hturn := hconn.decodeTurn hpsk kdf hmin
  simp only [turn, hphase]
  generalize c.tunnel.decodeTurn C c.psk kdf minimum = turned at hturn
  have hgoing {t : Tunnel E D} {m : Nat} (hle : m ≤ v6WireCap) (hl : c.tunnel.Listened t) (hdead : c.tunnel.Dead → t.Dead)
      (hconn' : Connected C v6WireCap p₀ d₀ c.env.sealing t out xs) :
      Leads C T p₀ d₀ { c with tunnel := t, phase := .reading m plain replayChecked } :=
    .inl ⟨out, xs, hpsk, .reading rfl hcur hle hplain hconn' (hbase.of_tunnel hstable hl.atEnd hdead)⟩
  have hwent {t : Tunnel E D} (hl : c.tunnel.Listened t) (hspoken : Spoken v6WireCap p₀ d₀ t out xs) :
      Sound T p₀ d₀ { c with tunnel := t, phase := .reading minimum plain replayChecked } out xs :=
    (hsound.went hl.plain hspoken hl.atEnd).phase _
  have hended {t : Tunnel E D} (hl : c.tunnel.Listened t) (hspoken : Spoken v6WireCap p₀ d₀ t out xs) :
      Leads C T p₀ d₀ { c with tunnel := t, phase := .ended } :=
    ended_leads (c := { c with tunnel := t, phase := .reading minimum plain replayChecked }) hpsk (hwent hl hspoken)
  rcases turned with ⟨t, m⟩ | ⟨t, m⟩ | ⟨f | (_ | record), t, m⟩
  · obtain ⟨hle, hl, hdead, hconn'⟩ := hturn
    exact hgoing hle hl hdead hconn'
  · obtain ⟨hle, hl, hdead, hconn'⟩ := hturn
    exact hgoing hle hl hdead hconn'
  · obtain ⟨hl, hspoken, -⟩ := hturn
    exact hended hl hspoken
  · obtain ⟨hl, hspoken, -⟩ := hturn
    exact hended hl hspoken
  · obtain ⟨hl, hspoken, hlive, y, hdata, hbytes, d', b', hconsume, hconn'⟩ := hturn
    have hbase' := (hbase.hear [y] hstable hlive (by simpa using hdata)).of_tunnel
      (u := { t with decoder := d', recv := { t.recv with buffer := b' } }) hstable hl.atEnd fun hd => absurd hd hlive
    rw [show Item.plainOf [y] = Item.plain y from List.flatMap_singleton ..] at hbase'
    simp only
    split
    · exact hended hl hspoken
    · exact readRequest_leads (c := { c with tunnel := t, phase := .reading minimum plain replayChecked }) hpsk hcur hplain
        (hwent hl hspoken) hbytes hconsume rfl hconn' hbase'

/-! ### Early payload -/

/-- What is ready was asked for. -/
theorem drainRead_leads {minimum : Nat} (hpsk : c.psk = KdfDecoder.psk C d₀) (hcur : c.current = none)
    (hasked : Asked T heard request n leftover) (hmin : minimum ≤ v6WireCap) (hwaits : c.tunnel.recv.buffer.len < minimum)
    (hconn : Connected C v6WireCap p₀ d₀ c.env.sealing c.tunnel out xs)
    (hbase : Base (ServerTunnel.Holds T) c.past c.tunnel out xs [] heard) :
    Leads C T p₀ d₀ (c.drainRead request n leftover minimum) := by
  unfold drainRead
  rcases hpoll : pollReadInto c.tunnel.snell.reader c.tunnel.recv minimum 4096 with ⟨r, reader, recv⟩
  obtain ⟨hl, hdead, hconn'⟩ := hconn.read hmin (by omega) hpoll rfl
  have hbase' := hbase.of_tunnel (ServerTunnel.holds_stable T) hl.atEnd hdead
  simp only
  split
  · exact .inl ⟨_, _, hpsk, .dialing rfl hcur hasked hconn' hbase'⟩
  · exact .inl ⟨_, _, hpsk, .dialing rfl hcur hasked hconn' hbase'⟩
  · exact .inl ⟨_, _, hpsk, .draining rfl hcur hasked hconn' hbase'⟩
  · exact .inl ⟨_, _, hpsk, .ended rfl (.of_none hbase' hconn'.spoken hcur tunnel_not_prefix_nil)⟩

/-- A record of early payload, `u` being the tunnel once it is consumed. -/
theorem drainData_leads {record : DecodedRecord} {y : Item × Bytes} {d' : D} {b' : Buffer}
    (hpsk : c.psk = KdfDecoder.psk C d₀) (hcur : c.current = none) (hasked : Asked T heard request n leftover)
    (hsound : c.Sound T p₀ d₀ out xs) (hbytes : record.plaintext c.tunnel.recv.buffer.filled = .ok (Item.plain y))
    (hconsume : consume c.tunnel.decoder c.tunnel.recv.buffer record = (.ok (), d', b'))
    (hu : u = { c.tunnel with decoder := d', recv := { c.tunnel.recv with buffer := b' } })
    (hconn : Connected C v6WireCap p₀ d₀ c.env.sealing u out (xs ++ [y]))
    (hbase : Base (ServerTunnel.Holds T) c.past u out (xs ++ [y]) [] (heard ++ Item.plain y)) :
    Leads C T p₀ d₀ (c.drainData request n leftover record) := by
  unfold drainData
  rw [hbytes]
  simp only
  cases hdrain : drainRecord leftover (Item.plain y) with
  | error f => exact ended_leads hpsk hsound
  | ok leftover' =>
    have hmore : leftover' = leftover ++ Item.plain y := by
      unfold drainRecord at hdrain
      split at hdrain
      · cases hdrain
      · split at hdrain
        · cases hdrain
        · cases hdrain; rfl
    subst hmore
    simp only [hconsume, ← hu]
    exact .inl ⟨_, _, hpsk, .draining rfl hcur (hasked.more _) hconn hbase⟩

theorem draining_turn (hpsk : c.psk = KdfDecoder.psk C d₀) (hphase : c.phase = .draining request n leftover)
    (hcur : c.current = none) (hasked : Asked T heard request n leftover)
    (hconn : Connected C v6WireCap p₀ d₀ c.env.sealing c.tunnel out xs)
    (hbase : Base (ServerTunnel.Holds T) c.past c.tunnel out xs [] heard) (kdf : KdfAnswer) (replay : SessionRes Unit)
    (encode : PoolAnswer) (pump : Pump) : Leads C T p₀ d₀ (c.turn C T kdf replay encode pump) := by
  have hstable : Stable (ServerTunnel.Holds T) := ServerTunnel.holds_stable T
  have hsound := (Standing.draining hphase hcur hasked hconn hbase).sound
  have hturn := hconn.decodeTurn hpsk kdf (Nat.zero_le _)
  have hwaits := hconn.decodeTurn_waits hpsk kdf
  simp only [turn, hphase]
  generalize c.tunnel.decodeTurn C c.psk kdf 0 = turned at hturn hwaits
  have hwent {t : Tunnel E D} (hl : c.tunnel.Listened t) (hspoken : Spoken v6WireCap p₀ d₀ t out xs) :
      Sound T p₀ d₀ { c with tunnel := t, phase := .draining request n leftover } out xs :=
    (hsound.went hl.plain hspoken hl.atEnd).phase _
  rcases turned with ⟨t, m⟩ | ⟨t, m⟩ | ⟨f | (_ | record), t, m⟩
  · obtain ⟨hle, hl, hdead, hconn'⟩ := hturn
    exact drainRead_leads (c := { c with tunnel := t, phase := .draining request n leftover }) hpsk hcur hasked
      hle hwaits hconn'
      (hbase.of_tunnel hstable hl.atEnd hdead)
  · obtain ⟨-, hl, hdead, hconn'⟩ := hturn
    exact .inl ⟨_, _, hpsk, .draining rfl hcur hasked hconn' (hbase.of_tunnel hstable hl.atEnd hdead)⟩
  · obtain ⟨hl, hspoken, -⟩ := hturn
    exact ended_leads (c := { c with tunnel := t, phase := .draining request n leftover }) hpsk (hwent hl hspoken)
  · -- The zero chunk closes the client's segment before anything was said in this one.
    obtain ⟨hl, -, hlive, w, hconn'⟩ := hturn
    obtain ⟨hcount, -⟩ := hbase.heard.resolve_right fun hd => hlive hd.1
    refine .inr (.inl ⟨_, _, hconn'.spoken, hbase.count, hbase.said, .inl ?_⟩)
    have hcut : cutFrom (cut (heardMsgs xs)) (heardMsgs [(Item.zeroChunk, w)]) = _ :=
      cutFrom_heard_zero (z := (.zeroChunk, w)) _ (List.forall_mem_nil _) rfl
    rw [heardMsgs_append, cut_append, hcut, Cut.length_grown, hcount]
    exact Nat.lt_succ_self _
  · obtain ⟨hl, hspoken, hlive, y, hdata, hbytes, d', b', hconsume, hconn'⟩ := hturn
    have hbase' := (hbase.hear [y] hstable hlive (by simpa using hdata)).of_tunnel
      (u := { t with decoder := d', recv := { t.recv with buffer := b' } }) hstable hl.atEnd fun hd => absurd hd hlive
    rw [show Item.plainOf [y] = Item.plain y from List.flatMap_singleton ..] at hbase'
    exact drainData_leads (c := { c with tunnel := t, phase := .draining request n leftover }) hpsk hcur hasked
      (hwent hl hspoken) hbytes hconsume rfl hconn' hbase'

/-! ### Opening the tunnel -/

theorem dialed_leads (hinv : c.Inv C T p₀ d₀ out xs) (encode : PoolAnswer) (result : Except SessionError Unit) :
    Leads C T p₀ d₀ (c.dialed encode result) := by
  have hpsk := hinv.psk_eq
  unfold dialed
  cases hphase : c.phase with
  | dialing request n leftover =>
    cases hinv.standing with
    | dialing h hcur hasked hconn hbase =>
      rw [hphase] at h
      cases h
      cases result with
      | error error => exact refuse_leads hpsk hcur hconn hbase encode _
      | ok _ =>
        have hconn' : Connected C v6WireCap p₀ d₀ c.env.sealing { c.tunnel with plain := .new } out xs :=
          ⟨hconn.chain, hconn.sent, hconn.closing, hconn.sustains, hconn.listening⟩
        simp only [tunnelReply_eq]
        exact .inl ⟨_, _, hpsk, .replying rfl rfl hasked ⟨rfl, rfl, rfl⟩ rfl (List.append_nil _).symm
          (hconn'.writes (c.env.leased encode) _ c.asked) (hbase.of_inbound (ServerTunnel.holds_stable T) rfl)⟩
    | reading h | draining h | replying h | rejecting h | forwarding h | relaying h | idling h | ended h =>
      rw [hphase] at h; cases h
  | _ => exact .inl ⟨out, xs, hinv⟩

/-- `relay` starts with the early payload written. -/
theorem startRelay_leads (hpsk : c.psk = KdfDecoder.psk C d₀) (hcur : c.current = some (request, n))
    (hasked : Asked T heard request n leftover) (hreceived : c.tunnel.plain.reader.received = [])
    (hsent : c.tunnel.plain.writer.sent = leftover) (hopen : c.tunnel.plain.writer.closing = false)
    (hconn : Connected C v6WireCap p₀ d₀ c.env.sealing c.tunnel out xs)
    (hbase : Base (ServerTunnel.Holds T) c.past c.tunnel out xs [commandTunnel] heard) (encode : PoolAnswer) :
    Leads C T p₀ d₀ (c.startRelay encode) := by
  have hrel := hconn.relays (c.env.leased encode) c.reuse c.asked hreceived hopen
  rw [hsent] at hrel
  exact .inl ⟨_, _, hpsk, .relaying rfl hcur hasked rfl (by simp only [Tunnel.startRelay, reuse, hcur])
    (List.append_nil _).symm (List.append_nil _).symm hrel hbase⟩

theorem replying_turn {w : Writing} (hpsk : c.psk = KdfDecoder.psk C d₀) {out₀ records : List (Bytes × Bytes)}
    (hphase : c.phase = .replying leftover w) (hcur : c.current = some (request, n))
    (hasked : Asked T heard request n leftover) (hfresh : c.tunnel.plain.Fresh) (henv : w.env.sealing = c.env.sealing)
    (hwrites : Writes C v6WireCap p₀ d₀ out₀ [commandTunnel] c.tunnel w records xs)
    (hbase : Base (ServerTunnel.Holds T) c.past c.tunnel out₀ xs [] heard) (kdf : KdfAnswer) (replay : SessionRes Unit)
    (encode : PoolAnswer) (pump : Pump) : Leads C T p₀ d₀ (c.turn C T kdf replay encode pump) := by
  have hstable : Stable (ServerTunnel.Holds T) := ServerTunnel.holds_stable T
  have hturn := hwrites.turn
  have hkept {t : Tunnel E D} {w' : Writing} {records' : List (Bytes × Bytes)}
      (hw : Writes C v6WireCap p₀ d₀ out₀ [commandTunnel] t w' records' xs) (haside : c.tunnel.Aside t)
        (henv' : w'.env = w.env) :
      Leads C T p₀ d₀ { c with tunnel := t, phase := .replying leftover w' } :=
    .inl ⟨_, _, hpsk, .replying rfl hcur hasked (haside.plain ▸ hfresh) (henv' ▸ henv) rfl hw
      (hbase.of_inbound hstable haside.inbound)⟩
  simp only [turn, hphase]
  generalize c.tunnel.writeTurn w = turned at hturn
  rcases turned with ⟨t, w'⟩ | ⟨t, w'⟩ | ⟨f | _, t, w'⟩
  · obtain ⟨records', hw, henv', haside⟩ := hturn
    exact hkept hw haside henv'
  · obtain ⟨records', hw, henv', haside⟩ := hturn
    exact hkept hw haside henv'
  · exact .inr (.inr (by simp only [refuse_replyCut]))
  · obtain ⟨records', hw, henv', haside, hdone⟩ := hturn
    obtain ⟨hall, hconn⟩ := hdone rfl
    rw [henv] at hconn
    have hfresh' : t.plain.Fresh := haside.plain ▸ hfresh
    have hbase' := (hbase.of_inbound (u := t) hstable haside.inbound).say hstable hw.inv.data
    rw [List.nil_append, hall] at hbase'
    simp only
    split
    · next hnil =>
      subst hnil
      exact startRelay_leads (c := { c with tunnel := t, asked := w'.asked, phase := .replying [] w }) hpsk hcur hasked
        hfresh'.received hfresh'.sent hfresh'.closing hconn hbase' encode
    · exact .inl ⟨_, _, hpsk, .forwarding rfl hcur hasked hfresh'.received (by rw [hfresh'.sent]; rfl)
        hfresh'.closing hconn hbase'⟩

theorem rejecting_turn {w : Writing} (hpsk : c.psk = KdfDecoder.psk C d₀) {out₀ records : List (Bytes × Bytes)}
    {src : Bytes} (hphase : c.phase = .rejecting w) (hcur : c.current = none)
    (hsrc : ∀ front, front <+: src → ¬ [commandTunnel] <+: front)
    (hwrites : Writes C v6WireCap p₀ d₀ out₀ src c.tunnel w records xs)
    (hbase : Base (ServerTunnel.Holds T) c.past c.tunnel out₀ xs [] heard) (kdf : KdfAnswer) (replay : SessionRes Unit)
    (encode : PoolAnswer) (pump : Pump) : Leads C T p₀ d₀ (c.turn C T kdf replay encode pump) := by
  have hturn := hwrites.turn
  have hkept {t : Tunnel E D} {w' : Writing} {records' : List (Bytes × Bytes)}
      (hw : Writes C v6WireCap p₀ d₀ out₀ src t w' records' xs) (haside : c.tunnel.Aside t) :
      Standing C T p₀ d₀ { c with tunnel := t, phase := .rejecting w' } (out₀ ++ records') xs :=
    .rejecting rfl hcur hsrc rfl hw (hbase.of_inbound (ServerTunnel.holds_stable T) haside.inbound)
  simp only [turn, hphase]
  generalize c.tunnel.writeTurn w = turned at hturn
  rcases turned with ⟨t, w'⟩ | ⟨t, w'⟩ | ⟨_, t, w'⟩
  · obtain ⟨records', hw, -, haside⟩ := hturn
    exact .inl ⟨_, _, hpsk, hkept hw haside⟩
  · obtain ⟨records', hw, -, haside⟩ := hturn
    exact .inl ⟨_, _, hpsk, hkept hw haside⟩
  · obtain ⟨records', hw, -, haside, -⟩ := hturn
    exact ended_leads (c := { c with tunnel := t, phase := .rejecting w' }) hpsk (hkept hw haside).sound

theorem forwarding_turn {rest : Bytes} (hpsk : c.psk = KdfDecoder.psk C d₀) (hphase : c.phase = .forwarding rest)
    (hcur : c.current = some (request, n)) (hasked : Asked T heard request n leftover)
    (hreceived : c.tunnel.plain.reader.received = []) (hsent : c.tunnel.plain.writer.sent ++ rest = leftover)
    (hopen : c.tunnel.plain.writer.closing = false) (hconn : Connected C v6WireCap p₀ d₀ c.env.sealing c.tunnel out xs)
    (hbase : Base (ServerTunnel.Holds T) c.past c.tunnel out xs [commandTunnel] heard) (kdf : KdfAnswer)
    (replay : SessionRes Unit) (encode : PoolAnswer) (pump : Pump) :
    Leads C T p₀ d₀ (c.turn C T kdf replay encode pump) := by
  have hbase' (w : WriteHalf) := hbase.of_inbound (u := c.tunnel.putPlainWriter w) (ServerTunnel.holds_stable T) rfl
  have hgoing {w : WriteHalf} {rest' : Bytes} (hw : c.tunnel.plain.writer.Wrote rest w rest') :
      Standing C T p₀ d₀ { c with tunnel := c.tunnel.putPlainWriter w, phase := .forwarding rest' } out xs :=
    .forwarding rfl hcur hasked hreceived (hw.sent.trans hsent) (hw.closing.trans hopen) (hconn.forwarded w) (hbase' w)
  have hturn := c.tunnel.forwardTurn_leads rest
  simp only [turn, hphase]
  generalize c.tunnel.forwardTurn rest = turned at hturn
  rcases turned with ⟨t, rest'⟩ | ⟨t, rest'⟩ | ⟨_ | _, t, rest'⟩
  · obtain ⟨w, rfl, hw⟩ := hturn
    exact .inl ⟨out, xs, hpsk, hgoing hw⟩
  · obtain ⟨w, rfl, hw⟩ := hturn
    exact .inl ⟨out, xs, hpsk, hgoing hw⟩
  · obtain ⟨w, rfl, hw, -⟩ := hturn
    exact ended_leads (c := { c with tunnel := c.tunnel.putPlainWriter w, phase := .forwarding rest' }) hpsk
      (hgoing hw).sound
  · obtain ⟨w, rfl, hw, hdone⟩ := hturn
    obtain rfl : rest' = [] := hdone rfl
    exact startRelay_leads (c := { c with tunnel := c.tunnel.putPlainWriter w, phase := .forwarding rest })
      hpsk hcur hasked
      hreceived (hw.all hsent) (hw.closing.trans hopen) (hconn.forwarded w) (hbase' w) encode

/-! ### The relay and after -/

/-- `relay` returned. -/
theorem finish_leads {r : Relaying} {out₁ : List (Bytes × Bytes)} {xs₁ : List (Item × Bytes)} {v : PlainToSnell.View}
    {w : SnellToPlain.View} (hpsk : c.psk = KdfDecoder.psk C d₀) (hcur : c.current = some (request, n))
    (hasked : Asked T heard request n leftover) (henv : r.env.sealing = c.env.sealing)
    (hkeep : r.keepSnellOpen = request.reuse) (hrel : Relays C v6WireCap p₀ d₀ out₁ xs₁ leftover c.tunnel r v w)
    (hdone : r.Done) (hbase : Base (ServerTunnel.Holds T) c.past c.tunnel out₁ xs₁ [commandTunnel] heard) :
    Leads C T p₀ d₀ (c.finish r.asked) := by
  have hsound := Sound.of_relayed hcur hasked hrel.relayed hbase
  unfold finish
  split
  · exact ended_leads hpsk hsound
  · next hreuse =>
    have hreuse : request.reuse = true := by
      rw [← Bool.not_eq_false]
      exact fun h => hreuse (.inl (by rw [reuse, hcur]; exact h))
    have hconn := hrel.connected hdone (hkeep.trans hreuse)
    rw [henv] at hconn
    have hlast := hsound.known c.past.length ⟨request, n, c.tunnel.plain⟩ (by rw [tunnels_some hcur]; simp)
    rw [← hasked.leftover, ← List.nil_append (heard.drop n)] at hrel
    have hnext := hbase.next n (ServerTunnel.holds_stable T) hasked.ne_nil hasked.le hrel hdone hlast
    rw [← tunnels_some hcur] at hnext
    have hfilled := (PooledBuffer.releaseEmpty_kept (p := c.tunnel.recv) hconn.listening.wf).2.1
    exact .inl ⟨_, _, hpsk, .idling rfl rfl hconn.released
      (hnext.of_tunnel (ServerTunnel.holds_stable T) id fun hd => ⟨hd.1, hfilled.trans hd.2⟩)⟩

theorem relaying_turn [ClosingEncoder E] {r : Relaying} {out₁ : List (Bytes × Bytes)} {xs₁ : List (Item × Bytes)}
    {v : PlainToSnell.View} {w : SnellToPlain.View} (hpsk : c.psk = KdfDecoder.psk C d₀)
    (hphase : c.phase = .relaying r) (hcur : c.current = some (request, n)) (hasked : Asked T heard request n leftover)
    (henv : r.env.sealing = c.env.sealing) (hkeep : r.keepSnellOpen = request.reuse)
    (hrel : Relays C v6WireCap p₀ d₀ out₁ xs₁ leftover c.tunnel r v w)
    (hbase : Base (ServerTunnel.Holds T) c.past c.tunnel out₁ xs₁ [commandTunnel] heard) (kdf : KdfAnswer)
    (replay : SessionRes Unit) (encode : PoolAnswer) (pump : Pump) :
    Leads C T p₀ d₀ (c.turn C T kdf replay encode pump) := by
  have hturn := hrel.turn pump
  have hkept := c.tunnel.relayTurn_kept r pump
  have hmoves := c.tunnel.relayTurn_moves r pump
  have hbase' {t : Tunnel E D} (hm : c.tunnel.Moves t) :
      Base (ServerTunnel.Holds T) c.past t out₁ xs₁ [commandTunnel] heard :=
    hbase.live (ServerTunnel.holds_stable T) hm.reader.atEnd hasked.ne_nil
  have hgoing {t : Tunnel E D} {r' : Relaying} (hm : c.tunnel.Moves t) (hk : r.Kept r')
      (h : ∃ v' w', Relays C v6WireCap p₀ d₀ out₁ xs₁ leftover t r' v' w') :
      Leads C T p₀ d₀ { c with tunnel := t, phase := .relaying r' } := by
    obtain ⟨v', w', h⟩ := h
    exact .inl ⟨_, _, hpsk, .relaying rfl hcur hasked (hk.env ▸ henv) (hk.keepSnellOpen.trans hkeep) rfl rfl h (hbase' hm)⟩
  simp only [turn, hphase]
  generalize c.tunnel.relayTurn r pump = turned at hturn hkept hmoves
  rcases turned with ⟨t, r'⟩ | ⟨t, r'⟩ | ⟨_ | _, t, r'⟩
  · exact hgoing hmoves hkept hturn
  · exact hgoing hmoves hkept hturn
  · obtain ⟨v', w', h, -⟩ := hturn
    exact ended_leads (c := { c with tunnel := t, phase := .relaying r }) hpsk (.of_relayed hcur hasked h (hbase' hmoves))
  · obtain ⟨v', w', -, hdone⟩ := hturn
    obtain ⟨h, hdone⟩ := hdone rfl
    exact finish_leads (c := { c with tunnel := t, phase := .relaying r }) (r := r') hpsk hcur hasked (hkept.env ▸ henv)
      (hkept.keepSnellOpen.trans hkeep) h hdone (hbase' hmoves)

theorem idle_leads (hpsk : c.psk = KdfDecoder.psk C d₀) (hphase : c.phase = .idling) (hcur : c.current = none)
    (hconn : Connected C v6WireCap p₀ d₀ c.env.sealing c.tunnel out xs)
    (hbase : Base (ServerTunnel.Holds T) c.past c.tunnel out xs [] []) : Leads C T p₀ d₀ c.idle := by
  unfold idle
  split
  · exact .inl ⟨_, _, hpsk, .reading rfl hcur (Nat.zero_le _) (Buffer.new_wf _) hconn hbase⟩
  · next hempty =>
    have hlen : c.tunnel.recv.buffer.len < v6WireCap := by
      have hnil : c.tunnel.recv.buffer.filled = [] :=
        (Buffer.isEmpty_iff hconn.listening.wf).mp ((Bool.not_eq_false _).mp hempty)
      rw [← Buffer.filled_length, hnil]
      decide
    rcases hpoll : pollReadInto c.tunnel.snell.reader c.tunnel.recv 1 4096 with ⟨r, reader, recv⟩
    obtain ⟨hl, hdead, hconn'⟩ := hconn.read (by decide) hlen hpoll rfl
    have hbase' := hbase.of_tunnel (ServerTunnel.holds_stable T) hl.atEnd hdead
    have hsound :=
      Sound.of_none (c := { c with tunnel := { c.tunnel with snell := { c.tunnel.snell with reader }, recv } })
      hbase' hconn'.spoken hcur tunnel_not_prefix_nil
    simp only
    split
    · exact .inl ⟨_, _, hpsk, .idling hphase hcur hconn' hbase'⟩
    · exact ended_leads (c := { c with tunnel := { c.tunnel with snell := { c.tunnel.snell with reader }, recv } }) hpsk
        hsound
    · exact ended_leads (c := { c with tunnel := { c.tunnel with snell := { c.tunnel.snell with reader }, recv } }) hpsk
        hsound
    · exact .inl ⟨_, _, hpsk, .reading rfl hcur (Nat.zero_le _) (Buffer.new_wf _) hconn' hbase'⟩

theorem turn_leads [ClosingEncoder E] (hinv : c.Inv C T p₀ d₀ out xs) (kdf : KdfAnswer) (replay : SessionRes Unit)
    (encode : PoolAnswer) (pump : Pump) : Leads C T p₀ d₀ (c.turn C T kdf replay encode pump) := by
  obtain ⟨hpsk, hstanding⟩ := hinv
  cases hstanding with
  | reading hphase hcur hmin hplain hconn hbase =>
    exact reading_turn hpsk hphase hcur hmin hplain hconn hbase kdf replay encode pump
  | draining hphase hcur hasked hconn hbase =>
    exact draining_turn hpsk hphase hcur hasked hconn hbase kdf replay encode pump
  | dialing hphase hcur hasked hconn hbase =>
    simp only [turn, hphase]
    exact .inl ⟨out, xs, hpsk, .dialing hphase hcur hasked hconn hbase⟩
  | replying hphase hcur hasked hfresh henv _ hwrites hbase =>
    exact replying_turn hpsk hphase hcur hasked hfresh henv hwrites hbase kdf replay encode pump
  | rejecting hphase hcur hsrc _ hwrites hbase =>
    exact rejecting_turn hpsk hphase hcur hsrc hwrites hbase kdf replay encode pump
  | forwarding hphase hcur hasked hreceived hsent hopen hconn hbase =>
    exact forwarding_turn hpsk hphase hcur hasked hreceived hsent hopen hconn hbase kdf replay encode pump
  | relaying hphase hcur hasked henv hkeep _ _ hrel hbase =>
    exact relaying_turn hpsk hphase hcur hasked henv hkeep hrel hbase kdf replay encode pump
  | idling hphase hcur hconn hbase =>
    simp only [turn, hphase]
    exact idle_leads hpsk hphase hcur hconn hbase
  | ended hphase hsound =>
    simp only [turn, hphase]
    exact .inl ⟨out, xs, hpsk, .ended hphase hsound⟩

theorem expire_leads (hinv : c.Inv C T p₀ d₀ out xs) (encode : PoolAnswer) : Leads C T p₀ d₀ (c.expire encode) := by
  have hsound := hinv.standing.sound
  unfold expire
  cases hinv.standing with
  | reading hphase | draining hphase | idling hphase =>
    simp only [hphase]
    exact ended_leads hinv.psk_eq hsound
  | dialing hphase hcur _ hconn hbase =>
    simp only [hphase]
    exact refuse_leads hinv.psk_eq hcur hconn hbase encode _
  | replying hphase =>
    simp only [hphase]
    exact .inr (.inr (by simp only [refuse_replyCut]))
  | rejecting hphase | forwarding hphase | relaying hphase | ended hphase =>
    simp only [hphase]
    exact .inl ⟨out, xs, hinv⟩

/-- **A step keeps the invariant**, or leaves it in one of the two ways. -/
theorem step_leads [ClosingEncoder E] (hinv : c.Inv C T p₀ d₀ out xs) (input : ServerInput) :
    Leads C T p₀ d₀ (c.step C T input) := by
  cases input with
  | turn kdf replay encode pump => exact turn_leads hinv kdf replay encode pump
  | dialed encode result => exact dialed_leads hinv encode result
  | expire encode => exact expire_leads hinv encode
  | drop => exact ended_leads hinv.psk_eq hinv.standing.sound

/-! ## What happens outside -/

/-- **What happens outside keeps the invariant.** -/
theorem Inv.grows (h : c.Inv C T p₀ d₀ out xs) (hg : c.tunnel.Grows u) : Inv C T p₀ d₀ { c with tunnel := u } out xs := by
  have hstable : Stable (ServerTunnel.Holds T) := ServerTunnel.holds_stable T
  refine ⟨h.psk_eq, ?_⟩
  cases h.standing with
  | reading hphase hcur hmin hplain hconn hbase =>
    exact .reading hphase hcur hmin hplain (hconn.grows hg) (hbase.grows hstable hg)
  | draining hphase hcur hasked hconn hbase => exact .draining hphase hcur hasked (hconn.grows hg) (hbase.grows hstable hg)
  | dialing hphase hcur hasked hconn hbase => exact .dialing hphase hcur hasked (hconn.grows hg) (hbase.grows hstable hg)
  | replying hphase hcur hasked hfresh henv hout hwrites hbase =>
    exact .replying hphase hcur hasked (hfresh.grows hg.plain) henv hout (hwrites.grows hg) (hbase.grows hstable hg)
  | rejecting hphase hcur hsrc hout hwrites hbase =>
    exact .rejecting hphase hcur hsrc hout (hwrites.grows hg) (hbase.grows hstable hg)
  | forwarding hphase hcur hasked hreceived hsent hopen hconn hbase =>
    exact .forwarding hphase hcur hasked (hg.plain.reader.received.trans hreceived)
      (by rw [hg.plain.writer.sent]; exact hsent)
      (hg.plain.writer.closing.trans hopen) (hconn.grows hg) (hbase.grows hstable hg)
  | relaying hphase hcur hasked henv hkeep hout hxs hrel hbase =>
    exact .relaying hphase hcur hasked henv hkeep hout hxs (hrel.grows hg) (hbase.grows hstable hg)
  | idling hphase hcur hconn hbase => exact .idling hphase hcur (hconn.grows hg) (hbase.grows hstable hg)
  | ended hphase hsound => exact .ended hphase (hsound.grows hg)

end Server

end Snell
