/-
What the client and the server share in carrying one tunnel after another over
a Snell connection: the futures they run on it, and what was said and told in
each tunnel.

What a party sealed and what it heard are cut at the zero chunks, one segment
a tunnel. `Says` and `Tells` are about one segment each: the party's segment is
its head and what it read of its plain side, and what it wrote to its plain
side is its greeting and the other party's segment.
-/
import Snell.FirstRequest
import Snell.Motion
import Snell.RecordWriter
import Snell.Relay

namespace Snell

open RecordEncoder EncoderSpec LawfulEncoder DatagramEncoder StreamEncoder ClosingEncoder RecordDecoder
  StagedDecoder Staged
  Polling Segments

/-! ## Futures of a tunnel -/

/-- What the pool answers where a lease is taken. -/
structure PoolAnswer where
  popped : Bytes
  scans : List (List Bytes)

def ReplyEnv.leased (env : ReplyEnv) (l : PoolAnswer) : ReplyEnv := { env with popped := l.popped, scans := l.scans }

/-- `write_plain_records` under way on the Snell side: what it holds besides
the tunnel. -/
structure Writing where
  env : ReplyEnv
  src : Bytes
  encode : PooledBuffer
  unwritten : Option Bytes
  asked : Nat

/-- A socket nothing was read of and nothing was written to. -/
def TcpStream.new : TcpStream := ⟨⟨[], [], false, [], []⟩, ⟨⟨[], []⟩, [], false⟩⟩

/-- Nothing was read of the plain side and nothing was written to it. -/
structure TcpStream.Fresh (plain : TcpStream) : Prop where
  received : plain.reader.received = []
  sent : plain.writer.sent = []
  closing : plain.writer.closing = false

theorem TcpStream.Fresh.grows {plain plain' : TcpStream} (h : plain.Fresh) (hg : plain.Grows plain') : plain'.Fresh :=
  ⟨hg.reader.received.trans h.received, hg.writer.sent.trans h.sent, hg.writer.closing.trans h.closing⟩

namespace Tunnel

variable {E D : Type}

def writing (t : Tunnel E D) (w : Writing) : RecordWriter E :=
  ⟨t.snell.writer, t.encoder, w.src, w.encode, w.unwritten, w.asked⟩

def putWriting (t : Tunnel E D) (w : Writing) (s : RecordWriter E) : Tunnel E D × Writing :=
  ({ t with snell := { t.snell with writer := s.writer }, encoder := s.encoder },
    { w with src := s.src, encode := s.encode, unwritten := s.unwritten, asked := s.asked })

def putInbound (t : Tunnel E D) (s : Inbound D) : Tunnel E D :=
  { t with snell := { t.snell with reader := s.reader }, decoder := s.decoder, recv := s.recv }

def putPlainWriter (t : Tunnel E D) (writer : WriteHalf) : Tunnel E D := { t with plain := { t.plain with writer } }

variable [RecordEncoder E] [RecordDecoder D]

/-- `asked` records were asked for before. -/
def startWriting (env : ReplyEnv) (src : Bytes) (asked : Nat) : Writing := ⟨env, src, env.lease, none, asked⟩

def writeTurn (t : Tunnel E D) (w : Writing) : Turn (Tunnel E D × Writing) (SessionRes Unit) :=
  ((t.writing w).turn w.env).map (t.putWriting w)

def decodeTurn (C : Crypto) (psk : Psk) (kdf : KdfAnswer) (t : Tunnel E D) (minimum : Nat) :
    Turn (Tunnel E D × Nat) (SessionRes RecordEvent) :=
  (t.inbound.decodeOnceTurn C psk kdf minimum).map fun x => (t.putInbound x.1, x.2)

/-- `write_all` to the plain side. -/
def forwardTurn (t : Tunnel E D) (rest : Bytes) : Turn (Tunnel E D × Bytes) (SessionRes Unit) :=
  (t.plain.writer.writeAllTurn rest).map fun x => (t.putPlainWriter x.1, x.2)

end Tunnel

theorem PlainStream.push_ok {plain plain' : PlainStream} {bytes : Bytes} (hw : plain.buf.Wf)
    (h : plain.push bytes = .ok plain') : plain'.filled = plain.filled ++ bytes ∧ plain'.buf.Wf := by
  simp only [push] at h
  split at h
  · cases h
  · next buf hbuf =>
    cases h
    obtain ⟨hfilled, hkept⟩ := Buffer.extendFromSlice_ok hw hbuf
    exact ⟨hfilled, hkept.wf⟩

/-! ## What a turn does to the connection -/

section Moves

variable {E D : Type} {t u u' : Tunnel E D}

/-- Of what was in flight some was read, and something may have been written. -/
structure Tunnel.Moves (t u : Tunnel E D) : Prop where
  reader : t.snell.reader.Moves u.snell.reader
  writer : t.snell.writer.sent <+: u.snell.writer.sent

theorem Tunnel.Moves.refl (t : Tunnel E D) : t.Moves t := ⟨.refl _, List.prefix_refl _⟩

theorem Tunnel.Moves.trans (h : t.Moves u) (h' : u.Moves u') : t.Moves u' :=
  ⟨h.reader.trans h'.reader, h.writer.trans h'.writer⟩

/-- Only the connection matters. -/
theorem Tunnel.Moves.same (h : t.Moves u) (hr : u'.snell.reader = u.snell.reader) (hw : u'.snell.writer = u.snell.writer) :
    t.Moves u' :=
  ⟨hr ▸ h.reader, hw ▸ h.writer⟩

theorem Tunnel.forwardTurn_moves (t : Tunnel E D) (rest : Bytes) :
    (t.forwardTurn rest).Keeps fun x => t.Moves x.1 := by
  refine Turn.Leads.map ?_
  cases t.plain.writer.writeAllTurn rest with
  | again s | pending s | ready r s => exact (Moves.refl t).same rfl rfl

theorem Tunnel.joined_moves {r : Relaying} (h : t.Moves u) :
    (joined (u, r)).Keeps fun x => t.Moves x.1 := by
  unfold joined
  split <;> exact h

/-- What a turn of `write_all` on the plain side comes to. -/
theorem Tunnel.forwardTurn_leads (t : Tunnel E D) (rest : Bytes) :
    (t.forwardTurn rest).Until (fun x => ∃ w, x.1 = t.putPlainWriter w ∧ t.plain.writer.Wrote rest w x.2)
      fun r x => ∃ w, x.1 = t.putPlainWriter w ∧ t.plain.writer.Wrote rest w x.2 ∧ (r = .ok () → x.2 = []) :=
  Turn.Leads.map
    ((t.plain.writer.writeAllTurn_leads rest).imp (fun x h => ⟨x.1, rfl, h⟩) fun _ x h => ⟨x.1, rfl, h.1, h.2⟩)

/-- No record is to be had of the Snell side any more. -/
def Tunnel.Dead (t : Tunnel E D) : Prop := t.snell.reader.AtEnd ∧ t.recv.buffer.filled = []

/-- At the end of the stream nothing is taken. -/
theorem Inbound.Took.dead (h : t.inbound.Took u.inbound) (hd : t.Dead) : u.Dead := by
  obtain ⟨got, hg, hfilled⟩ := h
  have hcoming : t.snell.reader.coming = got ++ u.snell.reader.coming := hg.coming
  rw [hd.1.1] at hcoming
  obtain ⟨rfl, hnil⟩ := List.append_eq_nil_iff.mp hcoming.symm
  refine ⟨⟨hnil, hg.closed.trans hd.1.2⟩, ?_⟩
  have hfilled : u.recv.buffer.filled = t.recv.buffer.filled ++ [] := hfilled
  rw [hfilled, hd.2, List.append_nil]

variable [RecordDecoder D]

theorem Inbound.decodeOnceTurn_moves (C : Crypto) (psk : Psk) (kdf : KdfAnswer) (s : Inbound D) (minimum : Nat) :
    (s.decodeOnceTurn C psk kdf minimum).Keeps fun x => s.reader.Moves x.1.reader := by
  have hrefl := ReadHalf.Moves.refl s.reader
  have hdecode (decoder : D) : (decodeTurn { s with decoder }).Keeps fun x => s.reader.Moves x.1.reader := by
    unfold decodeTurn
    simp only
    split
    · exact hrefl
    · exact hrefl
    · split
      · split <;> exact hrefl
      · exact hrefl
  unfold decodeOnceTurn
  split
  · unfold fillTurn
    have hread := pollReadInto_moves s.reader s.recv minimum 4096
    generalize pollReadInto s.reader s.recv minimum 4096 = result at hread
    obtain ⟨_ | ⟨_ | n⟩, reader, recv⟩ := result
    · exact hread
    · exact hread
    · simp only
      split <;> exact hread
  · split
    · exact hrefl
    · exact hrefl
    · exact hdecode _

theorem Tunnel.decodeTurn_moves (C : Crypto) (psk : Psk) (kdf : KdfAnswer) (t : Tunnel E D) (minimum : Nat) :
    (t.decodeTurn C psk kdf minimum).Keeps fun x => t.Moves x.1 := by
  exact Turn.Leads.map ((t.inbound.decodeOnceTurn_moves C psk kdf minimum).imp fun s h => ⟨h, List.prefix_refl _⟩)

variable [RecordEncoder E]

omit [RecordDecoder D] in
theorem Tunnel.writeTurn_moves (t : Tunnel E D) (w : Writing) :
    (t.writeTurn w).Keeps fun x => t.Moves x.1 := by
  exact Turn.Leads.map (((t.writing w).turn_appends w.env).imp fun s h => ⟨.refl _, h⟩)

theorem Tunnel.relayTurn_moves (t : Tunnel E D) (r : Relaying) (pump : Pump) :
    (t.relayTurn r pump).Keeps fun x => t.Moves x.1 := by
  cases pump with
  | plainToSnell =>
    unfold relayTurn
    simp only
    split
    · exact .refl t
    · have hturn := (t.sending r).turn_appends r.env r.keepSnellOpen
      generalize (t.sending r).turn r.env r.keepSnellOpen = turned at hturn
      have hput {s : PlainToSnell E} (h : (t.sending r).writer.sent <+: s.writer.sent) : t.Moves (t.putSending r s).1 :=
        ⟨.refl _, h⟩
      rcases turned with s | s | ⟨_ | _, s⟩
      · exact hput hturn
      · exact hput hturn
      · exact hput hturn
      · exact joined_moves (hput hturn)
  | snellToPlain =>
    unfold relayTurn
    simp only
    split
    · exact .refl t
    · have hturn := (t.receiving r).turn_moves
      generalize (t.receiving r).turn = turned at hturn
      have hput {s : SnellToPlain D} (h : (t.receiving r).reader.Moves s.reader) : t.Moves (t.putReceiving r s).1 :=
        ⟨h, List.prefix_refl _⟩
      rcases turned with s | s | ⟨_ | _, s⟩
      · exact hput hturn
      · exact hput hturn
      · exact hput hturn
      · exact joined_moves (hput hturn)

/-- A relay goes on as it was started. -/
structure Relaying.Kept (r r' : Relaying) : Prop where
  env : r'.env = r.env
  keepSnellOpen : r'.keepSnellOpen = r.keepSnellOpen

theorem Tunnel.relayTurn_kept (t : Tunnel E D) (r : Relaying) (pump : Pump) :
    (t.relayTurn r pump).Keeps fun x => r.Kept x.2 := by
  have hrefl : r.Kept r := ⟨rfl, rfl⟩
  cases pump with
  | plainToSnell =>
    unfold relayTurn joined
    simp only
    split
    · exact hrefl
    · split
      · exact ⟨rfl, rfl⟩
      · exact ⟨rfl, rfl⟩
      · exact ⟨rfl, rfl⟩
      · split <;> exact ⟨rfl, rfl⟩
  | snellToPlain =>
    unfold relayTurn joined
    simp only
    split
    · exact hrefl
    · split
      · exact ⟨rfl, rfl⟩
      · exact ⟨rfl, rfl⟩
      · exact ⟨rfl, rfl⟩
      · split <;> exact ⟨rfl, rfl⟩

end Moves

/-! ## What was said and heard -/

section Spoken

variable {E D : Type} [RecordDecoder D] [StagedDecoder D] {C : Crypto} [KdfDecoder C D] {t u : Tunnel E D}
  {max minimum : Nat} {d₀ : D} {xs₀ xs : List (Item × Bytes)}

theorem Inbound.Listening.grows [SafeDecoder D] (h : Listening C max d₀ t.inbound xs) (hg : t.Grows u) :
    Listening C max d₀ u.inbound xs := by
  have hreader : u.inbound = { t.inbound with reader := u.snell.reader } := by
    simp only [Tunnel.inbound, hg.decoder, hg.recv]
  rw [hreader]
  refine { h with heard := ?_ }
  have := h.heard
  rwa [show t.inbound.reader.received = u.snell.reader.received from hg.snell.reader.received.symm] at this

variable [RecordEncoder E] [EncoderSpec E] [LawfulEncoder E] {p₀ : Pos E} {out₀ out records : List (Bytes × Bytes)}
  {greeting src : Bytes} {sealing : Nat → SealEnv} {env : ReplyEnv}

/-- Since the beginning of the connection `out` was sealed, a front of it
written, and `xs` heard. -/
structure Spoken (max : Nat) (p₀ : Pos E) (d₀ : D) (t : Tunnel E D) (out : List (Bytes × Bytes))
    (xs : List (Item × Bytes)) : Prop where
  chain : ∃ p, Chain Frame p₀ out p
  sent : t.snell.writer.sent <+: wireOf out
  hears : Hears max d₀ t.snell.reader.received xs

theorem Spoken.grows (h : Spoken max p₀ d₀ t out xs) (hg : t.snell.Grows u.snell) : Spoken max p₀ d₀ u out xs :=
  ⟨h.chain, hg.writer.sent ▸ h.sent, hg.reader.received ▸ h.hears⟩

theorem Relayed.spoken {v : PlainToSnell.View} {w : SnellToPlain.View} (h : Relayed max p₀ d₀ out₀ xs₀ greeting t v w) :
    Spoken max p₀ d₀ t (out₀ ++ v.records) (xs₀ ++ w.xs) :=
  ⟨⟨_, h.chain⟩, h.sent, h.delivered.hears⟩

variable [DatagramEncoder E] [StreamEncoder E] [SafeDecoder D]

/-- A connection nothing was sent over yet. -/
theorem Connected.new {encoder : E} {decoder : D} (env : ReplyEnv) (plain : TcpStream) (h : Sustains encoder env.sealing)
    (hp : pending decoder = 0) (hv : SafeDecoder.Valid decoder) :
    Connected C v6WireCap (pos encoder) decoder env.sealing ⟨plain, .new, encoder, decoder, env.lease⟩ [] [] := by
  have hheard : Heard v6WireCap decoder [] [] decoder [] := ⟨decoder, .refl, fun m => by rw [set_zero hp]⟩
  exact ⟨.nil, rfl, rfl, h, hheard, hp, rfl, hv, ⟨Nat.zero_le _, Nat.zero_le _⟩, rfl, by decide⟩

theorem Connected.spoken (h : Connected C max p₀ d₀ sealing t out xs) : Spoken max p₀ d₀ t out xs :=
  ⟨⟨_, h.chain⟩, h.sent ▸ List.prefix_refl _, h.listening.heard.hears⟩

theorem Connected.grows (h : Connected C max p₀ d₀ sealing t out xs) (hg : t.Grows u) :
    Connected C max p₀ d₀ sealing u out xs where
  chain := hg.encoder ▸ h.chain
  sent := hg.snell.writer.sent.trans h.sent
  closing := hg.snell.writer.closing.trans h.closing
  sustains := hg.encoder ▸ h.sustains
  listening := h.listening.grows hg

/-! ## Reading records -/

/-- What reading records leaves alone. -/
structure Tunnel.Listened (t u : Tunnel E D) : Prop where
  plain : u.plain = t.plain
  writer : u.snell.writer = t.snell.writer
  encoder : u.encoder = t.encoder
  atEnd : t.snell.reader.AtEnd → u.snell.reader.AtEnd

theorem Connected.listened (h : Connected C max p₀ d₀ sealing t out xs) (hl : t.Listened u) {xs' : List (Item × Bytes)}
    (hlistening : Inbound.Listening C max d₀ u.inbound xs') : Connected C max p₀ d₀ sealing u out xs' :=
  ⟨hl.encoder ▸ h.chain, hl.writer ▸ h.sent, hl.writer ▸ h.closing, hl.encoder ▸ h.sustains, hlistening⟩

/-- What a turn of `decode_once` on a connection comes to. -/
theorem Connected.decodeTurn (h : Connected C max p₀ d₀ sealing t out xs) {psk : Psk} (hpsk : psk = KdfDecoder.psk C d₀)
    (kdf : KdfAnswer) (hmin : minimum ≤ max) :
    (t.decodeTurn C psk kdf minimum).Until
      (fun x => x.2 ≤ max ∧ t.Listened x.1 ∧ (t.Dead → x.1.Dead) ∧ Connected C max p₀ d₀ sealing x.1 out xs)
      fun r x => t.Listened x.1 ∧ Spoken max p₀ d₀ x.1 out xs ∧
        match r with
        | .error _ => True
        | .ok .zero => ¬ t.Dead ∧ ∃ w, Connected C max p₀ d₀ sealing x.1 out (xs ++ [(.zeroChunk, w)])
        | .ok (.data record) => ¬ t.Dead ∧ ∃ y, Item.isData y = true ∧
          record.plaintext x.1.recv.buffer.filled = .ok (Item.plain y) ∧
          ∃ d' b', consume x.1.decoder x.1.recv.buffer record = (.ok (), d', b') ∧
            Connected C max p₀ d₀ sealing { x.1 with decoder := d', recv := { x.1.recv with buffer := b' } } out
              (xs ++ [y]) := by
  have hlistened {s : Inbound D} (hm : t.snell.reader.Moves s.reader) : t.Listened (t.putInbound s) :=
    ⟨rfl, rfl, rfl, hm.atEnd⟩
  refine Turn.Leads.map ((h.listening.decodeOnceTurn hpsk kdf hmin).imp ?_ ?_)
  · rintro ⟨s, m⟩ ⟨hle, hl, htook⟩
    have hl' := hlistened ⟨_, htook.choose_spec.1⟩
    exact ⟨hle, hl', htook.dead (u := t.putInbound s), h.listened hl' hl⟩
  · rintro r ⟨s, m⟩ ⟨hg, hr⟩
    have hl' := hlistened ⟨_, hg⟩
    refine ⟨hl', ⟨⟨_, h.chain⟩, h.sent ▸ List.prefix_refl _, ?_⟩, ?_⟩
    · have hreceived : s.reader.received = t.snell.reader.received := by
        have := hg.received
        rwa [List.append_nil] at this
      exact hreceived ▸ h.listening.heard.hears
    · match r, hr with
      | .error _, _ => trivial
      | .ok .zero, ⟨hne, w, hl⟩ => exact ⟨fun hd => hne hd.2, w, h.listened hl' hl⟩
      | .ok (.data record), ⟨hne, y, hdata, hbytes, d', b', hconsume, hl⟩ =>
        refine ⟨fun hd => hne hd.2, y, hdata, hbytes, d', b', hconsume, h.listened (u := { t.putInbound s with
          decoder := d', recv := { s.recv with buffer := b' } }) ⟨rfl, rfl, rfl, hl'.atEnd⟩ hl⟩

theorem Connected.decodeTurn_waits (h : Connected C max p₀ d₀ sealing t out xs) {psk : Psk}
    (hpsk : psk = KdfDecoder.psk C d₀) (kdf : KdfAnswer) :
    (t.decodeTurn C psk kdf 0).Leads (fun x => x.1.recv.buffer.len < x.2) (fun _ => True) fun _ _ => True :=
  Turn.Leads.map ((h.listening.decodeOnceTurn_waits hpsk kdf).imp (fun _ h => h) (fun _ h => h) fun _ _ h => h)

/-- `poll_read_into` on a connection. -/
theorem Connected.read {r : Polled (SessionRes Nat)} {reader : ReadHalf} {recv : PooledBuffer}
    (h : Connected C max p₀ d₀ sealing t out xs) (hmin : minimum ≤ max) (hlen : t.recv.buffer.len < max)
    (hpoll : pollReadInto t.snell.reader t.recv minimum 4096 = (r, reader, recv))
    (hu : u = { t with snell := { t.snell with reader }, recv }) :
    t.Listened u ∧ (t.Dead → u.Dead) ∧ Connected C max p₀ d₀ sealing u out xs := by
  subst hu
  obtain ⟨hl, htook⟩ := h.listening.read hmin hlen hpoll
  have hmoves : t.snell.reader.Moves reader := ⟨_, htook.choose_spec.1⟩
  have hl' : t.Listened { t with snell := { t.snell with reader }, recv } := ⟨rfl, rfl, rfl, hmoves.atEnd⟩
  exact ⟨hl', htook.dead (u := { t with snell := { t.snell with reader }, recv }), h.listened hl' hl⟩

/-- An empty buffer's block goes back to the pool. -/
theorem Connected.released (h : Connected C max p₀ d₀ sealing t out xs) :
    Connected C max p₀ d₀ sealing { t with recv := t.recv.releaseEmpty } out xs := by
  obtain ⟨hw, hf, hm⟩ := PooledBuffer.releaseEmpty_kept (p := t.recv) h.listening.wf
  have hl := h.listening
  refine ⟨h.chain, h.sent, h.closing, h.sustains, ?_, hl.pending, hl.psk_eq, hl.valid, hw, hm.trans hl.max_eq, hl.small⟩
  have := hl.heard
  rwa [show t.inbound.recv.buffer.filled = t.recv.releaseEmpty.buffer.filled from hf.symm] at this

/-! ## Writing to the plain side -/

theorem Connected.forwarded (h : Connected C max p₀ d₀ sealing t out xs) (writer : WriteHalf) :
    Connected C max p₀ d₀ sealing (t.putPlainWriter writer) out xs :=
  ⟨h.chain, h.sent, h.closing, h.sustains, h.listening⟩

/-! ## Writing records -/

/-- `src` is being written behind `out₀`. -/
structure Writes (C : Crypto) [KdfDecoder C D] (max : Nat) (p₀ : Pos E) (d₀ : D) (out₀ : List (Bytes × Bytes))
    (src : Bytes) (t : Tunnel E D) (w : Writing) (records : List (Bytes × Bytes)) (xs : List (Item × Bytes)) :
    Prop where
  inv : RecordWriter.Inv w.env p₀ out₀ src (t.writing w) records
  listening : Inbound.Listening C max d₀ t.inbound xs

variable {w : Writing}

theorem Connected.writes (env : ReplyEnv) (h : Connected C max p₀ d₀ env.sealing t out xs) (src : Bytes) (asked : Nat) :
    Writes C max p₀ d₀ out src t (Tunnel.startWriting env src asked) [] xs :=
  ⟨RecordWriter.start_inv src asked h.chain h.sent h.closing h.sustains, h.listening⟩

/-- What writing records leaves alone. -/
structure Tunnel.Aside (t u : Tunnel E D) : Prop where
  plain : u.plain = t.plain
  inbound : u.inbound = t.inbound

theorem Writes.turn (h : Writes C max p₀ d₀ out₀ src t w records xs) :
    (t.writeTurn w).Until
      (fun x => ∃ records', Writes C max p₀ d₀ out₀ src x.1 x.2 records' xs ∧ x.2.env = w.env ∧ t.Aside x.1)
      fun r x => ∃ records', Writes C max p₀ d₀ out₀ src x.1 x.2 records' xs ∧ x.2.env = w.env ∧ t.Aside x.1 ∧
        (r = .ok () → (records'.map Prod.fst).flatten = src ∧
          Connected C max p₀ d₀ w.env.sealing x.1 (out₀ ++ records') xs) := by
  refine Turn.Leads.map ((RecordWriter.turn_leads h.inv).imp ?_ ?_)
  · rintro s ⟨records', hinv⟩
    exact ⟨records', ⟨hinv, h.listening⟩, rfl, rfl, rfl⟩
  · rintro r s ⟨records', hinv, hdone⟩
    refine ⟨records', ⟨hinv, h.listening⟩, rfl, ⟨rfl, rfl⟩, fun hr => ?_⟩
    obtain ⟨hsrc, hsent⟩ := hdone hr
    refine ⟨?_, hinv.chain, hsent, hinv.closing, hinv.sustains, h.listening⟩
    have := hinv.payload
    rwa [hsrc, List.append_nil] at this

theorem Writes.spoken (h : Writes C max p₀ d₀ out₀ src t w records xs) : Spoken max p₀ d₀ t (out₀ ++ records) xs :=
  ⟨⟨_, h.inv.chain⟩, ⟨_, h.inv.sent⟩, h.listening.heard.hears⟩

theorem Writes.grows (h : Writes C max p₀ d₀ out₀ src t w records xs) (hg : t.Grows u) :
    Writes C max p₀ d₀ out₀ src u w records xs where
  inv := by
    have hwriting : u.writing w = { t.writing w with writer := u.snell.writer } := by
      simp only [Tunnel.writing, hg.encoder]
    rw [hwriting]
    exact { h.inv with
      sent := by
        have := h.inv.sent
        rwa [show (t.writing w).writer.sent = u.snell.writer.sent from hg.snell.writer.sent.symm] at this
      closing := hg.snell.writer.closing.trans h.inv.closing }
  listening := h.listening.grows hg

/-! ## One segment -/

/-- The `i`-th segment sealed is `head` and what was read of the plain side. -/
structure Says (head : Bytes) (reader : ReadHalf) (oc : Cut UInt8) (i : Nat) : Prop where
  said : oc.segment i <+: head ++ reader.received
  finished : i < oc.closed.length → oc.segment i = head ++ reader.received ∧ reader.AtEnd

/-- What was written to the plain side is `greeting` and the `i`-th segment
heard, without its first `skip` bytes. `hung`: no more is to be heard. -/
structure Tells (greeting : Bytes) (skip : Nat) (writer : WriteHalf) (ic : Cut UInt8) (hung : Prop) (i : Nat) : Prop where
  told : writer.sent <+: greeting ++ (ic.segment i).drop skip
  shut : writer.closing = true → writer.sent = greeting ++ (ic.segment i).drop skip ∧ (i < ic.closed.length ∨ hung)

variable {head : Bytes} {reader reader' : ReadHalf} {writer writer' : WriteHalf} {oc oc' ic ic' : Cut UInt8} {i skip : Nat}
  {hung hung' : Prop}

theorem Says.same (h : Says head reader oc i) (hs : oc.Same oc' i) : Says head reader oc' i :=
  ⟨by rw [hs.segment]; exact h.said, fun hi => by rw [hs.segment]; exact h.finished (hs.closed.mp hi)⟩

theorem Tells.same (h : Tells greeting skip writer ic hung i) (hs : ic.Same ic' i) (hh : hung → hung') :
    Tells greeting skip writer ic' hung' i :=
  ⟨by rw [hs.segment]; exact h.told, fun hcl => by
    rw [hs.segment]
    exact ⟨(h.shut hcl).1, (h.shut hcl).2.imp hs.closed.mpr hh⟩⟩

theorem Says.grows (h : Says head reader oc i) (hg : reader.Grows reader') : Says head reader' oc i :=
  ⟨by rw [hg.received]; exact h.said, fun hi => by rw [hg.received]; exact ⟨(h.finished hi).1, hg.atEnd (h.finished hi).2⟩⟩

theorem Tells.grows (h : Tells greeting skip writer ic hung i) (hg : writer.Same writer') (hh : hung → hung') :
    Tells greeting skip writer' ic hung' i :=
  ⟨by rw [hg.sent]; exact h.told, fun hcl => by
    rw [hg.closing] at hcl
    rw [hg.sent]
    exact ⟨(h.shut hcl).1, (h.shut hcl).2.imp_right hh⟩⟩

/-- Nothing was written yet. -/
theorem Tells.silent (hsent : writer.sent = []) (hopen : writer.closing = false) : Tells greeting skip writer ic hung i :=
  ⟨by rw [hsent]; exact List.nil_prefix, fun hcl => by rw [hopen] at hcl; cases hcl⟩

/-- A front of what was heard is written. -/
theorem Tells.front (written : Bytes) (hsent : writer.sent ++ written = greeting ++ (ic.segment i).drop skip)
    (hopen : writer.closing = false) : Tells greeting skip writer ic hung i :=
  ⟨⟨written, hsent⟩, fun hcl => by rw [hopen] at hcl; cases hcl⟩

/-! ## The segments of a relay -/

theorem cutFrom_records (c : Cut UInt8) {X : Prop} (h : PlainToSnell.AllData records ∨ PlainToSnell.Closed records ∧ X) :
    ∃ ended, cutFrom c (sealedMsgs records) = c.grown (records.map Prod.fst).flatten ended ∧ (ended = true → X) ∧
      (PlainToSnell.Closed records → ended = true) := by
  by_cases hclosed : PlainToSnell.Closed records
  · obtain ⟨data, zero, rfl, hdata⟩ := hclosed
    refine ⟨true, cutFrom_sealed_zero c hdata zero, fun _ => ?_, fun _ => rfl⟩
    rcases h with hall | ⟨-, hx⟩
    · exact absurd rfl (hall ([], zero) (by simp))
    · exact hx
  · exact ⟨false, cutFrom_sealed c (h.resolve_right fun hc => hclosed hc.1), (fun h => by cases h),
      fun h => absurd h hclosed⟩

theorem cutFrom_view (c : Cut UInt8) {w : SnellToPlain.View} (h : w.AllData ∨ w.EndsInZero) :
    ∃ ended, cutFrom c (heardMsgs w.xs) = c.grown (Item.plainOf w.xs) ended ∧ (w.EndsInZero → ended = true) := by
  by_cases hzero : w.EndsInZero
  · obtain ⟨zs, z, hxs, hdata, hz⟩ := hzero
    exact ⟨true, by rw [hxs]; exact cutFrom_heard_zero c hdata hz, fun _ => rfl⟩
  · exact ⟨false, cutFrom_heard c (h.resolve_right hzero), fun h => absurd h hzero⟩

omit [DatagramEncoder E] [StreamEncoder E] [SafeDecoder D] in
/-- **What a relay says and tells**, behind a segment that is open on both
sides. -/
theorem Relayed.carries (skip : Nat) {v : PlainToSnell.View} {w : SnellToPlain.View}
    (h : Relayed max p₀ d₀ out₀ xs₀ (greeting ++ src) t v w) (ho : (Segments.cut (sealedMsgs out₀)).closed.length = i)
    (hhead : (Segments.cut (sealedMsgs out₀)).current = head) (hi : (Segments.cut (heardMsgs xs₀)).closed.length = i)
    (hskip : skip ≤ (Segments.cut (heardMsgs xs₀)).current.length)
    (hsrc : (Segments.cut (heardMsgs xs₀)).current.drop skip = src) :
    ∃ more eo ei, Segments.cut (sealedMsgs (out₀ ++ v.records)) =
        (Segments.cut (sealedMsgs out₀)).grown t.plain.reader.received eo ∧
      Segments.cut (heardMsgs (xs₀ ++ w.xs)) = (Segments.cut (heardMsgs xs₀)).grown more ei ∧
      Says head t.plain.reader (Segments.cut (sealedMsgs (out₀ ++ v.records))) i ∧
      Tells greeting skip t.plain.writer (Segments.cut (heardMsgs (xs₀ ++ w.xs))) t.snell.reader.AtEnd i ∧
      (PlainToSnell.Closed v.records → eo = true) ∧ (w.EndsInZero → ei = true) := by
  obtain ⟨eo, hoc, hend, heo⟩ := cutFrom_records (Segments.cut (sealedMsgs out₀)) h.shape
  obtain ⟨ei, hic, hei⟩ := cutFrom_view (Segments.cut (heardMsgs xs₀)) h.delivered.shape
  rw [h.payload] at hoc
  have hocut : Segments.cut (sealedMsgs (out₀ ++ v.records)) =
      (Segments.cut (sealedMsgs out₀)).grown t.plain.reader.received eo := by rw [sealedMsgs_append, cut_append, hoc]
  have hicut : Segments.cut (heardMsgs (xs₀ ++ w.xs)) = (Segments.cut (heardMsgs xs₀)).grown (Item.plainOf w.xs) ei := by
    rw [heardMsgs_append, cut_append, hic]
  have hdrop : ((Segments.cut (heardMsgs (xs₀ ++ w.xs))).segment i).drop skip = src ++ Item.plainOf w.xs := by
    rw [hicut, ← hi, Cut.segment_grown, List.drop_append_of_le_length hskip, hsrc]
  refine ⟨_, eo, ei, hocut, hicut, ⟨?_, fun hlt => ?_⟩, ⟨?_, fun hcl => ?_⟩, heo, hei⟩
  · rw [hocut, ← ho, Cut.segment_grown, hhead]
  · rw [hocut, ← ho, Cut.segment_grown, hhead]
    rw [hocut, Cut.length_grown, ho] at hlt
    exact ⟨rfl, hend (by cases eo <;> simp_all)⟩
  · obtain ⟨written, hsent, hfront⟩ := h.delivered.written
    rw [hdrop, hsent, List.append_assoc]
    exact (List.prefix_append_right_inj _).mpr ((List.prefix_append_right_inj _).mpr hfront)
  · obtain ⟨hall, hended⟩ := h.delivered.shut hcl
    rw [hdrop, hall, List.append_assoc]
    refine ⟨rfl, hended.imp_left fun hzero => ?_⟩
    rw [hicut, Cut.length_grown, hi, hei hzero]
    exact Nat.lt_succ_self _

end Spoken

/-! ## Tunnels that are over, and the one under way -/

section Base

variable {E D α : Type} {H : Cut UInt8 → Cut UInt8 → Prop → Nat → α → Prop} {past : List α} {t u : Tunnel E D}
  {out records : List (Bytes × Bytes)} {xs ys : List (Item × Bytes)} {said heard : Bytes}

/-- What is known of a tunnel by its two segments stays known while they are
the same. -/
def Stable (H : Cut UInt8 → Cut UInt8 → Prop → Nat → α → Prop) : Prop :=
  ∀ {oc oc' ic ic' : Cut UInt8} {hung hung' : Prop} {i : Nat} {a : α}, H oc ic hung i a → oc.Same oc' i → ic.Same ic' i →
    (hung → hung') → H oc' ic' hung' i a

/-- The tunnels `past` are over; in the one under way `said` was sealed and
`heard` was heard. -/
structure Base (H : Cut UInt8 → Cut UInt8 → Prop → Nat → α → Prop) (past : List α) (t : Tunnel E D)
    (out : List (Bytes × Bytes)) (xs : List (Item × Bytes)) (said heard : Bytes) : Prop where
  holds : ∀ i a, past[i]? = some a → H (cut (sealedMsgs out)) (cut (heardMsgs xs)) t.snell.reader.AtEnd i a
  count : (cut (sealedMsgs out)).closed.length = past.length
  said : (cut (sealedMsgs out)).current = said
  heard : (cut (heardMsgs xs)).closed.length = past.length ∧ (cut (heardMsgs xs)).current = heard ∨ t.Dead ∧ heard = []

/-- Before the first tunnel. -/
theorem Base.new (t : Tunnel E D) : Base H [] t [] [] [] [] := ⟨fun i a ha => (by cases ha), rfl, rfl, .inl ⟨rfl, rfl⟩⟩

theorem Base.of_tunnel (h : Base H past t out xs said heard) (hH : Stable H)
    (hung : t.snell.reader.AtEnd → u.snell.reader.AtEnd) (hdead : t.Dead → u.Dead) :
    Base H past u out xs said heard where
  holds i a ha := hH (h.holds i a ha) ⟨rfl, Iff.rfl⟩ ⟨rfl, Iff.rfl⟩ hung
  count := h.count
  said := h.said
  heard := h.heard.imp_right fun hd => ⟨hdead hd.1, hd.2⟩

theorem Base.of_inbound (h : Base H past t out xs said heard) (hH : Stable H) (hsame : u.inbound = t.inbound) :
    Base H past u out xs said heard := by
  have hreader : u.snell.reader = t.snell.reader := congrArg Inbound.reader hsame
  have hrecv : u.recv = t.recv := congrArg Inbound.recv hsame
  exact h.of_tunnel hH (by rw [hreader]; exact id) (by rw [Tunnel.Dead, Tunnel.Dead, hreader, hrecv]; exact id)

theorem Base.grows (h : Base H past t out xs said heard) (hH : Stable H) (hg : t.Grows u) :
    Base H past u out xs said heard :=
  h.of_tunnel hH hg.snell.reader.atEnd fun hd => ⟨hg.snell.reader.atEnd hd.1, by rw [hg.recv]; exact hd.2⟩

/-- Where something was heard the Snell side was not dead. -/
theorem Base.live (h : Base H past t out xs said heard) (hH : Stable H)
    (hung : t.snell.reader.AtEnd → u.snell.reader.AtEnd) (hne : heard ≠ []) : Base H past u out xs said heard where
  holds i a ha := hH (h.holds i a ha) ⟨rfl, Iff.rfl⟩ ⟨rfl, Iff.rfl⟩ hung
  count := h.count
  said := h.said
  heard := .inl (h.heard.resolve_right fun hd => hne hd.2)

theorem lt_length_of_getElem? {i : Nat} {a : α} (h : past[i]? = some a) : i < past.length :=
  (List.getElem?_eq_some_iff.mp h).1

/-- A tunnel is one that is over or the last. -/
theorem getElem?_concat_cases {i : Nat} {a b : α} (h : (past ++ [a])[i]? = some b) :
    past[i]? = some b ∨ i = past.length ∧ b = a := by
  rcases Nat.lt_or_ge i past.length with hi | hi
  · rw [List.getElem?_append_left hi] at h
    exact .inl h
  · have hlen := lt_length_of_getElem? h
    rw [List.length_append, List.length_singleton] at hlen
    obtain rfl : i = past.length := by omega
    simp only [List.getElem?_concat_length, Option.some.injEq] at h
    exact .inr ⟨rfl, h.symm⟩

/-- Data was sealed. -/
theorem Base.say (h : Base H past t out xs said heard) (hH : Stable H) (hdata : PlainToSnell.AllData records) :
    Base H past t (out ++ records) xs (said ++ (records.map Prod.fst).flatten) heard := by
  have hcut : cut (sealedMsgs (out ++ records)) = (cut (sealedMsgs out)).grown (records.map Prod.fst).flatten false := by
    rw [sealedMsgs_append, cut_append, cutFrom_sealed _ hdata]
  refine ⟨fun i a ha => hH (h.holds i a ha) ?_ ⟨rfl, Iff.rfl⟩ id, ?_, ?_, h.heard⟩
  · rw [hcut]
    exact Cut.grown_same _ _ _ (by have := lt_length_of_getElem? ha; rw [h.count]; omega)
  · rw [hcut, Cut.length_grown, h.count]
    rfl
  · rw [hcut, ← h.said]
    rfl

/-- Data was heard. -/
theorem Base.hear (ys : List (Item × Bytes)) (h : Base H past t out xs said heard) (hH : Stable H) (hlive : ¬ t.Dead)
    (hdata : ∀ y ∈ ys, Item.isData y = true) : Base H past t out (xs ++ ys) said (heard ++ Item.plainOf ys) := by
  have hcut : cut (heardMsgs (xs ++ ys)) = (cut (heardMsgs xs)).grown (Item.plainOf ys) false := by
    rw [heardMsgs_append, cut_append, cutFrom_heard _ hdata]
  obtain ⟨hcount, hheard⟩ := h.heard.resolve_right fun hd => hlive hd.1
  refine ⟨fun i a ha => hH (h.holds i a ha) ⟨rfl, Iff.rfl⟩ ?_ id, h.count, h.said, .inl ⟨?_, ?_⟩⟩
  · rw [hcut]
    exact Cut.grown_same _ _ _ (by have := lt_length_of_getElem? ha; rw [hcount]; omega)
  · rw [hcut, Cut.length_grown, hcount]
    rfl
  · rw [hcut, ← hheard]
    rfl

/-- What was heard is this tunnel's segment. -/
theorem Base.segment (h : Base H past t out xs said heard) (hne : heard ≠ []) :
    (cut (heardMsgs xs)).segment past.length = heard := by
  obtain ⟨hcount, hheard⟩ := h.heard.resolve_right fun hd => hne hd.2
  rw [← hcount, Cut.segment_current, hheard]

variable [RecordEncoder E] [EncoderSpec E] [LawfulEncoder E] [RecordDecoder D] [StagedDecoder D] {C : Crypto}
  [KdfDecoder C D]
  {max skip : Nat} {p₀ : Pos E} {d₀ : D} {greeting src : Bytes} {v : PlainToSnell.View} {w : SnellToPlain.View}

/-- A tunnel is carried: what it says and tells is of its own segments, and
nothing is said in a tunnel to come. -/
structure Carried (H : Cut UInt8 → Cut UInt8 → Prop → Nat → α → Prop) (past : List α) (t : Tunnel E D) (oc ic : Cut UInt8)
    (head heard greeting : Bytes) (skip : Nat) : Prop where
  holds : ∀ i a, past[i]? = some a → H oc ic t.snell.reader.AtEnd i a
  speaks : Says head t.plain.reader oc past.length
  tells : Tells greeting skip t.plain.writer ic t.snell.reader.AtEnd past.length
  opened : heard <+: ic.segment past.length
  quiet : ∀ i, past.length < i → oc.segment i = [] ∧ oc.closed.length ≤ i

/-- **A relay under way or over.** -/
theorem Base.relayed (skip : Nat) (h : Base H past t out xs said heard) (hH : Stable H) (hne : heard ≠ [])
    (hskip : skip ≤ heard.length) (hrel : Relayed max p₀ d₀ out xs (greeting ++ heard.drop skip) t v w) :
    Carried H past t (cut (sealedMsgs (out ++ v.records))) (cut (heardMsgs (xs ++ w.xs))) said heard greeting skip := by
  obtain ⟨hcount, hheard⟩ := h.heard.resolve_right fun hd => hne hd.2
  obtain ⟨more, eo, ei, hoc, hic, hspeaks, htells, -, -⟩ := hrel.carries skip h.count h.said hcount
    (by rw [hheard]; exact hskip) (by rw [hheard])
  refine ⟨fun i a ha => hH (h.holds i a ha) ?_ ?_ id, hspeaks, htells, ?_, fun i hi => ?_⟩
  · rw [hoc]
    exact Cut.grown_same _ _ _ (by have := lt_length_of_getElem? ha; rw [h.count]; omega)
  · rw [hic]
    exact Cut.grown_same _ _ _ (by have := lt_length_of_getElem? ha; rw [hcount]; omega)
  · rw [hic, ← hcount, Cut.segment_grown, hheard]
    exact List.prefix_append _ _
  · have hsame := Cut.grown_same (cut (sealedMsgs out)) t.plain.reader.received eo (i := i) (by rw [h.count]; omega)
    have hlen := Cut.length_grown (cut (sealedMsgs out)) t.plain.reader.received eo
    have hle := Bool.toNat_le eo
    rw [h.count] at hlen
    rw [hoc, hsame.segment, Cut.segment_beyond (by rw [h.count]; exact hi)]
    exact ⟨rfl, by omega⟩

variable [DatagramEncoder E] [StreamEncoder E] [SafeDecoder D] {r : Relaying}

/-- **A relay that returned `Ok`** closed its segment, and so did the other
party, or nothing is to be heard of it any more. -/
theorem Base.next (skip : Nat) (h : Base H past t out xs said heard) (hH : Stable H) (hne : heard ≠ [])
    (hskip : skip ≤ heard.length) (hrel : Relays C max p₀ d₀ out xs (greeting ++ heard.drop skip) t r v w)
    (hdone : r.Done) {a : α}
    (ha : H (cut (sealedMsgs (out ++ v.records))) (cut (heardMsgs (xs ++ w.xs))) t.snell.reader.AtEnd past.length a) :
    Base H (past ++ [a]) t (out ++ v.records) (xs ++ w.xs) [] [] := by
  obtain ⟨hcount, hheard⟩ := h.heard.resolve_right fun hd => hne hd.2
  obtain ⟨more, eo, ei, hoc, hic, -, -, heo, hei⟩ := hrel.relayed.carries skip h.count h.said hcount
    (by rw [hheard]; exact hskip) (by rw [hheard])
  have hclosed : eo = true := heo (hrel.sent hdone.1).2.1
  subst hclosed
  refine ⟨fun i b hb => ?_, ?_, by rw [hoc]; rfl, ?_⟩
  · rcases getElem?_concat_cases hb with hb | ⟨rfl, rfl⟩
    · exact (h.relayed skip hH hne hskip hrel.relayed).holds i b hb
    · exact ha
  · rw [hoc, Cut.length_grown, h.count, List.length_append]
    rfl
  · rcases hrel.ended hdone with hzero | ⟨-, hend, hfilled⟩
    · left
      rw [hic, hei hzero, Cut.length_grown, hcount, List.length_append]
      exact ⟨rfl, rfl⟩
    · exact .inr ⟨⟨hend, hfilled⟩, rfl⟩

end Base

end Snell
