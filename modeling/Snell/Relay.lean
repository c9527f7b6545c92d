/-
`relay` (`snell-runtime/src/session.rs`): the two pumps over one tunnel, under
`try_join!`.

The pumps share no half of a socket, so a turn of one leaves the other where it
is. Between two turns anything may happen outside: bytes arrive, a peer closes,
and the sockets answer the next polls as they like (`ReadHalf.Grows`). What the
pumps have done holds across all of that (`Relays`), whoever takes the next
turn: the records sealed are the plain side's bytes, what was written to the
plain side is the payload of the records heard.
-/
import Snell.DecodeOnce
import Snell.Delivery
import Snell.Sending

namespace Snell

open RecordEncoder EncoderSpec LawfulEncoder DatagramEncoder StreamEncoder ClosingEncoder RecordDecoder
  StagedDecoder Staged
  Polling Segments

/-! ## What happens outside -/

/-- More bytes may come, the other end may close behind them, and the polls to
come are answered anew. -/
structure ReadHalf.Grows (r r' : ReadHalf) : Prop where
  received : r'.received = r.received
  coming : r.coming <+: r'.coming
  closed : r.closed = true → r'.closed = true ∧ r'.coming = r.coming

structure WriteHalf.Same (w w' : WriteHalf) : Prop where
  sent : w'.sent = w.sent
  closing : w'.closing = w.closing

theorem ReadHalf.Grows.atEnd {r r' : ReadHalf} (h : r.Grows r') (hend : r.AtEnd) : r'.AtEnd :=
  ⟨(h.closed hend.2).2.trans hend.1, (h.closed hend.2).1⟩

structure TcpStream where
  reader : ReadHalf
  writer : WriteHalf

structure TcpStream.Grows (s s' : TcpStream) : Prop where
  reader : s.reader.Grows s'.reader
  writer : s.writer.Same s'.writer

theorem Chain.append {Pos : Type} {Frame : Pos → Bytes → Bytes → Pos → Prop} {p p' p'' : Pos}
    {records records' : List (Bytes × Bytes)} (h : Chain Frame p records p') (h' : Chain Frame p' records' p'') :
    Chain Frame p (records ++ records') p'' := by
  induction h with
  | nil => exact h'
  | cons hf _ ih => exact .cons hf (ih h')

/-! ## To the Snell side -/

namespace PlainToSnell

variable {E : Type} [RecordEncoder E] [EncoderSpec E] [LawfulEncoder E] [DatagramEncoder E] [StreamEncoder E]
  {env : ReplyEnv} {keep : Bool} {s s' : PlainToSnell E} {v : View} {p₀ : Pos E} {out₀ : List (Bytes × Bytes)}

/-- The pump started behind the records `out₀` of a connection, all of them
written, with nothing read of its plain side. -/
structure Behind (p₀ : Pos E) (out₀ : List (Bytes × Bytes)) (s₀ : PlainToSnell E) : Prop where
  fresh : s₀.reader.received = []
  chain : Chain Frame p₀ out₀ (pos s₀.encoder)
  sent : s₀.writer.sent = wireOf out₀
  closing : s₀.writer.closing = false

def Sends (p₀ : Pos E) (out₀ : List (Bytes × Bytes)) (env : ReplyEnv) (keep : Bool) (s : PlainToSnell E) (v : View) :
    Prop :=
  ∃ s₀, Behind p₀ out₀ s₀ ∧ Inv env keep s₀ s v

theorem Sends.chain (h : Sends p₀ out₀ env keep s v) : Chain Frame p₀ (out₀ ++ v.records) (pos s.encoder) := by
  obtain ⟨s₀, hs₀, hinv⟩ := h
  exact hs₀.chain.append hinv.chain

theorem Sends.sent (h : Sends p₀ out₀ env keep s v) : s.writer.sent <+: wireOf (out₀ ++ v.records) := by
  obtain ⟨s₀, hs₀, hinv⟩ := h
  obtain ⟨front, hsent, hfront⟩ := hinv.front
  rw [hsent, hs₀.sent, wireOf_append]
  exact (List.prefix_append_right_inj _).mpr hfront

theorem Sends.payload (h : Sends p₀ out₀ env keep s v) : (v.records.map Prod.fst).flatten = s.reader.received := by
  obtain ⟨s₀, hs₀, hinv⟩ := h
  rw [hinv.payload, hinv.gave.received, hs₀.fresh, List.nil_append]

/-- Data, or all of it and the zero chunk. -/
theorem Sends.shape (h : Sends p₀ out₀ env keep s v) : AllData v.records ∨ Closed v.records ∧ s.reader.AtEnd := by
  obtain ⟨s₀, hs₀, hinv⟩ := h
  exact (hinv.sending hs₀.closing).shape

theorem Sends.flushed (h : Sends p₀ out₀ env keep s v) (hall : v.queued = []) :
    s.writer.sent = wireOf (out₀ ++ v.records) := by
  obtain ⟨s₀, hs₀, hinv⟩ := h
  rw [hinv.flushed hall, hs₀.sent, wireOf_append]

theorem Sends.streams (h : Sends p₀ out₀ env keep s v) : Sustains s.encoder env.sealing := by
  obtain ⟨s₀, hs₀, hinv⟩ := h
  exact hinv.streams

/-- The Snell side is shut down only where it is not to be kept. -/
theorem Sends.closing (h : Sends p₀ out₀ env keep s v) (hcl : s.writer.closing = true) : keep = false := by
  obtain ⟨s₀, hs₀, hinv⟩ := h
  exact ((hinv.sending hs₀.closing).shut hcl).1

/-- How many records were asked for before does not matter. -/
theorem Sends.start (keep : Bool) {reader : ReadHalf} {writer : WriteHalf} {encoder : E} (asked : Nat)
    (h : Sustains encoder env.sealing) (hbehind : Behind p₀ out₀ (start env reader writer encoder)) :
    Sends p₀ out₀ env keep { start env reader writer encoder with asked } ⟨[], [], []⟩ :=
  ⟨_, hbehind, { start_inv keep reader writer h with standing := .reading rfl fun r hr => by cases hr }⟩

/-- The future returned `Ok`: everything is on the wire, the zero chunk last. -/
def Sent (s : PlainToSnell E) (v : View) : Prop := v.queued = [] ∧ Closed v.records ∧ s.reader.AtEnd

theorem Outcome.sent {s₀ : PlainToSnell E} (h : Outcome env keep s₀ s v (.ok ())) : Sent s v := by
  cases h with
  | kept hinv hphase _ hall =>
    cases hinv.standing with
    | closed _ hclosed hend => exact ⟨hall, hclosed, hend⟩
    | reading hp | ended hp | shutting hp => rw [hp] at hphase; cases hphase
  | closed hinv hphase _ =>
    cases hinv.standing with
    | shutting _ hclosed hend _ hall => exact ⟨hall, hclosed, hend⟩
    | reading hp | ended hp | closed hp => rw [hp] at hphase; cases hphase

theorem Outcome.inv {s₀ : PlainToSnell E} {r : SessionRes Unit} (h : Outcome env keep s₀ s v r) : Inv env keep s₀ s v := by
  cases h with
  | kept hinv | closed hinv | readFailed _ hinv | writeFailed _ hinv | shutdownFailed _ hinv => exact hinv

theorem Sends.turn [ClosingEncoder E] (h : Sends p₀ out₀ env keep s v) :
    (s.turn env keep).Until (fun s' => ∃ v', Sends p₀ out₀ env keep s' v')
      fun r s' => ∃ v', Sends p₀ out₀ env keep s' v' ∧ (r = .ok () → Sent s' v') := by
  obtain ⟨s₀, hs₀, hinv⟩ := h
  refine (turn_leads hinv).imp ?_ ?_ ?_
  · rintro s' ⟨⟨v', h'⟩, -⟩
    exact ⟨v', s₀, hs₀, h'⟩
  · rintro s' ⟨v', h', -⟩
    exact ⟨v', s₀, hs₀, h'⟩
  · rintro r s' ⟨v', h'⟩
    exact ⟨v', ⟨s₀, hs₀, h'.inv⟩, fun hr => by subst hr; exact h'.sent⟩

/-- What happens outside is as if it had been to happen from the start. -/
theorem Sends.grows (h : Sends p₀ out₀ env keep s v) {reader : ReadHalf} {writer : WriteHalf} (hr : s.reader.Grows reader)
    (hw : s.writer.Same writer) : Sends p₀ out₀ env keep { s with reader, writer } v := by
  obtain ⟨s₀, hs₀, hinv⟩ := h
  refine ⟨{ s₀ with
    reader := { reader with received := s₀.reader.received, coming := v.got ++ reader.coming }
    writer := { s₀.writer with answers := writer.answers, shutdowns := writer.shutdowns } },
    ⟨hs₀.fresh, hs₀.chain, hs₀.sent, hs₀.closing⟩, ?_⟩
  exact {
    hinv with
    gave := ⟨hr.received.trans hinv.gave.received, rfl, rfl, List.suffix_refl _, List.suffix_refl _⟩
    answers := List.suffix_refl _
    shutdowns := List.suffix_refl _
    sent := hw.sent.trans hinv.sent
    closing := fun hcl => hinv.closing (hw.closing ▸ hcl)
    standing := by
      cases hinv.standing with
      | reading hphase hdata => exact .reading hphase hdata
      | ended hphase hdata hend hgrown => exact .ended hphase hdata (hr.atEnd hend) hgrown
      | closed hphase hclosed hend => exact .closed hphase hclosed (hr.atEnd hend)
      | shutting hphase hclosed hend hkeep hall => exact .shutting hphase hclosed (hr.atEnd hend) hkeep hall }

omit [RecordEncoder E] [EncoderSpec E] [LawfulEncoder E] [DatagramEncoder E] [StreamEncoder E] in
theorem Sent.grows (h : Sent s v) {reader : ReadHalf} (hr : s.reader.Grows reader) (writer : WriteHalf) :
    Sent { s with reader, writer } v :=
  ⟨h.1, h.2.1, hr.atEnd h.2.2⟩

end PlainToSnell

/-! ## To the plain side -/

namespace SnellToPlain

variable {D : Type} [RecordDecoder D] [StagedDecoder D] {C : Crypto} [KdfDecoder C D] [SafeDecoder D] {max : Nat} {d₀ : D}
  {xs₀ : List (Item × Bytes)} {greeting : Bytes} {s s' : SnellToPlain D} {v : View}

/-- The pump started behind the records `xs₀` of a connection, all of them
consumed, with `greeting` written to its plain side. -/
structure Behind (C : Crypto) [KdfDecoder C D] (max : Nat) (d₀ : D) (xs₀ : List (Item × Bytes)) (greeting : Bytes)
    (s₀ : SnellToPlain D) : Prop where
  listening : Inbound.Listening C max d₀ ⟨s₀.reader, s₀.decoder, s₀.recv⟩ xs₀
  sent : s₀.writer.sent = greeting
  closing : s₀.writer.closing = false

def Receives (C : Crypto) [KdfDecoder C D] (max : Nat) (d₀ : D) (xs₀ : List (Item × Bytes)) (greeting : Bytes)
    (s : SnellToPlain D) (v : View) : Prop :=
  ∃ s₀, Behind C max d₀ xs₀ greeting s₀ ∧ Inv C s₀ s v

/-- What the pump has done, also where it failed. -/
structure Delivered (max : Nat) (d₀ : D) (xs₀ : List (Item × Bytes)) (greeting : Bytes) (reader : ReadHalf)
    (writer : WriteHalf) (v : View) : Prop where
  hears : Hears max d₀ reader.received (xs₀ ++ v.xs)
  written : ∃ written, writer.sent = greeting ++ written ∧ written <+: Item.plainOf v.xs
  shape : v.AllData ∨ v.EndsInZero
  shut : writer.closing = true → writer.sent = greeting ++ Item.plainOf v.xs ∧ (v.EndsInZero ∨ reader.AtEnd)

omit [SafeDecoder D] in
theorem Delivered.grows {reader reader' : ReadHalf} {writer writer' : WriteHalf}
    (h : Delivered max d₀ xs₀ greeting reader writer v) (hr : reader.Grows reader') (hw : writer.Same writer') :
    Delivered max d₀ xs₀ greeting reader' writer' v where
  hears := by rw [hr.received]; exact h.hears
  written := by rw [hw.sent]; exact h.written
  shape := h.shape
  shut hcl := by
    rw [hw.closing] at hcl
    rw [hw.sent]
    exact ⟨(h.shut hcl).1, (h.shut hcl).2.imp_right hr.atEnd⟩

variable {s₀ : SnellToPlain D}

theorem Behind.reads (hs₀ : Behind C max d₀ xs₀ greeting s₀) (hg : s₀.reader.Gave s.reader v.got) (h : v.Reads C s₀ s) :
    Heard max d₀ s.reader.received (xs₀ ++ v.xs) s.decoder v.rest := by
  rw [hg.received]
  have h : Receiving C s₀.recv.buffer.max s₀.decoder (s₀.recv.buffer.filled ++ v.got) v.xs v.taken v.rest s.decoder
    s.recv.buffer := h
  rw [hs₀.listening.max_eq] at h
  exact hs₀.listening.heard.andThen hs₀.listening.pending h

theorem Behind.fails (hs₀ : Behind C max d₀ xs₀ greeting s₀) (hg : s₀.reader.Gave s.reader v.got) {e : Error}
    (h : v.Fails s₀ e) : Hears max d₀ s.reader.received (xs₀ ++ v.xs) := by
  rw [hg.received]
  have h : Ends s₀.recv.buffer.max s₀.decoder (s₀.recv.buffer.filled ++ v.got) v.xs (.err e) := h
  rw [hs₀.listening.max_eq] at h
  exact (hs₀.listening.heard.andEnds hs₀.listening.pending h).hears

theorem Inv.hears (h : Inv C s₀ s v) (hs₀ : Behind C max d₀ xs₀ greeting s₀) :
    Hears max d₀ s.reader.received (xs₀ ++ v.xs) := by
  cases h.standing with
  | going hreads | zeroAhead hreads | zeroChunk hreads | atEnd hreads => exact (hs₀.reads h.gave hreads).hears
  | errorAhead e _ hfails => exact hs₀.fails h.gave hfails

theorem Inv.delivered (h : Inv C s₀ s v) (hs₀ : Behind C max d₀ xs₀ greeting s₀) :
    Delivered max d₀ xs₀ greeting s.reader s.writer v where
  hears := h.hears hs₀
  written := by
    refine ⟨_, by rw [h.sent, hs₀.sent], ?_⟩
    have hsplit : Item.plainOf v.xs = Item.plainOf (v.xs.take v.taken) ++ Item.plainOf (v.xs.drop v.taken) := by
      rw [← Item.plainOf_append, List.take_append_drop]
    rw [hsplit]
    exact (List.prefix_append_right_inj _).mpr (List.take_prefix _ _)
  shape := by
    cases h.standing with
    | going _ hdata | errorAhead _ hdata | atEnd _ hdata => exact .inl hdata
    | zeroAhead _ hzero | zeroChunk _ hzero => exact .inr hzero
  shut hcl := by
    have hs := (h.closing hcl).resolve_left (by rw [hs₀.closing]; exact Bool.false_ne_true)
    cases h.standing with
    | going _ _ _ hs' | zeroAhead _ _ _ hs' | errorAhead _ _ _ _ hs' => rw [hs] at hs'; cases hs'
    | zeroChunk _ hzero _ hall => exact ⟨by rw [h.flushed hall, hs₀.sent], .inl hzero⟩
    | atEnd _ _ _ _ hend _ hall => exact ⟨by rw [h.flushed hall, hs₀.sent], .inr hend⟩

theorem Receives.delivered (h : Receives C max d₀ xs₀ greeting s v) :
    Delivered max d₀ xs₀ greeting s.reader s.writer v := by
  obtain ⟨s₀, hs₀, hinv⟩ := h
  exact hinv.delivered hs₀

theorem Outcome.delivered {r : SessionRes Unit} (h : Outcome C s₀ s v r) (hs₀ : Behind C max d₀ xs₀ greeting s₀) :
    Delivered max d₀ xs₀ greeting s.reader s.writer v := by
  cases h with
  | closed h | shutdownFailed _ h | midRecord h | readFailed _ h | writeFailed _ h => exact h.delivered hs₀
  | decodeFailed e hg hdata hfails hflush hclosing =>
    refine ⟨hs₀.fails hg hfails, ⟨_, by rw [hflush, hs₀.sent], List.prefix_refl _⟩, .inl hdata, fun hcl => ?_⟩
    have := hs₀.closing
    rw [hclosing hcl] at this
    cases this

/-- The future returned `Ok`: all is written, the plain side is shut down, and
the decoder has handed out nothing else. -/
structure Received (C : Crypto) [KdfDecoder C D] (max : Nat) (d₀ : D) (xs₀ : List (Item × Bytes)) (s : SnellToPlain D)
    (v : View) : Prop where
  shuttingDown : s.shuttingDown = true
  closing : s.writer.closing = true
  listening : Inbound.Listening C max d₀ ⟨s.reader, s.decoder, s.recv⟩ (xs₀ ++ v.xs)
  ended : v.EndsInZero ∨ v.AllData ∧ s.reader.AtEnd ∧ s.recv.buffer.filled = []

/-- Shutting down, nothing is outstanding. -/
theorem Inv.shutting (h : Inv C s₀ s v) (hs : s.shuttingDown = true) :
    v.Reads C s₀ s ∧ v.taken = v.xs.length ∧ (v.EndsInZero ∨ v.AllData ∧ s.reader.AtEnd ∧ v.rest = []) := by
  cases h.standing with
  | going _ _ _ hs' | zeroAhead _ _ _ hs' | errorAhead _ _ _ _ hs' => rw [hs] at hs'; cases hs'
  | zeroChunk hreads hzero _ hall => exact ⟨hreads, hall, .inl hzero⟩
  | atEnd hreads hdata _ hnil hend _ hall => exact ⟨hreads, hall, .inr ⟨hdata, hend, hnil⟩⟩

theorem Inv.received (h : Inv C s₀ s v) (hs₀ : Behind C max d₀ xs₀ greeting s₀) (hs : s.shuttingDown = true)
    (hcl : s.writer.closing = true) : Received C max d₀ xs₀ s v := by
  obtain ⟨hreads, hall, hended⟩ := h.shutting hs
  have hfilled : s.recv.buffer.filled = v.rest := by rw [hreads.filled, hall, outstanding_all, List.nil_append]
  refine ⟨hs, hcl, ⟨?_, ?_, hreads.reading.psk_eq.trans hs₀.listening.psk_eq, hreads.valid, hreads.wf,
    hreads.max_eq.trans hs₀.listening.max_eq, hs₀.listening.small⟩, ?_⟩
  · simp only [hfilled]
    exact hs₀.reads h.gave hreads
  · rw [hreads.reading.pending_eq, hall, outstanding_all, List.length_nil]
  · rw [hfilled]
    exact hended

theorem Receives.received (h : Receives C max d₀ xs₀ greeting s v) (hs : s.shuttingDown = true)
    (hcl : s.writer.closing = true) : Received C max d₀ xs₀ s v := by
  obtain ⟨s₀, hs₀, hinv⟩ := h
  exact hinv.received hs₀ hs hcl

theorem Receives.turn (h : Receives C max d₀ xs₀ greeting s v) :
    s.turn.Until (fun s' => ∃ v', Receives C max d₀ xs₀ greeting s' v')
      fun r s' => ∃ v', Delivered max d₀ xs₀ greeting s'.reader s'.writer v' ∧
        (r = .ok () → Receives C max d₀ xs₀ greeting s' v' ∧ s'.shuttingDown = true ∧ s'.writer.closing = true) := by
  obtain ⟨s₀, hs₀, hinv⟩ := h
  refine (turn_leads hinv).imp ?_ ?_ ?_
  · rintro s' ⟨⟨v', h'⟩, -⟩
    exact ⟨v', s₀, hs₀, h'⟩
  · rintro s' ⟨v', h', -⟩
    exact ⟨v', s₀, hs₀, h'⟩
  · rintro r s' ⟨v', h'⟩
    refine ⟨v', h'.delivered hs₀, fun hr => ?_⟩
    subst hr
    cases h' with
    | closed h hs hclosing => exact ⟨⟨s₀, hs₀, h⟩, hs, hclosing⟩

theorem Receives.grows (h : Receives C max d₀ xs₀ greeting s v) {reader : ReadHalf} {writer : WriteHalf}
    (hr : s.reader.Grows reader) (hw : s.writer.Same writer) :
    Receives C max d₀ xs₀ greeting { s with reader, writer } v := by
  obtain ⟨s₀, hs₀, hinv⟩ := h
  have hgave :
      ReadHalf.Gave { reader with received := s₀.reader.received, coming := v.got ++ reader.coming } reader v.got :=
    ⟨hr.received.trans hinv.gave.received, rfl, rfl, List.suffix_refl _, List.suffix_refl _⟩
  refine ⟨{ s₀ with
    reader := { reader with received := s₀.reader.received, coming := v.got ++ reader.coming }
    writer := { s₀.writer with answers := writer.answers, shutdowns := writer.shutdowns } },
    ⟨{ hs₀.listening with }, hs₀.sent, hs₀.closing⟩, ?_⟩
  exact {
    hinv with
    gave := hgave
    later := ⟨⟨_, hgave⟩, List.suffix_refl _, List.suffix_refl _⟩
    sent := hw.sent.trans hinv.sent
    closing := fun hcl => hinv.closing (hw.closing ▸ hcl)
    standing := by
      cases hinv.standing with
      | going hreads hdata hend hs => exact .going hreads hdata hend hs
      | zeroAhead hreads hzero hend hs hleft => exact .zeroAhead hreads hzero hend hs hleft
      | errorAhead e hdata hfails hend hs hleft => exact .errorAhead e hdata hfails hend hs hleft
      | zeroChunk hreads hzero hs hall => exact .zeroChunk hreads hzero hs hall
      | atEnd hreads hdata hstarves hnil hend hs hall =>
        exact .atEnd hreads hdata hstarves hnil (hr.atEnd hend) hs hall }

end SnellToPlain

/-! ## Both -/

/-- A Snell connection with its codec and its receive lease, and the plain
connection it is relayed to: the local one at the client, the remote one at
the server. -/
structure Tunnel (E D : Type) where
  plain : TcpStream
  snell : TcpStream
  encoder : E
  decoder : D
  recv : PooledBuffer

/-- The two futures of `relay`: what they hold besides the tunnel, and whether
they have returned. -/
structure Relaying where
  env : ReplyEnv
  keepSnellOpen : Bool
  encode : PooledBuffer
  batch : EncodeBatch
  phase : Phase
  asked : Nat
  decodeBatch : DecodeBatch
  shuttingDown : Bool
  sent : Bool
  received : Bool

inductive Pump where
  | plainToSnell
  | snellToPlain
  deriving DecidableEq, Repr

namespace Tunnel

variable {E D : Type}

def sending (t : Tunnel E D) (r : Relaying) : PlainToSnell E :=
  ⟨t.plain.reader, t.snell.writer, t.encoder, r.encode, r.batch, r.phase, r.asked⟩

def receiving (t : Tunnel E D) (r : Relaying) : SnellToPlain D :=
  ⟨t.snell.reader, t.plain.writer, t.decoder, t.recv, r.decodeBatch, r.shuttingDown⟩

def putSending (t : Tunnel E D) (r : Relaying) (s : PlainToSnell E) : Tunnel E D × Relaying :=
  ({ t with
      plain := { t.plain with reader := s.reader }, snell := { t.snell with writer := s.writer }, encoder := s.encoder },
    { r with encode := s.encode, batch := s.batch, phase := s.phase, asked := s.asked })

def putReceiving (t : Tunnel E D) (r : Relaying) (s : SnellToPlain D) : Tunnel E D × Relaying :=
  ({ t with
      snell := { t.snell with reader := s.reader }, plain := { t.plain with writer := s.writer }, decoder := s.decoder
      recv := s.recv },
    { r with decodeBatch := s.batch, shuttingDown := s.shuttingDown })

def inbound (t : Tunnel E D) : Inbound D := ⟨t.snell.reader, t.decoder, t.recv⟩

variable [RecordEncoder E] [RecordDecoder D]

/-- `asked` records were asked for before. -/
def startRelay (t : Tunnel E D) (env : ReplyEnv) (keepSnellOpen : Bool) (asked : Nat) : Relaying :=
  let send := PlainToSnell.start env t.plain.reader t.snell.writer t.encoder
  let receive := SnellToPlain.start t.snell.reader t.plain.writer t.decoder t.recv
  ⟨env, keepSnellOpen, send.encode, send.batch, send.phase, asked, receive.batch, receive.shuttingDown, false, false⟩

/-- `try_join!` returns `Ok` once both futures have. -/
def joined (x : Tunnel E D × Relaying) : Turn (Tunnel E D × Relaying) (SessionRes Unit) :=
  if x.2.sent && x.2.received then .ready (.ok ()) x else .again x

/-- A turn of one of the two futures; one that has returned is not polled
again, and an error is the join's. -/
def relayTurn (t : Tunnel E D) (r : Relaying) : Pump → Turn (Tunnel E D × Relaying) (SessionRes Unit)
  | .plainToSnell =>
    if r.sent then .pending (t, r)
    else
      match (t.sending r).turn r.env r.keepSnellOpen with
      | .again s => .again (t.putSending r s)
      | .pending s => .pending (t.putSending r s)
      | .ready (.error f) s => .ready (.error f) (t.putSending r s)
      | .ready (.ok ()) s => joined ((t.putSending r s).1, { (t.putSending r s).2 with sent := true })
  | .snellToPlain =>
    if r.received then .pending (t, r)
    else
      match (t.receiving r).turn with
      | .again s => .again (t.putReceiving r s)
      | .pending s => .pending (t.putReceiving r s)
      | .ready (.error f) s => .ready (.error f) (t.putReceiving r s)
      | .ready (.ok ()) s => joined ((t.putReceiving r s).1, { (t.putReceiving r s).2 with received := true })

end Tunnel

section Relays

variable {E D : Type} [RecordEncoder E] [EncoderSpec E] [LawfulEncoder E] [DatagramEncoder E] [StreamEncoder E]
  [RecordDecoder D] [StagedDecoder D] {C : Crypto} [KdfDecoder C D] [SafeDecoder D] {max : Nat} {p₀ : Pos E} {d₀ : D}
  {out₀ out : List (Bytes × Bytes)} {xs₀ xs : List (Item × Bytes)} {greeting : Bytes} {t t' : Tunnel E D} {r r' : Relaying}
  {v : PlainToSnell.View} {w : SnellToPlain.View}

/-- The relay goes on behind `out₀` and `xs₀`. -/
structure Relays (C : Crypto) [KdfDecoder C D] (max : Nat) (p₀ : Pos E) (d₀ : D) (out₀ : List (Bytes × Bytes))
    (xs₀ : List (Item × Bytes)) (greeting : Bytes) (t : Tunnel E D) (r : Relaying) (v : PlainToSnell.View)
    (w : SnellToPlain.View) : Prop where
  sends : PlainToSnell.Sends p₀ out₀ r.env r.keepSnellOpen (t.sending r) v
  receives : SnellToPlain.Receives C max d₀ xs₀ greeting (t.receiving r) w
  sent : r.sent = true → PlainToSnell.Sent (t.sending r) v
  received : r.received = true → r.shuttingDown = true ∧ t.plain.writer.closing = true

/-- What a relay has done, also where it failed. -/
structure Relayed (max : Nat) (p₀ : Pos E) (d₀ : D) (out₀ : List (Bytes × Bytes)) (xs₀ : List (Item × Bytes))
    (greeting : Bytes) (t : Tunnel E D) (v : PlainToSnell.View) (w : SnellToPlain.View) : Prop where
  chain : Chain Frame p₀ (out₀ ++ v.records) (pos t.encoder)
  sent : t.snell.writer.sent <+: wireOf (out₀ ++ v.records)
  payload : (v.records.map Prod.fst).flatten = t.plain.reader.received
  shape : PlainToSnell.AllData v.records ∨ PlainToSnell.Closed v.records ∧ t.plain.reader.AtEnd
  delivered : SnellToPlain.Delivered max d₀ xs₀ greeting t.snell.reader t.plain.writer w

theorem Relays.relayed (h : Relays C max p₀ d₀ out₀ xs₀ greeting t r v w) : Relayed max p₀ d₀ out₀ xs₀ greeting t v w :=
  ⟨h.sends.chain, h.sends.sent, h.sends.payload, h.sends.shape, h.receives.delivered⟩

/-- `try_join!` has returned `Ok`. -/
def Relaying.Done (r : Relaying) : Prop := r.sent = true ∧ r.received = true

theorem Relays.joined (h : Relays C max p₀ d₀ out₀ xs₀ greeting t r v w) :
    (Tunnel.joined (t, r)).Leads (fun x => Relays C max p₀ d₀ out₀ xs₀ greeting x.1 x.2 v w) (fun _ => False)
      fun result x => result = .ok () ∧ Relays C max p₀ d₀ out₀ xs₀ greeting x.1 x.2 v w ∧ x.2.Done := by
  unfold Tunnel.joined
  by_cases hdone : (r.sent && r.received) = true
  · rw [if_pos hdone]
    exact ⟨rfl, h, (Bool.and_eq_true _ _).mp hdone⟩
  · rw [if_neg hdone]
    exact h

/-- **A turn of either pump** keeps what both have done. -/
theorem Relays.turn [ClosingEncoder E] (h : Relays C max p₀ d₀ out₀ xs₀ greeting t r v w) (pump : Pump) :
    (t.relayTurn r pump).Until (fun x => ∃ v' w', Relays C max p₀ d₀ out₀ xs₀ greeting x.1 x.2 v' w')
      fun result x => ∃ v' w', Relayed max p₀ d₀ out₀ xs₀ greeting x.1 v' w' ∧
        (result = .ok () → Relays C max p₀ d₀ out₀ xs₀ greeting x.1 x.2 v' w' ∧ x.2.Done) := by
  cases pump with
  | plainToSnell =>
    unfold Tunnel.relayTurn
    by_cases hsent : r.sent = true
    · simp only [if_pos hsent]
      exact ⟨v, w, h⟩
    simp only [if_neg hsent]
    have hturn := h.sends.turn
    generalize (t.sending r).turn r.env r.keepSnellOpen = turned at hturn
    have hkept {s : PlainToSnell E} {v' : PlainToSnell.View} (h' : PlainToSnell.Sends p₀ out₀ r.env r.keepSnellOpen s v') :
        Relays C max p₀ d₀ out₀ xs₀ greeting (t.putSending r s).1 (t.putSending r s).2 v' w :=
      ⟨h', h.receives, fun hs => absurd hs hsent, h.received⟩
    rcases turned with s | s | ⟨_ | _, s⟩
    · obtain ⟨v', h'⟩ := hturn
      exact ⟨v', w, hkept h'⟩
    · obtain ⟨v', h'⟩ := hturn
      exact ⟨v', w, hkept h'⟩
    · obtain ⟨v', h', -⟩ := hturn
      exact ⟨v', w, (hkept h').relayed, fun hr => by cases hr⟩
    · obtain ⟨v', h', hdone⟩ := hturn
      have hjoined : Relays C max p₀ d₀ out₀ xs₀ greeting (t.putSending r s).1
          { (t.putSending r s).2 with sent := true } v' w :=
        ⟨h', h.receives, fun _ => hdone rfl, h.received⟩
      refine hjoined.joined.imp (fun _ hx => ⟨v', w, hx⟩) (fun _ hf => hf.elim) ?_
      rintro _ x ⟨-, hx, hdone⟩
      exact ⟨v', w, hx.relayed, fun _ => ⟨hx, hdone⟩⟩
  | snellToPlain =>
    unfold Tunnel.relayTurn
    by_cases hreceived : r.received = true
    · simp only [if_pos hreceived]
      exact ⟨v, w, h⟩
    simp only [if_neg hreceived]
    have hturn := h.receives.turn
    generalize (t.receiving r).turn = turned at hturn
    have hkept {s : SnellToPlain D} {w' : SnellToPlain.View} (h' : SnellToPlain.Receives C max d₀ xs₀ greeting s w') :
        Relays C max p₀ d₀ out₀ xs₀ greeting (t.putReceiving r s).1 (t.putReceiving r s).2 v w' :=
      ⟨h.sends, h', h.sent, fun hr => absurd hr hreceived⟩
    rcases turned with s | s | ⟨_ | _, s⟩
    · obtain ⟨w', h'⟩ := hturn
      exact ⟨v, w', hkept h'⟩
    · obtain ⟨w', h'⟩ := hturn
      exact ⟨v, w', hkept h'⟩
    · obtain ⟨w', h', -⟩ := hturn
      exact ⟨v, w', ⟨h.sends.chain, h.sends.sent, h.sends.payload, h.sends.shape, h'⟩, fun hr => by cases hr⟩
    · obtain ⟨w', -, hdone⟩ := hturn
      obtain ⟨h', hs, hcl⟩ := hdone rfl
      have hjoined : Relays C max p₀ d₀ out₀ xs₀ greeting (t.putReceiving r s).1
          { (t.putReceiving r s).2 with received := true } v w' :=
        ⟨h.sends, h', h.sent, fun _ => ⟨hs, hcl⟩⟩
      refine hjoined.joined.imp (fun _ hx => ⟨v, w', hx⟩) (fun _ hf => hf.elim) ?_
      rintro _ x ⟨-, hx, hdone⟩
      exact ⟨v, w', hx.relayed, fun _ => ⟨hx, hdone⟩⟩

/-- What happens outside a tunnel. -/
structure Tunnel.Grows (t t' : Tunnel E D) : Prop where
  plain : t.plain.Grows t'.plain
  snell : t.snell.Grows t'.snell
  encoder : t'.encoder = t.encoder
  decoder : t'.decoder = t.decoder
  recv : t'.recv = t.recv

theorem Relays.grows (h : Relays C max p₀ d₀ out₀ xs₀ greeting t r v w) (hg : t.Grows t') :
    Relays C max p₀ d₀ out₀ xs₀ greeting t' r v w := by
  have hsending : t'.sending r = { t.sending r with reader := t'.plain.reader, writer := t'.snell.writer } := by
    simp only [Tunnel.sending, hg.encoder]
  have hreceiving : t'.receiving r = { t.receiving r with reader := t'.snell.reader, writer := t'.plain.writer } := by
    simp only [Tunnel.receiving, hg.decoder, hg.recv]
  refine ⟨?_, ?_, fun hs => ?_, fun hr => ⟨(h.received hr).1, hg.plain.writer.closing.trans (h.received hr).2⟩⟩
  · rw [hsending]
    exact h.sends.grows hg.plain.reader hg.snell.writer
  · rw [hreceiving]
    exact h.receives.grows hg.snell.reader hg.plain.writer
  · rw [hsending]
    exact (h.sent hs).grows hg.plain.reader _

omit [DatagramEncoder E] [StreamEncoder E] [SafeDecoder D] in
theorem Relayed.grows (h : Relayed max p₀ d₀ out₀ xs₀ greeting t v w) (hg : t.Grows t') :
    Relayed max p₀ d₀ out₀ xs₀ greeting t' v w where
  chain := hg.encoder ▸ h.chain
  sent := hg.snell.writer.sent ▸ h.sent
  payload := hg.plain.reader.received ▸ h.payload
  shape := h.shape.imp_right fun hc => ⟨hc.1, hg.plain.reader.atEnd hc.2⟩
  delivered := h.delivered.grows hg.snell.reader hg.plain.writer

/-! ## Between two futures -/

/-- The connection has sealed `out` and written it, and it has heard and
consumed `xs`. -/
structure Connected (C : Crypto) [KdfDecoder C D] (max : Nat) (p₀ : Pos E) (d₀ : D) (sealing : Nat → SealEnv)
    (t : Tunnel E D) (out : List (Bytes × Bytes)) (xs : List (Item × Bytes)) : Prop where
  chain : Chain Frame p₀ out (pos t.encoder)
  sent : t.snell.writer.sent = wireOf out
  closing : t.snell.writer.closing = false
  sustains : Sustains t.encoder sealing
  listening : Inbound.Listening C max d₀ t.inbound xs

theorem Connected.relays (env : ReplyEnv) (h : Connected C max p₀ d₀ env.sealing t out xs) (keep : Bool) (asked : Nat)
    (hfresh : t.plain.reader.received = []) (hopen : t.plain.writer.closing = false) :
    Relays C max p₀ d₀ out xs t.plain.writer.sent t (t.startRelay env keep asked) ⟨[], [], []⟩
      ⟨[], [], 0, t.recv.buffer.filled⟩ where
  sends := .start keep asked h.sustains ⟨hfresh, h.chain, h.sent, h.closing⟩
  receives := ⟨SnellToPlain.start t.snell.reader t.plain.writer t.decoder t.recv, ⟨h.listening, rfl, hopen⟩,
    SnellToPlain.start_inv C _ _ h.listening.pending h.listening.valid h.listening.wf
      (h.listening.max_eq.trans_le h.listening.small)⟩
  sent hs := by cases hs
  received hr := by cases hr

/-- A relay that kept the Snell side open leaves a connection that can be used
again. -/
theorem Relays.connected (h : Relays C max p₀ d₀ out₀ xs₀ greeting t r v w) (hdone : r.Done)
    (hkeep : r.keepSnellOpen = true) : Connected C max p₀ d₀ r.env.sealing t (out₀ ++ v.records) (xs₀ ++ w.xs) := by
  obtain ⟨hs, hcl⟩ := h.received hdone.2
  refine ⟨h.sends.chain, h.sends.flushed (h.sent hdone.1).1, ?_, h.sends.streams, (h.receives.received hs hcl).listening⟩
  refine Bool.eq_false_iff.mpr fun hcl => ?_
  have := h.sends.closing hcl
  rw [hkeep] at this
  cases this

/-- How the receiving direction ended: at a zero chunk, or at the end of the
stream between two records. -/
theorem Relays.ended (h : Relays C max p₀ d₀ out₀ xs₀ greeting t r v w) (hdone : r.Done) :
    w.EndsInZero ∨ w.AllData ∧ t.snell.reader.AtEnd ∧ t.recv.buffer.filled = [] := by
  obtain ⟨hs, hcl⟩ := h.received hdone.2
  exact (h.receives.received hs hcl).ended

end Relays

end Snell
