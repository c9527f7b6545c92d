/-
What `pump_snell_to_plain` delivers, in terms of the stream alone.

`carried` is the plaintext of a stream up to its first zero chunk, decode error
or end. However the reader and the writer answer, and however often the future
is polled, what was written is the front of that (`Delivering`); the future
returns only in the ways of `Returned`, with nothing left to write unless the
writer failed; and it is pending only where it waits for one of the sockets
(`Waiting`).
-/
import Snell.SnellToPlainFacts

namespace Snell

open RecordDecoder StagedDecoder Staged Polling

namespace SnellToPlain

variable {D : Type} [RecordDecoder D] [StagedDecoder D]

/-- The bytes in the buffer at first, and all that come. -/
def whole (s₀ : SnellToPlain D) : Bytes := s₀.recv.buffer.filled ++ s₀.reader.coming

/-- The part of them that arrived. -/
def arrived (s₀ s : SnellToPlain D) : Bytes :=
  s₀.recv.buffer.filled ++ s₀.reader.coming.take (s₀.reader.coming.length - s.reader.coming.length)

/-- The plaintext of a stream that starts where the pump did. -/
def plaintext (s₀ : SnellToPlain D) (stream : Bytes) : Bytes := carried s₀.recv.buffer.max s₀.decoder stream

/-- A zero chunk was consumed, the first one: what arrived behind it is in
`recv`, and the decoder has handed out nothing else. -/
def AtZeroChunk (s₀ s : SnellToPlain D) : Prop :=
  ∃ zs z, zs ++ [z] <+: decoded s₀.recv.buffer.max s₀.decoder (arrived s₀ s) ∧ (∀ x ∈ zs, Item.isData x = true) ∧
    Item.isData z = false ∧
    s.recv.buffer.filled = (arrived s₀ s).drop ((zs ++ [z]).flatMap Prod.snd).length ∧ pending s.decoder = 0

/-- The stream ended between two records: data records are all of it. -/
def AtEof (s₀ s : SnellToPlain D) : Prop :=
  s.reader.AtEnd ∧ s.recv.buffer.filled = [] ∧
    (∀ x ∈ decoded s₀.recv.buffer.max s₀.decoder (whole s₀), Item.isData x = true) ∧
    ((decoded s₀.recv.buffer.max s₀.decoder (whole s₀)).flatMap Prod.snd).length = (whole s₀).length

/-- Everything is written, and the stream has ended. -/
def Ended (s₀ s : SnellToPlain D) : Prop :=
  s.writer.sent = s₀.writer.sent ++ plaintext s₀ (whole s₀) ∧ (AtZeroChunk s₀ s ∨ AtEof s₀ s)

/-- After any number of polls. -/
structure Delivering (s₀ s : SnellToPlain D) : Prop where
  front : ∃ written, s.writer.sent = s₀.writer.sent ++ written ∧ written <+: plaintext s₀ (whole s₀)
  shut : s.writer.closing = true → Ended s₀ s

/-- What the future returns. -/
inductive Returned (s₀ s : SnellToPlain D) : SessionRes Unit → Prop
  | closed (hclosing : s.writer.closing = true) (hended : Ended s₀ s) : Returned s₀ s (.ok ())
  | decodeFailed (e : Error)
    (hends : Ends s₀.recv.buffer.max s₀.decoder (arrived s₀ s)
      (decoded s₀.recv.buffer.max s₀.decoder (arrived s₀ s)) (.err e))
    (hall : s.writer.sent = s₀.writer.sent ++ plaintext s₀ (whole s₀)) :
    Returned s₀ s (.error (.err (.ofProtocol e)))
  | midRecord (hend : s.reader.AtEnd) (hleft : s.recv.buffer.filled ≠ [])
    (hshort : ((decoded s₀.recv.buffer.max s₀.decoder (whole s₀)).flatMap Prod.snd).length < (whole s₀).length)
    (hall : s.writer.sent = s₀.writer.sent ++ plaintext s₀ (whole s₀)) : Returned s₀ s (.error (.err .eof))
  | readFailed (kind : IoErrorKind) (hfails : s₀.reader.Fails kind)
    (hall : s.writer.sent = s₀.writer.sent ++ plaintext s₀ (arrived s₀ s)) : Returned s₀ s (.error (.err (.io kind)))
  | writeFailed (kind : IoErrorKind) (hbad : ∃ a ∈ s₀.writer.answers, ¬ a.Good) : Returned s₀ s (.error (.err (.io kind)))
  | shutdownFailed (kind : IoErrorKind) (hfailed : .failed kind ∈ s₀.writer.shutdowns) (hended : Ended s₀ s) :
    Returned s₀ s (.error (.err (.io kind)))

/-- What a poll from `s` that is pending in `s'` waits for: the reader, with
all that arrived delivered; the writer; or the shutdown. -/
inductive Waiting (s₀ s s' : SnellToPlain D) : Prop
  | reader (hwaits : s.reader.Waits s'.reader)
    (hall : s'.writer.sent = s₀.writer.sent ++ plaintext s₀ (arrived s₀ s'))
  | writer (hwaits : Waited .pending s.writer.answers s'.writer.answers)
  | shutdown (hwaits : Waited .pending s.writer.shutdowns s'.writer.shutdowns) (hended : Ended s₀ s')

variable {s₀ s : SnellToPlain D} {v : View}

/-! ## From the records to the stream -/

omit [RecordDecoder D] [StagedDecoder D] in
theorem arrived_eq (hg : s₀.reader.Gave s.reader v.got) : arrived s₀ s = v.stream s₀ := by
  rw [arrived, hg.coming, List.length_append, Nat.add_sub_cancel, List.take_left, View.stream]

omit [RecordDecoder D] [StagedDecoder D] in
theorem whole_eq (hg : s₀.reader.Gave s.reader v.got) : whole s₀ = v.stream s₀ ++ s.reader.coming := by
  rw [whole, hg.coming, View.stream, List.append_assoc]

omit [RecordDecoder D] [StagedDecoder D] in
theorem whole_atEnd (hg : s₀.reader.Gave s.reader v.got) (hend : s.reader.AtEnd) : whole s₀ = v.stream s₀ := by
  rw [whole_eq hg, hend.1, List.append_nil]

/-- A stream that starves carries what was read of it. -/
theorem View.Starves.plaintext (h : v.Starves s₀) (hdata : v.AllData) :
    SnellToPlain.plaintext s₀ (v.stream s₀) = Item.plainOf v.xs := by
  obtain ⟨d₁, k, d₂, hparses, hneed⟩ := h
  exact carried_of_stuck hparses hdata fun n x l s he => by rw [hneed] at he; cases he

theorem View.Starves.decoded (h : v.Starves s₀) : decoded s₀.recv.buffer.max s₀.decoder (v.stream s₀) = v.xs := by
  obtain ⟨d₁, k, d₂, hparses, hneed⟩ := h
  exact decoded_of_stuck hparses fun n x l s he => by rw [hneed] at he; cases he

/-- What cannot be read cannot be read with more bytes behind it. -/
theorem View.Fails.plaintext {e : Error} (h : v.Fails s₀ e) (hdata : v.AllData) (m : Bytes) :
    SnellToPlain.plaintext s₀ (v.stream s₀ ++ m) = Item.plainOf v.xs := by
  obtain ⟨d₁, rest, l, d₂, hparses, hfail⟩ := h
  exact carried_of_stuck (hparses.append m) hdata fun n x l' s he => by rw [run_append_fail hfail m] at he; cases he

theorem View.Fails.decoded {e : Error} (h : v.Fails s₀ e) :
    decoded s₀.recv.buffer.max s₀.decoder (v.stream s₀) = v.xs := by
  obtain ⟨d₁, rest, l, d₂, hparses, hfail⟩ := h
  exact decoded_of_stuck hparses fun n x l' s he => by rw [hfail] at he; cases he

variable {C : Crypto} [KdfDecoder C D] [SafeDecoder D]

theorem View.Reads.parses (h : v.Reads C s₀ s) :
    ∃ d₁, Parses (machine s₀.recv.buffer.max) s₀.decoder (v.stream s₀) v.xs d₁ v.rest := by
  obtain ⟨d₁, -, hparses, -⟩ := h.reading.reads
  exact ⟨d₁, hparses⟩

theorem View.EndsInZero.plaintext (h : v.EndsInZero) (hreads : v.Reads C s₀ s) (m : Bytes) :
    SnellToPlain.plaintext s₀ (v.stream s₀ ++ m) = Item.plainOf v.xs := by
  obtain ⟨zs, z, hxs, hdata, hz⟩ := h
  obtain ⟨d₁, hparses⟩ := hreads.parses
  rw [hxs] at hparses ⊢
  have hplain : Item.plain z = [] := by
    obtain ⟨item, w⟩ := z
    cases item with
    | data i j => cases hz
    | zeroChunk => rfl
  rw [SnellToPlain.plaintext, carried_zeroChunk (hparses.append m) hdata hz, Item.plainOf_append, Item.plainOf_cons,
    Item.plainOf_nil, hplain, List.append_nil, List.append_nil]

/-! ## What the polls come to -/

/-- The payload of the records read is the front of what the stream carries. -/
theorem Inv.plainOf_front (h : Inv C s₀ s v) : Item.plainOf v.xs <+: plaintext s₀ (whole s₀) := by
  have hwhole := whole_eq h.gave
  cases h.standing with
  | going hreads hdata | atEnd hreads hdata =>
    obtain ⟨d₁, hparses⟩ := hreads.parses
    rw [hwhole]
    exact carried_prefix (hparses.append _) hdata
  | zeroAhead hreads hzero | zeroChunk hreads hzero =>
    rw [hwhole, hzero.plaintext hreads]
  | errorAhead e hdata hfails =>
    rw [hwhole, hfails.plaintext hdata]

theorem Inv.front (h : Inv C s₀ s v) :
    ∃ written, s.writer.sent = s₀.writer.sent ++ written ∧ written <+: plaintext s₀ (whole s₀) := by
  refine ⟨_, h.sent, List.IsPrefix.trans ?_ h.plainOf_front⟩
  have hsplit : Item.plainOf v.xs = Item.plainOf (v.xs.take v.taken) ++ Item.plainOf (v.xs.drop v.taken) := by
    rw [← Item.plainOf_append, List.take_append_drop]
  rw [hsplit]
  exact (List.prefix_append_right_inj _).mpr (List.take_prefix _ _)

theorem Inv.ended (h : Inv C s₀ s v) (hs : s.shuttingDown = true) : Ended s₀ s := by
  have hwhole := whole_eq h.gave
  have harrived := arrived_eq h.gave
  cases h.standing with
  | going _ _ _ hs' | zeroAhead _ _ _ hs' | errorAhead _ _ _ _ hs' => rw [hs] at hs'; cases hs'
  | zeroChunk hreads hzero _ hall =>
    refine ⟨?_, .inl ?_⟩
    · rw [h.flushed hall, hwhole, hzero.plaintext hreads]
    · obtain ⟨zs, z, hxs, hdata, hz⟩ := hzero
      obtain ⟨d₁, hparses⟩ := hreads.parses
      refine ⟨zs, z, ?_, hdata, hz, ?_, ?_⟩
      · rw [harrived, ← hxs]
        exact decoded_prefix hparses
      · rw [harrived, ← hxs, ← hparses.rest, hreads.filled, hall, outstanding_all, List.nil_append]
      · rw [hreads.reading.pending_eq, hall, outstanding_all, List.length_nil]
  | atEnd hreads hdata hstarves hnil hend _ hall =>
    have hwhole := whole_atEnd h.gave hend
    refine ⟨?_, .inr ⟨hend, ?_, ?_, ?_⟩⟩
    · rw [h.flushed hall, hwhole, hstarves.plaintext hdata]
    · rw [hreads.filled, hall, outstanding_all, hnil, List.append_nil]
    · rw [hwhole, hstarves.decoded]
      exact hdata
    · obtain ⟨d₁, hparses⟩ := hreads.parses
      have hlen := hparses.length_add
      rw [hnil, List.length_nil, Nat.add_zero] at hlen
      rw [hwhole, hstarves.decoded]
      exact hlen

theorem Inv.delivering (h : Inv C s₀ s v) (hopen : s₀.writer.closing = false) : Delivering s₀ s where
  front := h.front
  shut hcl := h.ended ((h.closing hcl).resolve_left (by rw [hopen]; exact Bool.false_ne_true))

omit [SafeDecoder D] in
theorem Carrying.midRecord (h : Carrying s₀ s v) (hstarves : v.Starves s₀) (hne : v.rest ≠ []) (hend : s.reader.AtEnd) :
    ((decoded s₀.recv.buffer.max s₀.decoder (whole s₀)).flatMap Prod.snd).length < (whole s₀).length := by
  rw [whole_atEnd h.gave hend, hstarves.decoded]
  obtain ⟨d₁, k, d₂, hparses, -⟩ := hstarves
  have hlen := hparses.length_add
  have := List.length_pos_iff.mpr hne
  omega

theorem Outcome.returned {r : SessionRes Unit} (h : Outcome C s₀ s v r) (hopen : s₀.writer.closing = false) :
    Delivering s₀ s ∧ Returned s₀ s r := by
  cases h with
  | closed h hs hclosing => exact ⟨h.delivering hopen, .closed hclosing (h.ended hs)⟩
  | shutdownFailed kind h hs hfailed => exact ⟨h.delivering hopen, .shutdownFailed kind hfailed (h.ended hs)⟩
  | decodeFailed e hg hdata hfails hflush hclosing =>
    have hplain := hfails.plaintext hdata s.reader.coming
    rw [← whole_eq hg] at hplain
    refine ⟨⟨⟨_, hflush, hplain ▸ List.prefix_refl _⟩, fun hcl => ?_⟩, .decodeFailed e ?_ (by rw [hflush, hplain])⟩
    · rw [hclosing hcl] at hopen; cases hopen
    · rw [arrived_eq hg, hfails.decoded]
      exact hfails
  | midRecord h hdata hstarves hne hend hall =>
    refine ⟨h.delivering hopen, .midRecord hend ?_ (h.toCarrying.midRecord hstarves hne hend) ?_⟩
    · rw [h.holding.filled, hall, outstanding_all, List.nil_append]
      exact hne
    · rw [h.flushed hall, whole_atEnd h.gave hend, hstarves.plaintext hdata]
  | readFailed kind h hfails hdata hstarves hall =>
    refine ⟨h.delivering hopen, .readFailed kind hfails ?_⟩
    rw [h.flushed hall, arrived_eq h.gave, hstarves.plaintext hdata]
  | writeFailed kind h hbad => exact ⟨h.delivering hopen, .writeFailed kind hbad⟩

theorem PendingOn.waiting {s' : SnellToPlain D} (h : PendingOn s₀ s s' v) (hinv : Inv C s₀ s' v) : Waiting s₀ s s' := by
  cases h with
  | reader hall hstarves hdata hwaits =>
    refine .reader hwaits ?_
    rw [hinv.flushed hall, arrived_eq hinv.gave, hstarves.plaintext hdata]
  | writer hwaits => exact .writer hwaits
  | shutdown hs hwaits => exact .shutdown hwaits (hinv.ended hs)

end SnellToPlain

section Delivers

variable {D : Type} [RecordDecoder D] [StagedDecoder D]

/-- Some session brought `d₀` to `d`. -/
def Reached {D : Type} [RecordDecoder D] (d₀ d : D) : Prop :=
  ∃ buf ops, buf.Wf ∧ ((Peer.machine D).run ⟨d₀, buf, []⟩ ops).2.decoder = d

/-- The pump over `d`, on any sockets and with anything in `recv`: no poll goes
on for ever; after any number of them it is pending, on a socket, or has
returned, and what was delivered is right. -/
def DeliversDecoded (d : D) : Prop :=
  ∀ (reader : ReadHalf) (writer : WriteHalf) (recv : PooledBuffer), recv.buffer.Wf → recv.buffer.max ≤ 73728 →
    writer.closing = false → ∀ n,
      (polls SnellToPlain.poll n (.start reader writer d recv)).Leads (fun _ => False)
        (fun s => SnellToPlain.Delivering (.start reader writer d recv) s ∧
          (SnellToPlain.poll s).Leads (fun _ => False) (SnellToPlain.Waiting (.start reader writer d recv) s)
            fun _ _ => True)
        (fun r s => SnellToPlain.Delivering (.start reader writer d recv) s ∧
          SnellToPlain.Returned (.start reader writer d recv) s r)

theorem deliversDecoded (C : Crypto) [KdfDecoder C D] [SafeDecoder D] {d : D} (hp : pending d = 0)
    (hv : SafeDecoder.Valid d) : DeliversDecoded d := by
  intro reader writer recv hw hmax hopen n
  have hpolls := polls_leads
    (I := fun s => ∃ v, SnellToPlain.Inv C (.start reader writer d recv) s v)
    (R := fun r s => ∃ v, SnellToPlain.Outcome C (.start reader writer d recv) s v r)
    (fun s ⟨v, h⟩ => (SnellToPlain.poll_leads_pump h).imp (fun _ hf => hf) (fun _ ⟨v, h, _⟩ => ⟨v, h⟩) fun _ _ hr => hr)
    n ⟨_, SnellToPlain.start_inv C reader writer hp hv hw hmax⟩
  refine hpolls.imp (fun _ hf => hf) ?_ ?_
  · rintro s ⟨v, h⟩
    refine ⟨h.delivering hopen, (SnellToPlain.poll_leads_pump h).imp (fun _ hf => hf) ?_ fun _ _ _ => trivial⟩
    rintro s' ⟨v', h', hpending⟩
    exact hpending.waiting h'
  · rintro r s ⟨v, h⟩
    exact h.returned hopen

/-- A decoder in use is in a state that may be given any bytes. -/
theorem Reached.valid {C : Crypto} {D β : Type} [RecordDecoder D] {S : SafeStages C D β} {d₀ d : D} (h : Reached d₀ d)
    (hs : S.stage d₀ = .salt) (hp : pending d₀ = 0) : S.Valid d := by
  obtain ⟨buf, ops, hw, rfl⟩ := h
  exact ((Peer.machine D).run_invariant (Peer.Inv S) (fun s op h _ => (h.step op).1) ops
    (Peer.Inv.fresh hw hs hp)).valid

/-- **The Snell-to-local pump delivers exactly the decoded stream.** Over every
decoder, whatever session brought it where it is, if no record of it is
outstanding. -/
theorem snell_to_plain_delivers_decoded (C : Crypto) :
    (∀ psk ne (d : V4Decoder C), Reached (V4Decoder.new C psk ne) d → pending d = 0 → DeliversDecoded d) ∧
    (∀ psk (d : V6UnshapedDecoder C), Reached (V6UnshapedDecoder.new C psk) d → pending d = 0 → DeliversDecoded d) ∧
    ∀ (psk : ProfiledPsk C) (d : V6ShapedDecoder C), Reached (V6ShapedDecoder.new psk) d → pending d = 0 →
      DeliversDecoded d := by
  refine ⟨fun psk ne d hd hp => ?_, fun psk d hd hp => ?_, fun psk d hd hp => ?_⟩
  · exact deliversDecoded C hp (hd.valid (S := V4Decoder.safeStages C) rfl rfl)
  · exact deliversDecoded C hp (hd.valid (S := V6UnshapedDecoder.safeStages C) rfl rfl)
  · exact deliversDecoded C hp (hd.valid (S := V6ShapedDecoder.safeStages C) rfl rfl)

/-- A data record, a zero chunk and two more bytes, cut up on both sides: the
payload is written, and the two bytes stay. -/
theorem snell_to_plain_delivers_decoded_cut :
    let psk : Psk := ⟨List.replicate pskMinLen 7, by decide⟩
    let d := V6UnshapedDecoder.new Crypto.transparent psk
    let tag := List.replicate tagLen 0
    let wire := List.replicate saltLen 1 ++ plainHeader 0 3 ++ tag ++ [1, 2, 3] ++ tag ++ plainHeader 0 0 ++ tag ++ [9, 9]
    let reader : ReadHalf := ⟨[], wire, false, [.ready, .pending, .ready, .ready, .ready, .ready],
      [.upTo 30, .upTo 11, .pending, .upTo 100, .upTo 100]⟩
    let writer : WriteHalf := ⟨⟨[], [.took 2, .pending, .took 5]⟩, [.pending, .done], false⟩
    let recv : PooledBuffer := ⟨.empty 64, []⟩
    let closed (t : Turn (SnellToPlain (V6UnshapedDecoder Crypto.transparent)) (SessionRes Unit)) :=
      match t with
      | .ready (.ok ()) s => some (s.writer.sent, s.recv.buffer.filled)
      | _ => none
    closed (polls SnellToPlain.poll 6 (.start reader writer d recv)) = some ([1, 2, 3], [9, 9]) ∧ DeliversDecoded d := by
  intro psk d tag wire reader writer recv closed
  exact ⟨by decide +kernel, (snell_to_plain_delivers_decoded Crypto.transparent).2.1 psk d
    ⟨.new 0, [], Buffer.new_wf 0, rfl⟩ rfl⟩

end Delivers

end Snell
