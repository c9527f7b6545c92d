/-
What `pump_plain_to_snell` puts on the wire, in terms of the local stream
alone.

However the local side and the Snell side answer, and however often the future
is polled, the records sealed are the bytes read, in order, each with at least
one byte, with one zero chunk behind them once the local stream has ended; and
what is on the wire is a front of them (`Sending`). The future returns `Ok`
only with all of that written (`Returned`), and it is pending only where one of
the sockets made it wait (`Waiting`).
-/
import Snell.PlainToSnellFacts

namespace Snell

open RecordEncoder EncoderSpec LawfulEncoder DatagramEncoder StreamEncoder Polling

namespace PlainToSnell

variable {E : Type} [RecordEncoder E] [EncoderSpec E] [LawfulEncoder E]

/-- What was read of the local side. -/
def taken (s₀ s : PlainToSnell E) : Bytes :=
  s₀.reader.coming.take (s₀.reader.coming.length - s.reader.coming.length)

/-- The whole local stream is on the wire, and its zero chunk. -/
structure Complete (s₀ s : PlainToSnell E) (records : List (Bytes × Bytes)) : Prop where
  closed : Closed records
  atEnd : s.reader.AtEnd
  all : (records.map Prod.fst).flatten = s₀.reader.coming
  sent : s.writer.sent = s₀.writer.sent ++ wireOf records

/-- After any number of polls: `records` are what was sealed. The write half is
shut down behind all of it, and only if it is not to be kept. -/
structure Sending (keep : Bool) (s₀ s : PlainToSnell E) (records : List (Bytes × Bytes)) : Prop where
  chain : Chain Frame (pos s₀.encoder) records (pos s.encoder)
  payload : (records.map Prod.fst).flatten = taken s₀ s
  shape : AllData records ∨ Closed records ∧ s.reader.AtEnd
  front : ∃ front, s.writer.sent = s₀.writer.sent ++ front ∧ front <+: wireOf records
  shut : s.writer.closing = true → keep = false ∧ Complete s₀ s records

/-- What the future returns. -/
inductive Returned (keep : Bool) (s₀ s : PlainToSnell E) (records : List (Bytes × Bytes)) : SessionRes Unit → Prop
  | done (hcomplete : Complete s₀ s records) (hclosing : s.writer.closing = !keep) : Returned keep s₀ s records (.ok ())
  | readFailed (kind : IoErrorKind) (hfails : s₀.reader.Fails kind) :
    Returned keep s₀ s records (.error (.err (.io kind)))
  | writeFailed (kind : IoErrorKind) (hbad : ∃ a ∈ s₀.writer.answers, ¬ a.Good) :
    Returned keep s₀ s records (.error (.err (.io kind)))
  | shutdownFailed (kind : IoErrorKind) (hkeep : keep = false) (hfailed : .failed kind ∈ s₀.writer.shutdowns)
    (hcomplete : Complete s₀ s records) : Returned keep s₀ s records (.error (.err (.io kind)))

/-- What a poll from `s` that is pending in `s'` waits for: the local side,
with all records written; the Snell side; or its shutdown. -/
inductive Waiting (s₀ s s' : PlainToSnell E) (records : List (Bytes × Bytes)) : Prop
  | reader (hwaits : s.reader.Waits s'.reader) (hall : s'.writer.sent = s₀.writer.sent ++ wireOf records)
  | writer (hwaits : Waited .pending s.writer.answers s'.writer.answers)
  | shutdown (hwaits : Waited .pending s.writer.shutdowns s'.writer.shutdowns) (hcomplete : Complete s₀ s' records)

variable [DatagramEncoder E] [StreamEncoder E] {env : ReplyEnv} {keep : Bool} {s₀ s : PlainToSnell E} {v : View}

omit [DatagramEncoder E] [StreamEncoder E] in
omit [RecordEncoder E] [EncoderSpec E] [LawfulEncoder E] in
theorem taken_eq (hg : s₀.reader.Gave s.reader v.got) : taken s₀ s = v.got := by
  rw [taken, hg.coming, List.length_append, Nat.add_sub_cancel, List.take_left]

theorem Inv.complete (h : Inv env keep s₀ s v) (hclosed : Closed v.records) (hend : s.reader.AtEnd)
    (hall : v.queued = []) : Complete s₀ s v.records where
  closed := hclosed
  atEnd := hend
  all := by rw [h.payload, h.gave.coming, hend.1, List.append_nil]
  sent := h.flushed hall

/-- Shutting down, the stream is complete. -/
theorem Inv.complete_shutting (h : Inv env keep s₀ s v) (hphase : s.phase = .shuttingDown) :
    keep = false ∧ Complete s₀ s v.records := by
  cases h.standing with
  | shutting _ hclosed hend hkeep hall => exact ⟨hkeep, h.complete hclosed hend hall⟩
  | reading hp | ended hp | closed hp => rw [hp] at hphase; cases hphase

theorem Inv.shut (h : Inv env keep s₀ s v) (hopen : s₀.writer.closing = false) (hcl : s.writer.closing = true) :
    s.phase = .shuttingDown :=
  (h.closing hcl).resolve_left (by rw [hopen]; exact Bool.false_ne_true)

theorem Inv.sending (h : Inv env keep s₀ s v) (hopen : s₀.writer.closing = false) : Sending keep s₀ s v.records where
  chain := h.chain
  payload := by rw [taken_eq h.gave]; exact h.payload
  shape := by
    cases h.standing with
    | reading _ hdata | ended _ hdata => exact .inl hdata
    | closed _ hclosed hend | shutting _ hclosed hend => exact .inr ⟨hclosed, hend⟩
  front := h.front
  shut hcl := h.complete_shutting (h.shut hopen hcl)

theorem Outcome.returned {r : SessionRes Unit} (hopen : s₀.writer.closing = false) (h : Outcome env keep s₀ s v r) :
    Sending keep s₀ s v.records ∧ Returned keep s₀ s v.records r := by
  cases h with
  | kept hinv hphase hkeep hall =>
    obtain ⟨hclosed, hend⟩ : Closed v.records ∧ s.reader.AtEnd := by
      cases hinv.standing with
      | closed _ hclosed hend => exact ⟨hclosed, hend⟩
      | reading hp | ended hp | shutting hp => rw [hp] at hphase; cases hphase
    refine ⟨hinv.sending hopen, .done (hinv.complete hclosed hend hall) ?_⟩
    rw [hkeep]
    exact Bool.eq_false_iff.mpr fun hcl => by rw [hinv.shut hopen hcl] at hphase; cases hphase
  | closed hinv hphase hcl =>
    obtain ⟨hkeep, hcomplete⟩ := hinv.complete_shutting hphase
    exact ⟨hinv.sending hopen, .done hcomplete (by rw [hcl, hkeep]; rfl)⟩
  | readFailed kind hinv hfails => exact ⟨hinv.sending hopen, .readFailed kind hfails⟩
  | writeFailed kind hinv hbad => exact ⟨hinv.sending hopen, .writeFailed kind hbad⟩
  | shutdownFailed kind hinv hphase hfailed =>
    obtain ⟨hkeep, hcomplete⟩ := hinv.complete_shutting hphase
    exact ⟨hinv.sending hopen, .shutdownFailed kind hkeep hfailed hcomplete⟩

theorem PendingOn.waiting {s' : PlainToSnell E} (h : PendingOn s s' v) (hinv : Inv env keep s₀ s' v) :
    Waiting s₀ s s' v.records := by
  cases h with
  | reader hwaits hall => exact .reader hwaits (hinv.flushed hall)
  | writer hwaits => exact .writer hwaits
  | shutdown hphase hwaits => exact .shutdown hwaits (hinv.complete_shutting hphase).2

end PlainToSnell

/-! ## Every encoder -/

section Sends

variable {E : Type} [RecordEncoder E] [EncoderSpec E] [LawfulEncoder E] [DatagramEncoder E]

/-- The pump over `e`, on any sockets, with `ring` and the entropy source not
failing: no poll goes on for ever; after any number of them it is pending, on a
socket, or has returned, and what is on the wire is the local stream. -/
def SendsInput (e : E) : Prop :=
  ∀ env : ReplyEnv, (∀ i, Serves e (env.sealing i)) → (∀ i, (env.sealing i).AeadServes) →
    ∀ (reader : ReadHalf) (writer : WriteHalf) (keep : Bool), writer.closing = false → ∀ n,
      (polls (PlainToSnell.poll env keep) n (.start env reader writer e)).Leads (fun _ => False)
        (fun s => (∃ records, PlainToSnell.Sending keep (.start env reader writer e) s records) ∧
          (PlainToSnell.poll env keep s).Leads (fun _ => False)
            (fun s' => ∃ records, PlainToSnell.Sending keep (.start env reader writer e) s' records ∧
              PlainToSnell.Waiting (.start env reader writer e) s s' records) fun _ _ => True)
        fun r s => ∃ records, PlainToSnell.Sending keep (.start env reader writer e) s records ∧
          PlainToSnell.Returned keep (.start env reader writer e) s records r

variable [StreamEncoder E] [ClosingEncoder E]

/-- Any number of polls keep the invariant. -/
theorem PlainToSnell.polls_inv {env : ReplyEnv} {e : E} (h : Sustains e env.sealing) (reader : ReadHalf)
    (writer : WriteHalf) (keep : Bool) (n : Nat) :
    (polls (PlainToSnell.poll env keep) n (.start env reader writer e)).Leads (fun _ => False)
      (fun s => ∃ v, PlainToSnell.Inv env keep (.start env reader writer e) s v)
      fun r s => ∃ v, PlainToSnell.Outcome env keep (.start env reader writer e) s v r :=
  polls_leads
    (fun _ ⟨_, h⟩ => (PlainToSnell.poll_leads_pump h).imp (fun _ hf => hf) (fun _ ⟨v, h, _⟩ => ⟨v, h⟩) fun _ _ hr => hr)
    n ⟨_, PlainToSnell.start_inv keep reader writer h⟩

theorem sendsInput {e : E} (hv : Valid e) (hr : Roomy e) (hready : state e = .ready) : SendsInput e := by
  intro env hserves haead reader writer keep hopen n
  refine (PlainToSnell.polls_inv ⟨hv, hr, hready, hserves, haead⟩ reader writer keep n).imp (fun _ hf => hf) ?_ ?_
  · rintro s ⟨v, h⟩
    refine ⟨⟨_, h.sending hopen⟩, (PlainToSnell.poll_leads_pump h).imp (fun _ hf => hf) ?_ fun _ _ _ => trivial⟩
    rintro s' ⟨v', h', hpending⟩
    exact ⟨_, h'.sending hopen, hpending.waiting h'⟩
  · rintro r s ⟨v, h⟩
    exact ⟨_, h.returned hopen⟩

end Sends

/-- **The local-to-Snell pump sends exactly the local stream**, from every
state of every encoder that a run from `new` leads to and in which it is
ready, as long as the AEAD and the entropy serve. -/
theorem plain_to_snell_sends_input (C : Crypto) (ε : Type) [Entropy ε] :
    (∀ psk (entropy : ε) ne (enc₀ enc : V4Encoder C ε), V4Encoder.new psk entropy ne = .ok enc₀ →
      EncoderReaches enc₀ enc → state enc = .ready → SendsInput enc) ∧
    (∀ psk (entropy : ε) (enc₀ enc : V6ShapedEncoder C), V6ShapedEncoder.new psk entropy = .ok enc₀ →
      EncoderReaches enc₀ enc → state enc = .ready → SendsInput enc) ∧
    ∀ psk (entropy : ε) (enc₀ enc : V6UnshapedEncoder C), V6UnshapedEncoder.new psk entropy = .ok enc₀ →
      EncoderReaches enc₀ enc → state enc = .ready → SendsInput enc := by
  refine ⟨fun psk entropy ne enc₀ enc h hreaches hready => ?_, fun _ _ _ _ _ _ hready => sendsInput trivial trivial hready,
    fun _ _ _ _ _ _ hready => sendsInput trivial trivial hready⟩
  obtain ⟨hv₀, hr₀⟩ := V4Encoder.new_roomy h
  obtain ⟨hv, hr⟩ := hreaches.roomy hv₀ hr₀
  exact sendsInput hv hr hready

/-- The write half once the future has returned `Ok`. -/
def PlainToSnell.writerOfOk {E : Type} : Turn (PlainToSnell E) (SessionRes Unit) → Option WriteHalf
  | .ready (.ok ()) s => some s.writer
  | _ => none

/-- Four bytes read in two pieces and the end of the stream behind them, to a
write half that takes them in three: two records and the zero chunk. -/
theorem plain_to_snell_sends_input_cut :
    let enc : V6UnshapedEncoder Crypto.transparent := ⟨(), Nonce.new, .replicate saltLen 1, false, .ready⟩
    let env : ReplyEnv := ⟨[], [], fun _ _ => 0, fun _ => ⟨0, false, false, 0⟩⟩
    let reader : ReadHalf := ⟨[], [5, 6, 7, 8], true, [.ready, .pending, .ready, .ready], [.upTo 3, .upTo 9, .upTo 9]⟩
    let writer : WriteHalf := ⟨⟨[], [.took 20, .pending, .took 900, .took 900, .took 900]⟩, [.pending, .done], false⟩
    let tag := List.replicate tagLen 0
    let wire : Bytes := List.replicate saltLen 1 ++ plainHeader 0 3 ++ tag ++ [5, 6, 7] ++ tag ++
      plainHeader 0 1 ++ tag ++ [8] ++
      tag ++ plainHeader 0 0 ++ tag
    (PlainToSnell.writerOfOk (polls (PlainToSnell.poll env false) 6 (.start env reader writer enc))).map
        (fun w => (w.sent, w.closing)) = some (wire, true) ∧ SendsInput enc := by
  intro enc env reader writer tag wire
  exact ⟨by decide +kernel, (plain_to_snell_sends_input Crypto.transparent RepeatEntropy).2.2
    ⟨List.replicate pskMinLen 7, by decide⟩ ⟨1⟩ enc enc rfl ⟨[], rfl⟩ rfl⟩

end Snell
