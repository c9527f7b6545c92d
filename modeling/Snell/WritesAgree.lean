/-
The models of one function agree.

`drain_encode`, `write_plain_records` and `open_remote` are modelled as calls
that are followed to their end, which is where a deadline is seen to cut them
off (`Outgoing`) or where waiting does not matter (`drainEncode` over an
`AsyncWrite`), and turn by turn, where other futures run in between
(`RecordWriter`, `Server`). The calls drain alike
(`Outgoing.drainEncode_returned`), and what a call comes to, its turns come to:
they return what it returns, wait where it is given up, and wait for ever where
it does (`writePlainRecords_comesTo`, `openRemote_serves`).

A writer that says it took more than it was offered is out of the picture: the
calls panic there, and `Writer.poll` takes it for what was offered.
-/
import Snell.ServerSession

namespace Snell

open RecordEncoder Polling

/-! ## A stream as an `AsyncWrite` -/

def WritePoll.isPending : WritePoll → Bool
  | .pending _ => true
  | _ => false

/-- The answer that is waited for. There is none where every poll is pending,
and no call returns there. -/
instance : AsyncWrite SnellStream where
  write s bytes :=
    match s.polls.dropWhile WritePoll.isPending with
    | .took n :: polls => (.ok n, ⟨s.written ++ bytes.take n, polls⟩)
    | .failed kind :: polls => (.error kind, ⟨s.written, polls⟩)
    | polls => (.ok 0, ⟨s.written, polls⟩)

theorem SnellStream.writeAllBuf_returned {timed : Bool} {written : Bytes} {polls : List WritePoll} {bytes : Bytes}
    {r : SessionRes Unit} {s : SnellStream} (h : writeAllBuf timed written polls bytes = (.returned r, s))
    (hr : r ≠ .error .panic) {fuel : Nat} (hfuel : bytes.length ≤ fuel) :
    Snell.writeAllBuf fuel (⟨written, polls⟩ : SnellStream) bytes = (r, s) := by
  induction polls generalizing written bytes fuel with
  | nil =>
    cases bytes with
    | nil =>
      simp only [writeAllBuf] at h
      cases h
      cases fuel <;> rfl
    | cons b bytes => cases h
  | cons p polls ih =>
    cases bytes with
    | nil =>
      simp only [writeAllBuf] at h
      cases h
      cases fuel <;> rfl
    | cons b bytes =>
      obtain ⟨fuel, rfl⟩ : ∃ n, fuel = n + 1 := ⟨fuel - 1, by rw [List.length_cons] at hfuel; omega⟩
      cases p with
      | pending expired =>
        rw [writeAllBuf] at h
        split at h
        · cases h
        -- the poll that is pending is skipped
        · exact ih h hfuel
      | failed kind =>
        rw [writeAllBuf] at h
        cases h
        rfl
      | took n =>
        rw [writeAllBuf] at h
        have hwrite : AsyncWrite.write (⟨written, .took n :: polls⟩ : SnellStream) (b :: bytes) =
          (.ok n, ⟨written ++ (b :: bytes).take n, polls⟩) := rfl
        simp only [Snell.writeAllBuf, hwrite]
        split at h
        · next hn =>
          cases h
          rw [if_pos hn, hn, List.take_zero, List.append_nil]
        next hn =>
        split at h
        · cases h
          exact absurd rfl hr
        next hle =>
        rw [if_neg hn, if_neg hle]
        exact ih h (by rw [List.length_drop]; omega)

variable {E : Type}

/-- **`drain_encode` is one function**: over a stream, what is returned, what
is written and the lease that is left do not depend on whether the polls that
are pending are seen. -/
theorem Outgoing.drainEncode_returned {timed : Bool} {x x' : Outgoing E} {encode : PooledBuffer} {split : Nat}
    {r : SessionRes PooledBuffer} (h : x.drainEncode timed encode split = (.returned r, x')) (hr : r ≠ .error .panic) :
    ∃ encode', Snell.drainEncode x.stream encode split = (r.map fun _ => (), x'.stream, encode') ∧
      ∀ lease, r = .ok lease → encode' = lease := by
  unfold drainEncode at h
  split at h
  · cases h
    exact absurd rfl hr
  next hsplit =>
  unfold Snell.drainEncode
  simp only [if_neg hsplit]
  rcases hw : SnellStream.writeAllBuf timed x.stream.written x.stream.polls
    (rotate split encode.buffer.filled) with ⟨w, stream⟩
  rw [hw] at h
  have hrotate : rotate split encode.buffer.filled =
    encode.buffer.filled.drop split ++ encode.buffer.filled.take split := rfl
  have hfuel : (rotate split encode.buffer.filled).length ≤ encode.buffer.filled.length := by
    rw [hrotate, List.length_append, List.length_drop, List.length_take]; omega
  rcases w with w | _ | _
  · cases w with
    | error f =>
      cases h
      rw [← hrotate, SnellStream.writeAllBuf_returned hw (fun h => hr (by cases h; rfl)) hfuel]
      exact ⟨encode, rfl, fun _ h => by cases h⟩
    | ok _ =>
      simp only [Ended.followed, Prod.mk.injEq, Ended.returned.injEq] at h
      obtain ⟨rfl, rfl⟩ := h
      rw [← hrotate, SnellStream.writeAllBuf_returned hw (fun h => by cases h) hfuel]
      unfold drained at hr ⊢
      rcases encode.buffer.consume encode.buffer.len with ⟨_ | _, buffer⟩
      · exact ⟨_, rfl, fun _ h => by cases h⟩
      · refine ⟨_, rfl, fun lease h => ?_⟩
        cases h
        rfl
  · cases h
  · cases h

/-! ## Turn by turn -/

/-- The turns from `s` on come to what a call came to. -/
inductive ComesTo {σ X α : Type} (timed : Bool) (turn : σ → Turn σ (SessionRes α)) (View : σ → X → Prop) (s : σ) :
    Ended α × X → Prop
  | returned {s' s'' r x} : MovesTo turn s s' → turn s' = .ready r s'' → View s'' x →
    ComesTo timed turn View s (.returned r, x)
  /-- The future is dropped where it waits. -/
  | expired {s' s'' x} : timed = true → MovesTo turn s s' → turn s' = .pending s'' → View s'' x →
      ComesTo timed turn View s (.expired, x)
  /-- It waits, and nothing moves. -/
  | stalled {s' x} : MovesTo turn s s' → turn s' = .pending s' → View s' x → ComesTo timed turn View s (.stalled, x)

section Turns

variable {σ X α : Type} {timed : Bool} {turn : σ → Turn σ (SessionRes α)} {View View' : σ → X → Prop} {s₀ s : σ}
  {r : Ended α × X}

theorem ComesTo.after (h : ComesTo timed turn View s r) (hs : MovesTo turn s₀ s) : ComesTo timed turn View s₀ r := by
  cases h with
  | returned hr hready hview => exact .returned (hs.trans hr) hready hview
  | expired ht hr hpending hview => exact .expired ht (hs.trans hr) hpending hview
  | stalled hr hpending hview => exact .stalled (hs.trans hr) hpending hview

theorem ComesTo.imp (h : ComesTo timed turn View s r) (hview : ∀ s x, View s x → View' s x) :
    ComesTo timed turn View' s r := by
  cases h with
  | returned hr hready hv => exact .returned hr hready (hview _ _ hv)
  | expired ht hr hpending hv => exact .expired ht hr hpending (hview _ _ hv)
  | stalled hr hpending hv => exact .stalled hr hpending (hview _ _ hv)

end Turns

def WritePoll.answer : WritePoll → WriteAnswer
  | .took n => .took n
  | .failed kind => .failed kind
  | .pending _ => .pending

/-- The stream as a socket's writing half sees it. -/
def SnellStream.writer (s : SnellStream) : Writer := ⟨s.written, s.polls.map WritePoll.answer⟩

/-- `write_all_buf` -/
theorem WriteHalf.writeAllTurn_comesTo (w : WriteHalf) (timed : Bool) (written : Bytes) (polls : List WritePoll)
    (bytes : Bytes) (hpanic : (SnellStream.writeAllBuf timed written polls bytes).1 ≠ .returned (.error .panic)) :
    ComesTo timed (fun x : WriteHalf × Bytes => x.1.writeAllTurn x.2)
      (fun x s => x.1 = { w with toWriter := s.writer })
      ({ w with toWriter := SnellStream.writer ⟨written, polls⟩ }, bytes)
      (SnellStream.writeAllBuf timed written polls bytes) := by
  induction polls generalizing written bytes with
  | nil =>
    cases bytes with
    | nil =>
      rw [SnellStream.writeAllBuf]
      exact .returned .refl rfl rfl
    | cons b bytes => exact .stalled .refl rfl rfl
  | cons p polls ih =>
    cases bytes with
    | nil =>
      rw [SnellStream.writeAllBuf]
      exact .returned .refl rfl rfl
    | cons b bytes =>
      cases p with
      | pending expired =>
        rw [SnellStream.writeAllBuf] at hpanic ⊢
        split at hpanic
        · next ht =>
          rw [if_pos ht]
          exact .expired (Bool.and_eq_true_iff.mp ht).1 .refl rfl rfl
        · next ht =>
          rw [if_neg ht]
          exact (ih written (b :: bytes) hpanic).after (.single (.inr rfl))
      | failed kind =>
        rw [SnellStream.writeAllBuf]
        exact .returned .refl rfl rfl
      | took n =>
        rw [SnellStream.writeAllBuf] at hpanic ⊢
        have hturn : WriteHalf.writeAllTurn { w with toWriter := SnellStream.writer ⟨written, .took n :: polls⟩ }
            (b :: bytes) =
            let m := min n (b :: bytes).length
            let writer := { w with
              sent := written ++ (b :: bytes).take m, answers := polls.map WritePoll.answer }
            if m = 0 then .ready (.error (.err (.io .writeZero))) (writer, b :: bytes)
            else .again (writer, (b :: bytes).drop m) := rfl
        split at hpanic
        · next hn =>
          rw [if_pos hn]
          subst hn
          refine .returned .refl (hturn.trans (if_pos (Nat.zero_min _))) ?_
          simp only [Nat.zero_min, List.take_zero, List.append_nil]
          rfl
        next hn =>
        rw [if_neg hn]
        split at hpanic
        · exact absurd rfl hpanic
        next hle =>
        rw [if_neg hle]
        have hmin : min n (b :: bytes).length = n := Nat.min_eq_left (Nat.le_of_not_lt hle)
        simp only [hmin, if_neg hn] at hturn
        exact (ih _ _ hpanic).after (.single (.inl hturn))

/-! ## `write_plain_records` -/

/-- The environment from record `asked` on. -/
def ReplyEnv.after (env : ReplyEnv) (asked : Nat) : ReplyEnv :=
  { env with clock := fun i => env.clock (asked + i), sealing := fun i => env.sealing (asked + i) }

namespace RecordWriter

variable [RecordEncoder E]

/-- What is written and sealed, behind `asked` records and of `n` bytes. -/
structure Shows (w : WriteHalf) (asked n : Nat) (s : RecordWriter E) (x : Outgoing E) : Prop where
  writer : s.writer = { w with toWriter := x.stream.writer }
  encoder : s.encoder = x.encoder
  le_asked : asked + min 1 n ≤ s.asked
  asked_le : s.asked ≤ asked + n

/-- While a record is written, a turn is one of `write_all_buf`. -/
def drains (s : RecordWriter E) (y : WriteHalf × Bytes) : RecordWriter E := { s with writer := y.1, unwritten := some y.2 }

theorem reaches_drains (env : ReplyEnv) (s : RecordWriter E) {y y' : WriteHalf × Bytes}
    (h : MovesTo (fun y : WriteHalf × Bytes => y.1.writeAllTurn y.2) y y') :
    MovesTo (turn env) (s.drains y) (s.drains y') := by
  refine Relation.ReflTransGen.lift s.drains (fun y y' h => ?_) _ _ h
  rcases h with h | h
  · exact .inl (by simp only [turn, drains, h])
  · exact .inr (by simp only [turn, drains, h])

theorem writeRecords_comesTo (w : WriteHalf) (timed : Bool) (env : ReplyEnv) (asked fuel i : Nat) (x : Outgoing E)
    (encode : PooledBuffer) (src : Bytes) (hfuel : src.length ≤ fuel)
    (hpanic : (x.writeRecords timed (env.after asked) fuel i encode src).1 ≠ .returned (.error .panic)) :
    ComesTo timed (turn env) (Shows w (asked + i) src.length)
      ⟨{ w with toWriter := x.stream.writer }, x.encoder, src, encode, none, asked + i⟩
      (x.writeRecords timed (env.after asked) fuel i encode src) := by
  induction fuel generalizing i x encode src with
  | zero =>
    obtain rfl := List.eq_nil_of_length_eq_zero (Nat.le_zero.mp hfuel)
    exact .returned .refl rfl ⟨rfl, rfl, Nat.le_refl _, Nat.le_refl _⟩
  | succ fuel ih =>
    rw [Outgoing.writeRecords] at hpanic ⊢
    by_cases hsrc : src = []
    · subst hsrc
      exact .returned .refl rfl ⟨rfl, rfl, Nat.le_refl _, Nat.le_refl _⟩
    have hlen := List.length_pos_iff.mpr hsrc
    rw [if_neg hsrc] at hpanic ⊢
    have hplain : encodePlain (env.after asked) i x.encoder encode src =
      encodePlain env (asked + i) x.encoder encode src := rfl
    rw [hplain] at hpanic ⊢
    have hturn : turn env ⟨{ w with toWriter := x.stream.writer }, x.encoder, src, encode, none, asked + i⟩ = _ :=
      if_neg hsrc
    simp only at hturn
    rcases hencoded : encodePlain env (asked + i) x.encoder encode src with ⟨r, encoder, encode₁⟩
    rw [hencoded] at hpanic hturn
    cases r with
    | error f =>
      exact .returned .refl hturn ⟨rfl, rfl, Nat.add_le_add_left (Nat.min_le_left _ _) _, Nat.add_le_add_left hlen _⟩
    | ok r =>
      obtain ⟨take, split⟩ := r
      simp only at hpanic hturn ⊢
      obtain ⟨_, _, hfill⟩ := encodeRecord_filled hencoded
      have htake := fillPlain_pos hfill
      unfold Outgoing.drainEncode at hpanic ⊢
      split at hpanic
      · exact absurd rfl hpanic
      next hsplit =>
      rw [if_neg hsplit] at hturn ⊢
      -- the record is sealed, and written by turns of `write_all_buf`
      let sealed : RecordWriter E :=
        ⟨{ w with toWriter := x.stream.writer }, encoder, src.drop take, encode₁, none, asked + i + 1⟩
      have hsealed : Moves (turn env) ⟨{ w with toWriter := x.stream.writer }, x.encoder, src, encode, none, asked + i⟩
          (sealed.drains ({ w with toWriter := x.stream.writer }, rotate split encode₁.buffer.filled)) := .inl hturn
      have hshows {y : WriteHalf × Bytes} {stream : SnellStream} (hy : y.1 = { w with toWriter := stream.writer }) :
          Shows w (asked + i) src.length (sealed.drains y) ⟨encoder, stream⟩ :=
        ⟨hy, rfl, Nat.add_le_add_left (Nat.min_le_left _ _) _, Nat.add_le_add_left hlen _⟩
      have hwrites := WriteHalf.writeAllTurn_comesTo w timed x.stream.written x.stream.polls
        (rotate split encode₁.buffer.filled)
      generalize SnellStream.writeAllBuf timed x.stream.written x.stream.polls
        (rotate split encode₁.buffer.filled) = written at hwrites hpanic
      obtain ⟨ended, stream⟩ := written
      have hwrites := hwrites fun h => hpanic (by simp only at h; subst h; rfl)
      cases hwrites with
      | @returned y y' r _ hreach hready hview =>
        have hreach := Relation.ReflTransGen.head hsealed (reaches_drains env sealed hreach)
        cases r with
        | error f => exact .returned hreach (by simp only [turn, drains, hready]) (hshows hview)
        | ok _ =>
          simp only [Ended.followed] at hpanic ⊢
          rcases hdrained : drained encode₁ with f | lease
          · exact .returned hreach (by simp only [turn, drains, hready, sealed, hdrained]) (hshows hview)
          · rw [hdrained] at hpanic
            simp only [Ended.andThen] at hpanic ⊢
            have hnext : Moves (turn env) (sealed.drains y)
                ⟨{ w with toWriter := stream.writer }, encoder, src.drop take, lease, none, asked + (i + 1)⟩ := by
              refine .inl ?_
              simp only [turn, drains, hready, sealed, hdrained]
              rw [← hview]
              rfl
            have hrest := ih (i + 1) ⟨encoder, stream⟩ lease (src.drop take) (by rw [List.length_drop]; omega) hpanic
            refine (hrest.after (hreach.tail hnext)).imp fun s x h => ⟨h.writer, h.encoder, ?_, ?_⟩
            · have := h.le_asked
              omega
            · have := h.asked_le
              rw [List.length_drop] at this
              omega
      | @expired y y' _ ht hreach hpending hview =>
        have hreach := Relation.ReflTransGen.head hsealed (reaches_drains env sealed hreach)
        exact .expired ht hreach (by simp only [turn, drains, hpending]) (hshows hview)
      | @stalled y _ hreach hpending hview =>
        have hreach := Relation.ReflTransGen.head hsealed (reaches_drains env sealed hreach)
        exact .stalled hreach (by simp only [turn, drains, hpending]) (hshows hview)

/-- **`write_plain_records` is one function**: what the call comes to, with the
records behind `asked` others, its turns come to, and the bytes written and the
encoder are the same. -/
theorem writePlainRecords_comesTo (w : WriteHalf) (timed : Bool) (env : ReplyEnv) (asked : Nat) (x : Outgoing E)
    (src : Bytes) (hpanic : (x.writePlainRecords timed (env.after asked) src).1 ≠ .returned (.error .panic)) :
    ComesTo timed (turn env) (Shows w asked src.length)
      (start env { w with toWriter := x.stream.writer } x.encoder src asked)
      (x.writePlainRecords timed (env.after asked) src) := by
  rw [Outgoing.writePlainRecords, PooledBuffer.get_ok] at hpanic ⊢
  exact writeRecords_comesTo w timed env asked src.length 0 x env.lease src (Nat.le_refl _) hpanic

end RecordWriter

/-! ## `open_remote` -/

/-- Records asked for before a rejection: a dial that succeeds is answered with
one. -/
def Dial.replies {R : Type} (dial : Dial R) : Nat :=
  match dial.run with
  | .returned (.ok _) => 1
  | _ => 0

/-- What is left of `open_remote` once the client is answered. -/
def OpenEnv.forwarded {R : Type} (env : OpenEnv R) (remote : R) : Ended R :=
  match env.forward with
  | none => .stalled
  | some (.error kind) => .returned (.error (.err (.io kind)))
  | some (.ok ()) => .returned (.ok remote)

theorem Outgoing.writeTunnel_eq [RecordEncoder E] (timed : Bool) (env : ReplyEnv) (x : Outgoing E) :
    x.writeTunnel timed env =
      match tunnelReply with
      | .error f => (.returned (.error f), x)
      | .ok bytes => x.writePlainRecords timed env bytes := by
  unfold writeTunnel tunnelReply
  rcases encodeTunnelReply (List.replicate 1 0) with f | ⟨n, buf⟩ <;> rfl

theorem Outgoing.writeReject_eq [RecordEncoder E] (timed : Bool) (env : ReplyEnv) (x : Outgoing E) (message : Str) :
    x.writeReject timed env message =
      match rejection message with
      | .error f => (.returned (.error f), x)
      | .ok bytes => x.writePlainRecords timed env bytes := by
  unfold writeReject rejection
  rcases encodeReject (List.replicate (3 + 255) 0) message with f | ⟨n, buf⟩ <;> rfl

namespace Server

variable {D : Type} [RecordEncoder E] [RecordDecoder D] {C : Crypto} {T : IpText} {c : Server E D} {w : Writing}
  {s s' : RecordWriter E} {x : Outgoing E}

/-- What `open_remote` is answered on the connection; `reply` and `reject` are
the pool's answers. -/
def openEnv (c : Server E D) (dial : Dial Unit) (reply reject : PoolAnswer) (forward : Option (Except IoErrorKind Unit)) :
    OpenEnv Unit where
  dial := dial
  tunnel := (c.env.leased reply).after c.asked
  reject := (c.env.leased reject).after (c.asked + dial.replies)
  forward := forward
  describe := c.describe

/-- Any number of steps of the connection. -/
def StepsTo (C : Crypto) (T : IpText) : Server E D → Server E D → Prop :=
  Relation.ReflTransGen fun c c' => ∃ input, c.step C T input = c'

/-- What is written to the client and the encoder are those of the call. -/
structure Shown (writer : WriteHalf) (c : Server E D) (x : Outgoing E) : Prop where
  writer_eq : c.tunnel.snell.writer = { writer with toWriter := x.stream.writer }
  encoder_eq : c.tunnel.encoder = x.encoder

/-- Where `open_remote` leaves the connection. Writing the early payload is
the next phase's; the call waits for ever in the phase that does. -/
inductive Opened (env : OpenEnv Unit) (earlyPayload : Bytes) : Ended Unit → ServerPhase → Prop
  | relaying {r} : earlyPayload = [] → Opened env earlyPayload (.returned (.ok ())) (.relaying r)
  | forwarding : earlyPayload ≠ [] → Opened env earlyPayload (env.forwarded ()) (.forwarding earlyPayload)
  | failed {f} : Opened env earlyPayload (.returned (.error f)) .ended
  | dialing {request n} : Opened env earlyPayload .stalled (.dialing request n earlyPayload)
  | replying {v : Writing} : Opened env earlyPayload .stalled (.replying earlyPayload v)
  | rejecting {v : Writing} : Opened env earlyPayload .stalled (.rejecting v)

/-- The connection while records are written to the client. -/
def writes (c : Server E D) (phase : Writing → ServerPhase) (w : Writing) (s : RecordWriter E) : Server E D :=
  { c with tunnel := (c.tunnel.putWriting w s).1, phase := phase (c.tunnel.putWriting w s).2 }

/-- A turn of the connection that is given what it does not ask for. -/
def writeInput (encode : PoolAnswer) : ServerInput := .turn .pending (.ok ()) encode .plainToSnell

theorem step_writes_replying (earlyPayload : Bytes) (encode : PoolAnswer) :
    (c.writes (.replying earlyPayload) w s).step C T (writeInput encode) =
      match s.turn w.env with
      | .again s' | .pending s' => c.writes (.replying earlyPayload) w s'
      | .ready (.error f) s' =>
        refuse { c.writes (.replying earlyPayload) w s with
          tunnel := (c.tunnel.putWriting w s').1, asked := s'.asked, replyCut := true } encode f
      | .ready (.ok ()) s' =>
        let c := { c with tunnel := (c.tunnel.putWriting w s').1, asked := s'.asked }
        if earlyPayload = [] then c.startRelay encode else { c with phase := .forwarding earlyPayload } := by
  have hturn : (c.tunnel.putWriting w s).1.writeTurn (c.tunnel.putWriting w s).2 =
      (s.turn w.env).map (c.tunnel.putWriting w) := rfl
  simp only [step, writeInput, turn, writes, hturn]
  rcases s.turn w.env with s' | s' | ⟨_ | _, s'⟩ <;> rfl

theorem step_writes_expire (earlyPayload : Bytes) (encode : PoolAnswer) :
    (c.writes (.replying earlyPayload) w s).step C T (.expire encode) =
      refuse { c.writes (.replying earlyPayload) w s with asked := s.asked, replyCut := true } encode
        (.err .handshakeTimeout) := by
  rw [step, expire]
  rfl

theorem step_writes_rejecting (encode : PoolAnswer) :
    (c.writes .rejecting w s).step C T (writeInput encode) =
      match s.turn w.env with
      | .again s' | .pending s' => c.writes .rejecting w s'
      | .ready _ s' => { c with tunnel := (c.tunnel.putWriting w s').1, phase := .ended } := by
  have hturn : (c.tunnel.putWriting w s).1.writeTurn (c.tunnel.putWriting w s).2 =
      (s.turn w.env).map (c.tunnel.putWriting w) := rfl
  simp only [step, writeInput, turn, writes, hturn]
  rcases s.turn w.env with s' | s' | ⟨_, s'⟩ <;> rfl

theorem stepsTo_replying (earlyPayload : Bytes) (h : MovesTo (RecordWriter.turn w.env) s s') :
    StepsTo C T (c.writes (.replying earlyPayload) w s) (c.writes (.replying earlyPayload) w s') := by
  refine Relation.ReflTransGen.lift _ (fun s s' h => ⟨writeInput ⟨[], []⟩, ?_⟩) _ _ h
  rw [step_writes_replying]
  rcases h with h | h <;> rw [h]

theorem stepsTo_rejecting (h : MovesTo (RecordWriter.turn w.env) s s') :
    StepsTo C T (c.writes .rejecting w s) (c.writes .rejecting w s') := by
  refine Relation.ReflTransGen.lift _ (fun s s' h => ⟨writeInput ⟨[], []⟩, ?_⟩) _ _ h
  rw [step_writes_rejecting]
  rcases h with h | h <;> rw [h]

omit [RecordEncoder E] [RecordDecoder D] in
theorem refuse_unencoded {error : SessionError} {f : SessionFault} (h : rejection (c.describe error) = .error f)
    (encode : PoolAnswer) : c.refuse encode (.err error) = { c with phase := .ended } := by
  unfold refuse
  dsimp only
  rw [h]

omit [RecordEncoder E] [RecordDecoder D] in
theorem refuse_rejects {error : SessionError} {bytes : Bytes} (h : rejection (c.describe error) = .ok bytes)
    (encode : PoolAnswer) : c.refuse encode (.err error) =
      { c with phase := .rejecting (Tunnel.startWriting (c.env.leased encode) bytes c.asked) } := by
  unfold refuse
  dsimp only
  rw [h]

/-- The connection comes to what `open_remote` came to. -/
def Serves (C : Crypto) (T : IpText) (writer : WriteHalf) (env : OpenEnv Unit) (earlyPayload : Bytes) (c : Server E D)
    (r : Ended Unit × Outgoing E) : Prop :=
  ∃ c', StepsTo C T c c' ∧ c'.Shown writer r.2 ∧ Opened env earlyPayload r.1 c'.phase

section Serves

variable {writer : WriteHalf} {earlyPayload : Bytes} {c₀ : Server E D}

theorem Serves.after {env : OpenEnv Unit} {r : Ended Unit × Outgoing E} (h : c.Serves C T writer env earlyPayload r)
    (hs : StepsTo C T c₀ c) : c₀.Serves C T writer env earlyPayload r := by
  obtain ⟨c', hsteps, hshown, hopened⟩ := h
  exact ⟨c', hs.trans hsteps, hshown, hopened⟩

/-- The client is told of an error. -/
theorem refuse_serves {env : OpenEnv Unit} {encode : PoolAnswer} {error : SessionError} (hx : c.Shown writer x)
    (henv : env.reject = (c.env.leased encode).after c.asked) (hdescribe : env.describe = c.describe)
    (hpanic : (x.answerError env error).1 ≠ .returned (.error .panic)) :
    (c.refuse encode (.err error)).Serves C T writer env earlyPayload (x.answerError env error) := by
  unfold Outgoing.answerError at hpanic ⊢
  rw [Outgoing.writeReject_eq, hdescribe, henv] at hpanic ⊢
  rcases hrejected : rejection (c.describe error) with f | bytes <;> rw [hrejected] at hpanic
  · rw [refuse_unencoded hrejected]
    refine ⟨{ c with phase := .ended }, .refl, ?_⟩
    cases f with
    | panic => exact absurd rfl hpanic
    | err _ | diverged => exact ⟨⟨hx.writer_eq, hx.encoder_eq⟩, .failed⟩
  rw [refuse_rejects hrejected]
  simp only at hpanic ⊢
  have hcomes := RecordWriter.writePlainRecords_comesTo writer false (c.env.leased encode) c.asked x bytes
  generalize x.writePlainRecords false ((c.env.leased encode).after c.asked) bytes = written at hcomes hpanic
  obtain ⟨ended, x'⟩ := written
  have hcomes := hcomes fun h => hpanic (by simp only at h; subst h; rfl)
  rw [← hx.writer_eq, ← hx.encoder_eq] at hcomes
  let w := Tunnel.startWriting (c.env.leased encode) bytes c.asked
  cases hcomes with
  | @returned s' s'' r _ hreach hready hview =>
    refine ⟨{ c with tunnel := (c.tunnel.putWriting w s'').1, phase := .ended },
      (stepsTo_rejecting (w := w) hreach).tail ⟨writeInput encode, ?_⟩, ?_⟩
    · rw [step_writes_rejecting]
      simp only [w, Tunnel.startWriting, hready]
    · rcases r with (_ | _ | _) | _
      · exact ⟨⟨hview.writer, hview.encoder⟩, .failed⟩
      · exact absurd rfl hpanic
      · exact ⟨⟨hview.writer, hview.encoder⟩, .failed⟩
      · exact ⟨⟨hview.writer, hview.encoder⟩, .failed⟩
  | expired ht => cases ht
  | @stalled s' _ hreach hpending hview =>
    exact ⟨_, stepsTo_rejecting (w := w) hreach, ⟨hview.writer, hview.encoder⟩, .rejecting⟩

variable {dial : Dial Unit} {reply reject : PoolAnswer} {forward : Option (Except IoErrorKind Unit)}

/-- The Tunnel reply, behind a dial that succeeded; `c` is the connection to the
remote that was opened. -/
theorem reply_serves (hrun : dial.run = .returned (.ok ())) (hx : c.Shown writer x)
    (hpanic : (x.openRemote (c.openEnv dial reply reject forward) earlyPayload).1 ≠ .returned (.error .panic)) :
    let w := Tunnel.startWriting (c.env.leased reply) [commandTunnel] c.asked
    (c.writes (.replying earlyPayload) w (c.tunnel.writing w)).Serves C T writer (c.openEnv dial reply reject forward)
      earlyPayload (x.openRemote (c.openEnv dial reply reject forward) earlyPayload) := by
  intro w
  have hreject : (c.openEnv dial reply reject forward).reject = (c.env.leased reject).after (c.asked + 1) := by
    simp only [openEnv, Dial.replies, hrun]
  have htunnel : x.writeTunnel true (c.openEnv dial reply reject forward).tunnel =
      x.writePlainRecords true ((c.env.leased reply).after c.asked) [commandTunnel] := by
    rw [Outgoing.writeTunnel_eq]
    rfl
  have htimed : x.openTimed (c.openEnv dial reply reject forward) =
      Ended.andThen (x.writePlainRecords true ((c.env.leased reply).after c.asked) [commandTunnel])
        fun _ x => (.returned (.ok ()), x) := by
    rw [Outgoing.openTimed, show (c.openEnv dial reply reject forward).dial.run = _ from hrun, ← htunnel]
    rfl
  unfold Outgoing.openRemote at hpanic ⊢
  rw [htimed] at hpanic ⊢
  have hcomes := RecordWriter.writePlainRecords_comesTo writer true (c.env.leased reply) c.asked x [commandTunnel]
  rw [← hx.writer_eq, ← hx.encoder_eq] at hcomes
  generalize x.writePlainRecords true ((c.env.leased reply).after c.asked) [commandTunnel] = written at hcomes hpanic
  obtain ⟨ended, x'⟩ := written
  have hcomes := hcomes fun h => hpanic (by simp only at h; subst h; rfl)
  simp only [Ended.andThen] at hpanic ⊢
  -- the one record was asked for
  have hasked {s : RecordWriter E} (h : s.Shows writer c.asked 1 x') : s.asked = c.asked + 1 :=
    Nat.le_antisymm h.asked_le h.le_asked
  cases hcomes with
  | @returned s' s'' r _ hreach hready hview =>
    have hsteps := stepsTo_replying (C := C) (T := T) (c := c) (w := w) earlyPayload hreach
    have hlast := step_writes_replying (C := C) (T := T) (c := c) (w := w) (s := s') earlyPayload reject
    rw [show s'.turn w.env = _ from hready] at hlast
    have hsteps := hsteps.tail ⟨_, hlast⟩
    rcases r with (error | _ | _) | _
    · let cut : Server E D := { c.writes (.replying earlyPayload) w s' with
        tunnel := (c.tunnel.putWriting w s'').1, asked := s''.asked, replyCut := true }
      refine (refuse_serves (c := cut) ⟨hview.writer, hview.encoder⟩ (hreject.trans ?_) rfl hpanic).after hsteps
      rw [← hasked hview]
      rfl
    · exact absurd rfl hpanic
    · exact ⟨_, hsteps, ⟨hview.writer, hview.encoder⟩, .failed⟩
    · simp only at hsteps ⊢
      split at hsteps
      · next hearly =>
        rw [if_pos hearly]
        exact ⟨_, hsteps, ⟨hview.writer, hview.encoder⟩, .relaying hearly⟩
      · next hearly =>
        rw [if_neg hearly]
        have hforward : Opened (c.openEnv dial reply reject forward) earlyPayload _ _ := .forwarding hearly
        refine ⟨_, hsteps, ?_⟩
        rcases forward with _ | _ | _ <;> exact ⟨⟨hview.writer, hview.encoder⟩, hforward⟩
  | @expired s' s'' _ _ hreach hpending hview =>
    have hsteps := stepsTo_replying (C := C) (T := T) (c := c) (w := w) earlyPayload (hreach.tail (.inr hpending))
    have hsteps := hsteps.tail ⟨_, step_writes_expire earlyPayload reject⟩
    let cut : Server E D := { c.writes (.replying earlyPayload) w s'' with asked := s''.asked, replyCut := true }
    refine (refuse_serves (c := cut) ⟨hview.writer, hview.encoder⟩ (hreject.trans ?_) rfl hpanic).after hsteps
    rw [← hasked hview]
    rfl
  | @stalled s' _ hreach hpending hview =>
    exact ⟨_, stepsTo_replying (w := w) earlyPayload hreach, ⟨hview.writer, hview.encoder⟩, .replying⟩

/-- **`open_remote` is one function**: what the call comes to, the connection
comes to by its steps, and what is on the wire to the client and the encoder
are the same. -/
theorem openRemote_serves {request : ConnectRequest} {n : Nat} (hphase : c.phase = .dialing request n earlyPayload)
    (hx : c.Shown writer x)
    (hpanic : (x.openRemote (c.openEnv dial reply reject forward) earlyPayload).1 ≠ .returned (.error .panic)) :
    c.Serves C T writer (c.openEnv dial reply reject forward) earlyPayload
      (x.openRemote (c.openEnv dial reply reject forward) earlyPayload) := by
  have hopen : x.openTimed (c.openEnv dial reply reject forward) = Ended.andThen (dial.run, x) _ := rfl
  cases hrun : dial.run with
  | stalled =>
    unfold Outgoing.openRemote
    rw [hopen, hrun]
    exact ⟨c, .refl, hx, hphase ▸ .dialing⟩
  | expired =>
    have henv : (c.openEnv dial reply reject forward).reject = (c.env.leased reject).after c.asked := by
      simp only [openEnv, Dial.replies, hrun, Nat.add_zero]
    unfold Outgoing.openRemote at hpanic ⊢
    rw [hopen, hrun] at hpanic ⊢
    exact (refuse_serves hx henv rfl hpanic).after (.single ⟨.expire reject, by rw [step, expire, hphase]⟩)
  | returned result =>
    rcases result with f | ⟨⟩
    · have henv : (c.openEnv dial reply reject forward).reject = (c.env.leased reject).after c.asked := by
        simp only [openEnv, Dial.replies, hrun, Nat.add_zero]
      obtain ⟨error, rfl⟩ : ∃ error, f = .err error := by
        unfold Dial.run at hrun
        split at hrun
        · cases hrun
        · split at hrun <;> cases hrun
          exact ⟨_, rfl⟩
      unfold Outgoing.openRemote at hpanic ⊢
      rw [hopen, hrun] at hpanic ⊢
      exact (refuse_serves hx henv rfl hpanic).after
        (.single ⟨.dialed reject (.error error), by rw [step, dialed, hphase]⟩)
    · let c₁ : Server E D := { c with tunnel := { c.tunnel with plain := .new }, current := some (request, n) }
      have hserves := reply_serves (C := C) (T := T) (c := c₁) hrun ⟨hx.writer_eq, hx.encoder_eq⟩ hpanic
      exact hserves.after (.single ⟨.dialed reply (.ok ()), by rw [step, dialed, hphase]; rfl⟩)

end Serves

end Server

end Snell
