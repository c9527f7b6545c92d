/-
`write_plain_records` (`snell-runtime/src/session.rs`): a plaintext in as many
stream records as the window asks for.

Every turn of the loop seals a record with at least one byte (`StreamRoom`),
so it ends; and whichever way it ends, what it sealed are records of a front
of the source, in order, and what is on the wire a front of them.
-/
import Snell.StreamRoom

namespace Snell

open RecordEncoder

/-! ## The stream -/

/-- The stream ended a write: with an error, by claiming more than it was
offered, at the deadline, or never. -/
inductive StreamStops {α : Type} : Ended α → Prop
  | failed {kind} : StreamStops (.returned (.error (.err (.io kind))))
  | overran : StreamStops (.returned (.error .panic))
  | expired : StreamStops .expired
  | stalled : StreamStops .stalled

theorem SnellStream.writeAllBuf_stops (timed : Bool) (written : Bytes) (polls : List WritePoll) (bytes : Bytes) :
    (writeAllBuf timed written polls bytes).1 = .returned (.ok ()) ∨
    StreamStops (writeAllBuf timed written polls bytes).1 := by
  induction polls generalizing written bytes with
  | nil =>
    cases bytes with
    | nil => exact .inl rfl
    | cons b bytes => exact .inr .stalled
  | cons poll polls ih =>
    cases bytes with
    | nil => exact .inl (by simp [writeAllBuf])
    | cons b bytes =>
      cases poll with
      | pending expired =>
        rw [writeAllBuf]
        split
        · exact .inr .expired
        · exact ih written (b :: bytes)
      | failed kind => exact .inr .failed
      | took n =>
        rw [writeAllBuf]
        split
        · exact .inr .failed
        split
        · exact .inr .overran
        · exact ih _ _

/-- Nothing follows a write that the stream stopped. -/
theorem StreamStops.andThen {α β σ : Type} {r : Ended Unit} (h : StreamStops r) (next : SessionRes α) (x : σ)
    (rest : α → σ → Ended β × σ) : ∃ r', StreamStops r' ∧ Ended.andThen (r.followed next, x) rest = (r', x) := by
  cases h with
  | failed => exact ⟨_, .failed, rfl⟩
  | overran => exact ⟨_, .overran, rfl⟩
  | expired => exact ⟨_, .expired, rfl⟩
  | stalled => exact ⟨_, .stalled, rfl⟩

/-- Draining empties the lease and keeps its limit. -/
theorem drained_empty {encode : PooledBuffer} (hw : encode.buffer.Wf) :
    ∃ encode', drained encode = .ok encode' ∧ encode'.buffer.Wf ∧ encode'.buffer.filled = [] ∧
      encode'.buffer.max = encode.buffer.max := by
  simp only [drained, Buffer.consume_all hw, PooledBuffer.releaseEmpty, Buffer.takeEmptyStorage, Buffer.isEmpty,
    List.length_nil, BEq.rfl, ↓reduceIte]
  exact ⟨_, rfl, ⟨Nat.zero_le _, Nat.zero_le _⟩, rfl, rfl⟩

section Generic

variable {E : Type} [RecordEncoder E] [EncoderSpec E] [LawfulEncoder E] [DatagramEncoder E] [StreamEncoder E]

open EncoderSpec LawfulEncoder DatagramEncoder StreamEncoder

/-! ## One record -/

theorem fillPlain_room {src : Bytes} {n : Nat} (hpos : 0 < n) (hle : n ≤ src.length) :
    fillPlain src (List.replicate n 0) = .ok (n, src.take n) := by
  simp only [fillPlain, List.length_replicate, Nat.min_eq_left hle, if_neg (Nat.ne_of_gt hpos), List.drop_replicate,
    Nat.sub_self, List.replicate_zero, List.append_nil]

/-- What `encode_record` makes of the front of `src`: a record of at least one
byte, or the fault that sealing it ended with. -/
inductive PlainSealed (e : E) (src : Bytes) (env : SealEnv) : SessionRes (Nat × Nat) × E × PooledBuffer → Prop
  | sealed {n split e' encode'} : 0 < n → n ≤ src.length → SealedIn e e' encode' (src.take n) split → Roomy e' →
      encode'.buffer.max = v6WireCap → (∀ env' : SealEnv, env'.AeadServes → Serves e' env') →
      PlainSealed e src env (.ok (n, split), e', encode')
  | failed {e₁ : E} {f e' encode'} : Fails e₁ env f → ¬ Serves e env →
    PlainSealed e src env (.error f.inSession, e', encode')

/-- Asking for a plan in vain does not change what is sealed later. -/
theorem PlainSealed.of_plan {e : E} {src : Bytes} {env : SealEnv} {r : SessionRes (Nat × Nat) × E × PooledBuffer}
    {size : RecordSize} {now : Nat} (h : PlainSealed (plan e 0 size now).2 src env r) : PlainSealed e src env r := by
  cases h with
  | sealed hpos hle hsealed hr hmax hnext =>
    refine .sealed hpos hle ⟨hsealed.wf, hsealed.ready, hsealed.valid, hsealed.split_le, ?_⟩ hr hmax hnext
    rw [← plan_pos e 0 size now]
    exact hsealed.frame
  | failed hf hs => exact .failed hf fun h => hs (serves_plan _ _ _ _ _ h)

/-- Each turn but the last grows the lease, which is no larger than
`V6_WIRE_CAP` bytes; the last one seals. -/
theorem encodeRecord_plain (turns : Nat) {e : E} {encode : PooledBuffer} (clock : Nat → Nat) {src : Bytes} (env : SealEnv)
    (hv : Valid e) (hr : Roomy e) (hready : state e = .ready) (hw : encode.buffer.Wf) (hempty : encode.buffer.filled = [])
    (hmax : encode.buffer.max = v6WireCap) (hsrc : 0 < src.length)
    (hturns : v6WireCap < min encode.buffer.capacity v6WireCap + turns) :
    PlainSealed e src env (encodeRecord turns e encode (.stream src.length) clock env (fillPlain src)) := by
  induction turns generalizing e encode clock with
  | zero => omega
  | succ turns ih =>
    obtain ⟨p, e₁, hplan, hpos, hle, htotal⟩ := plan_stream (clock 0) hv hr hready hsrc
    have hlen : p.maxPayload ≤ src.length := by omega
    by_cases hcap : encode.buffer.capacity < p.total
    · obtain ⟨grown, hgrown, hnext⟩ := encodeRecord_grows turns env (fillPlain src) hw hempty hplan hcap (by omega)
        (by rw [hmax]; decide)
      obtain ⟨hstate, -, hv₁⟩ := plan_kept hv hplan
      have hr₁ := roomy_plan e 0 (.stream src.length) (clock 0) hr
      have hcapacity := hgrown.capacity
      rw [hplan] at hr₁
      have hrest := ih (fun i => clock (i + 1)) hv₁ hr₁ (hstate.trans hready) hgrown.wf (hgrown.filled.trans hempty)
        (hgrown.max.trans hmax) (by omega)
      rw [hnext]
      exact .of_plan (by rw [hplan]; exact hrest)
    · have htake : (src.take p.maxPayload).length = p.maxPayload := by rw [List.length_take]; omega
      have hroom : (encode.buffer.queue hw).refusal p.total = none := by
        have hzero : encode.buffer.len = 0 := by rw [← Buffer.filled_length, hempty, List.length_nil]
        exact Buffer.refusal_none.mpr ⟨by omega, by omega⟩
      rcases himage : image (setState e₁ .reserving) p (src.take p.maxPayload) env with ⟨f | ⟨split, bytes⟩, e'⟩
      · have hturn := encodeRecord_turn turns env hw hplan hroom (fillPlain_room hpos hlen) htake
        rw [himage] at hturn
        generalize encodeRecord (turns + 1) e encode (.stream src.length) clock env (fillPlain src) = result at hturn
        cases hturn with
        | failed =>
          refine .failed (image_fails hv hplan himage) fun hserves => ?_
          obtain ⟨r, e'', hok⟩ := stream_serves (src.take p.maxPayload) hserves hplan
          rw [hok] at himage
          cases himage
      · obtain ⟨encode', hencode, hsealed, hmax'⟩ := encodeRecord_room turns hv hw hempty hplan (by omega) (by omega)
          (fillPlain_room hpos hlen) htake himage
        rw [hencode]
        have hr' := roomy_image (setState e₁ .reserving) p (src.take p.maxPayload) env
          (roomy_set _ _ (by have := roomy_plan e 0 (.stream src.length) (clock 0) hr; rwa [hplan] at this))
        rw [himage] at hr'
        exact .sealed hpos hlen hsealed hr' (hmax'.trans hmax) fun env' haead => serves_next himage haead

/-! ## The loop -/

/-- `ring` never refuses, and the entropy source delivers for the next record. -/
def Served (e : E) (sealing : Nat → SealEnv) : Prop := Serves e (sealing 0) ∧ ∀ i, (sealing i).AeadServes

/-- How writing `src` ends: all of it in records on the wire, or some of it and
a record that would not seal, or the stream stopped. -/
inductive PlainEnd (e : E) (sealing : Nat → SealEnv) (written src : Bytes) : Ended Unit × Outgoing E → Prop
  | done {records x} : Chain Frame (pos e) records (pos x.encoder) → (records.map Prod.fst).flatten = src →
      x.stream.written = written ++ wireOf records → PlainEnd e sealing written src (.returned (.ok ()), x)
  | unsealed {records p f x} {e₁ : E} (rest : Bytes) : Chain Frame (pos e) records p →
      (records.map Prod.fst).flatten ++ rest = src → x.stream.written = written ++ wireOf records →
      Fails e₁ (sealing records.length) f → ¬ Served e sealing →
      PlainEnd e sealing written src (.returned (.error f.inSession), x)
  | unwritten {records p r x} (rest front : Bytes) : Chain Frame (pos e) records p →
      (records.map Prod.fst).flatten ++ rest = src → front <+: wireOf records →
      x.stream.written = written ++ front → StreamStops r →
      PlainEnd e sealing written src (r, x)

omit [StreamEncoder E] in
theorem PlainEnd.cons {e e' : E} (sealing : Nat → SealEnv) {written payload wire src : Bytes} {r : Ended Unit × Outgoing E}
    (hframe : Frame (pos e) payload wire (pos e')) (hserved : Served e sealing → Served e' fun i => sealing (i + 1))
    (h : PlainEnd e' (fun i => sealing (i + 1)) (written ++ wire) src r) :
    PlainEnd e sealing written (payload ++ src) r := by
  cases h with
  | @done records x hchain hsrc hw =>
    refine .done (.cons hframe hchain) ?_ ?_
    · rw [← hsrc]; rfl
    · rw [hw, List.append_assoc]; rfl
  | @unsealed records p f x e₁ rest hchain hsrc hw hf hs =>
    refine .unsealed rest (.cons hframe hchain) ?_ ?_ hf fun h => hs (hserved h)
    · rw [← hsrc, ← List.append_assoc]; rfl
    · rw [hw, List.append_assoc]; rfl
  | @unwritten records p r x rest front hchain hsrc hfront hw hr =>
    refine .unwritten rest (wire ++ front) (.cons hframe hchain) ?_ ?_ ?_ hr
    · rw [← hsrc, ← List.append_assoc]; rfl
    · exact (List.prefix_append_right_inj wire).mpr hfront
    · rw [hw, List.append_assoc]

namespace Outgoing

theorem writeRecords_ends (timed : Bool) (env : ReplyEnv) (fuel i : Nat) (x : Outgoing E) (encode : PooledBuffer)
    (src : Bytes) (hv : Valid x.encoder) (hr : Roomy x.encoder) (hready : state x.encoder = .ready)
    (hw : encode.buffer.Wf) (hempty : encode.buffer.filled = []) (hmax : encode.buffer.max = v6WireCap)
    (hfuel : src.length ≤ fuel) :
    PlainEnd x.encoder (fun k => env.sealing (i + k)) x.stream.written src
      (writeRecords timed env fuel i x encode src) := by
  induction fuel generalizing i x encode src with
  | zero =>
    obtain rfl : src = [] := List.eq_nil_of_length_eq_zero (by omega)
    rw [writeRecords, if_pos rfl]
    exact .done .nil rfl (List.append_nil _).symm
  | succ fuel ih =>
    rw [writeRecords]
    by_cases hsrc : src = []
    · subst hsrc
      rw [if_pos rfl]
      exact .done .nil rfl (List.append_nil _).symm
    rw [if_neg hsrc]
    have hone := encodeRecord_plain encodeTurns (env.clock i) (env.sealing i) hv hr hready hw hempty hmax
      (List.length_pos_iff.mpr hsrc) (by simp only [encodeTurns]; omega)
    change PlainSealed x.encoder src (env.sealing i) (encodePlain env i x.encoder encode src) at hone
    generalize encodePlain env i x.encoder encode src = encoded at hone
    cases hone with
    | failed hf hs => exact .unsealed src .nil rfl (List.append_nil _).symm hf fun h => hs h.1
    | @sealed n split e' encode' hpos hle hsealed hr' hmax' hnext =>
      obtain ⟨encode₂, hdrained, hw₂, hempty₂, hmax₂⟩ := drained_empty hsealed.wf
      obtain ⟨front, hwrote, hfront, hall⟩ :=
        SnellStream.writeAllBuf_wrote timed x.stream.written x.stream.polls (rotate split encode'.buffer.filled)
      have hstops := SnellStream.writeAllBuf_stops timed x.stream.written x.stream.polls
        (rotate split encode'.buffer.filled)
      simp only [drainEncode, if_neg (Nat.not_lt.mpr hsealed.split_le), hdrained]
      generalize SnellStream.writeAllBuf timed x.stream.written x.stream.polls (rotate split encode'.buffer.filled) = r
        at hwrote hall hstops ⊢
      obtain ⟨r, stream⟩ := r
      simp only at hwrote hall hstops ⊢
      rcases hstops with rfl | hstops
      · -- this record is out, and the loop goes on behind it
        obtain rfl := hall rfl
        have hrest := ih (i + 1) ⟨e', stream⟩ encode₂ (src.drop n) hsealed.valid hr' hsealed.ready hw₂ hempty₂
          (hmax₂.trans hmax') (by rw [List.length_drop]; omega)
        simp only [hwrote, Nat.add_right_comm i 1, Nat.add_assoc i] at hrest
        have := PlainEnd.cons (fun k => env.sealing (i + k)) hsealed.frame
          (fun h => ⟨hnext _ (h.2 1), fun k => h.2 (k + 1)⟩) hrest
        rw [List.take_append_drop] at this
        exact this
      · have hchain : Chain Frame (pos x.encoder) [(src.take n, rotate split encode'.buffer.filled)] (pos e') :=
          .cons hsealed.frame .nil
        have hwire : wireOf [(src.take n, rotate split encode'.buffer.filled)] = rotate split encode'.buffer.filled := by
          simp [wireOf]
        obtain ⟨r', hr', heq⟩ := hstops.andThen (.ok encode₂) (⟨e', stream⟩ : Outgoing E) fun encode x =>
          writeRecords timed env fuel (i + 1) x encode (src.drop n)
        rw [heq]
        exact .unwritten (src.drop n) front hchain (by simp) (by rw [hwire]; exact hfront) hwrote hr'

end Outgoing

/-- Whatever the source, the pool, the clock, the AEAD and the stream do, and
whether a deadline is set: `write_plain_records` ends in one of these ways, so
it never runs on, nor fails for lack of room. -/
def WritesPlain (e : E) : Prop :=
  ∀ timed env written polls src,
    PlainEnd e env.sealing written src (Outgoing.writePlainRecords timed env ⟨e, ⟨written, polls⟩⟩ src)

theorem writesPlain {e : E} (hv : Valid e) (hr : Roomy e) (hready : state e = .ready) : WritesPlain e := by
  intro timed env written polls src
  have h := Outgoing.writeRecords_ends timed env src.length 0 ⟨e, ⟨written, polls⟩⟩ env.lease src hv hr hready
    ⟨Nat.zero_le _, Nat.zero_le _⟩ rfl rfl (Nat.le_refl _)
  simp only [Nat.zero_add] at h
  rw [Outgoing.writePlainRecords, PooledBuffer.get_ok]
  exact h

/-- In every ready state a run leads to. -/
def StreamsOn (e₀ : E) : Prop := ∀ e, EncoderReaches e₀ e → state e = .ready → OffersRoom e ∧ WritesPlain e

theorem streamsOn {e₀ : E} (hv : Valid e₀) (hr : Roomy e₀) : StreamsOn e₀ := by
  intro e hreaches hready
  obtain ⟨hv', hr'⟩ := hreaches.roomy hv hr
  exact ⟨offersRoom hv' hr' hready, writesPlain hv' hr' hready⟩

end Generic

/-- **A stream reservation always offers room**, from each encoder as `new`
makes it, and so every plaintext gets written. -/
theorem stream_reservation_offers_room (C : Crypto) (ε : Type) [Entropy ε] :
    (∀ psk (entropy : ε) ne (enc : V4Encoder C ε), V4Encoder.new psk entropy ne = .ok enc → StreamsOn enc) ∧
      (∀ psk (entropy : ε) (enc : V6ShapedEncoder C), V6ShapedEncoder.new psk entropy = .ok enc → StreamsOn enc) ∧
      ∀ psk (entropy : ε) (enc : V6UnshapedEncoder C), V6UnshapedEncoder.new psk entropy = .ok enc → StreamsOn enc := by
  refine ⟨fun psk entropy ne enc h => ?_, fun _ _ _ _ => streamsOn trivial trivial,
    fun _ _ _ _ => streamsOn trivial trivial⟩
  obtain ⟨hv, hr⟩ := V4Encoder.new_roomy h
  exact streamsOn hv hr

/-- Each encoder as `new` makes it, from a source that repeats a byte. -/
theorem stream_reservation_offers_room_fresh :
    let psk : Psk := ⟨List.replicate 16 7, by decide⟩
    ∃ (enc₄ : V4Encoder Crypto.transparent RepeatEntropy) (enc₆ : V6ShapedEncoder Crypto.transparent)
      (enc : V6UnshapedEncoder Crypto.transparent),
      (V4Encoder.new psk ⟨3⟩ .little = .ok enc₄ ∧ OffersRoom enc₄ ∧ WritesPlain enc₄) ∧
        (V6ShapedEncoder.new (psk.profiled _) (⟨3⟩ : RepeatEntropy) = .ok enc₆ ∧ OffersRoom enc₆ ∧ WritesPlain enc₆) ∧
        V6UnshapedEncoder.new psk (⟨3⟩ : RepeatEntropy) = .ok enc ∧ OffersRoom enc ∧ WritesPlain enc := by
  intro psk
  obtain ⟨h₄, h₆, h⟩ := stream_reservation_offers_room Crypto.transparent RepeatEntropy
  exact ⟨_, _, _, ⟨rfl, h₄ psk ⟨3⟩ .little _ rfl _ ⟨[], rfl⟩ rfl⟩, ⟨rfl, h₆ (psk.profiled _) ⟨3⟩ _ rfl _ ⟨[], rfl⟩ rfl⟩,
    rfl, h psk ⟨3⟩ _ rfl _ ⟨[], rfl⟩ rfl⟩

end Snell
