/-
What writing a record from a session comes to: with a writer that does not
fail, what was sealed is written in wire order, and a datagram is one record
or is refused as too large, in at most two turns of `encode_record`.
-/
import Snell.SessionWrite
import Snell.LawfulEncoder

namespace Snell

open RecordEncoder

/-! ## A writer that does not fail -/

/-- The writer takes some of what it is offered, every time. -/
class LawfulWriter (W : Type) [AsyncWrite W] where
  /-- All that was written. -/
  written : W → Bytes
  write_ok : ∀ (w : W) {bytes : Bytes}, bytes ≠ [] → ∃ n w', AsyncWrite.write w bytes = (.ok n, w') ∧ 0 < n ∧
    n ≤ bytes.length ∧ written w' = written w ++ bytes.take n

open LawfulWriter

/-- A writer that takes `most + 1` bytes at a time. -/
structure Sink where
  taken : Bytes
  most : Nat

instance : AsyncWrite Sink where
  write w bytes := (.ok (min (w.most + 1) bytes.length), { w with taken := w.taken ++ bytes.take (w.most + 1) })

instance : LawfulWriter Sink where
  written := Sink.taken
  write_ok w bytes hne := by
    have hpos := List.length_pos_iff.mpr hne
    refine ⟨_, _, rfl, by omega, Nat.min_le_right _ _, ?_⟩
    rw [← List.take_eq_take_min]

section Writer

variable {W : Type} [AsyncWrite W] [LawfulWriter W]

theorem writeAllBuf_ok {fuel : Nat} (w : W) (bytes : Bytes) (h : bytes.length ≤ fuel) :
    ∃ w', writeAllBuf fuel w bytes = (.ok (), w') ∧ written w' = written w ++ bytes := by
  induction fuel generalizing w bytes with
  | zero =>
    cases List.eq_nil_of_length_eq_zero (Nat.le_zero.mp h)
    exact ⟨w, rfl, (List.append_nil _).symm⟩
  | succ fuel ih =>
    cases bytes with
    | nil => exact ⟨w, rfl, (List.append_nil _).symm⟩
    | cons b bytes =>
      obtain ⟨n, w₁, hwrite, hpos, hle, hwritten⟩ := write_ok w (List.cons_ne_nil b bytes)
      obtain ⟨w', hrest, hall⟩ := ih w₁ ((b :: bytes).drop n) (by rw [List.length_drop]; omega)
      refine ⟨w', ?_, ?_⟩
      · simp only [writeAllBuf, hwrite]
        rw [if_neg (by omega), if_neg (by omega)]
        exact hrest
      · rw [hall, hwritten, List.append_assoc, List.take_append_drop]

theorem drainEncode_ok (w : W) {encode : PooledBuffer} {split : Nat}
    (hsplit : split ≤ encode.buffer.filled.length) :
    ∃ w' encode', drainEncode w encode split = (.ok (), w', encode') ∧
      written w' = written w ++ rotate split encode.buffer.filled := by
  have hlen : (encode.buffer.filled.drop split ++ encode.buffer.filled.take split).length ≤
      encode.buffer.filled.length := by
    rw [List.length_append, List.length_drop, List.length_take]; omega
  obtain ⟨w', hwrite, hwritten⟩ := writeAllBuf_ok w _ hlen
  obtain ⟨buffer, hconsume⟩ := Buffer.consume_fits (b := encode.buffer) (Nat.le_refl _)
  refine ⟨w', PooledBuffer.releaseEmpty { encode with buffer }, ?_, hwritten⟩
  simp only [drainEncode, hwrite, hconsume]
  rw [if_neg (by omega)]

end Writer

/-! ## One turn of `encode_record` -/

/-- What `payload_mut` hands out first: zeros. -/
theorem Held.payloadSlice {slot : Slot} {room : Nat} {live head fixed pfx : Bytes} {b : Buffer}
    (h : Held slot room live head fixed pfx [] b) :
    ∃ b', slot.payloadSlice b = .ok (List.replicate slot.capacity 0, b') ∧
      ∀ data, data.length = slot.capacity → slot.payloadMut b data = .ok (b'.writeAt slot.unwrittenStart data) := by
  obtain ⟨b', hmut, _, hheld⟩ := h.payloadMut []
  simp only [Slot.payloadMut, bind, Except.bind] at hmut
  split at hmut
  · cases hmut
  · next b₁ hext =>
    split at hmut
    · cases hmut
    · next region hrange =>
      cases hmut
      have hzeros : overwrite [] ([] ++ List.replicate (slot.capacity - ([] : Bytes).length) 0) =
          List.replicate slot.capacity 0 := by simp [overwrite]
      have hstorage := hheld.storage
      have hp := h.prefixLen; have hs := h.payloadStart; have hpre := h.prefix_le
      rw [hzeros] at hstorage
      simp only [List.take_nil, Buffer.writeAt, List.length_nil, Nat.add_zero, List.append_nil,
        List.take_append_drop] at hstorage
      have hregion : region = List.replicate slot.capacity 0 := by
        have hmiddle := slice_middle (head ++ (fixed ++ pfx)) (List.replicate slot.capacity 0) []
        simp only [List.append_nil, List.append_assoc, ← hstorage, List.length_append, List.length_replicate] at hmiddle
        simp only [Buffer.range] at hrange
        have hat : slot.unwrittenStart = head.length + (fixed.length + pfx.length) := by
          simp only [Slot.unwrittenStart]; omega
        have hend : slot.payloadEnd = head.length + (fixed.length + pfx.length) + slot.capacity := by
          simp only [Slot.payloadEnd, Slot.capacity]; omega
        rw [hat, hend, hmiddle] at hrange
        exact (Except.ok.inj hrange).symm
      subst hregion
      refine ⟨b₁, by simp only [Slot.payloadSlice, hext, bind, Except.bind, hrange]; rfl, fun data hdata => ?_⟩
      simp only [Slot.payloadMut, hext, bind, Except.bind, hrange, List.length_replicate]
      rw [List.take_of_length_le (Nat.le_of_eq hdata)]
      rfl

section Record

variable {E : Type} [RecordEncoder E] [EncoderSpec E] {e e₁ : E} {slot : Slot} {record : Record E} {size : RecordSize}
  {now : Nat} {b : Buffer} {encode : PooledBuffer} {env : SealEnv} {fill : Bytes → Res (Nat × Bytes)}

open EncoderSpec

/-- The attempt a filled reservation is. -/
def filledAttempt (size : RecordSize) (now : Nat) (content : Bytes) (n : Nat) (env : SealEnv) : Attempt :=
  ⟨[], size, now, [.payloadMut content], .sealMut n env⟩

/-- What a turn of `encode_record` with room for the record comes to, from the
image of what was filled in. -/
inductive Turned (encode : PooledBuffer) (n : Nat) :
    Res (Nat × Bytes) × E → SessionRes (Nat × Nat) × E × PooledBuffer → Prop
  | sealed {split bytes e' b'} : b'.filled = encode.buffer.filled ++ bytes → Buffer.Kept encode.buffer b' →
      Turned encode n (.ok (split, bytes), e') (.ok (n, split), e', { encode with buffer := b' })
  | failed {f e' e'' encode'} : Turned encode n (.error f, e') (.error f.inSession, e'', encode')

omit [EncoderSpec E] in
/-- Behind `reserve`, filling and sealing is the attempt. -/
theorem fillAndSeal_attempt {n : Nat} {content : Bytes} {room : Nat} {live head fixed : Bytes} {r : Attempted} {e' : E}
    {b' : Buffer} (hreserve : reserve e encode.buffer [] size now = (.ok (slot, record), e₁, b))
    (hheld : Held slot room live head fixed [] [] b) (hfill : fill (List.replicate slot.capacity 0) = .ok (n, content))
    (hlen : content.length = slot.capacity)
    (hrun : (filledAttempt size now content n env).run e encode.buffer = (r, e', b')) :
    (∀ capacity payload split bytes, r = .sealed capacity payload split bytes →
      fillAndSeal e₁ { encode with buffer := b } slot record env fill =
        (.ok (n, split), e', { encode with buffer := b' })) ∧
      ∀ capacity f, r = .failed capacity f →
        fillAndSeal e₁ { encode with buffer := b } slot record env fill =
          (.error f.inSession, e', { encode with buffer := b' }) := by
  obtain ⟨b₂, hslice, hmut⟩ := hheld.payloadSlice
  simp only [Attempt.run, filledAttempt, hreserve, Slot.accesses, List.foldlM_cons, List.foldlM_nil, Slot.access,
    hmut content hlen, bind, Except.bind, pure, Except.pure, Close.attempt, sealAttempted] at hrun
  simp only [fillAndSeal, hslice, hfill]
  split at hrun
  · next hseal =>
    cases hrun
    refine ⟨fun _ _ _ _ hr => ?_, fun _ _ hr => by cases hr⟩
    cases hr
    rw [hseal]
  · next hseal =>
    cases hrun
    refine ⟨fun _ _ _ _ hr => (by cases hr), fun _ _ hr => ?_⟩
    cases hr
    rw [hseal]

/-- The attempt seals all that was filled in. -/
theorem filledAttempt_spec {p : Plan} {content : Bytes} (hplan : plan e 0 size now = (.ok p, e₁))
    {q : BoundedQueue UInt8} (hroom : q.refusal p.total = none) (hlen : content.length = p.maxPayload) (stale : Bytes) :
    (filledAttempt size now content p.maxPayload env).spec e q stale =
      sealSpec (setState e₁ .reserving) p [] (.ok content) env := by
  have hdraft : overwrite content (List.replicate p.maxPayload 0) = content := by
    rw [overwrite, List.length_replicate, List.take_of_length_le (Nat.le_of_eq hlen), hlen,
      List.drop_of_length_le (by simp), List.append_nil]
  have hcapacity : p.capacity ([] : Bytes) = p.maxPayload := rfl
  have htake : content.take p.maxPayload = content := List.take_of_length_le (Nat.le_of_eq hlen)
  simp only [filledAttempt, Attempt.spec, List.length_nil, hplan, hroom, Close.spec, hcapacity, Draft.accesses,
    List.foldl_cons, List.foldl_nil, Draft.access, Draft.start, List.nil_append, Nat.sub_zero, hdraft, Draft.sealMut,
    Nat.zero_add, Nat.lt_irrefl, hlen, ↓reduceIte, htake]

/-- With room in the buffer, what is filled in is sealed, or the seal fails. -/
theorem encodeRecord_turn (turns : Nat) (env : SealEnv) {p : Plan} {content : Bytes} {clock : Nat → Nat}
    (hw : encode.buffer.Wf) (hplan : plan e 0 size (clock 0) = (.ok p, e₁))
    (hroom : (encode.buffer.queue hw).refusal p.total = none)
    (hfill : fill (List.replicate p.maxPayload 0) = .ok (p.maxPayload, content))
    (hlen : content.length = p.maxPayload) :
    Turned encode p.maxPayload (image (setState e₁ .reserving) p content env)
      (encodeRecord (turns + 1) e encode size clock env fill) := by
  let a := filledAttempt size (clock 0) content p.maxPayload env
  obtain ⟨stale, hmeets⟩ := a.run_spec e hw
  rw [filledAttempt_spec hplan hroom hlen stale] at hmeets
  have hres := reserve_spec e encode.buffer hw [] size (clock 0)
  rw [List.length_nil, hplan] at hres
  rcases hrun : a.run e encode.buffer with ⟨r, e', b'⟩
  rw [hrun] at hmeets
  simp only [encodeRecord]
  generalize hreserve : reserve e encode.buffer [] size (clock 0) = result at hres
  cases hres with
  | refused hr => rw [hroom] at hr; cases hr
  | @held _ _ slot record head b₁ _ hm hheld _ _ =>
    have hslot : slot.capacity = p.maxPayload := by rw [Slot.capacity, hm, hheld.prefixLen]; rfl
    obtain ⟨hsealed, hfailed⟩ :=
      fillAndSeal_attempt hreserve hheld (by rw [hslot]; exact hfill) (by rw [hslot]; exact hlen) hrun
    obtain ⟨hr, he, hf, hk⟩ := hmeets
    rcases hi : image (setState e₁ .reserving) p content env with ⟨f | ⟨split, bytes⟩, e''⟩
    · simp only [sealSpec, hi] at hr
      simp only [hfailed _ _ hr]
      exact .failed
    · simp only [sealSpec, hi] at hr he hf hk
      obtain rfl := he rfl
      simp only [hsealed _ _ _ _ hr]
      exact .sealed (hf rfl) (hk rfl)

/-- An empty buffer too small for the record: the codec asks for what it needs
and the next turn has it. -/
theorem encodeRecord_grows (turns : Nat) (env : SealEnv) (fill : Bytes → Res (Nat × Bytes)) {p : Plan} {clock : Nat → Nat}
    (hw : encode.buffer.Wf)
    (hempty : encode.buffer.filled = []) (hplan : plan e 0 size (clock 0) = (.ok p, e₁))
    (hcap : encode.buffer.capacity < p.total) (hmax : p.total ≤ encode.buffer.max) (hclass : encode.buffer.max ≤ 73728) :
    ∃ grown, PooledBuffer.Grown encode grown p.total ∧
      encodeRecord (turns + 1) e encode size clock env fill =
        encodeRecord turns e₁ grown size (fun i => clock (i + 1)) env fill := by
  have hzero : (encode.buffer.queue hw).length = 0 := by
    rw [Buffer.queue_length, ← Buffer.filled_length, hempty, List.length_nil]
  have hover : (encode.buffer.queue hw).refusal p.total = some .overCapacity :=
    BoundedQueue.refusal_eq_overCapacity.mpr ⟨show _ ≤ encode.buffer.max by omega,
      show encode.buffer.capacity < _ by omega⟩
  have hres := reserve_spec e encode.buffer hw [] size (clock 0)
  rw [List.length_nil, hplan] at hres
  rw [encodeRecord]
  generalize reserve e encode.buffer [] size (clock 0) = result at hres
  cases hres with
  | held hr _ _ _ _ => rw [hover] at hr; cases hr
  | refused hr =>
    cases hover.symm.trans hr
    rw [Buffer.queue_length] at hzero
    obtain ⟨grown, hensure, hgrown⟩ := PooledBuffer.ensure_grown (p := encode) p.total hw (by omega) hmax (by omega)
    have hneeded : (encode.buffer.queue hw).length + p.total = p.total := by rw [Buffer.queue_length]; omega
    refine ⟨grown, hgrown, ?_⟩
    simp only [Buffer.refusalError, hneeded, hensure]

variable [LawfulEncoder E]

open LawfulEncoder

/-- A record in a lease: sealed from where the encoder was, and all there is. -/
structure SealedIn (e e' : E) (encode' : PooledBuffer) (payload : Bytes) (split : Nat) : Prop where
  wf : encode'.buffer.Wf
  ready : state e' = .ready
  valid : Valid e'
  split_le : split ≤ encode'.buffer.filled.length
  frame : Frame (pos e) payload (rotate split encode'.buffer.filled) (pos e')

/-- With room in an empty buffer, what is filled in is sealed. -/
theorem encodeRecord_room (turns : Nat) {p : Plan} {content : Bytes} {clock : Nat → Nat} (hv : Valid e)
    (hw : encode.buffer.Wf) (hempty : encode.buffer.filled = []) (hplan : plan e 0 size (clock 0) = (.ok p, e₁))
    (hcap : p.total ≤ encode.buffer.capacity) (hmax : p.total ≤ encode.buffer.max)
    (hfill : fill (List.replicate p.maxPayload 0) = .ok (p.maxPayload, content)) (hlen : content.length = p.maxPayload)
    {split : Nat} {bytes : Bytes} {e' : E}
    (himage : image (setState e₁ .reserving) p content env = (.ok (split, bytes), e')) :
    ∃ encode', encodeRecord (turns + 1) e encode size clock env fill = (.ok (p.maxPayload, split), e', encode') ∧
      SealedIn e e' encode' content split ∧ encode'.buffer.max = encode.buffer.max := by
  have hzero : encode.buffer.len = 0 := by rw [← Buffer.filled_length, hempty, List.length_nil]
  have hroom : (encode.buffer.queue hw).refusal p.total = none := Buffer.refusal_none.mpr ⟨by omega, by omega⟩
  have hturn := encodeRecord_turn turns env hw hplan hroom hfill hlen
  rw [himage] at hturn
  obtain ⟨hv', hsplit, hframe⟩ := image_frame hv hplan (Nat.le_of_eq hlen) himage
  generalize encodeRecord (turns + 1) e encode size clock env fill = result at hturn
  cases hturn with
  | @sealed _ _ _ b' hf hk =>
    rw [hempty, List.nil_append] at hf
    exact ⟨{ encode with buffer := b' }, rfl, ⟨hk.wf, image_ok himage, hv', by rw [hf]; exact hsplit,
      by rw [hf]; exact hframe⟩, hk.max⟩

end Record

/-! ## Datagrams -/

open EncoderSpec LawfulEncoder in
/-- What the datagram path needs of an encoder: a datagram is planned as it is
asked for, up to a limit, whatever the clock reads, and sealing succeeds if
nothing outside fails. -/
class DatagramEncoder (E : Type) [RecordEncoder E] [EncoderSpec E] [LawfulEncoder E] where
  /-- The longest payload of one record. -/
  limit : Nat
  /-- Bytes reserved for a datagram. -/
  total : E → (len : Nat) → Nat
  plan_datagram : ∀ {e : E} {len} now, state e = .ready → len ≤ limit →
    ∃ p, plan e 0 (.datagram len) now = (.ok p, e) ∧ p.maxPayload = len ∧ p.total = total e len
  plan_tooLarge : ∀ {e : E} {len} now, state e = .ready → limit < len →
    plan e 0 (.datagram len) now = (.error (.err .payloadTooLarge), e)
  /-- The AEAD does not refuse and entropy is delivered. -/
  Serves : E → SealEnv → Prop
  image_serves : ∀ {e : E} {len now p payload env}, Valid e → Serves e env → plan e 0 (.datagram len) now = (.ok p, e) →
    ∃ r e', image (setState e .reserving) p payload env = (.ok r, e')

section Datagram

variable {E : Type} [RecordEncoder E] [EncoderSpec E] [LawfulEncoder E] [DatagramEncoder E] {e : E} {len turns : Nat}
  {encode : PooledBuffer} {clock : Nat → Nat} {env : SealEnv} {fill : Bytes → Res (Nat × Bytes)}

open EncoderSpec LawfulEncoder DatagramEncoder

/-- A datagram over the limit, or over the buffer's, is too large. -/
theorem encodeRecord_tooLarge (hready : state e = .ready) (hw : encode.buffer.Wf)
    (hlarge : limit E < len ∨ len ≤ limit E ∧ encode.buffer.max < total e len) :
    encodeRecord (turns + 1) e encode (.datagram len) clock env fill =
      (.error (.err (.protocol .payloadTooLarge)), e, encode) := by
  have hres := reserve_spec e encode.buffer hw [] (.datagram len) (clock 0)
  rw [List.length_nil] at hres
  simp only [encodeRecord]
  rcases hlarge with hlimit | ⟨hlimit, hmax⟩
  · rw [plan_tooLarge _ hready hlimit] at hres
    generalize reserve e encode.buffer [] (.datagram len) (clock 0) = result at hres
    cases hres
    rfl
  · obtain ⟨p, hplan, -, htotal⟩ := plan_datagram (clock 0) hready hlimit
    rw [hplan] at hres
    have hover : (encode.buffer.queue hw).refusal p.total = some .overLimit :=
      BoundedQueue.refusal_eq_overLimit.mpr (show encode.buffer.max < _ by omega)
    generalize reserve e encode.buffer [] (.datagram len) (clock 0) = result at hres
    cases hres with
    | refused hr => cases hover.symm.trans hr; rfl
    | held hr _ _ _ _ => rw [hover] at hr; cases hr

/-- A datagram that fits is sealed, after one growth of the buffer at most. -/
theorem encodeRecord_datagram (turns : Nat) (clock : Nat → Nat) {content : Bytes} (hv : Valid e)
    (hready : state e = .ready) (hserves : Serves e env) (hw : encode.buffer.Wf) (hempty : encode.buffer.filled = [])
    (hlimit : len ≤ limit E) (hmax : total e len ≤ encode.buffer.max) (hclass : encode.buffer.max ≤ 73728)
    (hfill : fill (List.replicate len 0) = .ok (len, content)) (hlen : content.length = len) :
    ∃ split e' encode', encodeRecord (turns + 2) e encode (.datagram len) clock env fill =
      (.ok (len, split), e', encode') ∧
      SealedIn e e' encode' content split := by
  have hturn : ∀ {turns : Nat} {encode : PooledBuffer} {clock : Nat → Nat}, encode.buffer.Wf → encode.buffer.filled = [] →
      total e len ≤ encode.buffer.capacity → total e len ≤ encode.buffer.max →
      ∃ split e' encode', encodeRecord (turns + 1) e encode (.datagram len) clock env fill =
        (.ok (len, split), e', encode') ∧
        SealedIn e e' encode' content split := by
    intro turns encode clock hw hempty hcap hmax
    obtain ⟨p, hplan, rfl, htotal⟩ := plan_datagram (clock 0) hready hlimit
    obtain ⟨⟨split, bytes⟩, e', himage⟩ := image_serves hv hserves hplan
    obtain ⟨encode', hencode, hsealed, -⟩ :=
      encodeRecord_room turns hv hw hempty hplan (by omega) (by omega) hfill hlen himage
    exact ⟨split, e', encode', hencode, hsealed⟩
  by_cases hcap : total e len ≤ encode.buffer.capacity
  · exact hturn hw hempty hcap hmax
  · obtain ⟨p, hplan, -, htotal⟩ := plan_datagram (clock 0) hready hlimit
    obtain ⟨grown, hgrown, hnext⟩ := encodeRecord_grows (turns + 1) env fill hw hempty hplan
      (by omega) (by omega) hclass
    rw [hnext]
    exact hturn hgrown.wf (hgrown.filled.trans hempty) (by rw [← htotal]; exact hgrown.capacity)
      (by rw [hgrown.max]; exact hmax)

/-- The datagram fits a record, and the record fits the lease. -/
def Fits (e : E) (len : Nat) : Prop := len ≤ limit E ∧ total e len ≤ v6WireCap

variable {W : Type} [AsyncWrite W] {needed : Nat} {env : WriteEnv}

theorem writeUdpPlain_tooLarge (w : W) (hready : state e = .ready) (hlarge : ¬ Fits e needed) :
    writeUdpPlain e w needed env fill = (.error (.err (.protocol .payloadTooLarge)), e, w) := by
  have hover : limit E < needed ∨ needed ≤ limit E ∧ v6WireCap < total e needed := by
    simp only [Fits, not_and] at hlarge
    by_cases hlimit : limit E < needed
    · exact .inl hlimit
    · exact .inr ⟨by omega, Nat.lt_of_not_le (hlarge (by omega))⟩
  simp only [writeUdpPlain, PooledBuffer.get_ok, encodeTurns]
  rw [encodeRecord_tooLarge hready ⟨Nat.zero_le _, Nat.zero_le _⟩ hover]

/-- A datagram that fits is written as one record. -/
theorem writeUdpPlain_fits [LawfulWriter W] (w : W) {content : Bytes} (hv : Valid e) (hready : state e = .ready)
    (hserves : Serves e env.sealing) (hfits : Fits e needed)
    (hfill : fill (List.replicate needed 0) = .ok (needed, content)) (hlen : content.length = needed) :
    ∃ e' w' wire, writeUdpPlain e w needed env fill = (.ok (), e', w') ∧ state e' = .ready ∧
      Frame (pos e) content wire (pos e') ∧ written w' = written w ++ wire := by
  let lease : PooledBuffer := ⟨⟨[], env.popped, 0, v6WireCap⟩, env.scans⟩
  have hw : lease.buffer.Wf := ⟨Nat.zero_le _, Nat.zero_le _⟩
  obtain ⟨split, e', encode', hencode, hsealed⟩ := encodeRecord_datagram v6WireCap env.clock hv hready hserves hw rfl
    hfits.1 hfits.2 (show v6WireCap ≤ 73728 by decide) hfill hlen
  obtain ⟨w', _, hdrain, hwritten⟩ := drainEncode_ok w hsealed.split_le
  refine ⟨e', w', _, ?_, hsealed.ready, hsealed.frame, hwritten⟩
  simp only [writeUdpPlain, PooledBuffer.get_ok, encodeTurns]
  rw [hencode]
  simp only [hdrain]

end Datagram

end Snell
