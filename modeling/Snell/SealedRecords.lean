/-
What an encoder's seals are of.

The seals of a run, as `Logged` keeps them, are those of
the records it sealed, one after another, and at most one header more, whose
body was refused (`sealRun_sent`).
-/
import Snell.NonceUse

namespace Snell

open RecordEncoder EncoderSpec AeadLog

/-! ## A run -/

/-- From record `i` and nonce `k` on, the records `rs` were sealed under `key`,
and `log` are all the seals. Each record comes with its bytes, if the call
that sealed it returned them; `Head` and `Whole` are what the codec makes of
record `i` and of its bytes. -/
inductive Sent (C : Crypto) (key : C.Key) (Head : Nat → SealedRecord → Prop)
    (Whole : (i k : Nat) → SealedRecord → Option Bytes → Prop) :
    (i k : Nat) → List (SealedRecord × Option Bytes) → List AeadSeal → Prop
  | nil {i k} : Sent C key Head Whole i k [] []
  | torn {i k r} : Head i r → r.payload ≠ [] → Sent C key Head Whole i k [] [r.header C key (.nth k)]
  | cons {i k r wire rs log} : Head i r → Whole i k r wire →
      Sent C key Head Whole (i + 1) (k + sealCount r.payload) rs log →
      Sent C key Head Whole i k ((r, wire) :: rs) (r.seals C key (.nth k) ++ log)

section Payload

variable {E : Type} [RecordEncoder E]

/-- The payload a reservation is closed with: the prefix, and the caller's
bytes as they are in the buffer then. -/
def Close.payload (close : Close) (pfx : Bytes) (slot : Slot) (b : Buffer) : Bytes :=
  match close with
  | .sealMut n _ => pfx ++ slot.written b n
  | .sealInit n _ => pfx ++ slot.written { b with storage := b.storage ++ b.spare } n
  | .drop | .forget => []

def Attempt.payload (a : Attempt) (e : E) (b : Buffer) : Bytes :=
  match reserve e b a.pfx a.size a.now with
  | (.error _, _, _) => []
  | (.ok (slot, _), _, b) =>
    match slot.accesses b a.accesses with
    | .error _ => []
    | .ok b => a.close.payload a.pfx slot b

end Payload

variable {E : Type} [RecordEncoder E] [AeadLog E]

/-- The bytes of the record, if it was sealed. -/
def Outcome.wire : Outcome → Option Bytes
  | .sealed _ wire => some wire
  | _ => none

/-- The payloads a run seals, in order, each with the record's bytes, and every
AEAD seal it makes. A record counts once its seals are made, also when the
call then fails or never returns. -/
def sealRun (l : Logged E) : List RecordOp → List (Bytes × Option Bytes) × List AeadSeal
  | [] => ([], l.log)
  | op :: ops =>
    let payload := op.attempt.payload l.enc op.buf
    let r := op.run l
    let now := if r.2.1.log.length = l.log.length + sealCount payload then [(payload, r.1.wire)] else []
    if r.1.returns then
      let rest := sealRun r.2.1 ops
      (now ++ rest.1, rest.2)
    else (now, r.2.1.log)

/-- Those sealed records whose bytes were returned. -/
def sentRecords (rs : List (Bytes × Option Bytes)) : List (Bytes × Bytes) := rs.filterMap fun r => r.2.map (Prod.mk r.1)

/-- An encoder whose seals are known from its state, the plan and the payload. -/
class SealLog (C : Crypto) (E : Type) [RecordEncoder E] [EncoderSpec E] [AeadLog E] where
  key : E → C.Key
  /-- What sealing a payload as planned seals. -/
  sealing : E → Plan → (payload : Bytes) → SealedRecord
  sealing_payload : ∀ (e : E) p payload, (sealing e p payload).payload = payload
  finish_log : ∀ {e : E} {p slot record live head pfx content b}, Laid e p slot record →
    Held slot p.room live head p.fixed pfx content b → ∀ {len : Nat}, len ≤ (pfx ++ content).length →
    len ≤ slot.maxPayload → ∀ env, seals e b slot record len env =
      (sealing e p ((pfx ++ content).take len)).sealsIn C (key e) (AeadLog.nonce e) env
  image_allowed : ∀ {e e' : E} {p payload env x}, image e p payload env = (.ok x, e') →
    env.headerRefused = false ∧ (payload ≠ [] → env.bodyRefused = false)

namespace SealLog

variable {C : Crypto} [EncoderSpec E] [SealLog C E]

/-- The call seals `payload` as the encoder would: its seals are those of the
record, and what it returns is the record's image. -/
structure SealsAs (C : Crypto) [SealLog C E] (e : E) (p : Plan) (payload : Bytes) (l : Logged E)
    (r : Attempted × Logged E × Buffer) : Prop where
  length_le : payload.length ≤ p.maxPayload
  closed : ∃ env capacity e', r.2.1.log = l.log ++ (sealing C e p payload).sealsIn C (key e) (AeadLog.nonce e) env ∧
    ((∃ split record, image e p payload env = (.ok (split, record), e') ∧
        r.1 = .sealed capacity payload split record) ∨
      ∃ f, image e p payload env = (.error f, e') ∧ r.1 = .failed capacity f)

/-- `finish` as the end of a reservation, logged. -/
theorem finish_sealsAs {slot : Slot} {p : Plan} {live head pfx content payload : Bytes} {b : Buffer} {l : Logged E}
    {record : Record E} (hl : Laid l.enc p slot record) (h : Held slot p.room live head p.fixed pfx content b)
    {len : Nat} (hc : len ≤ (pfx ++ content).length) (hm : len ≤ slot.maxPayload) (hmax : slot.maxPayload = p.maxPayload)
    (hpay : (pfx ++ content).take len = payload) {before : Nat} (hbefore : before = live.length) (env : SealEnv) :
    SealsAs C l.enc p payload l
      (sealAttempted slot.capacity before payload (Reservation.dropped slot (finish l b slot record len env))) := by
  have hlog := finish_log (C := C) hl h hc hm env
  have hfin := finish_spec hl h hc hm env
  have hlen : payload.length ≤ p.maxPayload := by rw [← hpay, List.length_take]; omega
  have hfinish : finish l b slot record len env = ((finish l.enc b slot record len env).1,
    ⟨(finish l.enc b slot record len env).2.1, l.log ++ seals l.enc b slot record len env⟩,
    (finish l.enc b slot record len env).2.2) := rfl
  rw [hpay] at hlog hfin
  rw [hfinish, hlog]
  generalize finish l.enc b slot record len env = finished at hfin
  obtain ⟨r, e', b'⟩ := finished
  rcases hi : image l.enc p payload env with ⟨ri, ei⟩
  rw [hi] at hfin
  simp only [Reservation.dropped, cancel_logged]
  refine ⟨hlen, env, slot.capacity, ei, ?_⟩
  cases hfin with
  | @ok split record e b' hf =>
    have hne : state e' ≠ .reserving := by rw [image_ok hi]; intro h; cases h
    refine ⟨rfl, .inl ⟨split, record, hi, ?_⟩⟩
    simp only [sealAttempted, Reservation.cancel, if_neg hne, hf, hbefore, List.drop_left]
  | @error err | @stopped f => exact ⟨rfl, .inr ⟨_, hi, rfl⟩⟩

omit [EncoderSpec E] in
theorem unsealed_log {slot : Slot} (l : Logged E) (b : Buffer) (f : Fault) (capacity before : Nat) (payload : Bytes) :
    (sealAttempted capacity before payload (Reservation.dropped slot (.error f, l, b))).2.1.log = l.log ∧
      (sealAttempted capacity before payload (Reservation.dropped slot (.error f, l, b))).1.isSealed = false := by
  simp only [Reservation.dropped, cancel_logged, sealAttempted]
  exact ⟨trivial, rfl⟩

/-- Closing a reservation seals nothing, or the payload it is closed with. -/
theorem close_sealsAs {slot : Slot} {p : Plan} {live head pfx : Bytes} {d : Draft} {b : Buffer} {l : Logged E}
    {record : Record E} (h : Drafted slot p live head pfx d b) (hl : Laid l.enc p slot record)
    (hm : slot.maxPayload = p.maxPayload) (close : Close) {before : Nat} (hbefore : before = live.length) :
    ((close.attempt before pfx l b slot record).2.1.log = l.log ∧
        (close.attempt before pfx l b slot record).1.isSealed = false) ∨
      SealsAs C l.enc p (close.payload pfx slot b) l (close.attempt before pfx l b slot record) := by
  have hp := h.held.prefixLen; have hstop := h.held.stop; have hpre := h.held.prefix_le
  cases close with
  | sealMut n env =>
    simp only [Close.attempt, Close.payload, Reservation.sealMut, Slot.total]
    by_cases ht : slot.prefixLen + n ≤ slot.maxPayload
    · simp only [if_pos ht]
      split
      · exact .inl (unsealed_log l b _ _ _ _)
      · right
        rw [hp]
        refine finish_sealsAs hl h.held (by rw [List.length_append]; omega) (by omega) hm ?_ hbefore env
        rw [List.take_length_add_append, h.written n]
    · simp only [if_neg ht]
      exact .inl (unsealed_log l b _ _ _ _)
  | sealInit n env =>
    simp only [Close.attempt, Close.payload, Reservation.sealInit, Slot.total]
    by_cases ht : slot.prefixLen + n ≤ slot.maxPayload
    · simp only [if_pos ht]
      split
      · exact .inl (unsealed_log l b _ _ _ _)
      · next hu =>
        have hd : d.content = [] := by
          simp only [Slot.unwrittenStart, ne_eq, Decidable.not_not] at hu
          exact List.eq_nil_of_length_eq_zero (by omega)
        have hheld := h.held
        rw [hd] at hheld
        have hcap : n ≤ slot.capacity := by rw [Slot.capacity]; omega
        obtain ⟨b₁, hc, hheld₁, hlen, -⟩ := hheld.commit (n := n) (by rw [hd, List.length_nil] at hstop; omega)
        have hspare : b.spare.take n = d.uninit.take n := by
          rw [← h.uninit hd, List.take_take, Nat.min_eq_left hcap]
        rw [hspare] at hheld₁ hlen
        right
        simp only [hc]
        rw [hp]
        refine finish_sealsAs hl hheld₁ (by rw [List.length_append]; omega) (by omega) hm ?_ hbefore env
        rw [List.take_length_add_append, List.take_take, Nat.min_self, h.written_init hd hcap]
    · simp only [if_neg ht]
      exact .inl (unsealed_log l b _ _ _ _)
  | drop =>
    simp only [Close.attempt, cancel_logged]
    exact .inl ⟨trivial, rfl⟩
  | forget => exact .inl ⟨rfl, rfl⟩

/-- **One reservation** seals nothing, or the payload it is closed with. -/
theorem attempt_sealsAs (C : Crypto) [SealLog C E] (a : Attempt) (l : Logged E) {b : Buffer} (hw : b.Wf) :
    ((a.run l b).2.1.log = l.log ∧ (a.run l b).1.isSealed = false) ∨
      ∃ p e₁, plan l.enc a.pfx.length a.size a.now = (.ok p, e₁) ∧
        SealsAs C (setState e₁ .reserving) p (a.payload l.enc b) l (a.run l b) := by
  have hres := reserve_spec l.enc b hw a.pfx a.size a.now
  have hreserve : reserve l b a.pfx a.size a.now = ((reserve l.enc b a.pfx a.size a.now).1,
    ⟨(reserve l.enc b a.pfx a.size a.now).2.1, l.log⟩, (reserve l.enc b a.pfx a.size a.now).2.2) := rfl
  unfold Attempt.run Attempt.payload
  rw [hreserve]
  rcases hplan : plan l.enc a.pfx.length a.size a.now with ⟨r, e'⟩
  rw [hplan] at hres
  generalize reserve l.enc b a.pfx a.size a.now = result at hres
  cases hres with
  | unplanned | refused => exact .inl ⟨rfl, rfl⟩
  | @held p e' slot record head b₁ _ hm hh _ hl =>
    obtain ⟨b₂, hacc, -, hd⟩ := (Drafted.start hh).accesses a.accesses
    simp only [hacc]
    rcases close_sealsAs (C := C) (l := ⟨setState e' .reserving, l.log⟩) hd hl hm a.close
        (Buffer.filled_length b).symm with hnone | hseals
    · exact .inl hnone
    · exact .inr ⟨p, e', rfl, hseals.length_le, hseals.closed⟩

end SealLog

/-! ## Runs of a codec's encoder -/

section Codec

open LawfulEncoder SealLog

variable {C : Crypto} [EncoderSpec E] [SealLog C E] [LawfulEncoder E]

/-- An encoder at `posAt i k` is about to seal record `i` under nonce `k`, as
`Head` and `Whole` say. -/
structure SealsInOrder (C : Crypto) (E : Type) [RecordEncoder E] [AeadLog E] [EncoderSpec E] [SealLog C E]
    [LawfulEncoder E] (secret : C.Key) (posAt : Nat → Nat → Pos E) (Head : Nat → SealedRecord → Prop)
    (Whole : (i k : Nat) → SealedRecord → Option Bytes → Prop) : Prop where
  keyed : ∀ {e : E} {i k}, pos e = posAt i k → key e = secret ∧ AeadLog.nonce e = .nth k
  head : ∀ {e e₁ : E} {i k n size now p payload}, Valid e → pos e = posAt i k → plan e n size now = (.ok p, e₁) →
    payload.length ≤ p.maxPayload → Head i (sealing C (setState e₁ .reserving) p payload)
  whole : ∀ {e e₁ e' : E} {i k n size now p payload env split record}, Valid e → pos e = posAt i k →
    plan e n size now = (.ok p, e₁) → image (setState e₁ .reserving) p payload env = (.ok (split, record), e') →
    Whole i k (sealing C (setState e₁ .reserving) p payload) (some (rotate split record))
  /-- Sealing that fails with every seal made. -/
  failed : ∀ {e e₁ e' : E} {i k n size now p payload env f}, Valid e → pos e = posAt i k →
    plan e n size now = (.ok p, e₁) → image (setState e₁ .reserving) p payload env = (.error f, e') →
    (sealing C (setState e₁ .reserving) p payload).sealsIn C secret (.nth k) env =
      (sealing C (setState e₁ .reserving) p payload).seals C secret (.nth k) →
    Whole i k (sealing C (setState e₁ .reserving) p payload) none
  frame : ∀ {i k payload wire p'}, Frame (E := E) (posAt i k) payload wire p' →
    p' = posAt (i + 1) (k + sealCount payload)

omit [LawfulEncoder E] in
theorem sealRun_blocked {l : Logged E} (h : state l.enc ≠ .ready) (ops : List RecordOp) : sealRun l ops = ([], l.log) := by
  induction ops with
  | nil => rfl
  | cons op ops ih =>
    obtain ⟨err, -, hrun⟩ := attempt_blocked op.wf h op.attempt
    have hcount := sealCount_pos (op.attempt.payload l.enc op.buf)
    rw [sealRun, op.run_eq, hrun]
    simp only [Attempted.outcome, Outcome.returns, ↓reduceIte, ih]
    rw [if_neg (by omega)]
    rfl

theorem outcome_returns (r : Attempted) : r.outcome.returns = r.returns := by
  cases r with
  | refused f => cases f <;> rfl
  | failed capacity f => cases f <;> rfl
  | _ => rfl

omit [LawfulEncoder E] in
/-- A call that seals a record makes its seals. -/
theorem attempt_counts (C : Crypto) [SealLog C E] (a : Attempt) (l : Logged E) {b : Buffer} (hw : b.Wf) :
    (a.run l b).1.isSealed = false ∨
      (a.run l b).2.1.log.length = l.log.length + sealCount (a.payload l.enc b) ∧
        ∃ capacity split record, (a.run l b).1 = .sealed capacity (a.payload l.enc b) split record := by
  rcases attempt_sealsAs C a l hw with ⟨-, hns⟩ | ⟨p, e₁, -, -, env, capacity, e₂, hlog,
    ⟨split, record, hi, hr⟩ | ⟨f, -, hr⟩⟩
  · exact .inl hns
  · refine .inr ⟨?_, capacity, split, record, hr⟩
    obtain ⟨hh, hb⟩ := image_allowed (C := C) hi
    have hpay := sealing_payload (C := C) (setState e₁ .reserving) p (a.payload l.enc b)
    rw [hlog, List.length_append, SealedRecord.sealsIn_allowed C _ _ _ hh (by rw [hpay]; exact hb),
      SealedRecord.length_seals, hpay]
  · exact .inl (by rw [hr]; rfl)

omit [LawfulEncoder E] in
/-- The records of a run that come with their bytes are those it sends. -/
theorem sealRun_encodeRun (C : Crypto) [SealLog C E] (l : Logged E) (ops : List RecordOp) :
    (encodeRun l.enc ops).1 = sentRecords (sealRun l ops).1 := by
  induction ops generalizing l with
  | nil => rfl
  | cons op ops ih =>
    obtain ⟨log, hrun, -, -⟩ := attempt_follows op.attempt l op.buf
    have hcounts := attempt_counts C op.attempt l op.wf
    rw [encodeRun, sealRun, op.run_eq, op.run_eq]
    rw [hrun] at hcounts ⊢
    generalize op.attempt.run l.enc op.buf = run at hcounts
    obtain ⟨r, e', b'⟩ := run
    simp only at hcounts ⊢
    rcases hcounts with hns | ⟨hlen, capacity, split, record, rfl⟩
    · -- without bytes it is not sent, whether or not its seals were made
      have hskip : ∀ (made : Prop) [Decidable made] (payload : Bytes) (rest : List (Bytes × Option Bytes)),
          sentRecords ((if made then [(payload, none)] else []) ++ rest) = sentRecords rest := by
        intro made _ payload rest
        split <;> rfl
      have hrest := ih ⟨e', l.log ++ log⟩
      cases r with
      | sealed => cases hns
      | refused f | failed _ f =>
        simp only [Attempted.outcome, Outcome.wire]
        by_cases hret : (Outcome.failed f).returns = true
        · simp only [hret, if_true]
          rw [hskip, ← hrest]
        · simp only [hret, if_false, Bool.false_eq_true]
          split <;> rfl
      | dropped | forgotten =>
        simp only [Attempted.outcome, Outcome.wire, Outcome.returns, if_true]
        rw [hskip, ← hrest]
    · rw [if_pos hlen]
      simp only [Attempted.outcome, Outcome.returns, Outcome.wire, if_true, List.singleton_append, sentRecords,
        List.filterMap_cons, Option.map_some]
      rw [← sentRecords, ← ih ⟨e', l.log ++ log⟩]

variable {secret : C.Key} {posAt : Nat → Nat → Pos E} {Head : Nat → SealedRecord → Prop}
  {Whole : (i k : Nat) → SealedRecord → Option Bytes → Prop}

/-- What one reservation of an encoder at record `i` and nonce `k` does: it seals
nothing, a header without its body, or the record; and where it leaves an
encoder that can go on. -/
inductive Advances (secret : C.Key) (posAt : Nat → Nat → Pos E) (Head : Nat → SealedRecord → Prop)
    (Whole : (i k : Nat) → SealedRecord → Option Bytes → Prop) (i k : Nat) (payload : Bytes) (r : Attempted) (e' : E) :
    List AeadSeal → Prop
  | nothing : (r.returns = true → state e' = .ready → Valid e' ∧ pos e' = posAt i k) →
      Advances secret posAt Head Whole i k payload r e' []
  | torn {s} : Head i s → s.payload = payload → payload ≠ [] → (r.returns = true → state e' ≠ .ready) →
      Advances secret posAt Head Whole i k payload r e' [s.header C secret (.nth k)]
  | record {s} : Head i s → Whole i k s r.outcome.wire → s.payload = payload →
      (r.returns = true → state e' = .ready → Valid e' ∧ pos e' = posAt (i + 1) (k + sealCount payload)) →
      Advances secret posAt Head Whole i k payload r e' (s.seals C secret (.nth k))

theorem attempt_advances (hC : SealsInOrder C E secret posAt Head Whole) {l : Logged E} {i k : Nat} (hv : Valid l.enc)
    (hp : pos l.enc = posAt i k) (a : Attempt) {b : Buffer} (hw : b.Wf) :
    ∃ log, (a.run l b).2.1.log = l.log ++ log ∧
      Advances secret posAt Head Whole i k (a.payload l.enc b) (a.run l b).1 (a.run l b).2.1.enc log := by
  obtain ⟨log, hrun, -, hpoison⟩ := attempt_follows a l b
  obtain ⟨⟨hends, hvalid⟩, -⟩ := run_ends hv a hw
  have hseals := attempt_sealsAs C a l hw
  rw [hrun] at hseals ⊢
  generalize a.payload l.enc b = payload at hseals
  generalize a.run l.enc b = run at hends hvalid hpoison hseals
  obtain ⟨r, e', b'⟩ := run
  simp only at hends hvalid hpoison hseals ⊢
  refine ⟨log, rfl, ?_⟩
  -- a call that sealed no record and can go on is where it was
  have hkept : r.isSealed = false → r.returns = true → state e' = .ready → Valid e' ∧ pos e' = posAt i k := by
    intro hns hret hready
    refine ⟨hvalid hret, ?_⟩
    rw [← hp]
    cases hends with
    | refused _ hpos | unsealable _ _ hpos | dropped _ _ hpos => exact hpos
    | sealed => cases hns
    | forgotten _ hs => rw [hs] at hready; cases hready
    | @failed _ _ f _ _ _ hst =>
      cases f with
      | panic | diverged => cases hret
      | err err =>
        rcases hst err rfl with ⟨-, hpos⟩ | hs
        · exact hpos
        · rw [hs] at hready; cases hready
  rcases hseals with ⟨hlog, hns⟩ | ⟨p, e₁, hplan, hlen, env, capacity, e₂, hlog, hclosed⟩
  · obtain rfl : log = [] := List.append_cancel_left (hlog.trans (List.append_nil _).symm)
    exact .nothing (hkept hns)
  have hpos₁ : pos (setState e₁ .reserving) = posAt i k := by
    rw [pos_set, (plan_kept hv hplan).2.1, hp]
  obtain ⟨hkey, hnonce⟩ := hC.keyed hpos₁
  have hhead := hC.head hv hp hplan hlen
  have hpay := sealing_payload (C := C) (setState e₁ .reserving) p payload
  rw [hkey, hnonce] at hlog
  obtain rfl := List.append_cancel_left hlog
  rcases hclosed with ⟨split, record, hi, rfl⟩ | ⟨f, hi, rfl⟩
  · obtain ⟨hh, hb⟩ := image_allowed (C := C) hi
    rw [SealedRecord.sealsIn_allowed C _ _ _ hh (by rw [hpay]; exact hb)]
    refine .record hhead (hC.whole hv hp hplan hi) hpay fun hret _ => ⟨hvalid hret, ?_⟩
    cases hends with
    | sealed _ _ hframe =>
      rw [hp] at hframe
      exact hC.frame hframe
  · have hfailed := hC.failed hv hp hplan hi
    generalize sealing C (setState e₁ .reserving) p payload = s at *
    -- it failed, and behind a seal that left the encoder poisoned
    have hstopped : s.sealsIn C secret (.nth k) env ≠ [] → (Attempted.failed capacity f).returns = true →
        state e' ≠ .ready := by
      intro hne hret
      cases f with
      | panic | diverged => cases hret
      | err err => rw [hpoison ⟨capacity, err, rfl⟩ hne]; nofun
    rcases s.sealsIn_cases C secret (.nth k) env with hnil | ⟨hne, htorn⟩ | hall
    · rw [hnil]
      exact .nothing (hkept rfl)
    · rw [htorn] at hstopped ⊢
      exact .torn hhead hpay (by rw [← hpay]; exact hne) (hstopped (List.cons_ne_nil _ _))
    · rw [hall] at hstopped ⊢
      refine .record hhead (hfailed hall) hpay fun hret hready => absurd hready (hstopped ?_ hret)
      exact List.cons_ne_nil _ _

/-- **A run's seals are its records'**: one after another from where the
encoder is, and a last header whose body was refused, if there is one. -/
theorem sealRun_sent (hC : SealsInOrder C E secret posAt Head Whole) {l : Logged E} {i k : Nat} (hv : Valid l.enc)
    (hp : pos l.enc = posAt i k) (ops : List RecordOp) :
    ∃ rs log, (sealRun l ops).1 = rs.map (fun r => (r.1.payload, r.2)) ∧ (sealRun l ops).2 = l.log ++ log ∧
      Sent C secret Head Whole i k rs log := by
  induction ops generalizing l i k with
  | nil => exact ⟨[], [], rfl, (List.append_nil _).symm, .nil⟩
  | cons op ops ih =>
    obtain ⟨new, hlog, hadv⟩ := attempt_advances hC hv hp op.attempt op.wf
    rw [sealRun, op.run_eq]
    simp only [outcome_returns]
    generalize op.attempt.payload l.enc op.buf = payload at hadv
    generalize op.attempt.run l op.buf = run at hlog hadv
    obtain ⟨r, l', b'⟩ := run
    simp only at hlog hadv ⊢
    have hcount : l'.log.length = l.log.length + sealCount payload ↔ new.length = sealCount payload := by
      rw [hlog, List.length_append]
      omega
    simp only [hcount]
    generalize hnow : (if new.length = sealCount payload then [(payload, r.outcome.wire)] else []) = now
    have hsplit : (if r.returns = true then (now ++ (sealRun l' ops).1, (sealRun l' ops).2) else (now, l'.log)) =
        (now ++ if r.returns then (sealRun l' ops).1 else [], if r.returns then (sealRun l' ops).2 else l'.log) := by
      split
      · rfl
      · rw [List.append_nil]
    rw [hsplit]
    -- what the calls after this one add, if it leaves the encoder at `i'` and `k'`
    have hrest : ∀ i' k', (r.returns = true → state l'.enc = .ready → Valid l'.enc ∧ pos l'.enc = posAt i' k') →
        ∃ rs log, (if r.returns then (sealRun l' ops).1 else []) = rs.map (fun r => (r.1.payload, r.2)) ∧
          (if r.returns then (sealRun l' ops).2 else l'.log) = l.log ++ (new ++ log) ∧
          Sent C secret Head Whole i' k' rs log := by
      intro i' k' hgo
      have hnone : l'.log = l.log ++ (new ++ []) := by rw [List.append_nil, hlog]
      by_cases hret : r.returns = true
      · rw [if_pos hret, if_pos hret]
        by_cases hready : state l'.enc = .ready
        · obtain ⟨hv', hp'⟩ := hgo hret hready
          obtain ⟨rs, log, hrs, hl, hsent⟩ := ih hv' hp'
          exact ⟨rs, log, hrs, by rw [hl, hlog, List.append_assoc], hsent⟩
        · rw [sealRun_blocked hready]
          exact ⟨[], [], rfl, hnone, .nil⟩
      · rw [if_neg hret, if_neg hret]
        exact ⟨[], [], rfl, hnone, .nil⟩
    have hpos := sealCount_pos payload
    cases hadv with
    | nothing hgo =>
      obtain ⟨rs, log, hrs, hl, hsent⟩ := hrest i k hgo
      obtain rfl : now = [] := by rw [← hnow, if_neg (by rw [List.length_nil]; omega)]
      exact ⟨rs, log, hrs, hl, hsent⟩
    | @torn s hhead hpay hne hstop =>
      obtain rfl : now = [] := by
        have htwo : sealCount payload = 2 := if_neg hne
        rw [← hnow, if_neg (by rw [htwo]; nofun)]
      refine ⟨[], [s.header C secret (.nth k)], ?_, ?_, .torn hhead (by rw [hpay]; exact hne)⟩
      · split
        · next hret => rw [sealRun_blocked (hstop hret)]; rfl
        · rfl
      · rw [← hlog]
        split
        · next hret => rw [sealRun_blocked (hstop hret)]
        · rfl
    | @record s hhead hwhole hpay hgo =>
      obtain ⟨rs, log, hrs, hl, hsent⟩ := hrest _ _ hgo
      obtain rfl : now = [(payload, r.outcome.wire)] := by
        rw [← hnow, if_pos (by rw [SealedRecord.length_seals, hpay])]
      refine ⟨(s, r.outcome.wire) :: rs, s.seals C secret (.nth k) ++ log, ?_, hl,
        .cons hhead hwhole (by rw [hpay]; exact hsent)⟩
      rw [hrs, List.map_cons, hpay]
      rfl

end Codec

end Snell
