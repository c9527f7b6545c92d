/-
Which nonces an encoder seals under.

`Logged E` is the encoder `E` with a ghost field: every AEAD seal that
succeeded, in order, with the nonce it used and what came out. It runs
wherever an encoder does, and does what `E` does. Whatever is sealed, dropped,
refused or leaked, the `i`-th seal is under the nonce `i`, and an encoder that
failed with its nonce moved, or was left in a reservation, seals no more
(`nonces_used_once`).
-/
import Snell.Reservations

namespace Snell

open RecordEncoder LittleEndian

/-- Seals under consecutive nonces, from one nonce to another. -/
inductive Consecutive : Nonce → List AeadSeal → Nonce → Prop
  | nil {n} : Consecutive n [] n
  | cons {s n log n'} : s.nonce = n → Consecutive n.increment log n' → Consecutive n (s :: log) n'

namespace Consecutive

variable {n n' n'' : Nonce} {log log' : List AeadSeal} {k : Nat}

theorem append (h : Consecutive n log n') (h' : Consecutive n' log' n'') : Consecutive n (log ++ log') n'' := by
  induction h with
  | nil => exact h'
  | cons hs _ ih => exact .cons hs (ih h')

theorem stop (h : Consecutive (.nth k) log n) : n = .nth (k + log.length) := by
  induction log generalizing k with
  | nil => cases h; rfl
  | cons s log ih =>
    cases h with
    | cons _ h =>
      rw [Nonce.nth_increment] at h
      rw [ih h, List.length_cons, Nat.add_right_comm, Nat.add_assoc]

theorem getElem? (h : Consecutive (.nth k) log n) {i : Nat} {s : AeadSeal} (hs : log[i]? = some s) :
    s.nonce = .nth (k + i) := by
  induction log generalizing k i with
  | nil => cases hs
  | cons s₀ log ih =>
    cases h with
    | cons hstart h =>
      rw [Nonce.nth_increment] at h
      cases i with
      | zero => cases hs; exact hstart
      | succ i => rw [ih h hs, Nat.add_right_comm, Nat.add_assoc]

/-- Fewer seals than there are nonces use each at most once. -/
theorem nodup (h : Consecutive .new log n) (hlen : log.length ≤ 2 ^ 96) : (log.map AeadSeal.nonce).Nodup := by
  rw [← Nonce.nth_zero] at h
  rw [List.nodup_iff_getElem?_ne_getElem?]
  intro i j hij hj heq
  rw [List.length_map] at hj
  simp only [List.getElem?_map, List.getElem?_eq_getElem hj, List.getElem?_eq_getElem (Nat.lt_trans hij hj),
    Option.map_some, Option.some.injEq] at heq
  rw [h.getElem? (List.getElem?_eq_getElem hj), h.getElem? (List.getElem?_eq_getElem (Nat.lt_trans hij hj)),
    Nat.zero_add, Nat.zero_add] at heq
  exact Nat.ne_of_lt hij (Nonce.nth_inj (by omega) (by omega) heq)

/-- A seal or two move the nonce. -/
theorem moved (h : Consecutive n log n') (hne : log ≠ []) (hlen : log.length ≤ 2) : n' ≠ n := by
  have hn : n = .nth (leNat n.1) := by
    refine Subtype.ext ?_
    have := leBytes_leNat n.1
    rw [n.2] at this
    exact this.symm
  rw [hn] at h ⊢
  rw [h.stop]
  exact Nonce.nth_ne_add (List.length_pos_iff.mpr hne) (by omega)

end Consecutive

/-! ## Logged encoders -/

/-- An encoder whose `finish` can be followed seal by seal. -/
class AeadLog (E : Type) [RecordEncoder E] where
  nonce : E → Nonce
  /-- The seals `finish` makes. -/
  seals : E → Buffer → Slot → Record E → (payloadLen : Nat) → SealEnv → List AeadSeal
  nonce_set : ∀ (e : E) s, nonce (setState e s) = nonce e
  reserve_nonce : ∀ (e : E) b pfx size now, nonce (reserve e b pfx size now).2.1 = nonce e
  consecutive : ∀ (e : E) b slot record n env, Consecutive (nonce e) (seals e b slot record n env)
    (nonce (finish e b slot record n env).2.1)
  /-- Failing behind a seal poisons. -/
  poisons : ∀ (e : E) b slot record n env err, (finish e b slot record n env).1 = .error (.err err) →
    seals e b slot record n env ≠ [] → state (finish e b slot record n env).2.1 = .poisoned

structure Logged (E : Type) where
  enc : E
  /-- The seals so far. -/
  log : List AeadSeal

open AeadLog

instance {E : Type} [RecordEncoder E] [AeadLog E] : RecordEncoder (Logged E) where
  Record := Record E
  state l := state l.enc
  setState l s := { l with enc := setState l.enc s }
  reserve l b pfx size now :=
    let r := reserve l.enc b pfx size now
    (r.1, { l with enc := r.2.1 }, r.2.2)
  finish l b slot record n env :=
    let r := finish l.enc b slot record n env
    (r.1, ⟨r.2.1, l.log ++ seals l.enc b slot record n env⟩, r.2.2)

section Generic

variable {E α : Type} [RecordEncoder E] [AeadLog E] {failed : α → Prop} {l : Logged E}

/-- A call on a logged encoder does what it does on the encoder, and logs
consecutive seals; if it fails behind one, the encoder is poisoned. -/
def Follows (failed : α → Prop) (l : Logged E) (r : α × E × Buffer) (r' : α × Logged E × Buffer) : Prop :=
  ∃ log, r' = (r.1, ⟨r.2.1, l.log ++ log⟩, r.2.2) ∧ Consecutive (nonce l.enc) log (nonce r.2.1) ∧
    (failed r.1 → log ≠ [] → state r.2.1 = .poisoned)

theorem Follows.unlogged (x : α) {e : E} (b : Buffer) (h : nonce e = nonce l.enc) :
    Follows failed l (x, e, b) (x, ⟨e, l.log⟩, b) :=
  ⟨[], by rw [List.append_nil], by rw [h]; exact .nil, fun _ hne => absurd rfl hne⟩

/-- The call returned an error. -/
def sealFailed (r : Res Nat) : Prop := ∃ err, r = .error (.err err)

theorem finish_follows (l : Logged E) (b : Buffer) (slot : Slot) (record : Record E) (n : Nat) (env : SealEnv) :
    Follows sealFailed l (finish l.enc b slot record n env) (finish l b slot record n env) := by
  refine ⟨seals l.enc b slot record n env, rfl, consecutive l.enc b slot record n env, ?_⟩
  rintro ⟨err, herr⟩ hne
  exact poisons l.enc b slot record n env err herr hne

theorem cancel_nonce (e : E) (b : Buffer) (slot : Slot) : nonce (Reservation.cancel e b slot).1 = nonce e := by
  unfold Reservation.cancel
  split
  · exact nonce_set e .ready
  · rfl

theorem cancel_logged (l : Logged E) (b : Buffer) (slot : Slot) :
    Reservation.cancel l b slot =
      (⟨(Reservation.cancel l.enc b slot).1, l.log⟩, (Reservation.cancel l.enc b slot).2) := by
  unfold Reservation.cancel
  by_cases h : state l.enc = .reserving
  · rw [if_pos h, if_pos (show state l = .reserving from h)]; rfl
  · rw [if_neg h, if_neg (show ¬ state l = .reserving from h)]

theorem Follows.dropped {slot : Slot} {r : Res Nat × E × Buffer} {r' : Res Nat × Logged E × Buffer}
    (h : Follows sealFailed l r r') :
    Follows sealFailed l (Reservation.dropped slot r) (Reservation.dropped slot r') := by
  obtain ⟨log, rfl, hlog, hpoison⟩ := h
  refine ⟨log, ?_, ?_, fun hf hne => ?_⟩
  · simp only [Reservation.dropped, cancel_logged]
  · rw [Reservation.dropped, cancel_nonce]; exact hlog
  · have hstate := hpoison hf hne
    simp only [Reservation.dropped, Reservation.cancel]
    rw [if_neg (by rw [hstate]; intro h; cases h)]
    exact hstate

theorem sealMut_follows (l : Logged E) (b : Buffer) (slot : Slot) (record : Record E) (n : Nat) (env : SealEnv) :
    Follows sealFailed l (Reservation.sealMut l.enc b slot record n env) (Reservation.sealMut l b slot record n env) := by
  refine Follows.dropped ?_
  cases slot.total n with
  | error f => exact .unlogged _ _ rfl
  | ok total =>
    simp only
    split
    · exact .unlogged _ _ rfl
    · exact finish_follows l b slot record total env

theorem sealInit_follows (l : Logged E) (b : Buffer) (slot : Slot) (record : Record E) (n : Nat) (env : SealEnv) :
    Follows sealFailed l (Reservation.sealInit l.enc b slot record n env)
      (Reservation.sealInit l b slot record n env) := by
  refine Follows.dropped ?_
  cases slot.total n with
  | error f => exact .unlogged _ _ rfl
  | ok total =>
    simp only
    split
    · exact .unlogged _ _ rfl
    · rcases b.commit n with ⟨committed, b⟩
      cases committed with
      | error f => exact .unlogged _ _ rfl
      | ok _ => exact finish_follows l b slot record total env

/-- The reservation was made, and sealing it returned an error. -/
def attemptFailed (r : Attempted) : Prop := ∃ capacity err, r = .failed capacity (.err err)

theorem Follows.sealAttempted {r : Res Nat × E × Buffer} {r' : Res Nat × Logged E × Buffer} (capacity live : Nat)
    (payload : Bytes) (h : Follows sealFailed l r r') :
    Follows attemptFailed l (sealAttempted capacity live payload r) (sealAttempted capacity live payload r') := by
  obtain ⟨log, rfl, hlog, hpoison⟩ := h
  obtain ⟨r, e, b⟩ := r
  cases r with
  | ok split => exact ⟨log, rfl, hlog, fun ⟨_, _, hf⟩ => nomatch hf⟩
  | error f =>
    refine ⟨log, rfl, hlog, ?_⟩
    rintro ⟨_, err, hf⟩ hne
    cases hf
    exact hpoison ⟨err, rfl⟩ hne

theorem attempt_follows (a : Attempt) (l : Logged E) (b : Buffer) :
    Follows attemptFailed l (a.run l.enc b) (a.run l b) := by
  have hnonce := reserve_nonce l.enc b a.pfx a.size a.now
  have hreserve : reserve l b a.pfx a.size a.now = ((reserve l.enc b a.pfx a.size a.now).1,
    ⟨(reserve l.enc b a.pfx a.size a.now).2.1, l.log⟩, (reserve l.enc b a.pfx a.size a.now).2.2) := rfl
  unfold Attempt.run
  rw [hreserve]
  generalize reserve l.enc b a.pfx a.size a.now = reserved at hnonce
  obtain ⟨r, e, b₁⟩ := reserved
  cases r with
  | error f => exact .unlogged _ _ hnonce
  | ok r =>
    obtain ⟨slot, record⟩ := r
    simp only
    -- what is logged after `reserve` is logged by the whole
    have hthen : ∀ {r : Attempted × E × Buffer} {r' : Attempted × Logged E × Buffer},
        Follows attemptFailed (⟨e, l.log⟩ : Logged E) r r' → Follows attemptFailed l r r' := by
      intro r r' h
      simpa only [Follows, hnonce] using h
    refine hthen ?_
    cases slot.accesses b₁ a.accesses with
    | error f =>
      simp only [cancel_logged]
      exact .unlogged _ _ (cancel_nonce e b₁ slot)
    | ok b₂ =>
      simp only [Close.attempt]
      cases a.close with
      | sealMut n env => exact (sealMut_follows ⟨e, l.log⟩ b₂ slot record n env).sealAttempted _ _ _
      | sealInit n env => exact (sealInit_follows ⟨e, l.log⟩ b₂ slot record n env).sealAttempted _ _ _
      | drop =>
        simp only [cancel_logged]
        exact .unlogged _ _ (cancel_nonce e b₂ slot)
      | forget => exact .unlogged _ _ rfl

end Generic

/-! ## The encoders, logged -/

section Finish

variable {E : Type} {nonce : E → Nonce} {setState : E → EncoderState → E} {commit : E → E} {state : E → EncoderState}

theorem finishWith_nonce (hset : ∀ e s, nonce (setState e s) = nonce e) (hcommit : ∀ e, nonce (commit e) = nonce e)
    (slot : Slot) (e : E) (r : Res Nat × E × Buffer) :
    nonce (finishWith nonce setState commit slot e r).2.1 = nonce r.2.1 := by
  obtain ⟨r, e', b⟩ := r
  cases r with
  | ok split => exact (hcommit _).trans (hset _ _)
  | error f =>
    cases f with
    | err err =>
      simp only [finishWith]
      split <;> exact hset _ _
    | panic | diverged => rfl

theorem finishWith_poisons (hstate : ∀ e s, state (setState e s) = s) {slot : Slot} {e : E} {r : Res Nat × E × Buffer}
    {err : Error} (h : (finishWith nonce setState commit slot e r).1 = .error (.err err))
    (hmoved : nonce r.2.1 ≠ nonce e) : state (finishWith nonce setState commit slot e r).2.1 = .poisoned := by
  obtain ⟨r, e', b⟩ := r
  cases r with
  | ok split => cases h
  | error f =>
    cases f with
    | err err =>
      have hpoisoned : EncoderState.afterSeal (nonce e' ≠ nonce e) = .poisoned := by
        rw [EncoderState.afterSeal, if_pos (decide_eq_true hmoved)]
      simp only [finishWith]
      split <;> rw [hpoisoned] <;> exact hstate _ _
    | panic | diverged => cases h

/-- Every call is under the nonce that is next, which it moves if it succeeds,
and there are at most `most`. -/
inductive InOrder {C : Crypto} (nonce : E → Nonce) : (most : Nat) → Nonce → Sealing C (Res Nat × E × Buffer) → Prop
  | done {most n r} : nonce r.2.1 = n → InOrder nonce most n (.done r)
  | call {most n refused key aad inOut k} : (∀ f, InOrder nonce most n (k (.error f, n))) →
      (∀ out, InOrder nonce most n.increment (k (.ok out, n.increment))) →
      InOrder nonce (most + 1) n (.call refused key n aad inOut k)

theorem InOrder.consecutive {C : Crypto} {most : Nat} {n : Nonce} {p : Sealing C (Res Nat × E × Buffer)}
    (h : InOrder nonce most n p) : Consecutive n p.log (nonce p.run.2.1) ∧ p.log.length ≤ most := by
  induction h with
  | done h => exact ⟨h ▸ .nil, Nat.zero_le _⟩
  | @call most n refused key aad inOut k _ _ ihf ihs =>
    rw [Sealing.run, Sealing.log]
    rcases C.aesSeal_cases refused key n aad inOut with ⟨f, hf⟩ | ⟨out, hs⟩
    · rw [hf]
      exact ⟨(ihf f).1, Nat.le_succ_of_le (ihf f).2⟩
    · rw [hs]
      exact ⟨.cons rfl (ihs out).1, Nat.succ_le_succ (ihs out).2⟩

/-- The seals of a `finish` are consecutive, and failing behind one poisons. -/
structure FinishSeals (nonce : E → Nonce) (state : E → EncoderState) (e : E) (log : List AeadSeal)
    (r : Res Nat × E × Buffer) : Prop where
  consecutive : Consecutive (nonce e) log (nonce r.2.1)
  poisons : ∀ err, r.1 = .error (.err err) → log ≠ [] → state r.2.1 = .poisoned

theorem InOrder.finish {C : Crypto} {e : E} {p : Sealing C (Res Nat × E × Buffer)} (h : InOrder nonce 2 (nonce e) p)
    (hset : ∀ e s, nonce (setState e s) = nonce e) (hcommit : ∀ e, nonce (commit e) = nonce e)
    (hstate : ∀ e s, state (setState e s) = s) (slot : Slot) :
    FinishSeals nonce state e p.log (finishWith nonce setState commit slot e p.run) := by
  obtain ⟨hcons, hlen⟩ := h.consecutive
  refine ⟨?_, fun err herr hne => finishWith_poisons hstate herr (hcons.moved hne hlen)⟩
  rw [finishWith_nonce hset hcommit]
  exact hcons

end Finish

namespace V6UnshapedEncoder

variable {C : Crypto}

theorem sealBody_inOrder (enc : V6UnshapedEncoder C) (buf : Buffer) (payloadStart recordEnd : Nat) (env : SealEnv) :
    InOrder nonce 1 enc.nonce (sealBody enc buf payloadStart recordEnd env) := by
  unfold sealBody
  cases buf.range payloadStart recordEnd with
  | error f => exact .done rfl
  | ok payload => exact .call (fun _ => .done rfl) fun _ => .done rfl

theorem sealRecord_inOrder (enc : V6UnshapedEncoder C) (buf : Buffer) (slot : Slot) (payloadLen : Nat) (env : SealEnv) :
    InOrder nonce 2 enc.nonce (sealRecord enc buf slot payloadLen env) := by
  unfold sealRecord
  simp only
  generalize (sub slot.payloadStart headerCipherLen >>= _ : Res (Nat × Buffer × Bytes)) = prepared
  cases prepared with
  | error f => exact .done rfl
  | ok x =>
    refine .call (fun _ => .done rfl) fun out => ?_
    simp only
    split
    · exact sealBody_inOrder { enc with nonce := enc.nonce.increment } _ _ _ env
    · exact .done rfl

theorem finish_seals (enc : V6UnshapedEncoder C) (buf : Buffer) (slot : Slot) (record : Unit) (payloadLen : Nat)
    (env : SealEnv) :
    FinishSeals nonce state enc (sealRecord enc buf slot payloadLen env).log
      (finish enc buf slot record payloadLen env) := by
  refine (sealRecord_inOrder enc buf slot payloadLen env).finish ?_ ?_ ?_ slot
  all_goals intros; rfl

instance : AeadLog (V6UnshapedEncoder C) where
  nonce := nonce
  seals enc b slot _ n env := (sealRecord enc b slot n env).log
  nonce_set _ _ := rfl
  reserve_nonce enc b pfx size now := by
    simp only [RecordEncoder.reserve, reserve]
    split <;> rfl
  consecutive enc b slot record n env := (finish_seals enc b slot record n env).consecutive
  poisons enc b slot record n env := (finish_seals enc b slot record n env).poisons

end V6UnshapedEncoder

namespace V4Encoder

open V4 (V4Record)

variable {C : Crypto} {ε : Type} [Entropy ε]

theorem sealPadding_nonce (enc : V4Encoder C ε) (paddingLen : Nat) (cipher : Bytes) (env : SealEnv) :
    (sealPadding enc paddingLen cipher env).2.nonce = enc.nonce := by
  unfold sealPadding
  split
  · split <;> rfl
  · rfl

theorem sealBody_inOrder (enc : V4Encoder C ε) (buf : Buffer) (paddingStart paddingLen recordEnd : Nat) (env : SealEnv) :
    InOrder nonce 1 enc.nonce (sealBody enc buf paddingStart paddingLen recordEnd env) := by
  unfold sealBody
  cases buf.range paddingStart recordEnd with
  | error f => exact .done rfl
  | ok body =>
    simp only
    split
    · exact .done rfl
    · refine .call (fun _ => .done rfl) fun out => .done ?_
      have hnonce := sealPadding_nonce { enc with nonce := enc.nonce.increment } paddingLen out env
      split <;> next heq => rw [heq] at hnonce; exact hnonce

theorem sealRecord_inOrder (enc : V4Encoder C ε) (buf : Buffer) (slot : Slot) (record : V4Record) (payloadLen : Nat)
    (env : SealEnv) : InOrder nonce 2 enc.nonce (sealRecord enc buf slot record payloadLen env) := by
  unfold sealRecord
  simp only
  cases buf.setRecordEnd _ with
  | error f => exact .done rfl
  | ok b =>
    simp only
    cases b.range record.headerStart (record.headerStart + headerCipherLen) with
    | error f => exact .done rfl
    | ok header =>
      refine .call (fun _ => .done rfl) fun out => ?_
      simp only
      split
      · exact sealBody_inOrder { enc with nonce := enc.nonce.increment } _ _ _ _ env
      · exact .done rfl

theorem finish_seals (enc : V4Encoder C ε) (buf : Buffer) (slot : Slot) (record : V4Record) (payloadLen : Nat)
    (env : SealEnv) :
    FinishSeals nonce state enc (sealRecord enc buf slot record payloadLen env).log
      (finish enc buf slot record payloadLen env) := by
  refine (sealRecord_inOrder enc buf slot record payloadLen env).finish ?_ ?_ ?_ slot
  all_goals intros; rfl

instance : AeadLog (V4Encoder C ε) where
  nonce := nonce
  seals enc b slot record n env := (sealRecord enc b slot record n env).log
  nonce_set _ _ := rfl
  reserve_nonce enc b pfx size now := by
    simp only [RecordEncoder.reserve, reserve]
    split <;> rfl
  consecutive enc b slot record n env := (finish_seals enc b slot record n env).consecutive
  poisons enc b slot record n env := (finish_seals enc b slot record n env).poisons

end V4Encoder

namespace V6ShapedEncoder

variable {C : Crypto}

theorem sealBody_inOrder (enc : V6ShapedEncoder C) (buf : Buffer) (recordStart bodyLen paddingStart recordEnd : Nat)
    (env : SealEnv) : InOrder nonce 1 enc.nonce (sealBody enc buf recordStart bodyLen paddingStart recordEnd env) := by
  unfold sealBody
  cases buf.range recordStart recordEnd with
  | error f => exact .done rfl
  | ok record => exact .call (fun _ => .done rfl) fun _ => .done rfl

theorem sealRest_inOrder (enc : V6ShapedEncoder C) (buf : Buffer)
    (recordStart bodyLen paddingStart recordEnd payloadLen : Nat) (env : SealEnv) :
    InOrder nonce 1 enc.nonce (sealRest enc buf recordStart bodyLen paddingStart recordEnd payloadLen env) := by
  unfold sealRest
  cases buf.range paddingStart recordEnd with
  | error f => exact .done rfl
  | ok region =>
    simp only
    split
    · exact sealBody_inOrder enc _ recordStart bodyLen paddingStart recordEnd env
    · exact .done rfl

theorem sealRecord_inOrder (enc : V6ShapedEncoder C) (buf : Buffer) (slot : Slot) (record : ShapedRecord)
    (paddingLen payloadLen : Nat) (env : SealEnv) :
    InOrder nonce 2 enc.nonce (sealRecord enc buf slot record paddingLen payloadLen env) := by
  unfold sealRecord
  simp only
  cases prepare enc buf slot record payloadLen _ _ _ with
  | error f => exact .done rfl
  | ok x =>
    refine .call (fun _ => .done rfl) fun out => ?_
    exact sealRest_inOrder { enc with nonce := enc.nonce.increment } _ _ _ _ _ _ env

theorem finish_seals (enc : V6ShapedEncoder C) (buf : Buffer) (slot : Slot) (record : ShapedRecord) (payloadLen : Nat)
    (env : SealEnv) :
    FinishSeals nonce state enc (sealPadded enc buf slot record payloadLen env).log
      (finish enc buf slot record payloadLen env) := by
  refine (sealRecord_inOrder enc buf slot record _ payloadLen env).finish ?_ ?_ ?_ slot
  all_goals intros; rfl

theorem reserve_nonce (enc : V6ShapedEncoder C) (buf : Buffer) (pfx : Bytes) (size : RecordSize) (now : Nat) :
    (reserve enc buf pfx size now).2.1.nonce = enc.nonce := by
  have hlimit : (enc.limitFor size now).2.nonce = enc.nonce := by cases size <;> rfl
  unfold reserve
  split
  · rfl
  · simp only
    split <;> exact hlimit

instance : AeadLog (V6ShapedEncoder C) where
  nonce := nonce
  seals enc b slot record n env := (sealPadded enc b slot record n env).log
  nonce_set _ _ := rfl
  reserve_nonce := reserve_nonce
  consecutive enc b slot record n env := (finish_seals enc b slot record n env).consecutive
  poisons enc b slot record n env := (finish_seals enc b slot record n env).poisons

end V6ShapedEncoder

/-! ## Runs -/

section Runs

variable {E : Type} [RecordEncoder E]

theorem reserve_blocked [EncoderSpec E] {e : E} {b : Buffer} (hw : b.Wf) (h : state e ≠ .ready) (pfx : Bytes)
    (size : RecordSize) (now : Nat) :
    ∃ err, (err = .poisoned ∨ err = .pendingWire) ∧ reserve e b pfx size now = (.error (.err err), e, b) := by
  obtain ⟨err, herr, hblocked⟩ : ∃ err, (err = Error.poisoned ∨ err = .pendingWire) ∧
      (state e).ensureReady = .error (.err err) := by
    cases hs : state e with
    | ready => exact absurd hs h
    | reserving => exact ⟨_, .inr rfl, rfl⟩
    | poisoned => exact ⟨_, .inl rfl, rfl⟩
  have hres := EncoderSpec.reserve_spec e b hw pfx size now
  rw [EncoderSpec.plan_blocked _ _ _ hblocked] at hres
  refine ⟨err, herr, ?_⟩
  generalize reserve e b pfx size now = reserved at hres
  cases hres
  rfl

variable [AeadLog E]

theorem attempt_blocked [EncoderSpec E] {l : Logged E} {b : Buffer} (hw : b.Wf) (h : state l.enc ≠ .ready) (a : Attempt) :
    ∃ err, (err = .poisoned ∨ err = .pendingWire) ∧ a.run l b = (.refused (.err err), l, b) := by
  obtain ⟨err, herr, hres⟩ := reserve_blocked hw h a.pfx a.size a.now
  have hlogged : reserve l b a.pfx a.size a.now = ((reserve l.enc b a.pfx a.size a.now).1,
    ⟨(reserve l.enc b a.pfx a.size a.now).2.1, l.log⟩, (reserve l.enc b a.pfx a.size a.now).2.2) := rfl
  refine ⟨err, herr, ?_⟩
  rw [Attempt.run, hlogged, hres]

/-- The encoder and its buffer, without the log. -/
def erased (s : Logged E × Buffer) : E × Buffer := (s.1.enc, s.2)

theorem step_erased (s : Logged E × Buffer) (op : BufferOp) :
    (op.run (erased s).1 (erased s).2) = ((op.run s.1 s.2).1, erased (op.run s.1 s.2).2) := by
  cases op with
  | record a =>
    obtain ⟨log, hrun, -⟩ := attempt_follows a s.1 s.2
    simp only [BufferOp.run, hrun]
    rfl
  | takeEmptyStorage =>
    simp only [BufferOp.run, erased]
    split <;> rfl
  | _ => rfl

/-- A logged run is the run. -/
theorem bufferRun_erased (l : Logged E) (b : Buffer) (ops : List BufferOp) :
    bufferRun l.enc b ops = ((bufferRun l b ops).1, erased (bufferRun l b ops).2) :=
  (bufferMachine (Logged E)).run_map (bufferMachine E) erased rfl step_erased ops (l, b)

theorem bufferRun_consecutive {n : Nonce} {l : Logged E} (b : Buffer) (h : Consecutive n l.log (nonce l.enc))
    (ops : List BufferOp) :
    Consecutive n (bufferRun l b ops).2.1.log (nonce (bufferRun l b ops).2.1.enc) := by
  refine (bufferMachine (Logged E)).run_invariant (fun s => Consecutive n s.1.log (nonce s.1.enc)) ?_ ops h
  rintro ⟨l, b⟩ op h -
  cases op with
  | record a =>
    obtain ⟨log, hrun, hlog, -⟩ := attempt_follows a l b
    simp only [bufferMachine, BufferOp.run, hrun]
    exact h.append hlog
  | takeEmptyStorage =>
    simp only [bufferMachine, BufferOp.run]
    split <;> exact h
  | _ => exact h

variable [EncoderSpec E]

/-- An encoder that is not ready stays as it is. -/
theorem bufferRun_blocked {l : Logged E} {b : Buffer} (hb : b.Sound) (h : state l.enc ≠ .ready) (ops : List BufferOp) :
    (bufferRun l b ops).2.1 = l ∧ (bufferRun l b ops).2.2.Sound := by
  refine (bufferMachine (Logged E)).run_invariant (fun s => s.1 = l ∧ s.2.Sound) ?_ ops ⟨rfl, hb⟩
  rintro ⟨l', b⟩ op ⟨rfl, hb⟩ hret
  have hstep : op.run l'.enc b = ((op.run l' b).1, erased (op.run l' b).2) := step_erased (l', b) op
  have hsound : (op.run l' b).2.2.Sound := by
    have hret' : (op.run l'.enc b).1.returns = true := by rw [hstep]; exact hret
    obtain ⟨hb', -⟩ : Refines b hb op (op.run l'.enc b).1 (op.run l'.enc b).2.2 :=
      op.run_refines hb l'.enc fun _ _ => hret'
    rw [hstep] at hb'
    exact hb'
  refine ⟨?_, hsound⟩
  cases op with
  | record a =>
    obtain ⟨err, -, hrun⟩ := attempt_blocked hb.wf h a
    simp only [bufferMachine, BufferOp.run, hrun]
  | takeEmptyStorage =>
    simp only [bufferMachine, BufferOp.run]
    split <;> rfl
  | _ => rfl

/-- The encoder is spent: a seal failed behind one that had succeeded, or the
reservation was leaked. -/
def Spends (l : Logged E) (r : Attempted × Logged E × Buffer) : Prop :=
  attemptFailed r.1 ∧ r.2.1.log ≠ l.log ∨ ∃ capacity left, r.1 = .forgotten capacity left

/-- What holds of an encoder and its buffer, wherever a run left them: the
`i`-th seal was under the nonce `i`, and no nonce was used twice; and once an
attempt spends the encoder, every later one is refused, and nothing changes. -/
structure UsesNoncesOnce (l : Logged E) (b : Buffer) : Prop where
  counts : ∀ i s, l.log[i]? = some s → s.nonce.1 = leBytes nonceLen i
  distinct : l.log.length < 2 ^ 96 → (l.log.map AeadSeal.nonce).Nodup
  final : ∀ a : Attempt, Spends l (a.run l b) → ∀ ops, ∃ b', (bufferRun (a.run l b).2.1 (a.run l b).2.2 ops).2 =
    ((a.run l b).2.1, b') ∧ ∀ a' : Attempt, ∃ err, (err = .poisoned ∨ err = .pendingWire) ∧
      a'.run (a.run l b).2.1 b' = (.refused (.err err), (a.run l b).2.1, b')

variable [LawfulEncoder E]

open LawfulEncoder

theorem attempt_spends {l : Logged E} {b : Buffer} (hv : Valid l.enc) (hb : b.Sound) {a : Attempt}
    (h : Spends l (a.run l b)) : state (a.run l b).2.1.enc ≠ .ready ∧ (a.run l b).2.2.Sound := by
  obtain ⟨log, hrun, -, hpoison⟩ := attempt_follows a l b
  have hends := (run_ends hv a hb.wf).1.1
  have hret : (a.run l.enc b).1.returns = true := by
    rcases h with ⟨⟨capacity, err, hr⟩, -⟩ | ⟨capacity, left, hr⟩
    · rw [hrun] at hr; simp only at hr; rw [hr]; rfl
    · rw [hrun] at hr; simp only at hr; rw [hr]; rfl
  obtain ⟨hsound, -⟩ := (BufferOp.record a).run_refines hb l.enc fun _ _ => hret
  rw [hrun] at h ⊢
  refine ⟨?_, hsound⟩
  rcases h with ⟨hfailed, hlog⟩ | ⟨capacity, left, hr⟩
  · have hpoisoned := hpoison hfailed fun hnil => hlog (by rw [hnil, List.append_nil])
    simp only [hpoisoned]; nofun
  · simp only at hr hends ⊢
    rw [hr] at hends
    cases hends with
    | forgotten _ hs => rw [hs]; nofun

/-- From every state a run from a fresh encoder leads to. -/
def NoncesOnce (e₀ : E) : Prop :=
  ∀ b₀ : Buffer, b₀.Sound → ∀ ops,
    let r := bufferRun (⟨e₀, []⟩ : Logged E) b₀ ops
    bufferRun e₀ b₀ ops = (r.1, r.2.1.enc, r.2.2) ∧ UsesNoncesOnce r.2.1 r.2.2

theorem noncesOnce {e₀ : E} (hv : Valid e₀) (hnew : nonce e₀ = .new) : NoncesOnce e₀ := by
  intro b₀ hb₀ ops r
  have herased := bufferRun_erased (⟨e₀, []⟩ : Logged E) b₀ ops
  obtain ⟨hvalid, hsound⟩ : Valid r.2.1.enc ∧ r.2.2.Sound := by
    have := bufferRun_valid hv hb₀ ops
    rwa [herased] at this
  have hlog : Consecutive .new r.2.1.log (nonce r.2.1.enc) :=
    bufferRun_consecutive b₀ (by rw [hnew]; exact .nil) ops
  refine ⟨herased, ?_, fun hlen => hlog.nodup (Nat.le_of_lt hlen), ?_⟩
  · intro i s hs
    rw [← Nonce.nth_zero] at hlog
    rw [hlog.getElem? hs, Nat.zero_add]
    rfl
  · intro a hspends ops'
    obtain ⟨hstate, hsound'⟩ := attempt_spends hvalid hsound hspends
    obtain ⟨hkept, hsound''⟩ := bufferRun_blocked hsound' hstate ops'
    refine ⟨(bufferRun (a.run r.2.1 r.2.2).2.1 (a.run r.2.1 r.2.2).2.2 ops').2.2, Prod.ext hkept rfl, fun a' => ?_⟩
    exact attempt_blocked hsound''.wf hstate a'

end Runs

/-- **No nonce is used twice**, whatever fails, is dropped or is leaked, for
each encoder as it is constructed. -/
theorem nonces_used_once (C : Crypto) (ε : Type) [Entropy ε] :
    (∀ psk salt n entropy ne (enc : V4Encoder C ε), V4Encoder.withSalt psk salt n entropy ne = .ok enc →
      NoncesOnce enc) ∧
      (∀ psk salt (enc : V6UnshapedEncoder C), V6UnshapedEncoder.withSalt psk salt = .ok enc → NoncesOnce enc) ∧
      ∀ psk salt (enc : V6ShapedEncoder C), V6ShapedEncoder.withSalt psk salt = .ok enc → NoncesOnce enc := by
  refine ⟨fun _ _ _ _ _ _ h => ?_, fun _ _ _ h => ?_, fun _ _ _ h => ?_⟩
  · obtain ⟨hv, _, _, hnonce, _⟩ := V4Encoder.withSalt_valid h
    exact noncesOnce hv hnonce
  · obtain ⟨_, hpos, _⟩ := V6UnshapedEncoder.withSalt_ok h
    exact noncesOnce trivial (congrArg V6Unshaped.Pos.nonce hpos)
  · obtain ⟨_, hpos, _⟩ := V6ShapedEncoder.withSalt_ok h
    exact noncesOnce trivial (congrArg V6Shaped.Pos.nonce hpos)

/-- A record, a second one whose body `ring` refuses, and a third: three seals,
the last of them in no record. -/
theorem nonces_used_once_transparent :
    let psk : Psk := ⟨List.replicate 16 7, by decide⟩
    let enc : V6UnshapedEncoder Crypto.transparent := ⟨(), Nonce.new, .replicate saltLen 1, false, .ready⟩
    let write (bodyRefused : Bool) : BufferOp :=
      .record ⟨[], .stream 2, 0, [.payloadMut [2, 3]], .sealMut 2 ⟨0, false, bodyRefused, 0⟩⟩
    let r := bufferRun (⟨enc, []⟩ : Logged (V6UnshapedEncoder Crypto.transparent)) (.new 128)
      [write false, write true, write false]
    V6UnshapedEncoder.withSalt psk (.replicate saltLen 1) = .ok enc ∧
      r.2.1.log.map AeadSeal.nonce = [.nth 0, .nth 1, .nth 2] ∧ UsesNoncesOnce r.2.1 r.2.2 := by
  intro psk enc write r
  refine ⟨rfl, by decide +kernel, ?_⟩
  have honce : NoncesOnce enc :=
    (nonces_used_once Crypto.transparent RepeatEntropy).2.1 psk (.replicate saltLen 1) enc rfl
  obtain ⟨-, huses⟩ := honce (.new 128) (Buffer.new_sound 128) [write false, write true, write false]
  have hr : bufferRun (⟨enc, []⟩ : Logged (V6UnshapedEncoder Crypto.transparent)) (.new 128)
    [write false, write true, write false] = r := rfl
  rw [hr] at huses
  exact huses

end Snell
