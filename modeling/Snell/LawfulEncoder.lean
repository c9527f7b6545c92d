/-
The contract of a record encoder, and what follows for its runs.

A position on the wire (`Pos`) is what the next record depends on: keys,
nonce, sequence number, whether the salt was sent. `Frame` is the wire format:
which bytes carry which payload from a position, and the position after. A
run of an encoder sends a chain of frames from the encoder's position
(`encodeRun_chain`), whatever was dropped, refused or leaked in between.
-/
import Snell.EncoderSpec

namespace Snell

open RecordEncoder

/-- Records one after another: payloads, wires, and the position after. -/
inductive Chain {Pos : Type} (Frame : Pos → Bytes → Bytes → Pos → Prop) :
    Pos → List (Bytes × Bytes) → Pos → Prop
  | nil {p} : Chain Frame p [] p
  | cons {p p' p'' payload wire records} : Frame p payload wire p' → Chain Frame p' records p'' →
      Chain Frame p ((payload, wire) :: records) p''

/-- The reservation is sealed, one way or the other, in `env`. -/
def Close.SealsIn (close : Close) (env : SealEnv) : Prop := ∃ n, close = .sealMut n env ∨ close = .sealInit n env

theorem Close.SealsIn.unique {close : Close} {env env' : SealEnv} (h : close.SealsIn env) (h' : close.SealsIn env') :
    env = env' := by
  obtain ⟨n, rfl | rfl⟩ := h <;> obtain ⟨n', h' | h'⟩ := h' <;> cases h' <;> rfl

open EncoderSpec in
class LawfulEncoder (E : Type) [RecordEncoder E] [EncoderSpec E] where
  Pos : Type
  pos : E → Pos
  Frame : Pos → (payload wire : Bytes) → Pos → Prop
  /-- What holds of every encoder its constructors make and its methods leave. -/
  Valid : E → Prop
  pos_set : ∀ (e : E) s, pos (setState e s) = pos e
  valid_set : ∀ (e : E) s, Valid e → Valid (setState e s)
  plan_pos : ∀ (e : E) n size now, pos (plan e n size now).2 = pos e
  plan_valid : ∀ (e : E) n size now, Valid e → Valid (plan e n size now).2
  image_frame : ∀ {e e₁ e' : E} {n size now p payload env split record}, Valid e →
    plan e n size now = (.ok p, e₁) → payload.length ≤ p.maxPayload →
    image (setState e₁ .reserving) p payload env = (.ok (split, record), e') →
    Valid e' ∧ split ≤ record.length ∧ Frame (pos e) payload (rotate split record) (pos e')
  image_kept : ∀ {e e₁ e' : E} {n size now p payload env err}, Valid e → plan e n size now = (.ok p, e₁) →
    image (setState e₁ .reserving) p payload env = (.error (.err err), e') →
    Valid e' ∧ ((state e' = .ready ∧ pos e' = pos e) ∨ state e' = .poisoned)
  /-- How sealing a payload can fail. -/
  Fails : E → SealEnv → Fault → Prop
  image_fails : ∀ {e e₁ e' : E} {n size now p payload env f}, Valid e → plan e n size now = (.ok p, e₁) →
    image (setState e₁ .reserving) p payload env = (.error f, e') → Fails e env f

namespace LawfulEncoder

open EncoderSpec

variable {E : Type} [RecordEncoder E] [EncoderSpec E] [LawfulEncoder E]

/-! ## One reservation -/

/-- A seal of `n` bytes that never gets to sealing: more than the `capacity`
that was offered, or not written, or not through this path alone. -/
inductive Unsealable (capacity : Nat) : Close → Error → Prop
  | tooLong {n env} : capacity < n → Unsealable capacity (.sealMut n env) .payloadTooLarge
  | tooLongInit {n env} : capacity < n → Unsealable capacity (.sealInit n env) .payloadTooLarge
  | unwritten {n env} : n ≤ capacity → Unsealable capacity (.sealMut n env) .pendingWire
  | mixed {n env} : n ≤ capacity → Unsealable capacity (.sealInit n env) .pendingWire

/-- What one reservation can come to, and the encoder after it: a frame from
its position, or the encoder where it was, poisoned, or still reserving. -/
inductive Ends (e : E) (a : Attempt) : Attempted → E → Prop
  | refused {err e'} : state e' = state e → pos e' = pos e → Ends e a (.refused (.err err)) e'
  | sealed {capacity payload split record e'} : state e' = .ready → split ≤ record.length →
      Frame (pos e) payload (rotate split record) (pos e') → Ends e a (.sealed capacity payload split record) e'
  | unsealable {capacity err e'} : Unsealable capacity a.close err → state e' = .ready → pos e' = pos e →
      Ends e a (.failed capacity (.err err)) e'
  | failed {capacity env f e'} : a.close.SealsIn env → Fails e env f →
      (∀ err, f = .err err → (state e' = .ready ∧ pos e' = pos e) ∨ state e' = .poisoned) →
      Ends e a (.failed capacity f) e'
  | dropped {capacity e'} : a.close = .drop → state e' = .ready → pos e' = pos e → Ends e a (.dropped capacity) e'
  | forgotten {capacity left e'} : a.close = .forget → state e' = .reserving →
      Ends e a (.forgotten capacity left) e'

/-- An end that leaves a valid encoder if the call returned. -/
def EndsValid (e : E) (a : Attempt) (r : Attempted × E) : Prop := Ends e a r.1 r.2 ∧ (r.1.returns = true → Valid r.2)

variable {e e₁ : E} {p : Plan} {a : Attempt}

theorem plan_kept {n now : Nat} {size : RecordSize} {r : Res Plan} (hv : Valid e) (hplan : plan e n size now = (r, e₁)) :
    state e₁ = state e ∧ pos e₁ = pos e ∧ Valid e₁ := by
  have hs := plan_state e n size now
  have hp := plan_pos e n size now
  have hv' := plan_valid e n size now hv
  rw [hplan] at hs hp hv'
  exact ⟨hs, hp, hv'⟩

theorem sealSpec_ends (hv : Valid e) (hplan : plan e a.pfx.length a.size a.now = (.ok p, e₁))
    {payload : Except Error Bytes} {env : SealEnv} (hseals : a.close.SealsIn env)
    (hlen : ∀ bytes, payload = .ok bytes → bytes.length ≤ p.maxPayload)
    (herr : ∀ err, payload = .error err → Unsealable (p.capacity a.pfx) a.close err) :
    EndsValid e a (sealSpec (setState e₁ .reserving) p a.pfx payload env) := by
  obtain ⟨-, hpos, hv₁⟩ := plan_kept hv hplan
  unfold sealSpec
  cases payload with
  | error err =>
    exact ⟨.unsealable (herr err rfl) (state_set _ _) ((pos_set _ _).trans ((pos_set _ _).trans hpos)),
      fun _ => valid_set _ _ (valid_set _ _ hv₁)⟩
  | ok payload =>
    simp only
    rcases hi : image (setState e₁ .reserving) p payload env with ⟨r, e'⟩
    cases r with
    | ok r =>
      obtain ⟨split, record⟩ := r
      obtain ⟨hv', hsplit, hframe⟩ := image_frame hv hplan (hlen payload rfl) hi
      exact ⟨.sealed (image_ok hi) hsplit hframe, fun _ => hv'⟩
    | error f =>
      refine ⟨.failed hseals (image_fails hv hplan hi) fun err hf => ?_, fun hret => ?_⟩
      · subst hf; exact (image_kept hv hplan hi).2
      · cases f with
        | err err => exact (image_kept hv hplan hi).1
        | panic | diverged => cases hret

/-- What an attempt is specified to come to, from a valid encoder. -/
theorem spec_ends (hv : Valid e) (a : Attempt) (q : BoundedQueue UInt8) (stale : Bytes) :
    EndsValid e a (a.spec e q stale) := by
  unfold Attempt.spec
  rcases hplan : plan e a.pfx.length a.size a.now with ⟨r, e₁⟩
  obtain ⟨hstate, hpos, hv₁⟩ := plan_kept hv hplan
  cases r with
  | error f =>
    obtain ⟨err, rfl⟩ := plan_error hplan
    exact ⟨.refused hstate hpos, fun _ => hv₁⟩
  | ok p =>
    simp only
    have hpfx := plan_prefix hplan
    cases q.refusal p.total with
    | some r => exact ⟨.refused hstate hpos, fun _ => hv₁⟩
    | none =>
      simp only [Close.spec]
      cases hclose : a.close with
      | sealMut n env =>
        refine sealSpec_ends hv hplan ⟨n, .inl hclose⟩ (fun _ => Draft.sealMut_length) fun err h => ?_
        rw [hclose]
        rcases Draft.sealMut_error hpfx h with ⟨rfl, hn⟩ | ⟨rfl, hn⟩
        · exact .tooLong hn
        · exact .unwritten hn
      | sealInit n env =>
        refine sealSpec_ends hv hplan ⟨n, .inr hclose⟩ (fun _ => Draft.sealInit_length) fun err h => ?_
        rw [hclose]
        rcases Draft.sealInit_error hpfx h with ⟨rfl, hn⟩ | ⟨rfl, hn⟩
        · exact .tooLongInit hn
        · exact .mixed hn
      | drop =>
        exact ⟨.dropped hclose (state_set _ _) ((pos_set _ _).trans ((pos_set _ _).trans hpos)),
          fun _ => valid_set _ _ (valid_set _ _ hv₁)⟩
      | forget => exact ⟨.forgotten hclose (state_set _ _), fun _ => valid_set _ _ hv₁⟩

/-- **One reservation**, in any buffer: it ends in one of these ways, and what
it leaves is behind the live bytes. -/
theorem run_ends (hv : Valid e) (a : Attempt) {b : Buffer} (hw : b.Wf) :
    EndsValid e a ((a.run e b).1, (a.run e b).2.1) ∧
      ((a.run e b).1.returns = true → (a.run e b).2.2.filled = b.filled ++ (a.run e b).1.left) := by
  obtain ⟨stale, hr, he, hf, -⟩ := a.run_spec e hw
  obtain ⟨hends, hvalid⟩ := spec_ends hv a (b.queue hw) stale
  rw [← hr] at he hf hends hvalid
  refine ⟨⟨?_, fun hret => ?_⟩, hf⟩
  · by_cases hret : (a.run e b).1.returns = true
    · simp only [he hret]; exact hends
    · -- only a failed seal does not return, and says nothing of the encoder
      simp only
      revert hends hret
      generalize (a.run e b).1 = r
      intro hends hret
      cases hends with
      | failed hs hfails _ =>
        exact .failed hs hfails fun err hf => by subst hf; exact absurd rfl hret
      | _ => exact absurd rfl hret
  · simp only [he hret]; exact hvalid hret

omit [LawfulEncoder E] in
/-- An encoder that is not ready refuses, and stays as it is. -/
theorem run_blocked {e : E} (hr : state e ≠ .ready) (op : RecordOp) :
    ∃ err b', op.run e = (.failed (.err err), e, b') := by
  obtain ⟨hr', _⟩ | ⟨_, err, hf⟩ := (state e).ensureReady_cases
  · exact absurd hr' hr
  · obtain ⟨stale, hmeets⟩ := op.attempt.run_spec e op.wf
    simp only [Attempt.spec, plan_blocked _ _ _ hf] at hmeets
    rw [op.run_eq]
    rcases hrun : op.attempt.run e op.buf with ⟨r, e', b'⟩
    rw [hrun] at hmeets
    obtain ⟨hr', he, -, -⟩ := hmeets
    simp only at hr' he
    subst hr'
    obtain rfl := he rfl
    exact ⟨err, b', rfl⟩

/-! ## A run -/

omit [LawfulEncoder E] in
theorem encodeRun_blocked {e : E} (hr : state e ≠ .ready) (ops : List RecordOp) : encodeRun e ops = ([], e) := by
  induction ops with
  | nil => rfl
  | cons op ops ih =>
    obtain ⟨err, b', hrun⟩ := run_blocked hr op
    simp only [encodeRun, hrun, Outcome.returns, ↓reduceIte, ih]

/-- **A run sends a chain of frames**: the records an encoder seals continue
one another on the wire from where it started. -/
theorem encodeRun_chain {e : E} (hv : Valid e) (ops : List RecordOp) :
    ∃ p, Chain Frame (pos e) (encodeRun e ops).1 p := by
  by_cases hready : state e ≠ .ready
  · rw [encodeRun_blocked hready]; exact ⟨_, .nil⟩
  induction ops generalizing e with
  | nil => exact ⟨_, .nil⟩
  | cons op ops ih =>
    have hready' := Decidable.not_not.mp hready
    obtain ⟨⟨hends, hvalid⟩, -⟩ := run_ends hv op.attempt op.wf
    have hrun := op.run_eq e
    rcases hr : op.attempt.run e op.buf with ⟨r, e', b'⟩
    rw [hr] at hends hvalid hrun
    simp only at hends hvalid hrun
    have hblocked : state e' ≠ .ready → ∃ p, Chain Frame (pos e) (encodeRun e' ops).1 p := fun hne => by
      rw [encodeRun_blocked hne]; exact ⟨_, .nil⟩
    have hkept : Valid e' → state e' = .ready → pos e' = pos e → ∃ p, Chain Frame (pos e) (encodeRun e' ops).1 p :=
      fun hv' hs hpos => by have := ih hv' (fun h => h hs); rwa [hpos] at this
    simp only [encodeRun, hrun]
    cases hends with
    | sealed hs _ hframe =>
      obtain ⟨p, hp⟩ := ih (hvalid rfl) (fun h => h hs)
      exact ⟨p, .cons hframe hp⟩
    | refused hs hpos => exact hkept (hvalid rfl) (hs.trans hready') hpos
    | unsealable _ hs hpos => exact hkept (hvalid rfl) hs hpos
    | dropped _ hs hpos => exact hkept (hvalid rfl) hs hpos
    | forgotten _ hs => exact hblocked (by rw [hs]; nofun)
    | @failed _ _ f _ _ _ hst =>
      cases f with
      | err err =>
        rcases hst err rfl with ⟨hs, hpos⟩ | hs
        · exact hkept (hvalid rfl) hs hpos
        · exact hblocked (by rw [hs]; nofun)
      | panic | diverged => exact ⟨_, .nil⟩

end LawfulEncoder

end Snell
