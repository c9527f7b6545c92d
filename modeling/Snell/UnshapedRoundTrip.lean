/-
A v6 unshaped session end to end: what a `V6UnshapedEncoder` seals, a
`V6UnshapedDecoder` with the same key hands out, and the salt it knows the
session by is the encoder's.
-/
import Snell.UnshapedEncode
import Snell.RoundTrip

namespace Snell

open RecordDecoder StagedDecoder
open V4 (saltOf)

namespace V6UnshapedDecoder

variable {C : Crypto} {d d' : V6UnshapedDecoder C} {max : Nat}

/-- In step with a sender's position. -/
def At (p : V6Unshaped.Pos C) (d : V6UnshapedDecoder C) : Prop := Synced p.key p.salt p.first p.nonce d

theorem new_at {psk : Psk} {key : C.Key} {salt : Salt} (h : C.derive psk.bytes salt = .ok key) :
    At ⟨key, salt, true, Nonce.new⟩ (new C psk) :=
  ⟨rfl, rfl, rfl, .inr ⟨rfl, rfl, .inr ⟨rfl, h⟩⟩⟩

/-- Between records the decoder waits. -/
theorem At.waits {p : V6Unshaped.Pos C} (h : At p d) (hm : v6WireCap ≤ max) :
    ∃ k d', Staged.run ((stages C).machine max) d [] = .need k d' := by
  have hspan : d.saltSpan ≤ saltLen := by unfold V6UnshapedDecoder.saltSpan; split <;> simp
  have hcap : saltLen + headerCipherLen ≤ v6WireCap := by decide
  refine Stages.run_nil ?_
  rcases h.step with ⟨hs, _⟩ | ⟨hs, _⟩ <;> simp only [Stages.needed, stages, stage, hs] <;> omega

/-- The decoder reads every chain of frames from where it is. -/
theorem At.reads (hC : C.Inverts) (hm : v6WireCap ≤ max) {p p' : V6Unshaped.Pos C} {records : List (Bytes × Bytes)}
    (h : At p d) (hc : Chain V6Unshaped.Pos.Frame p records p') : Reads ((stages C).machine max) d records := by
  refine Reads.of_chain (S := At) (fun h => h.waits hm) ?_ h hc
  rintro p d payload wire _ h ⟨nonce', hf, rfl⟩
  exact run_frame hC h hf (Nat.le_trans hf.length_le hm)

/-! ## The replay identity -/

/-- The session is known by `salt`, or the salt is still asked for. -/
def Knows (salt : Salt) (d : V6UnshapedDecoder C) : Prop :=
  d.key.map Prod.snd = some salt ∨ (d.key = none ∧ d.step = .salt)

theorem Knows.identity {salt : Salt} (h : Knows salt d) :
    replayIdentity d = if RecordDecoder.kdfNeed d = 0 then some salt else none := by
  change d.key.map Prod.snd = if (if d.key.isNone ∧ d.step = .salt then saltLen else 0) = 0 then some salt else none
  rcases h with h | ⟨hk, hs⟩
  · have hsome : d.key.isNone = false := by cases hk : d.key <;> simp_all
    rw [h, if_pos (by simp [hsome])]
  · rw [if_neg (by simp [hk, hs, saltLen]), hk]; rfl

theorem readHeader_key (d : V6UnshapedDecoder C) (hdr : Bytes) :
    (readHeader d hdr).2.key = d.key ∧ (d.key = none → (readHeader d hdr) = (.error (.err .aead), d)) := by
  obtain ⟨nonce, h⟩ := readHeader_state (Prod.mk.eta (p := readHeader d hdr)).symm
  exact ⟨by rw [h], fun hk => by simp only [readHeader, hk]⟩

theorem readBody_key (d : V6UnshapedDecoder C) (body : Bytes) :
    (readBody d body).2.1.key = d.key := by
  unfold readBody
  split
  · rfl
  · split <;> rfl

/-- Past the salt the key stays as it is. -/
theorem decodeBody_key (d : V6UnshapedDecoder C) (payloadLen len max : Nat) (filled : Bytes) :
    (decodeBody d payloadLen len max filled).2.1.key = d.key := by
  unfold decodeBody
  simp only
  split
  · rfl
  · rfl
  split
  · rfl
  next body _ =>
  have hk := readBody_key d body
  split
  · next hr => rw [hr] at hk; exact hk
  · next hr =>
    rw [hr] at hk
    split <;> exact hk

theorem decodeHeader_key (d : V6UnshapedDecoder C) (max : Nat) (filled : Bytes) :
    (decodeHeader d max filled).2.1.key = d.key := by
  unfold decodeHeader
  simp only
  split
  · rfl
  · rfl
  split
  · rfl
  next hdr _ =>
  have hk := (readHeader_key d hdr).1
  split
  · next hr => rw [hr] at hk; exact hk
  · next hr =>
    rw [hr] at hk
    split
    · split <;> exact hk
    · exact (decodeBody_key _ _ _ _ _).trans hk

/-- Decoding learns the salt at most once, from the front of the stream. -/
theorem decode_knows {salt : Salt} {filled : Bytes} (h : Knows salt d)
    (hsalt : d.step = .salt → ∀ s, V4Decoder.kdfSalt filled = .ok s → s = salt) :
    Knows salt (decode d max filled).2.1 := by
  rcases h with h | ⟨hk, hs⟩
  · refine .inl ?_
    unfold decode
    split
    · next hs =>
      split
      · exact h
      · exact h
      split
      · exact h
      · next d' hr =>
        rw [decodeHeader_key]
        unfold readSalt at hr
        split at hr
        · cases hr; exact h
        · next hk => rw [hk] at h; cases h
    · rw [decodeHeader_key]; exact h
    · rw [decodeBody_key]; exact h
  · unfold decode
    simp only [hs]
    split
    · exact .inr ⟨hk, hs⟩
    · exact .inr ⟨hk, hs⟩
    split
    · exact .inr ⟨hk, hs⟩
    · next d' hr =>
      refine .inl ?_
      rw [decodeHeader_key]
      simp only [readSalt, hk, bind, Except.bind] at hr
      split at hr
      · cases hr
      next s hkdf =>
      split at hr
      · cases hr
      cases hr
      simp only [Option.map_some, hsalt hs s hkdf]

theorem installKdf_knows {salt : Salt} {psk : Psk} {filled : Bytes} (h : Knows salt d)
    (hsalt : d.step = .salt → ∀ s, V4Decoder.kdfSalt filled = .ok s → s = salt)
    (hi : installKdf C psk d filled = .ok d') : Knows salt d' := by
  unfold installKdf at hi
  simp only at hi
  split at hi
  · cases hi; exact h
  next hneed =>
  have hkey : d.step = .salt := by
    by_contra hne
    refine hneed (.inl ?_)
    change (if d.key.isNone ∧ d.step = .salt then saltLen else 0) = 0
    rw [if_neg (fun h => hne h.2)]
  simp only [bind, Except.bind] at hi
  split at hi
  · cases hi
  next s hs =>
  split at hi
  · cases hi
  next key _ =>
  change installAead d s key = .ok d' at hi
  simp only [installAead, bind, Except.bind] at hi
  split at hi
  · cases hi
  · cases hi
    refine .inl ?_
    simp only [Option.map_some, hsalt hkey s hs]

/-- What a session over a wire that opens with `salt` can take for its salt. -/
def Opens (salt : Salt) (wire : Bytes) : Prop :=
  ∀ s A unread, A ++ unread = wire → V4Decoder.kdfSalt A = .ok s → s = salt

theorem step_knows {salt : Salt} {psk : Psk} {records : List (Bytes × Bytes)} {s : Session (V6UnshapedDecoder C)}
    (hwire : Opens salt (wireOf records)) (hinv : s.Inv C max psk records)
    (hr : AtStart s.decoder → s.returned = []) (h : Knows salt s.decoder) (op : SessionOp) :
    Knows salt (s.step C psk op).decoder := by
  have hsalt : s.decoder.step = .salt → ∀ t, V4Decoder.kdfSalt s.buf.filled = .ok t → t = salt := by
    intro hs t ht
    have hstart : AtStart s.decoder := stage_eq_salt.2 hs
    obtain ⟨_, _, hbytes, _⟩ := hinv.ahead
    rw [hr hstart, hinv.atStart hstart, List.drop_zero] at hbytes
    exact hwire t _ _ hbytes ht
  cases op with
  | append n =>
    simp only [Session.step]
    split <;> exact h
  | decode =>
    have hk : Knows salt (decodeBuf s.decoder s.buf).2.1 := decode_knows h hsalt
    simp only [Session.step]
    split <;> next hd => rw [hd] at hk; exact hk
  | consume =>
    simp only [Session.step]
    split
    · exact h
    next r _ =>
    have hk : Knows salt (RecordDecoder.consume s.decoder s.buf r).2.1 := by
      unfold RecordDecoder.consume
      split <;> exact h
    split <;> next hc => rw [hc] at hk; exact hk
  | install =>
    simp only [Session.step]
    split
    · next hi => exact installKdf_knows h hsalt hi
    · exact h

/-- **The identity of a session** over a wire that opens with `salt`. -/
theorem run_knows (max : Nat) {salt : Salt} (psk : Psk) {records : List (Bytes × Bytes)}
    (hwire : Opens salt (wireOf records)) (ops : List SessionOp) {s : Session (V6UnshapedDecoder C)}
    (hinv : s.Inv C max psk records) (hr : AtStart s.decoder → s.returned = []) (h : Knows salt s.decoder) :
    Knows salt (s.run C psk ops).decoder ∧ (AtStart (s.run C psk ops).decoder → (s.run C psk ops).returned = []) := by
  induction ops generalizing s with
  | nil => exact ⟨h, hr⟩
  | cons op ops ih =>
    simp only [Session.run, hinv.fault, Option.isSome_none, Bool.false_eq_true, ↓reduceIte]
    exact ih (hinv.step op) (hinv.start_step hr op) (step_knows hwire hinv hr h op)

end V6UnshapedDecoder

/-- An unshaped wire from the start opens with its salt. -/
theorem V6Unshaped.Pos.opens {C : Crypto} {p p' : V6Unshaped.Pos C} {records : List (Bytes × Bytes)}
    (hf : p.first = true) (hc : Chain V6Unshaped.Pos.Frame p records p') :
    V6UnshapedDecoder.Opens p.salt (wireOf records) := by
  intro s A unread hA hs
  have hlen : saltLen ≤ A.length := by
    by_contra hlt
    rw [V4Decoder.kdfSalt, dif_neg hlt] at hs
    cases hs
  cases hc with
  | nil =>
    obtain ⟨rfl, _⟩ : A = [] ∧ unread = [] := by simpa [wireOf] using hA
    exact absurd hlen (by decide)
  | @cons _ p₁ _ payload wire records hframe _ =>
    obtain ⟨nonce', hframe, _⟩ := hframe
    obtain ⟨rest, rfl⟩ : ∃ rest, wire = p.salt.1 ++ rest := by
      rw [hf] at hframe
      cases hframe with
      | zero => exact ⟨_, rfl⟩
      | data => exact ⟨_, List.append_assoc _ _ _⟩
    rw [wireOf_cons, List.append_assoc] at hA
    have htake := congrArg (List.take saltLen) hA
    rw [List.take_append_of_le_length hlen, List.take_left' p.salt.2] at htake
    rw [V4Decoder.kdfSalt, dif_pos hlen] at hs
    cases hs
    exact Subtype.ext htake

/-- **The unshaped round trip.** Whatever a fresh encoder's caller does, and
however the sealed records are cut up, appended, decoded ahead and consumed,
with the key derived in the decoder or installed, the decoder hands out exactly
the sealed payloads: in order, readable until the next consume, as soon as
their last byte is there, and all of them once the whole wire is. The session
is known by the encoder's salt from the moment it is not asked for any more,
which is before the first record. -/
theorem unshaped_session_round_trip {C : Crypto} (hC : C.Inverts) {psk : Psk} {salt : Salt} {enc : V6UnshapedEncoder C}
    (henc : V6UnshapedEncoder.withSalt psk salt = .ok enc) (encOps : List RecordOp) {max : Nat}
    (hmax : v6WireCap ≤ max) (ops : List SessionOp) :
    let records := (encodeRun enc encOps).1
    let s := Session.run C psk (Session.new (V6UnshapedDecoder.new C psk) max (wireOf records)) ops
    Delivers C psk (V6UnshapedDecoder.new C psk) max records ops ∧
      replayIdentity s.decoder = (if kdfNeed s.decoder = 0 then some salt else none) ∧
      (s.returned ≠ [] → replayIdentity s.decoder = some salt) := by
  intro records s
  obtain ⟨_, hpos, hkey⟩ := V6UnshapedEncoder.withSalt_ok henc
  obtain ⟨p, hchain⟩ := LawfulEncoder.encodeRun_chain (e := enc) trivial encOps
  have hchain : Chain V6Unshaped.Pos.Frame enc.pos records p := hchain
  rw [hpos] at hchain
  have hreads : Reads (machine max) (V6UnshapedDecoder.new C psk) records :=
    (V6UnshapedDecoder.new_at hkey).reads hC hmax hchain
  obtain ⟨hknows, hstart⟩ := V6UnshapedDecoder.run_knows max psk
    (V6Unshaped.Pos.opens rfl hchain) ops (Session.new_inv (C := C) hreads rfl rfl rfl) (fun _ => rfl) (.inr ⟨rfl, rfl⟩)
  refine ⟨hreads.delivers rfl ops, hknows.identity, fun hne => ?_⟩
  rcases hknows with hk | ⟨_, hs⟩
  · exact hk
  · exact absurd (hstart (V6UnshapedDecoder.stage_eq_salt.2 hs)) hne

/-- The round trip of one record and an empty one, delivered byte by byte with
the key installed from outside. -/
theorem unshaped_session_round_trip_transparent :
    let psk : Psk := ⟨List.replicate 16 7, by decide⟩
    let salt : Salt := ⟨List.replicate saltLen 1, by decide⟩
    let enc : V6UnshapedEncoder Crypto.transparent := ⟨(), Nonce.new, salt, false, .ready⟩
    let sealing (pfx data : Bytes) : RecordOp :=
      ⟨Buffer.new 128, Buffer.new_wf 128, pfx, .datagram data.length, 0, [.payloadMut data],
        .sealMut data.length ⟨0, false, false, 0⟩⟩
    let records := (encodeRun enc [sealing [1] [2, 3], sealing [] []]).1
    records.map Prod.fst = [[1, 2, 3], []] ∧
      Delivers Crypto.transparent psk (V6UnshapedDecoder.new Crypto.transparent psk) v6WireCap records
        ((List.range 200).flatMap fun _ => [.append 1, .install, .decode]) := by
  intro psk salt enc sealing records
  exact ⟨by decide +kernel, (unshaped_session_round_trip Crypto.transparent_inverts
    (rfl : V6UnshapedEncoder.withSalt psk salt = .ok enc) [sealing [1] [2, 3], sealing [] []] (Nat.le_refl _) _).1⟩

end Snell
