/-
A v4 session end to end: what a `V4Encoder` seals, a `V4Decoder` with the
same pre-shared key hands out.
-/
import Snell.V4Encode
import Snell.RoundTrip

namespace Snell

open V4 RecordDecoder StagedDecoder

namespace V4Decoder

variable {C : Crypto} {key : C.Key} {salt : Salt} {first : Bool} {nonce : Nonce} {d : V4Decoder C} {max : Nat}

theorem new_synced {psk : Psk} (ne : Endian) (h : C.derive psk.bytes salt = .ok key) :
    Synced key salt true Nonce.new (new C psk ne) :=
  ⟨rfl, rfl, rfl, .inr ⟨rfl, rfl, .inr ⟨rfl, h⟩⟩⟩

/-- Between records the decoder waits. -/
theorem Synced.waits (h : Synced key salt first nonce d) (hm : v4WireCap ≤ max) :
    ∃ k d', Staged.run ((stages C).machine max) d [] = .need k d' := by
  have hspan : d.saltSpan ≤ saltLen := by unfold V4Decoder.saltSpan; split <;> simp
  have hcap : saltLen + headerCipherLen ≤ v4WireCap := by decide
  refine Stages.run_nil ?_
  rcases h.step with ⟨hs, _⟩ | ⟨hs, _⟩ <;> simp only [Stages.needed, stages, stage, hs] <;> omega

/-- The decoder reads every chain of frames from where it is. -/
theorem Synced.reads (hC : C.Inverts) (hm : v4WireCap ≤ max) {p p' : V4.Pos C} {records : List (Bytes × Bytes)}
    (h : Synced p.key p.salt p.first p.nonce d) (hc : Chain V4.Pos.Frame p records p') :
    Reads ((stages C).machine max) d records := by
  refine Reads.of_chain (S := fun p d => Synced p.key p.salt p.first p.nonce d) (fun h => h.waits hm) ?_ h hc
  rintro p d payload wire _ h ⟨nonce', hf, rfl⟩
  exact run_frame hC h hf (Nat.le_trans hf.length_le hm)

end V4Decoder

/-- **The v4 round trip.** Whatever a fresh encoder's caller does, and however
the sealed records are cut up, appended, decoded ahead and consumed, the
decoder hands out exactly the sealed payloads: in order, readable until the
next consume, as soon as their last byte is there, and all of them once the
whole wire is. The two sides may run on machines of different byte order. -/
theorem v4_session_round_trip {C : Crypto} {ε : Type} [Entropy ε] (hC : C.Inverts) {psk : Psk} {salt : Salt}
    {paddingLen : Nat} {entropy : ε} {ne : Endian} {enc : V4Encoder C ε}
    (henc : V4Encoder.withSalt psk salt paddingLen entropy ne = .ok enc) (encOps : List RecordOp) (ne' : Endian)
    {max : Nat} (hmax : v4WireCap ≤ max) (ops : List SessionOp) :
    Delivers C psk (V4Decoder.new C psk ne') max (encodeRun enc encOps).1 ops := by
  obtain ⟨hv, _, hsalt, hnonce, hchunk, hkey⟩ := V4Encoder.withSalt_valid henc
  obtain ⟨p, hchain⟩ := LawfulEncoder.encodeRun_chain (e := enc) hv encOps
  have hpos : LawfulEncoder.pos enc = (⟨enc.aead, salt, true, Nonce.new⟩ : V4.Pos C) := by
    change V4Encoder.pos enc = _
    rw [V4Encoder.pos, hsalt, hnonce, hchunk]; rfl
  rw [hpos] at hchain
  have hreads : Reads (machine max) (V4Decoder.new C psk ne') (encodeRun enc encOps).1 :=
    (V4Decoder.new_synced ne' hkey).reads hC hmax hchain
  exact hreads.delivers rfl ops

/-- The round trip of one padded record and an empty one, delivered byte by
byte with the key installed from outside. -/
theorem v4_session_round_trip_transparent :
    let psk : Psk := ⟨List.replicate 16 7, by decide⟩
    let salt : Salt := ⟨List.replicate saltLen 1, by decide⟩
    let enc : V4Encoder Crypto.transparent RepeatEntropy :=
      ⟨(), Nonce.new, salt, ⟨3⟩, .new 8, .ready, .little⟩
    let sealing (pfx data : Bytes) : RecordOp :=
      ⟨Buffer.new 128, Buffer.new_wf 128, pfx, .stream data.length, 0, [.payloadMut data],
        .sealMut data.length ⟨0, false, false, 8⟩⟩
    let records := (encodeRun enc [sealing [1] [2, 3], sealing [] []]).1
    records.map Prod.fst = [[1, 2, 3], []] ∧
      Delivers Crypto.transparent psk (V4Decoder.new Crypto.transparent psk .big) v4WireCap records
        ((List.range 200).flatMap fun _ => [.append 1, .install, .decode]) := by
  intro psk salt enc sealing records
  exact ⟨by decide +kernel, v4_session_round_trip Crypto.transparent_inverts
    (rfl : V4Encoder.withSalt psk salt 8 (⟨3⟩ : RepeatEntropy) .little = .ok enc)
    [sealing [1] [2, 3], sealing [] []] .big (Nat.le_refl _) _⟩

end Snell
