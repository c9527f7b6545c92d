/-
A v6 shaped session end to end: what a `V6ShapedEncoder` seals, a
`V6ShapedDecoder` with the same key hands out.
-/
import Snell.ShapedEncode
import Snell.RoundTrip

namespace Snell

open RecordDecoder StagedDecoder

namespace V6ShapedDecoder

variable {C : Crypto} {d : V6ShapedDecoder C} {max : Nat}

/-- In step with a sender's position. -/
def At (p : V6Shaped.Pos C) (d : V6ShapedDecoder C) : Prop := Synced p.profile p.key p.salt p.first p.nonce p.seq d

theorem new_at {psk : ProfiledPsk C} {key : C.Key} {salt : Salt} (h : C.derive psk.bytes salt = .ok key) :
    At ⟨psk.profile, key, salt, true, Nonce.new, 0⟩ (new psk) :=
  ⟨rfl, rfl, rfl, rfl, rfl, .inr ⟨rfl, rfl, .inr ⟨rfl, h⟩⟩⟩

/-- Between records the decoder waits. -/
theorem At.waits {p : V6Shaped.Pos C} (h : At p d) (hm : v6WireCap ≤ max) :
    ∃ k d', Staged.run ((stages C).machine max) d [] = .need k d' := by
  have hprefix := p.profile.recordPrefixLen_le p.seq
  have hblock : d.profile.saltBlockLen ≤ maxSaltBlockLen := d.profile.saltBlockLen_le_max
  have hspan : d.saltSpan ≤ maxSaltBlockLen := by unfold V6ShapedDecoder.saltSpan; split <;> omega
  have hcap : maxSaltBlockLen + v6MaxPrefixLen + headerCipherLen ≤ v6WireCap := by decide
  refine Stages.run_nil ?_
  rcases h.step with ⟨hs, _⟩ | ⟨hs, _⟩ <;> simp only [Stages.needed, stages, stage, prefixSpan, hs] <;> omega

/-- The decoder reads every chain of frames from where it is. -/
theorem At.reads (hC : C.Inverts) (hm : v6WireCap ≤ max) {p p' : V6Shaped.Pos C} {records : List (Bytes × Bytes)}
    (h : At p d) (hc : Chain V6Shaped.Pos.Frame p records p') : Reads ((stages C).machine max) d records := by
  refine Reads.of_chain (S := At) (fun h => h.waits hm) ?_ h hc
  rintro p d payload wire _ h ⟨nonce', hf, rfl⟩
  exact run_frame hC h hf (Nat.le_trans hf.length_le hm)

end V6ShapedDecoder

/-- **The shaped round trip.** Whatever a fresh encoder's caller does, with any
clock, and however the sealed records are cut up, appended, decoded ahead and
consumed, with the key derived in the decoder or installed, the decoder hands
out exactly the sealed payloads: in order, readable until the next consume, as
soon as their last byte is there, and all of them once the whole wire is. -/
theorem shaped_session_round_trip {C : Crypto} (hC : C.Inverts) {psk : ProfiledPsk C} {salt : Salt}
    {enc : V6ShapedEncoder C} (henc : V6ShapedEncoder.withSalt psk salt = .ok enc) (encOps : List RecordOp) {max : Nat}
    (hmax : v6WireCap ≤ max) (ops : List SessionOp) :
    Delivers C psk.toPsk (V6ShapedDecoder.new psk) max (encodeRun enc encOps).1 ops := by
  obtain ⟨_, hpos, hkey⟩ := V6ShapedEncoder.withSalt_ok henc
  obtain ⟨p, hchain⟩ := LawfulEncoder.encodeRun_chain (e := enc) trivial encOps
  have hchain : Chain V6Shaped.Pos.Frame enc.pos (encodeRun enc encOps).1 p := hchain
  rw [hpos] at hchain
  have hreads : Reads (machine max) (V6ShapedDecoder.new psk) (encodeRun enc encOps).1 :=
    (V6ShapedDecoder.new_at hkey).reads hC hmax hchain
  exact hreads.delivers rfl ops

set_option maxRecDepth 10000 in
/-- The round trip of one record and an empty one, delivered byte by byte with
the key installed from outside. -/
theorem shaped_session_round_trip_transparent :
    let psk : Psk := ⟨List.replicate 16 7, by decide⟩
    let salt : Salt := ⟨List.replicate saltLen 1, by decide⟩
    let key := psk.profiled Crypto.transparent
    let enc : V6ShapedEncoder Crypto.transparent := ⟨(), Nonce.new, salt, 0, key, 0, none, .ready⟩
    let sealing (pfx data : Bytes) : RecordOp :=
      ⟨Buffer.new 2048, Buffer.new_wf _, pfx, .datagram data.length, 0, [.payloadMut data],
        .sealMut data.length ⟨0, false, false, 0⟩⟩
    let records := (encodeRun enc [sealing [1] [2, 3], sealing [] []]).1
    records.map Prod.fst = [[1, 2, 3], []] ∧
      Delivers Crypto.transparent psk (V6ShapedDecoder.new key) v6WireCap records
        ((List.range 4096).flatMap fun _ => [.append 1, .install, .decode]) := by
  intro psk salt key enc sealing records
  exact ⟨by decide +kernel, shaped_session_round_trip Crypto.transparent_inverts
    (rfl : V6ShapedEncoder.withSalt key salt = .ok enc) [sealing [1] [2, 3], sealing [] []] (Nat.le_refl _) _⟩

end Snell
