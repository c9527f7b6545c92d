/-
From an encoder's contract and a decoder that reads its frames to the round
trip of whole sessions.
-/
import Snell.LawfulEncoder
import Snell.SessionFacts

namespace Snell

open RecordDecoder StagedDecoder

/-- A decoder that waits between frames and reads each frame as its record
reads every chain of them. -/
theorem Reads.of_chain {Pos D : Type} [RecordDecoder D] {M : Staged.Machine D Item Fault UInt8}
    {Frame : Pos → Bytes → Bytes → Pos → Prop} {S : Pos → D → Prop}
    (hwait : ∀ {p d}, S p d → ∃ k d', Staged.run M d [] = .need k d')
    (hframe : ∀ {p d payload wire p'}, S p d → Frame p payload wire p' →
      ∃ item wire' d', Staged.run M d wire = .emit wire.length item wire' d' ∧ item.Shows wire' payload ∧ S p' d')
    {p p' : Pos} {d : D} {records : List (Bytes × Bytes)} (h : S p d) (hc : Chain Frame p records p') :
    Reads M d records := by
  induction hc generalizing d with
  | nil => obtain ⟨_, _, hw⟩ := hwait h; exact .nil hw
  | cons hf _ ih =>
    obtain ⟨item, wire', d', hrun, hshow, hd'⟩ := hframe h hf
    exact .cons hrun hshow (ih hd')

section Delivery

variable {C : Crypto} {D : Type} [RecordDecoder D] [StagedDecoder D] [KdfDecoder C D]

/-- What every session over the wire of `records` comes to, from a fresh
decoder: it is faithful, and with the whole wire there it delivered all. -/
def Delivers (C : Crypto) [KdfDecoder C D] (psk : Psk) (d : D) (max : Nat) (records : List (Bytes × Bytes))
    (ops : List SessionOp) : Prop :=
  let s := Session.run C psk (Session.new d max (wireOf records)) ops
  s.Faithful max records ∧
    (s.unread = [] → ∀ minimum decoder buf, decodeBuf s.decoder s.buf = (.ok (.needMore minimum), decoder, buf) →
      s.returned.length = records.length ∧
        (s.returned.map DecodedRecord.consumed).sum = (wireOf records).length)

theorem Reads.delivers {d : D} {max : Nat} {records : List (Bytes × Bytes)} (hd : Reads (machine max) d records)
    (hp : pending d = 0) (ops : List SessionOp) : Delivers C (KdfDecoder.psk C d) d max records ops := by
  have hfaith := Session.run_faithful C hd hp ops
  refine ⟨hfaith, fun hu minimum decoder buf hdec => ?_⟩
  rw [length_wireOf]
  exact hfaith.complete hu hdec

end Delivery

end Snell
