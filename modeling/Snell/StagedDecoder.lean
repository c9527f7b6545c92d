/-
Record decoders as staged parsers.

A decoder keeps an offset into the receive buffer, the bytes of records it
already handed out, and reads behind it. Whatever those bytes are, what it
does is what a `Staged.Machine` does on the bytes behind them
(`StagedDecoder.decode_eq`); the machine's state is the decoder with nothing
outstanding.
-/
import Snell.Record
import Snell.Staged

namespace Snell

open RecordDecoder

/-- A record in its own bytes: where its payload is. -/
inductive Item where
  | data (start stop : Nat)
  | zeroChunk
  deriving DecidableEq, Repr

namespace Item

/-- The record handed out for an item of `n` bytes that starts at `off`. -/
def record (off n : Nat) : Item → DecodedRecord
  | .data i j => ⟨n, off + i, off + j, .data⟩
  | .zeroChunk => ⟨n, 0, 0, .zeroChunk⟩

/-- The item's payload, read from the record's own bytes after decoding. -/
def Shows (item : Item) (wire payload : Bytes) : Prop :=
  match item with
  | .data i j => payload ≠ [] ∧ i ≤ j ∧ j ≤ wire.length ∧ (wire.drop i).take (j - i) = payload
  | .zeroChunk => payload = []

end Item

theorem need_eq (P A : Bytes) (max k : Nat) :
    Pending.need P.length max (P ++ A).length (P.length + k) =
      if max < k then .error (.err .payloadTooLarge)
      else if A.length < k then .ok (some (.needMore (P.length + k))) else .ok none := by
  simp only [Pending.need, sub_ok (Nat.le_add_right P.length k), bind, Except.bind, List.length_append,
    Nat.add_sub_cancel_left, Nat.add_lt_add_iff_left]
  split
  · rfl
  · split <;> rfl

/-- What a machine's answer on `A`, behind the bytes `P` of outstanding
records, is as the answer of a decoder. -/
def answer {D : Type} [RecordDecoder D] (P A : Bytes) :
    Staged.Result D Item Fault UInt8 → Res DecodeStatus × D × Bytes
  | .need k d => (.ok (.needMore (P.length + k)), setPending d P.length, P ++ A)
  | .emit n item stream d =>
    (.ok (.record (item.record P.length n)), setPending d (P.length + n), P ++ stream)
  | .fail f stream d => (.error f, setPending d P.length, P ++ stream)

theorem emit_eq (P : Bytes) (n i j : Nat) (kind : RecordKind) :
    Pending.emit P.length (P.length + n) i j kind = .ok (.record ⟨n, i, j, kind⟩, P.length + n) := by
  simp only [Pending.emit, sub_ok (Nat.le_add_right P.length n), bind, Except.bind, Nat.add_sub_cancel_left]
  rfl

/-- Every stage of a decoder starts by asking for its bytes. With the stage's
work (`X`) matching the machine's, the whole stage does. -/
theorem gate_eq {D : Type} [RecordDecoder D] {M : Staged.Machine D Item Fault UInt8} {d s : D} {k : Nat}
    {P A : Bytes} {X : Res DecodeStatus × D × Bytes} (hn : M.needed s = k)
    (ht : M.tooLarge = .err .payloadTooLarge) (hd : setPending s P.length = d)
    (hX : k ≤ M.max → k ≤ A.length → X = answer P A (Staged.run M s A)) :
    (match Pending.need P.length M.max (P ++ A).length (P.length + k) with
      | .error f => (.error f, d, P ++ A)
      | .ok (some need) => (.ok need, d, P ++ A)
      | .ok none => X) = answer P A (Staged.run M s A) := by
  rw [need_eq]
  by_cases hm : M.max < k
  · rw [if_pos hm, Staged.run_tooLarge (by omega), ht]
    simp only [answer, hd]
  rw [if_neg hm]
  by_cases hl : A.length < k
  · rw [if_pos hl, Staged.run_short (by omega) (by omega), hn]
    simp only [answer, hd]
  rw [if_neg hl]
  exact hX (by omega) (by omega)

/-- The first stage, where nothing is outstanding. -/
theorem gate_eq_start {D : Type} [RecordDecoder D] {M : Staged.Machine D Item Fault UInt8} {d : D} {k : Nat}
    {A : Bytes} {X : Res DecodeStatus × D × Bytes} (hn : M.needed d = k)
    (ht : M.tooLarge = .err .payloadTooLarge) (hd : setPending d 0 = d)
    (hX : k ≤ M.max → k ≤ A.length → X = answer [] A (Staged.run M d A)) :
    (match Pending.need 0 M.max A.length k with
      | .error f => (.error f, d, A)
      | .ok (some need) => (.ok need, d, A)
      | .ok none => X) = answer [] A (Staged.run M d A) := by
  have := gate_eq (P := []) hn ht hd hX
  rw [List.length_nil, Nat.zero_add] at this
  exact this

section Ends

variable {D : Type} [RecordDecoder D] {M : Staged.Machine D Item Fault UInt8} {s s' : D} {k : Nat} {P A front : Bytes}

/-! How a stage of `k` bytes that are there ends, as the decoder's answer. -/

theorem answer_fail {f : Fault} (hn : M.needed s = k) (hm : k ≤ M.max) (hl : k ≤ A.length)
    (h : M.act s (A.take k) = .fail f front s') :
    answer P A (Staged.run M s A) = (.error f, setPending s' P.length, P ++ (front ++ A.drop k)) := by
  subst hn
  rw [Staged.run_fail hm hl h]; rfl

theorem answer_emit {item : Item} (hn : M.needed s = k) (hm : k ≤ M.max) (hl : k ≤ A.length)
    (h : M.act s (A.take k) = .emit item front s') :
    answer P A (Staged.run M s A) =
      (.ok (.record (item.record P.length k)), setPending s' (P.length + k), P ++ (front ++ A.drop k)) := by
  subst hn
  rw [Staged.run_emit hm hl h]; rfl

theorem answer_next (hn : M.needed s = k) (hm : k ≤ M.max) (hl : k ≤ A.length)
    (h : M.act s (A.take k) = .next s') :
    answer P A (Staged.run M s A) = answer P A (Staged.run M s' A) := by
  subst hn
  rw [Staged.run_next hm hl h]

end Ends

/-- `maybe_install_kdf`: derive the key outside the decoder as soon as the
bytes it hangs on are there. -/
def installKdf {D : Type} [RecordDecoder D] (C : Crypto) (psk : Psk) (d : D) (filled : Bytes) : Res D :=
  let need := kdfNeed d
  if need = 0 ∨ filled.length < need then .ok d
  else do
    let salt ← kdfSalt d filled
    let key ← C.aeadKeyRes psk.bytes salt
    installAead d salt key

/-- A decoder that reads in stages. -/
class StagedDecoder (D : Type) [RecordDecoder D] where
  machine : (max : Nat) → Staged.Machine D Item Fault UInt8
  machine_max : ∀ max, (machine max).max = max
  /-- Still waiting for the salt, at the front of the connection. -/
  AtStart : D → Prop
  pending_set : ∀ (d : D) p, pending (setPending d p) = p
  set_set : ∀ (d : D) p q, setPending (setPending d p) q = setPending d q
  set_pending : ∀ d : D, setPending d (pending d) = d
  atStart_set : ∀ (d : D) p, AtStart (setPending d p) ↔ AtStart d
  act_next : ∀ {max} {d d' : D} {l}, (machine max).act d l = .next d' →
    pending d' = pending d ∧ ¬ AtStart d'
  act_emit : ∀ {max} {d d' : D} {l x f}, (machine max).act d l = .emit x f d' →
    pending d' = pending d ∧ ¬ AtStart d'
  act_fail : ∀ {max} {d d' : D} {l e f}, (machine max).act d l = .fail e f d' → pending d' = pending d
  decode_eq : ∀ (d : D) max (P A : Bytes), (AtStart d → pending d = 0) → P.length = pending d →
    decode d max (P ++ A) = answer P A (Staged.run (machine max) (setPending d 0) A)

namespace StagedDecoder

variable {D : Type} [RecordDecoder D] [StagedDecoder D] {max : Nat}

theorem run_emit_state {d d' : D} {A l : Bytes} {n : Nat} {x : Item}
    (h : Staged.run (machine max) d A = .emit n x l d') : pending d' = pending d ∧ ¬ AtStart d' := by
  revert h
  refine Staged.run_induct (P := fun d _ r => r = .emit n x l d' → pending d' = pending d ∧ ¬ AtStart d')
    A ?_ ?_ ?_ ?_ ?_ d
  · intro _ _ h; cases h
  · intro _ _ _ h; cases h
  · intro s x f s' _ _ ha h; cases h; exact act_emit ha
  · intro _ _ _ _ _ _ _ h; cases h
  · intro s s' _ _ ha ih h
    exact ⟨(ih h).1.trans (act_next ha).1, (ih h).2⟩

theorem run_need_state {d d' : D} {A : Bytes} {k : Nat}
    (h : Staged.run (machine max) d A = .need k d') :
    pending d' = pending d ∧ (AtStart d' → AtStart d) := by
  revert h
  refine Staged.run_induct (P := fun d _ r => r = .need k d' → pending d' = pending d ∧ (AtStart d' → AtStart d))
    A ?_ ?_ ?_ ?_ ?_ d
  · intro _ _ h; cases h
  · intro _ _ _ h; cases h; exact ⟨rfl, id⟩
  · intro _ _ _ _ _ _ _ h; cases h
  · intro _ _ _ _ _ _ _ h; cases h
  · intro s s' _ _ ha ih h
    exact ⟨(ih h).1.trans (act_next ha).1, fun hs => absurd ((ih h).2 hs) (act_next ha).2⟩

/-- A state with nothing outstanding is its own machine state. -/
theorem set_zero {d : D} (h : pending d = 0) : setPending d 0 = d := by
  rw [← h, set_pending]

/-- A decoder that handed out a record is past the start, and one that asks for
more is at the start only if it was. -/
theorem decode_atStart (max : Nat) {d : D} {P A : Bytes} (ha : AtStart d → pending d = 0) (hP : P.length = pending d) :
    match decode d max (P ++ A) with
    | (.ok (.needMore _), d', _) => AtStart d' → AtStart d
    | (.ok (.record _), d', _) => ¬ AtStart d'
    | (.error _, _, _) => True := by
  rw [decode_eq d max P A ha hP]
  cases hr : Staged.run (machine max) (setPending d 0) A with
  | need k d' =>
    simp only [answer, atStart_set]
    exact fun h => (atStart_set _ _).mp ((run_need_state hr).2 h)
  | emit n item l d' =>
    simp only [answer, atStart_set]
    exact (run_emit_state hr).2
  | fail f l d' => trivial

end StagedDecoder

/-- A decoder whose key may be derived outside it, from the salt at the front
of the stream: that changes nothing it reads, and fails when it would. -/
class KdfDecoder (C : Crypto) (D : Type) [RecordDecoder D] [StagedDecoder D] where
  psk : D → Psk
  psk_set : ∀ (d : D) p, psk (setPending d p) = psk d
  act_psk : ∀ {max} (d : D) l, psk ((StagedDecoder.machine max).act d l).state = psk d
  install_ok : ∀ {d d' : D} {A : Bytes}, (StagedDecoder.AtStart d → pending d = 0) → installKdf C (psk d) d A = .ok d' →
    pending d' = pending d ∧ psk d' = psk d ∧ (StagedDecoder.AtStart d' → StagedDecoder.AtStart d) ∧
      (d' = d ∨ (StagedDecoder.AtStart d ∧ ∀ max m, (StagedDecoder.machine max).needed d ≤ max →
        Staged.run (StagedDecoder.machine max) d' (A ++ m) = Staged.run (StagedDecoder.machine max) d (A ++ m)))
  install_error : ∀ {d : D} {A : Bytes} {f}, (StagedDecoder.AtStart d → pending d = 0) →
    installKdf C (psk d) d A = .error f → StagedDecoder.AtStart d ∧
      ∀ max m, (StagedDecoder.machine max).needed d ≤ max →
        ∃ l d', Staged.run (StagedDecoder.machine max) d (A ++ m) = .fail f l d'
  install_late : ∀ (d : D) (A : Bytes), installKdf C (psk d) d A = .ok d ∨
    ∀ max, (StagedDecoder.machine max).needed d ≤ A.length

end Snell
