/-
The invariant of a receiving session, and that every step keeps it.
-/
import Snell.Session
import Snell.EncodeRun

namespace Snell

open RecordDecoder StagedDecoder

/-! ## Wires -/

theorem wireOf_cons (payload wire : Bytes) (records : List (Bytes × Bytes)) :
    wireOf ((payload, wire) :: records) = wire ++ wireOf records := rfl

theorem wireLen_append (as bs : List (Bytes × Bytes)) : wireLen (as ++ bs) = wireLen as + wireLen bs := by
  simp only [wireLen, List.map_append, List.sum_append]

theorem length_wireOf (records : List (Bytes × Bytes)) : (wireOf records).length = wireLen records := by
  simp only [wireOf, wireLen, List.length_flatten, List.map_map]; rfl

section Reads

variable {D : Type} [RecordDecoder D] {M : Staged.Machine D Item Fault UInt8} {d : D} {records : List (Bytes × Bytes)}

theorem Reads.not_fail (h : Reads M d records) (m : Bytes) (hm : records = [] → m = []) (f : Fault) (l : Bytes) (d' : D) :
    Staged.run M d (wireOf records ++ m) ≠ .fail f l d' := by
  cases h with
  | nil hw => rw [hm rfl]; change Staged.run M d [] ≠ _; rw [hw]; nofun
  | cons hr _ _ => rw [wireOf_cons, List.append_assoc, Staged.run_append_emit hr]; nofun

/-- What a decoder answers on the front of a readable wire. -/
theorem Reads.answer {A unread : Bytes} (h : Reads M d records) (hA : A ++ unread = wireOf records) :
    (∃ k d', Staged.run M d A = .need k d' ∧ A.length < k ∧
      ∀ payload wire rest, records = (payload, wire) :: rest → A.length < wire.length ∧ k ≤ wire.length) ∨
    (∃ payload wire rest item wire' d' A', records = (payload, wire) :: rest ∧ A = wire ++ A' ∧
      Staged.run M d A = .emit wire.length item (wire' ++ A') d' ∧ wire'.length = wire.length ∧
      item.Shows wire' payload ∧ Reads M d' rest) := by
  cases h with
  | @nil _ d' k hw =>
    left
    obtain ⟨rfl, rfl⟩ : A = [] ∧ unread = [] := by simpa [wireOf] using hA
    exact ⟨k, d', hw, (Staged.run_need hw).1, nofun⟩
  | @cons _ d' payload wire wire' item rest hr hshow hrest =>
    rw [wireOf_cons] at hA
    by_cases hl : wire.length ≤ A.length
    · right
      obtain ⟨A', rfl⟩ : ∃ A', A = wire ++ A' := by
        have := List.append_eq_append_iff.mp hA
        rcases this with ⟨c, rfl, _⟩ | ⟨c, rfl, _⟩
        · have : c = [] := List.eq_nil_of_length_eq_zero (by simp only [List.length_append] at hl; omega)
          exact ⟨[], by rw [this]; simp⟩
        · exact ⟨c, rfl⟩
      exact ⟨payload, wire, rest, item, wire', d', A', rfl, rfl, Staged.run_append_emit hr A',
        (Staged.run_emit_bounds hr).2.2.2.1, hshow, hrest⟩
    · left
      obtain ⟨c, hc⟩ : ∃ c, wire = A ++ c := by
        rcases List.append_eq_append_iff.mp hA with ⟨c, rfl, _⟩ | ⟨c, rfl, _⟩
        · exact ⟨c, rfl⟩
        · simp only [List.length_append] at hl; omega
      subst hc
      have hne : c ≠ [] := by rintro rfl; simp at hl
      obtain ⟨k, d'', hrun, hk⟩ := Staged.run_front_of_emit hr hne
      refine ⟨k, d'', hrun, (Staged.run_need hrun).1, ?_⟩
      rintro _ _ _ ⟨⟩
      exact ⟨by omega, hk⟩

end Reads

/-- A record as it is handed out, behind the bytes `P` of earlier ones. -/
theorem Item.record_shows {item : Item} {P wire A payload : Bytes} (h : item.Shows wire payload) (n : Nat) :
    (item.record P.length n).consumed = n ∧ (item.record P.length n).kind = kindOf payload ∧
      (item.record P.length n).plaintextEnd ≤ P.length + wire.length ∧
      (item.record P.length n).plaintext (P ++ (wire ++ A)) = .ok payload := by
  cases item with
  | zeroChunk =>
    obtain rfl : payload = [] := h
    exact ⟨rfl, rfl, Nat.zero_le _, by simp [Item.record, DecodedRecord.plaintext, slice]⟩
  | data i j =>
    obtain ⟨hne, hij, hj, hpay⟩ := h
    refine ⟨rfl, by simp [Item.record, kindOf, hne], by simp only [Item.record]; omega, ?_⟩
    simp only [Item.record, DecodedRecord.plaintext]
    rw [slice_append_right, slice_of_take (k := wire.length) (m := wire) hj
      (by simp only [List.length_append]; omega) (Nat.le_refl _) (by rw [List.take_left, List.take_length]),
      slice_ok hij hj, hpay]

/-! ## The invariant -/

variable {C : Crypto} {D : Type} [RecordDecoder D] [StagedDecoder D] [KdfDecoder C D]

/-- `s` is a session over `records`: what it handed out are the first of them,
and what it holds and has not received is the wire of the rest. -/
structure Session.Inv (C : Crypto) [KdfDecoder C D] (max : Nat) (psk : Psk) (records : List (Bytes × Bytes))
    (s : Session D) : Prop where
  fault : s.fault = none
  wf : s.buf.Wf
  max_eq : s.buf.max = max
  cap_eq : s.buf.capacity = max
  psk_eq : KdfDecoder.psk C s.decoder = psk
  returned_le : s.returned.length ≤ records.length
  fresh_le : s.consumed + s.fresh ≤ s.returned.length
  told : ∀ (i : Nat) r rec, s.returned[i]? = some r → records[i]? = some rec →
    r.consumed = rec.2.length ∧ r.kind = kindOf rec.1
  pending_eq : pending s.decoder = wireLen ((records.take s.returned.length).drop s.consumed)
  pending_le : pending s.decoder ≤ s.buf.filled.length
  /-- Records handed out since the last consume are readable. -/
  shown : ∀ (i : Nat) r rec, s.returned.length ≤ i + s.fresh → s.returned[i]? = some r → records[i]? = some rec →
    r.plaintextEnd ≤ pending s.decoder ∧ r.plaintext s.buf.filled = .ok rec.1
  atStart : AtStart s.decoder → pending s.decoder = 0
  ahead : ∃ d, Reads (machine max) d (records.drop s.returned.length) ∧
    s.buf.filled.drop (pending s.decoder) ++ s.unread = wireOf (records.drop s.returned.length) ∧
    pending d = 0 ∧
    ∀ m, Staged.run (machine max) (setPending s.decoder 0) (s.buf.filled.drop (pending s.decoder) ++ m) =
      Staged.run (machine max) d (s.buf.filled.drop (pending s.decoder) ++ m)

namespace Session

variable {max : Nat} {psk : Psk} {records : List (Bytes × Bytes)} {s : Session D}

theorem new_inv {d : D} {wire : Bytes} (hd : Reads (machine max) d records) (hp : pending d = 0)
    (hpsk : KdfDecoder.psk C d = psk) (hw : wire = wireOf records) : Inv C max psk records (new d max wire) where
  fault := rfl
  wf := Buffer.new_wf max
  max_eq := rfl
  cap_eq := by simp [new, Buffer.new, Buffer.capacity]
  psk_eq := hpsk
  returned_le := Nat.zero_le _
  fresh_le := Nat.le_refl _
  told := nofun
  pending_eq := by simpa [new, wireLen] using hp
  pending_le := by simp [new, hp]
  shown := nofun
  atStart _ := hp
  ahead := ⟨d, hd, by simp [new, hp, Buffer.new, Buffer.filled, hw], hp, fun m => by
    simp only [new, set_zero hp]⟩

/-- The bytes of outstanding records, and the ones behind them. -/
theorem Inv.split (h : Inv C max psk records s) :
    s.buf.filled = s.buf.filled.take (pending s.decoder) ++ s.buf.filled.drop (pending s.decoder) ∧
      (s.buf.filled.take (pending s.decoder)).length = pending s.decoder :=
  ⟨(List.take_append_drop _ _).symm, by rw [List.length_take]; have := h.pending_le; omega⟩

theorem Inv.append (h : Inv C max psk records s) (n : Nat) : Inv C max psk records (s.step C psk (.append n)) := by
  simp only [step]
  rcases Buffer.extendFromSlice_cases (s.unread.take n) h.wf with ⟨err, he⟩ | ⟨buf, he, hf, hw, hm, hc, _⟩
  · simp only [he]
    exact h
  · simp only [he]
    have hle := h.pending_le
    have hdrop : buf.filled.drop (pending s.decoder) =
        s.buf.filled.drop (pending s.decoder) ++ s.unread.take n := by
      rw [hf, List.drop_append_of_le_length hle]
    have htake : buf.filled.take (pending s.decoder) = s.buf.filled.take (pending s.decoder) := by
      rw [hf, List.take_append_of_le_length hle]
    have hle' : pending s.decoder ≤ buf.filled.length := by rw [hf, List.length_append]; omega
    obtain ⟨d, hd, hwire, hp, hrun⟩ := h.ahead
    refine { h with
      wf := hw, max_eq := hm.trans h.max_eq, cap_eq := hc.trans h.cap_eq, pending_le := hle'
      shown := ?_, ahead := ⟨d, hd, ?_, hp, ?_⟩ }
    · intro i r rec hi hr hrec
      obtain ⟨hend, hshow⟩ := h.shown i r rec hi hr hrec
      refine ⟨hend, ?_⟩
      rw [← hshow]
      exact slice_of_take hend hle' hle htake
    · simp only [hdrop, List.append_assoc, List.take_append_drop]; exact hwire
    · intro m
      simp only [hdrop, List.append_assoc]
      exact hrun _

/-- **Decoding**: the next record exactly when its last byte is there, and
otherwise a request for more bytes than are there, within that record. -/
theorem Inv.decode (h : Inv C max psk records s) :
    Inv C max psk records (s.step C psk .decode) ∧
    ((∃ minimum decoder buf, decodeBuf s.decoder s.buf = (.ok (.needMore minimum), decoder, buf) ∧
        s.buf.filled.length < minimum ∧ minimum ≤ pending s.decoder + max ∧
        ∀ rec, records[s.returned.length]? = some rec →
          s.buf.filled.length < pending s.decoder + rec.2.length ∧ minimum ≤ pending s.decoder + rec.2.length) ∨
      (∃ r decoder buf rec, decodeBuf s.decoder s.buf = (.ok (.record r), decoder, buf) ∧
        records[s.returned.length]? = some rec ∧ pending s.decoder + rec.2.length ≤ s.buf.filled.length)) := by
  obtain ⟨d, hd, hwire, hp, hrun⟩ := h.ahead
  obtain ⟨hsplit, hPlen⟩ := h.split
  generalize hP : s.buf.filled.take (pending s.decoder) = P at hsplit hPlen
  generalize hA : s.buf.filled.drop (pending s.decoder) = A at hsplit hwire hrun
  have hlen : s.buf.filled.length = pending s.decoder + A.length := by
    rw [hsplit, List.length_append, hPlen]
  have hzero : pending (setPending s.decoder 0) = 0 := pending_set _ _
  have hdec := decode_eq s.decoder s.buf.max P A h.atStart hPlen
  have hrunA := hrun []
  rw [List.append_nil] at hrunA
  rw [h.max_eq, hrunA] at hdec
  have hbuf : decodeBuf s.decoder s.buf =
      ((answer P A (Staged.run (machine max) d A)).1, (answer P A (Staged.run (machine max) d A)).2.1,
        s.buf.setFilled (answer P A (Staged.run (machine max) d A)).2.2) := by
    simp only [decodeBuf]; rw [h.max_eq, hsplit, hdec]
  have hnext : ∀ rec, records[s.returned.length]? = some rec →
      records.drop s.returned.length = rec :: records.drop (s.returned.length + 1) := by
    intro rec hrec
    obtain ⟨hi, rfl⟩ := List.getElem?_eq_some_iff.mp hrec
    exact List.drop_eq_getElem_cons hi
  rcases hd.answer hwire with ⟨k, d', hneed, hk, hmore⟩ |
      ⟨payload, wire, rest, item, wire', d', A', hrest, hAw, hemit, hw', hshow, hd'⟩
  · -- not there yet: the decoder only moved on through its stages
    rw [hneed] at hbuf
    simp only [answer] at hbuf
    have hstate := run_need_state (hrunA.trans hneed)
    have hfill : (s.buf.setFilled (P ++ A)).filled = s.buf.filled := by
      rw [Buffer.setFilled_filled h.wf, hsplit]
    have hkmax := (Staged.run_need hneed).2.1
    rw [machine_max] at hkmax
    refine ⟨?_, .inl ⟨_, _, _, hbuf, by omega, by omega, fun rec hrec => ?_⟩⟩
    · simp only [step, hbuf]
      have hpend : pending (setPending d' P.length) = pending s.decoder := (pending_set _ _).trans hPlen
      refine { h with
        wf := Buffer.setFilled_wf h.wf (by rw [← hsplit, Buffer.filled_length])
        max_eq := h.max_eq
        cap_eq := (Buffer.setFilled_capacity h.wf (by rw [← hsplit, Buffer.filled_length])).trans h.cap_eq
        psk_eq := ?_, pending_eq := hpend.trans h.pending_eq
        pending_le := by simp only [hpend, hfill]; exact h.pending_le
        shown := by simp only [hpend, hfill]; exact h.shown
        atStart := ?_
        ahead := ⟨d, hd, by simp only [hpend, hfill, hA]; exact hwire, hp, ?_⟩ }
      · rw [KdfDecoder.psk_set]
        have := Staged.run_keeps (M := machine max) (I := fun e : D => KdfDecoder.psk C e = psk)
          (fun e l he => (KdfDecoder.act_psk e l).trans he) (s := setPending s.decoder 0)
          ((KdfDecoder.psk_set _ _).trans h.psk_eq) A
        rw [hrunA, hneed] at this
        exact this
      · intro hat
        rw [atStart_set] at hat
        have := (atStart_set _ _).mp (hstate.2 hat)
        exact hpend.trans (h.atStart this)
      · intro m
        simp only [hpend, hfill, hA, set_set]
        rw [set_zero (hstate.1.trans hzero)]
        exact Staged.run_need_resume hneed m
    · obtain ⟨h₁, h₂⟩ := hmore rec.1 rec.2 _ (hnext rec hrec)
      omega
  · -- the whole record is there
    obtain ⟨rec, hrec, rfl⟩ : ∃ rec, records[s.returned.length]? = some rec ∧ rec = (payload, wire) := by
      have := congrArg (fun l : List (Bytes × Bytes) => l[0]?) hrest
      simp only [List.getElem?_drop, Nat.add_zero, List.getElem?_cons_zero] at this
      exact ⟨_, this, rfl⟩
    have hrest' : rest = records.drop (s.returned.length + 1) := by
      have := hnext _ hrec
      rw [hrest] at this
      exact (List.cons.inj this).2
    rw [hemit] at hbuf
    simp only [answer] at hbuf
    have hAlen : A.length = wire.length + A'.length := by rw [hAw, List.length_append]
    refine ⟨?_, .inr ⟨_, _, _, _, hbuf, hrec, by simp only; omega⟩⟩
    obtain ⟨hp', hat'⟩ := run_emit_state (hrunA.trans hemit)
    obtain ⟨hcons, hkind, hend, hplain⟩ := Item.record_shows (P := P) (A := A') hshow wire.length
    have hfill : (s.buf.setFilled (P ++ (wire' ++ A'))).filled = P ++ (wire' ++ A') :=
      Buffer.setFilled_filled h.wf
    have hlen' : (P ++ (wire' ++ A')).length = s.buf.filled.length := by
      simp only [List.length_append] at hlen ⊢; omega
    have hi : s.returned.length < records.length := (List.getElem?_eq_some_iff.mp hrec).1
    have hpend : pending (setPending d' (P.length + wire.length)) = P.length + wire.length := pending_set _ _
    have hdrop : (P ++ (wire' ++ A')).drop (P.length + wire.length) = A' := by
      rw [List.drop_length_add_append, ← hw', List.drop_left]
    simp only [step, hbuf]
    refine {
      fault := h.fault
      wf := Buffer.setFilled_wf h.wf (by rw [hlen', Buffer.filled_length])
      max_eq := h.max_eq
      cap_eq := (Buffer.setFilled_capacity h.wf (by rw [hlen', Buffer.filled_length])).trans h.cap_eq
      psk_eq := ?_
      returned_le := by simp only [List.length_append, List.length_singleton]; omega
      fresh_le := by simp only [List.length_append, List.length_singleton]; have := h.fresh_le; omega
      told := ?_, pending_eq := ?_
      pending_le := by
        simp only [hpend, hfill, List.length_append]; omega
      shown := ?_
      atStart := fun hat => absurd ((atStart_set _ _).mp hat) hat'
      ahead := ⟨d', ?_, ?_, hp'.trans hzero, ?_⟩ }
    · rw [KdfDecoder.psk_set]
      have := Staged.run_keeps (M := machine max) (I := fun e : D => KdfDecoder.psk C e = psk)
        (fun e l he => (KdfDecoder.act_psk e l).trans he) (s := setPending s.decoder 0)
        ((KdfDecoder.psk_set _ _).trans h.psk_eq) A
      rw [hrunA, hemit] at this
      exact this
    · intro i r rec hr hrec'
      rcases Nat.lt_or_ge i s.returned.length with hlt | hge
      · rw [List.getElem?_append_left hlt] at hr
        exact h.told i r rec hr hrec'
      · rw [List.getElem?_append_right hge] at hr
        obtain ⟨h0, rfl⟩ := List.getElem?_eq_some_iff.mp hr
        obtain rfl : i = s.returned.length := by simp only [List.length_singleton] at h0; omega
        rw [hrec] at hrec'
        cases hrec'
        simp only [List.getElem_singleton]
        exact ⟨hcons, hkind⟩
    · have hfresh := h.fresh_le
      simp only [hpend, List.length_append, List.length_singleton, List.take_add_one, hrec, Option.toList_some]
      rw [List.drop_append_of_le_length (by rw [List.length_take]; omega), wireLen_append, ← h.pending_eq, hPlen]
      simp [wireLen]
    · intro i r rec hi' hr hrec'
      simp only [hpend, hfill]
      rcases Nat.lt_or_ge i s.returned.length with hlt | hge
      · rw [List.getElem?_append_left hlt] at hr
        simp only [List.length_append, List.length_singleton] at hi'
        obtain ⟨hend', hshow'⟩ := h.shown i r rec (by omega) hr hrec'
        refine ⟨by omega, ?_⟩
        rw [← hshow']
        refine slice_of_take (k := P.length) (by omega) (by simp only [List.length_append]; omega) (by omega) ?_
        rw [List.take_left, ← hP, hP, hPlen, hP]
      · rw [List.getElem?_append_right hge] at hr
        obtain ⟨h0, rfl⟩ := List.getElem?_eq_some_iff.mp hr
        obtain rfl : i = s.returned.length := by simp only [List.length_singleton] at h0; omega
        rw [hrec] at hrec'
        cases hrec'
        simp only [List.getElem_singleton]
        exact ⟨by omega, hplain⟩
    · simp only [List.length_append, List.length_singleton]; rw [← hrest']; exact hd'
    · simp only [hpend, hfill, hdrop, List.length_append, List.length_singleton]
      rw [← hrest']
      rw [hrest, wireOf_cons, hAw, List.append_assoc] at hwire
      exact List.append_cancel_left hwire
    · intro m
      simp only [set_set]
      rw [set_zero (hp'.trans hzero)]

theorem Inv.consume (h : Inv C max psk records s) : Inv C max psk records (s.step C psk .consume) := by
  simp only [step]
  cases hr : s.returned[s.consumed]? with
  | none => exact h
  | some r =>
    have hlt := (List.getElem?_eq_some_iff.mp hr).1
    have hle := h.returned_le
    obtain ⟨rec, hrec⟩ : ∃ rec, records[s.consumed]? = some rec := ⟨_, List.getElem?_eq_getElem (by omega)⟩
    have hcons := (h.told _ r rec hr hrec).1
    -- the oldest outstanding record is the first of the pending bytes
    have hpend : pending s.decoder =
        r.consumed + wireLen ((records.take s.returned.length).drop (s.consumed + 1)) := by
      have htake : (records.take s.returned.length)[s.consumed]? = some rec := by
        rw [List.getElem?_take_of_lt hlt, hrec]
      obtain ⟨hi, hget⟩ := List.getElem?_eq_some_iff.mp htake
      rw [h.pending_eq, List.drop_eq_getElem_cons hi, hget, hcons]
      simp [wireLen]
    have hlen := h.pending_le
    obtain ⟨buf, hb⟩ := Buffer.consume_fits (b := s.buf) (n := r.consumed) (by
      rw [← Buffer.filled_length]; omega)
    obtain ⟨_, hfill, hmax, hcap, hwf⟩ := Buffer.consume_ok h.wf hb
    have hset : pending (setPending s.decoder (pending s.decoder - r.consumed)) = pending s.decoder - r.consumed :=
      pending_set _ _
    have hdrop : buf.filled.drop (pending s.decoder - r.consumed) = s.buf.filled.drop (pending s.decoder) := by
      rw [hfill, List.drop_drop]; congr 1; omega
    have hdo : RecordDecoder.consume s.decoder s.buf r =
        (.ok (), setPending s.decoder (pending s.decoder - r.consumed), buf) := by
      rw [RecordDecoder.consume, if_neg (by omega)]
      simp only [hb]
    simp only [hdo]
    obtain ⟨d, hd, hwire, hp, hrun⟩ := h.ahead
    exact {
      fault := h.fault
      wf := hwf
      max_eq := hmax.trans h.max_eq
      cap_eq := hcap.trans h.cap_eq
      psk_eq := (KdfDecoder.psk_set _ _).trans h.psk_eq
      returned_le := hle
      fresh_le := by simp only; omega
      told := h.told
      pending_eq := by simp only [hset]; omega
      pending_le := by simp only [hset, hfill, List.length_drop]; omega
      shown := fun i r rec hi hr _ => by
        have hlt' : i < s.returned.length := (List.getElem?_eq_some_iff.mp hr).1
        have hge : s.returned.length ≤ i := hi
        omega
      atStart := fun hat => by
        have := h.atStart ((atStart_set _ _).mp hat)
        rw [hset]; omega
      ahead := ⟨d, hd, by simp only [hset, hdrop]; exact hwire, hp, fun m => by
        simp only [hset, hdrop, set_set]; exact hrun m⟩ }

/-- A decoder on a readable wire is never asked to hold more than it may. -/
theorem Inv.needed_le (h : Inv C max psk records s) :
    (machine max).needed (setPending s.decoder 0) ≤ (max : Nat) := by
  obtain ⟨d, hd, hwire, _, hrun⟩ := h.ahead
  by_contra hlt
  have hmax : (machine (D := D) max).max = max := machine_max max
  have hfail := Staged.run_tooLarge (M := machine max) (s := setPending s.decoder 0)
    (l := s.buf.filled.drop (pending s.decoder) ++ s.unread) (by omega)
  rw [hrun, hwire] at hfail
  have := hd.not_fail [] (fun _ => rfl)
  rw [List.append_nil] at this
  exact this _ _ _ hfail

theorem Inv.install (h : Inv C max psk records s) : Inv C max psk records (s.step C psk .install) := by
  have hneed := h.needed_le
  obtain ⟨d, hd, hwire, hp, hrun⟩ := h.ahead
  simp only [step]
  cases hi : installKdf C psk s.decoder s.buf.filled with
  | error f =>
    rw [← h.psk_eq] at hi
    obtain ⟨hat, hfail⟩ := KdfDecoder.install_error h.atStart hi
    have h0 := h.atStart hat
    rw [set_zero h0] at hneed hrun
    obtain ⟨l, d', hl⟩ := hfail max s.unread hneed
    rw [h0, List.drop_zero] at hrun hwire
    rw [hrun, hwire] at hl
    have := hd.not_fail [] (fun _ => rfl)
    rw [List.append_nil] at this
    exact absurd hl (this _ _ _)
  | ok decoder =>
    rw [← h.psk_eq] at hi
    obtain ⟨hpend, hpsk, hat, hsame⟩ := KdfDecoder.install_ok h.atStart hi
    simp only
    refine { h with
      psk_eq := hpsk.trans h.psk_eq
      pending_eq := hpend.trans h.pending_eq
      pending_le := by simp only [hpend]; exact h.pending_le
      shown := by simp only [hpend]; exact h.shown
      atStart := fun h' => hpend.trans (h.atStart (hat h'))
      ahead := ⟨d, hd, by simp only [hpend]; exact hwire, hp, fun m => ?_⟩ }
    rcases hsame with rfl | ⟨hstart, hsame⟩
    · exact hrun m
    · have h0 := h.atStart hstart
      rw [set_zero h0] at hneed hrun
      simp only [hpend]
      rw [set_zero (hpend.trans h0), ← hrun m, h0, List.drop_zero]
      exact hsame max m hneed

/-- Every step keeps the invariant. -/
theorem Inv.step (h : Inv C max psk records s) (op : SessionOp) : Inv C max psk records (s.step C psk op) := by
  cases op with
  | append n => exact h.append n
  | decode => exact h.decode.1
  | consume => exact h.consume
  | install => exact h.install

/-- Every run does. -/
theorem Inv.run (h : Inv C max psk records s) (ops : List SessionOp) : Inv C max psk records (s.run C psk ops) := by
  induction ops generalizing s with
  | nil => exact h
  | cons op ops ih =>
    simp only [Session.run, h.fault, Option.isSome_none, Bool.false_eq_true, ↓reduceIte]
    exact ih (h.step op)

/-- Before the salt is read nothing was handed out. -/
theorem Inv.start_step (h : Inv C max psk records s) (h0 : AtStart s.decoder → s.returned = []) (op : SessionOp) :
    AtStart (s.step C psk op).decoder → (s.step C psk op).returned = [] := by
  cases op with
  | append n =>
    simp only [Session.step]
    split <;> exact h0
  | decode =>
    obtain ⟨hsplit, hP⟩ := h.split
    have hat := decode_atStart s.buf.max (A := s.buf.filled.drop (pending s.decoder)) h.atStart hP
    rw [← hsplit] at hat
    simp only [Session.step]
    rcases h.decode.2 with ⟨_, decoder, buf, hdec, _⟩ | ⟨r, decoder, buf, rec, hdec, _⟩
    all_goals
      simp only [hdec]
      simp only [decodeBuf, Prod.mk.injEq] at hdec
      obtain ⟨hd₁, hd₂, _⟩ := hdec
      rcases hdc : RecordDecoder.decode s.decoder s.buf.max s.buf.filled with ⟨a, d, l⟩
      rw [hdc] at hat hd₁ hd₂
      subst hd₁ hd₂
    · exact fun h => h0 (hat h)
    · exact fun h => absurd h hat
  | consume =>
    simp only [Session.step]
    split
    · exact h0
    next r _ =>
    have hat : AtStart (RecordDecoder.consume s.decoder s.buf r).2.1 → AtStart s.decoder := by
      unfold RecordDecoder.consume
      split
      · exact id
      · exact (atStart_set _ _).mp
    split <;> next hc => rw [hc] at hat; exact fun h => h0 (hat h)
  | install =>
    simp only [Session.step]
    split
    · next hi =>
      rw [← h.psk_eq] at hi
      exact fun hs => h0 ((KdfDecoder.install_ok h.atStart hi).2.2.1 hs)
    · exact h0

/-! ## What a session delivers -/

/-- What the caller of a session over `records` can rely on, at any moment. -/
structure Faithful (max : Nat) (records : List (Bytes × Bytes)) (s : Session D) : Prop where
  /-- No call failed. -/
  fault : s.fault = none
  /-- The records handed out are the first ones sealed, in order. -/
  in_order : s.returned.length ≤ records.length ∧
    s.returned.map (fun r => (r.consumed, r.kind)) =
      (records.take s.returned.length).map fun rec => (rec.2.length, kindOf rec.1)
  /-- Those handed out since the last consume are readable as sealed. -/
  readable : ∀ (i : Nat) r rec, s.returned.length ≤ i + s.fresh → s.returned[i]? = some r → records[i]? = some rec →
    r.plaintext s.buf.filled = .ok rec.1
  /-- The next record is handed out exactly when its last byte has arrived. -/
  prompt : ∀ rec, records[s.returned.length]? = some rec →
    ((∃ r decoder buf, decodeBuf s.decoder s.buf = (.ok (.record r), decoder, buf)) ↔
      wireLen (records.take (s.returned.length + 1)) + s.unread.length ≤ wireLen records)
  /-- Otherwise more bytes are asked for than there are, within the next
  record and the buffer. -/
  waiting : ∀ minimum decoder buf, decodeBuf s.decoder s.buf = (.ok (.needMore minimum), decoder, buf) →
    s.buf.filled.length < minimum ∧ minimum ≤ pending s.decoder + max ∧
      ∀ rec, records[s.returned.length]? = some rec → minimum ≤ pending s.decoder + rec.2.length
  /-- What fits the buffer can be appended. -/
  fits : ∀ n, s.buf.filled.length + n ≤ max → ∃ buf, s.buf.extendFromSlice (s.unread.take n) = (.ok (), buf)

theorem Inv.faithful (h : Inv C max psk records s) : Faithful max records s := by
  have hle := h.returned_le
  refine ⟨h.fault, ⟨hle, ?_⟩, fun i r rec hi hr hrec => (h.shown i r rec hi hr hrec).2, ?_, ?_, ?_⟩
  · refine List.ext_getElem? fun i => ?_
    simp only [List.getElem?_map]
    rcases Nat.lt_or_ge i s.returned.length with hlt | hge
    · rw [List.getElem?_take_of_lt hlt, List.getElem?_eq_getElem hlt, List.getElem?_eq_getElem (by omega)]
      obtain ⟨h₁, h₂⟩ := h.told i _ _ (List.getElem?_eq_getElem hlt) (List.getElem?_eq_getElem (by omega))
      simp only [Option.map_some, h₁, h₂]
    · rw [List.getElem?_eq_none hge, List.getElem?_eq_none (by rw [List.length_take]; omega)]
      rfl
  · intro rec hrec
    -- the record's end, counted from the front of the wire and of the buffer
    have hend : pending s.decoder + rec.2.length ≤ s.buf.filled.length ↔
        wireLen (records.take (s.returned.length + 1)) + s.unread.length ≤ wireLen records := by
      obtain ⟨d, _, hwire, _⟩ := h.ahead
      have hlen := congrArg List.length hwire
      rw [List.length_append, List.length_drop, length_wireOf] at hlen
      have hall := wireLen_append (records.take s.returned.length) (records.drop s.returned.length)
      rw [List.take_append_drop] at hall
      have hone : wireLen (records.take (s.returned.length + 1)) =
          wireLen (records.take s.returned.length) + rec.2.length := by
        rw [List.take_add_one, hrec, wireLen_append]; simp [wireLen]
      have := h.pending_le
      omega
    rw [← hend]
    rcases h.decode.2 with ⟨minimum, decoder, buf, hdec, _, _, hmore⟩ | ⟨r, decoder, buf, rec', hdec, hrec', hl⟩
    · refine ⟨fun ⟨r, d, b, hr⟩ => ?_, fun hl => ?_⟩
      · rw [hdec] at hr; cases hr
      · have := (hmore rec hrec).1; omega
    · rw [hrec] at hrec'
      cases hrec'
      exact ⟨fun _ => hl, fun _ => ⟨r, decoder, buf, hdec⟩⟩
  · intro minimum decoder buf hdec
    rcases h.decode.2 with ⟨minimum', decoder', buf', hdec', h₁, h₂, h₃⟩ | ⟨r, decoder', buf', rec', hdec', _⟩
    · rw [hdec] at hdec'
      cases hdec'
      exact ⟨h₁, h₂, fun rec hrec => (h₃ rec hrec).2⟩
    · rw [hdec] at hdec'; cases hdec'
  · intro n hn
    have h₁ := h.max_eq; have h₂ := h.cap_eq
    have hlen := Buffer.filled_length s.buf
    obtain ⟨buf, hbuf, _⟩ := Buffer.extendFromSlice_made (s.unread.take n) h.wf
      (Buffer.refusal_none.mpr ⟨by rw [List.length_take]; omega, by rw [List.length_take]; omega⟩)
    exact ⟨buf, hbuf⟩

omit [StagedDecoder D] in
/-- With the whole wire there, decoding hands out every record. -/
theorem Faithful.complete (h : Faithful max records s) (hu : s.unread = []) {minimum : Nat} {decoder : D} {buf : Buffer}
    (hdec : decodeBuf s.decoder s.buf = (.ok (.needMore minimum), decoder, buf)) :
    s.returned.length = records.length ∧ (s.returned.map DecodedRecord.consumed).sum = wireLen records := by
  have hle := h.in_order.1
  have hlen : s.returned.length = records.length := by
    by_contra hne
    have hrec := List.getElem?_eq_getElem (l := records) (i := s.returned.length) (by omega)
    have hall := wireLen_append (records.take (s.returned.length + 1)) (records.drop (s.returned.length + 1))
    rw [List.take_append_drop] at hall
    obtain ⟨r, d, b, hr⟩ := (h.prompt _ hrec).mpr (by rw [hu, List.length_nil]; omega)
    rw [hdec] at hr; cases hr
  refine ⟨hlen, ?_⟩
  have := congrArg (List.map Prod.fst) h.in_order.2
  simp only [List.map_map, hlen, List.take_length] at this
  exact congrArg List.sum this

/-- **Sessions are faithful**: over a wire the decoder reads as `records`,
every interleaving of appending, decoding, consuming and installing the key
delivers them. -/
theorem run_faithful (C : Crypto) [KdfDecoder C D] {d : D} (hd : Reads (machine max) d records) (hp : pending d = 0)
    (ops : List SessionOp) :
    Faithful max records (run C (KdfDecoder.psk C d) (new d max (wireOf records)) ops) :=
  ((new_inv (C := C) hd hp rfl rfl).run ops).faithful

end Session

end Snell
