/-
What reading any stream comes to.

Bytes arrive in pieces, honest or not; the caller decodes when it likes, as
far ahead as it likes, consumes the oldest record, and derives the key in the
decoder or outside it. However that goes, the records handed out are the
items the decoder's machine makes of the stream (`Staged.Parses`), the bytes
of those not consumed are in front of the buffer as they were rewritten, and
behind them is what was not read (`Reading`).
-/
import Snell.StagedDecoder

namespace Snell

open RecordDecoder StagedDecoder Staged

/-- The bytes of the records behind the first `taken`. -/
def outstanding (xs : List (Item × Bytes)) (taken : Nat) : Bytes := ((xs.drop taken).map Prod.snd).flatten

theorem outstanding_append {xs ys : List (Item × Bytes)} {taken : Nat} (h : taken ≤ xs.length) :
    outstanding (xs ++ ys) taken = outstanding xs taken ++ (ys.map Prod.snd).flatten := by
  rw [outstanding, List.drop_append_of_le_length h, List.map_append, List.flatten_append, outstanding]

theorem outstanding_cons {xs : List (Item × Bytes)} {taken : Nat} {x : Item × Bytes} (h : xs[taken]? = some x) :
    outstanding xs taken = x.2 ++ outstanding xs (taken + 1) := by
  obtain ⟨hlt, rfl⟩ := List.getElem?_eq_some_iff.mp h
  rw [outstanding, List.drop_eq_getElem_cons hlt, List.map_cons, List.flatten_cons, outstanding]

theorem outstanding_all (xs : List (Item × Bytes)) : outstanding xs xs.length = [] := by
  rw [outstanding, List.drop_length, List.map_nil, List.flatten_nil]

variable {C : Crypto} {D : Type} [RecordDecoder D] [StagedDecoder D] [KdfDecoder C D] {max taken : Nat} {d₀ d : D}
  {stream rest : Bytes} {xs : List (Item × Bytes)}

/-- From `d₀`, `stream` was read as the items `xs`; the first `taken` of them
were consumed, and `rest` was not read. -/
structure Reading (C : Crypto) [KdfDecoder C D] (max : Nat) (d₀ : D) (stream : Bytes) (xs : List (Item × Bytes))
    (taken : Nat) (rest : Bytes) (d : D) : Prop where
  taken_le : taken ≤ xs.length
  pending_eq : pending d = (outstanding xs taken).length
  psk_eq : KdfDecoder.psk C d = KdfDecoder.psk C d₀
  atStart : AtStart d → xs = []
  reads : ∃ d₁, pending d₁ = 0 ∧ Parses (machine max) d₀ stream xs d₁ rest ∧
    ∀ m, run (machine max) (setPending d 0) (rest ++ m) = run (machine max) d₁ (rest ++ m)

/-- The stream cannot be read further: `f` is what it comes to. -/
def Ends (max : Nat) (d₀ : D) (stream : Bytes) (xs : List (Item × Bytes)) (f : Fault) : Prop :=
  ∃ d₁ rest l d₂, Parses (machine max) d₀ stream xs d₁ rest ∧ run (machine max) d₁ rest = .fail f l d₂

namespace Reading

/-- Nothing was read of nothing. -/
theorem start (C : Crypto) [KdfDecoder C D] (max : Nat) {d : D} (h : pending d = 0) : Reading C max d [] [] 0 [] d where
  taken_le := Nat.le_refl _
  pending_eq := h
  psk_eq := rfl
  atStart _ := rfl
  reads := ⟨d, h, .refl, fun m => by rw [set_zero h]⟩

/-- More bytes arrive. -/
theorem arrive (h : Reading C max d₀ stream xs taken rest d) (m : Bytes) :
    Reading C max d₀ (stream ++ m) xs taken (rest ++ m) d := by
  obtain ⟨d₁, hp, hparses, hrun⟩ := h.reads
  refine { h with reads := ⟨d₁, hp, hparses.append m, fun m' => ?_⟩ }
  rw [List.append_assoc]
  exact hrun _

theorem atStart_pending (h : Reading C max d₀ stream xs taken rest d) (hat : AtStart d) : pending d = 0 := by
  rw [h.pending_eq, h.atStart hat]
  simp [outstanding]

/-- What a decode gives: a request for more than is there, the next record, or
the error the stream ends in. -/
inductive Decodes (C : Crypto) [KdfDecoder C D] (max : Nat) (d₀ : D) (stream : Bytes) (xs : List (Item × Bytes))
    (taken : Nat) (rest : Bytes) : Res DecodeStatus × D × Bytes → Prop
  | needMore {k d'} : rest.length < k → k ≤ max → Reading C max d₀ stream xs taken rest d' →
      Decodes C max d₀ stream xs taken rest
        (.ok (.needMore ((outstanding xs taken).length + k)), d', outstanding xs taken ++ rest)
  | record {item w rest' d'} : 0 < w.length → w.length ≤ max → w.length + rest'.length = rest.length →
      rest' = rest.drop w.length → Reading C max d₀ stream (xs ++ [(item, w)]) taken rest' d' →
      Decodes C max d₀ stream xs taken rest
        (.ok (.record (item.record (outstanding xs taken).length w.length)), d', outstanding xs taken ++ (w ++ rest'))
  | error {f d' filled} : Ends max d₀ stream xs f → Decodes C max d₀ stream xs taken rest (.error f, d', filled)

theorem psk_run (C : Crypto) [KdfDecoder C D] (max : Nat) {psk : Psk} (h : KdfDecoder.psk C d = psk) (A : Bytes) :
    KdfDecoder.psk C (run (machine max) (setPending d 0) A).state = psk := by
  refine run_keeps (M := machine max) (I := fun e : D => KdfDecoder.psk C e = psk) ?_ ?_ A
  · intro e l he
    exact (KdfDecoder.act_psk e l).trans he
  · exact (KdfDecoder.psk_set _ _).trans h

theorem decode (h : Reading C max d₀ stream xs taken rest d) :
    Decodes C max d₀ stream xs taken rest (decode d max (outstanding xs taken ++ rest)) := by
  obtain ⟨d₁, hp, hparses, hrun⟩ := h.reads
  have hzero : pending (setPending d 0) = 0 := pending_set _ _
  have hpsk := psk_run C max h.psk_eq rest
  have hrest : run (machine max) (setPending d 0) rest = run (machine max) d₁ rest := by
    have := hrun []
    rwa [List.append_nil] at this
  rw [decode_eq d max _ _ h.atStart_pending h.pending_eq.symm]
  cases hr : run (machine max) (setPending d 0) rest with
  | need k d' =>
    rw [hr] at hpsk
    obtain ⟨hlt, hmax, -⟩ := run_need hr
    rw [machine_max] at hmax
    obtain ⟨hp', hat⟩ := run_need_state hr
    refine .needMore hlt hmax ⟨h.taken_le, pending_set _ _, (KdfDecoder.psk_set _ _).trans hpsk, fun hs => ?_, d₁, hp,
      hparses, fun m => ?_⟩
    · exact h.atStart ((atStart_set _ _).mp (hat ((atStart_set _ _).mp hs)))
    · rw [set_set, set_zero (hp'.trans hzero), ← hrun m]
      exact run_need_resume hr m
  | emit n item l d' =>
    rw [hr] at hpsk
    obtain ⟨hpos, hn, hmax, hlen, hdrop⟩ := run_emit_bounds hr
    rw [machine_max] at hmax
    obtain ⟨hp', hat⟩ := run_emit_state hr
    have hw : (l.take n).length = n := by rw [List.length_take]; omega
    have hout : outstanding (xs ++ [(item, l.take n)]) taken = outstanding xs taken ++ l.take n := by
      rw [outstanding_append h.taken_le]; simp
    have hread : Reading C max d₀ stream (xs ++ [(item, l.take n)]) taken (l.drop n)
        (setPending d' ((outstanding xs taken).length + n)) := by
      refine ⟨?_, ?_, (KdfDecoder.psk_set _ _).trans hpsk, fun hs => absurd ((atStart_set _ _).mp hs) hat, d',
        hp'.trans hzero, hparses.trans (.one (hrest.symm.trans hr)), fun m => ?_⟩
      · rw [List.length_append]; exact Nat.le_add_right_of_le h.taken_le
      · rw [pending_set, hout, List.length_append, hw]
      · rw [set_set, set_zero (hp'.trans hzero)]
    have hrecord : Decodes C max d₀ stream xs taken rest
        (.ok (.record (item.record (outstanding xs taken).length (l.take n).length)),
          setPending d' ((outstanding xs taken).length + n), outstanding xs taken ++ (l.take n ++ l.drop n)) :=
      .record (by omega) (by omega) (by rw [hw, List.length_drop]; omega) (by rw [hw]; exact hdrop) hread
    rw [hw, List.take_append_drop] at hrecord
    exact hrecord
  | fail f l d' => exact .error ⟨d₁, rest, l, d', hparses, hrest.symm.trans hr⟩

/-- The oldest record is consumed, with its bytes. -/
theorem consume (h : Reading C max d₀ stream xs taken rest d) {x : Item × Bytes} (hx : xs[taken]? = some x) :
    pending d = x.2.length + (outstanding xs (taken + 1)).length ∧
      Reading C max d₀ stream xs (taken + 1) rest (setPending d (pending d - x.2.length)) := by
  have hlt := (List.getElem?_eq_some_iff.mp hx).1
  have hpend : pending d = x.2.length + (outstanding xs (taken + 1)).length := by
    rw [h.pending_eq, outstanding_cons hx, List.length_append]
  refine ⟨hpend, by omega, ?_, (KdfDecoder.psk_set _ _).trans h.psk_eq, fun hs => h.atStart ((atStart_set _ _).mp hs), ?_⟩
  · rw [pending_set, hpend]; omega
  · simp only [set_set]; exact h.reads

/-- All records are consumed. -/
theorem drained (h : Reading C max d₀ stream xs taken rest d) :
    Reading C max d₀ stream xs xs.length rest (setPending d 0) where
  taken_le := Nat.le_refl _
  pending_eq := by rw [pending_set, outstanding_all, List.length_nil]
  psk_eq := (KdfDecoder.psk_set _ _).trans h.psk_eq
  atStart hs := h.atStart ((atStart_set _ _).mp hs)
  reads := by simp only [set_set]; exact h.reads

/-- A key derived outside the decoder changes nothing that is read; where that
fails, reading would have. -/
theorem install (h : Reading C max d₀ stream xs taken rest d) (hfits : (outstanding xs taken ++ rest).length ≤ max) :
    match installKdf C (KdfDecoder.psk C d₀) d (outstanding xs taken ++ rest) with
    | .ok d' => Reading C max d₀ stream xs taken rest d'
    | .error f => Ends max d₀ stream xs f := by
  obtain ⟨d₁, hp, hparses, hrun⟩ := h.reads
  rw [← h.psk_eq]
  rcases KdfDecoder.install_late (C := C) d (outstanding xs taken ++ rest) with hsame | hlate
  · rw [hsame]
    exact h
  have hneed := Nat.le_trans (hlate max) hfits
  cases hi : installKdf C (KdfDecoder.psk C d) d (outstanding xs taken ++ rest) with
  | ok d' =>
    obtain ⟨hp', hpsk, hat, hsame⟩ := KdfDecoder.install_ok h.atStart_pending hi
    refine ⟨h.taken_le, hp'.trans h.pending_eq, hpsk.trans h.psk_eq, fun hs => h.atStart (hat hs), d₁, hp, hparses, ?_⟩
    intro m
    rcases hsame with rfl | ⟨hs, hsame⟩
    · exact hrun m
    · have hp0 := h.atStart_pending hs
      have hnil : outstanding xs taken = [] := List.eq_nil_of_length_eq_zero (h.pending_eq.symm.trans hp0)
      have := hsame max m hneed
      rw [hnil, List.nil_append] at this
      rw [set_zero (hp'.trans hp0), this, ← hrun m, set_zero hp0]
  | error f =>
    obtain ⟨hs, hfail⟩ := KdfDecoder.install_error h.atStart_pending hi
    have hp0 := h.atStart_pending hs
    have hnil : outstanding xs taken = [] := List.eq_nil_of_length_eq_zero (h.pending_eq.symm.trans hp0)
    obtain ⟨l, d', hrunf⟩ := hfail max [] hneed
    rw [hnil, List.nil_append, List.append_nil] at hrunf
    have := hrun []
    rw [List.append_nil, set_zero hp0] at this
    exact ⟨d₁, rest, l, d', hparses, this.symm.trans hrunf⟩

end Reading

end Snell
