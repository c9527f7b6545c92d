/-
The swap of `Snell.V4Padding`: word by word in either byte order it is the
byte-by-byte one (`swapEvenIndices_eq`), so it undoes itself even between
machines of different order (`swapEvenIndices_undo`), and the ones of a slice
counted by words are those of its bytes (`countOnes_eq`). And the lengths of
what the padding functions fill.
-/
import Snell.V4Padding

namespace Snell.V4

open LittleEndian

/-! ## Words -/

theorem fromNe_toNat {ne : Endian} {bs : Bytes} (h : bs.length = 8) :
    (fromNe ne bs).toNat = leNat (match ne with | .little => bs | .big => bs.reverse) := by
  have hlt := leNat_lt (match ne with | .little => bs | .big => bs.reverse)
  have hl : (match ne with | .little => bs | .big => bs.reverse).length = 8 := by cases ne <;> simp [h]
  rw [hl] at hlt
  simp only [fromNe, UInt64.toNat_ofNat']
  exact Nat.mod_eq_of_lt hlt

theorem leNat_xor {as bs : Bytes} (h : as.length = bs.length) :
    leNat (List.zipWith (· ^^^ ·) as bs) = leNat as ^^^ leNat bs :=
  leNat_zipWith (h := Bool.xor) (fun a b i => by simp) (fun m n i => Nat.testBit_xor m n i) rfl h

theorem leNat_and {as bs : Bytes} (h : as.length = bs.length) :
    leNat (List.zipWith (· &&& ·) as bs) = leNat as &&& leNat bs :=
  leNat_zipWith (h := Bool.and) (fun a b i => by simp) (fun m n i => Nat.testBit_and m n i) rfl h

theorem fromNe_xor {ne : Endian} {as bs : Bytes} (ha : as.length = 8) (hb : bs.length = 8) :
    fromNe ne as ^^^ fromNe ne bs = fromNe ne (List.zipWith (· ^^^ ·) as bs) := by
  rw [← UInt64.toNat_inj, UInt64.toNat_xor, fromNe_toNat ha, fromNe_toNat hb, fromNe_toNat (by simp [ha, hb])]
  cases ne with
  | little => rw [leNat_xor (by omega)]
  | big => simp only [List.reverse_zipWith (by omega : as.length = bs.length)]; rw [leNat_xor (by simp; omega)]

theorem fromNe_and {ne : Endian} {as bs : Bytes} (ha : as.length = 8) (hb : bs.length = 8) :
    fromNe ne as &&& fromNe ne bs = fromNe ne (List.zipWith (· &&& ·) as bs) := by
  rw [← UInt64.toNat_inj, UInt64.toNat_and, fromNe_toNat ha, fromNe_toNat hb, fromNe_toNat (by simp [ha, hb])]
  cases ne with
  | little => rw [leNat_and (by omega)]
  | big => simp only [List.reverse_zipWith (by omega : as.length = bs.length)]; rw [leNat_and (by simp; omega)]

theorem toNe_fromNe {ne : Endian} {bs : Bytes} (h : bs.length = 8) : toNe ne (fromNe ne bs) = bs := by
  have hb := leBytes_leNat bs
  have hr := leBytes_leNat bs.reverse
  rw [h] at hb
  rw [List.length_reverse, h] at hr
  cases ne <;> simp only [toNe, fromNe_toNat h]
  · exact hb
  · rw [hr, List.reverse_reverse]

/-- On one word the masked exchange is the byte-by-byte one, whatever the
byte order. -/
theorem swapWord_eq {ne : Endian} {p c : Bytes} (hp : p.length = 8) (hc : c.length = 8) :
    swapWord ne p c = swapTail p c := by
  have hm : swapMask ne = fromNe ne [0xff, 0, 0xff, 0, 0xff, 0, 0xff, 0] := rfl
  simp only [swapWord, hm]
  rw [fromNe_xor hp hc, fromNe_and (by simp [hp, hc]) rfl, fromNe_xor hp (by simp [hp, hc]),
    fromNe_xor hc (by simp [hp, hc]), toNe_fromNe (by simp [hp, hc]), toNe_fromNe (by simp [hp, hc])]
  match p, hp, c, hc with
  | [p₀, p₁, p₂, p₃, p₄, p₅, p₆, p₇], _, [c₀, c₁, c₂, c₃, c₄, c₅, c₆, c₇], _ =>
    have hff : ∀ a b : UInt8, (a ^^^ b) &&& 255 = a ^^^ b := fun a b => UInt8.and_neg_one
    have h1 : ∀ a b : UInt8, a ^^^ (a ^^^ b) = b := by intro a b; rw [← UInt8.xor_assoc]; simp
    have h2 : ∀ a b : UInt8, b ^^^ (a ^^^ b) = a := by intro a b; rw [UInt8.xor_comm a b]; exact h1 b a
    simp [swapTail, hff, h1, h2]

/-! ## The byte-by-byte swap -/

theorem swapTail_length : ∀ {p c : Bytes}, p.length = c.length →
    (swapTail p c).1.length = p.length ∧ (swapTail p c).2.length = p.length
  | [], [], _ => by simp [swapTail]
  | [_], [_], _ => by simp [swapTail]
  | _ :: _ :: ps, _ :: _ :: cs, h => by
    have := swapTail_length (p := ps) (c := cs) (by simpa using h)
    simp [swapTail, this.1, this.2]

theorem swapTail_swapTail : ∀ {p c : Bytes}, p.length = c.length →
    swapTail (swapTail p c).1 (swapTail p c).2 = (p, c)
  | [], [], _ => by simp [swapTail]
  | [_], [_], _ => by simp [swapTail]
  | _ :: _ :: ps, _ :: _ :: cs, h => by
    have := swapTail_swapTail (p := ps) (c := cs) (by simpa using h)
    simp [swapTail, this]

theorem swapTail_append : ∀ {p c : Bytes} (p' c' : Bytes), p.length = c.length → p.length % 2 = 0 →
    swapTail (p ++ p') (c ++ c') =
      ((swapTail p c).1 ++ (swapTail p' c').1, (swapTail p c).2 ++ (swapTail p' c').2)
  | [], [], _, _, _, _ => by simp [swapTail]
  | [_], [_], _, _, _, h => by simp at h
  | _ :: _ :: ps, _ :: _ :: cs, p', c', h, h2 => by
    have := swapTail_append (p := ps) (c := cs) p' c' (by simpa using h) (by simp at h2; omega)
    simp [swapTail, this]

theorem swapWords_eq {ne : Endian} : ∀ (n : Nat) {p c : Bytes}, p.length = c.length → 8 * n ≤ p.length →
    swapWords ne n p c = swapTail p c
  | 0, _, _, _, _ => rfl
  | n + 1, p, c, h, hn => by
    have hp : (p.take 8).length = 8 := by simp; omega
    have hc : (c.take 8).length = 8 := by simp; omega
    have := swapTail_append (p := p.take 8) (c := c.take 8) (p.drop 8) (c.drop 8) (by omega) (by omega)
    rw [List.take_append_drop, List.take_append_drop] at this
    simp only [swapWords]
    rw [this, swapWord_eq hp hc, swapWords_eq n (by simp; omega) (by simp; omega)]

/-- **The word-wise swap is the byte-wise one**, in either byte order. -/
theorem swapEvenIndices_eq (ne : Endian) (p c : Bytes) :
    let limit := min p.length c.length
    swapEvenIndices ne p c =
      ((swapTail (p.take limit) (c.take limit)).1 ++ p.drop limit,
        (swapTail (p.take limit) (c.take limit)).2 ++ c.drop limit) := by
  intro limit
  simp only [swapEvenIndices]
  rw [swapWords_eq _ (by simp) (by simp; omega)]

theorem swapEvenIndices_length (ne : Endian) (p c : Bytes) :
    (swapEvenIndices ne p c).1.length = p.length ∧ (swapEvenIndices ne p c).2.length = c.length := by
  rw [swapEvenIndices_eq]
  obtain ⟨h1, h2⟩ := swapTail_length (p := p.take (min p.length c.length))
    (c := c.take (min p.length c.length)) (by simp)
  simp only [List.length_append, List.length_drop, h1, h2, List.length_take]
  omega

/-- **Swapping again undoes it**, on a machine of any byte order. -/
theorem swapEvenIndices_undo (ne ne' : Endian) (p c : Bytes) :
    swapEvenIndices ne' (swapEvenIndices ne p c).1 (swapEvenIndices ne p c).2 = (p, c) := by
  obtain ⟨hl1, hl2⟩ := swapEvenIndices_length ne p c
  have hs := swapTail_swapTail (p := p.take (min p.length c.length))
    (c := c.take (min p.length c.length)) (by simp)
  obtain ⟨h1, h2⟩ := swapTail_length (p := p.take (min p.length c.length))
    (c := c.take (min p.length c.length)) (by simp)
  rw [swapEvenIndices_eq ne', hl1, hl2, swapEvenIndices_eq ne]
  simp only
  rw [List.take_left' (by simp [h1]), List.take_left' (by simp [h2]), List.drop_left' (by simp [h1]),
    List.drop_left' (by simp [h2]), hs]
  simp

/-- The byte-by-byte swap exchanges the even indices. -/
theorem swapTail_even : ∀ {p q : Bytes}, p.length = q.length →
    ∀ i, (swapTail p q).1[i]? = (if i % 2 = 0 then q[i]? else p[i]?) ∧
      (swapTail p q).2[i]? = (if i % 2 = 0 then p[i]? else q[i]?)
  | [], [], _, i => by simp [swapTail]
  | [_], [_], _, i => by
    rcases i with _ | i
    · simp [swapTail]
    · simp [swapTail]
  | _ :: _ :: ps, _ :: _ :: qs, h, i => by
    rcases i with _ | _ | i
    · simp [swapTail]
    · simp [swapTail]
    · have hrest := swapTail_even (p := ps) (q := qs) (by simpa using h) i
      simpa only [swapTail, List.getElem?_cons_succ, Nat.add_mod_right, Nat.add_assoc, Nat.reduceAdd] using hrest

theorem swapEvenIndices_nil (ne : Endian) (c : Bytes) : swapEvenIndices ne [] c = ([], c) := by
  rw [swapEvenIndices_eq]; simp [swapTail]

/-! ## Counting ones -/

theorem ones64_fromNe {ne : Endian} {bs : Bytes} (h : bs.length = 8) : ones64 (fromNe ne bs) = (bs.map ones8).sum := by
  rw [ones64, fromNe_toNat h]
  cases ne with
  | little =>
    have := countP_testBit_leNat bs
    rw [h] at this
    exact this
  | big =>
    have := countP_testBit_leNat bs.reverse
    rw [List.length_reverse, h, List.map_reverse, List.sum_reverse] at this
    exact this

theorem countOnesLoop_eq (ne : Endian) (n : Nat) (bytes : Bytes) : countOnesLoop ne n bytes = (bytes.map ones8).sum := by
  induction n generalizing bytes with
  | zero => rfl
  | succ n ih =>
    simp only [countOnesLoop]
    split
    · next h8 =>
      rw [ih, ones64_fromNe (by rw [List.length_take]; omega), ← List.sum_append, ← List.map_append,
        List.take_append_drop]
    · rfl

/-- `count_ones` counts the ones of the slice cut to a multiple of four. -/
theorem countOnes_eq (ne : Endian) (bytes : Bytes) :
    countOnes ne bytes = ((bytes.take (bytes.length / 4 * 4)).map ones8).sum := countOnesLoop_eq _ _ _

/-- **The word-wise swap is the scalar one**, on a machine of either byte
order: it exchanges the even indices both slices have and nothing else, so
that doing it again restores both; and the word-wise count is the count of
ones in the bytes up to a multiple of four. -/
theorem swap_even_indices_scalar (ne : Endian) (p q : Bytes) :
    let r := swapEvenIndices ne p q
    (∀ i, r.1[i]? = if i % 2 = 0 ∧ i < min p.length q.length then q[i]? else p[i]?) ∧
    (∀ i, r.2[i]? = if i % 2 = 0 ∧ i < min p.length q.length then p[i]? else q[i]?) ∧
    swapEvenIndices ne r.1 r.2 = (p, q) ∧
    countOnes ne p = ((p.take (p.length / 4 * 4)).map ones8).sum := by
  intro r
  have hlen : (p.take (min p.length q.length)).length = (q.take (min p.length q.length)).length := by simp
  obtain ⟨h₁, h₂⟩ := swapTail_length hlen
  have hr : r = _ := swapEvenIndices_eq ne p q
  have hcut : (p.take (min p.length q.length)).length = min p.length q.length := by rw [List.length_take]; omega
  refine ⟨fun i => ?_, fun i => ?_, swapEvenIndices_undo ne ne p q, countOnes_eq ne p⟩
  · rw [hr]
    simp only [List.getElem?_append, h₁, hcut]
    split
    · next hi =>
      simp only [(swapTail_even hlen i).1, hi, and_true, List.getElem?_take_of_lt hi]
    · next hi =>
      rw [if_neg (fun h => hi h.2), List.getElem?_drop, Nat.add_sub_cancel' (by omega)]
  · rw [hr]
    simp only [List.getElem?_append, h₂, hcut]
    split
    · next hi =>
      simp only [(swapTail_even hlen i).2, hi, and_true, List.getElem?_take_of_lt hi]
    · next hi =>
      rw [if_neg (fun h => hi h.2), List.getElem?_drop, Nat.add_sub_cancel' (by omega)]

/-! ## What is filled -/

variable {ε : Type} [Entropy ε]

theorem fillBytes_length {entropy entropy' : ε} {n : Nat} {bytes : Bytes}
    (h : fillBytes entropy n = (.ok bytes, entropy')) : bytes.length = n := by
  unfold fillBytes at h
  split at h
  · next b _ _ => cases h; exact b.2
  · cases h

theorem putBit_length {padding padding' : Bytes} {i : Nat} {bit : Bool}
    (h : putBit padding i bit = .ok padding') : padding'.length = padding.length := by
  unfold putBit at h
  split at h
  · cases h; simp
  · cases h

theorem fillBitsLoop_length {fuel : Nat} {bit : Bool} : ∀ {n j : Nat} {rng : BitRng ε} {padding bytes : Bytes}
    {entropy : ε}, fillBitsLoop fuel bit n j rng padding = (.ok bytes, entropy) →
      bytes.length = padding.length
  | 0, _, _, _, _, _, h => by cases h; rfl
  | n + 1, j, rng, padding, bytes, entropy, h => by
    simp only [fillBitsLoop] at h
    split at h
    · cases h
    split at h
    · cases h
    next candidate _ _ _ padding' hp =>
    rw [fillBitsLoop_length h]
    cases hb : bitAt padding candidate with
    | error f => rw [hb] at hp; cases hp
    | ok taken => rw [hb] at hp; exact putBit_length hp

theorem fillPaddingBits_length {fuel len target : Nat} {bytes : Bytes} {entropy entropy' : ε}
    (h : fillPaddingBits fuel len target entropy = (.ok bytes, entropy')) : bytes.length = len := by
  simp only [fillPaddingBits] at h
  split at h
  · cases h
  split at h
  · simpa using fillBitsLoop_length h
  · simpa using fillBitsLoop_length h

theorem fillV4Padding_length {ne : Endian} {fuel len : Nat} {cipher bytes : Bytes} {entropy entropy' : ε}
    (h : fillV4Padding ne fuel len cipher entropy = (.ok bytes, entropy')) : bytes.length = len := by
  simp only [fillV4Padding] at h
  split at h
  · next h0 => cases h; simp [h0]
  split at h
  · exact fillBytes_length h
  split at h
  · exact fillBytes_length h
  split at h
  · cases h
  split at h
  · exact fillBytes_length h
  · exact fillPaddingBits_length h

/-! ## How filling fails

The bit target is at most the number of bits, so no index leaves the padding:
only the entropy source can fail, or the rejection sampling can go on. -/

/-- The entropy source failed, or the sampling was still going on. -/
def EntropyFault (ε : Type) [Entropy ε] (f : Fault) : Prop :=
  f = .diverged ∨ ∃ (entropy : ε) (n : Nat) (e : Error), (Entropy.fill entropy n).1 = .error e ∧ f = .err e

theorem fillBytes_error {entropy entropy' : ε} {n : Nat} {f : Fault}
    (h : fillBytes entropy n = (.error f, entropy')) : EntropyFault ε f := by
  unfold fillBytes at h
  split at h
  · cases h
  · next e entropy₁ hfill =>
    cases h
    exact .inr ⟨entropy, n, e, by rw [hfill], rfl⟩

theorem BitRng.pick_error {fuel : Nat} {rng rng' : BitRng ε} {max : Nat} {f : Fault}
    (h : rng.pick fuel max = (.error f, rng')) : EntropyFault ε f := by
  induction fuel generalizing rng with
  | zero => cases h; exact .inl rfl
  | succ fuel ih =>
    simp only [BitRng.pick] at h
    split at h
    · next f' rng₁ hrefill =>
      cases h
      split at hrefill
      · split at hrefill
        · cases hrefill
        · next hfill => cases hrefill; exact fillBytes_error hfill
      · cases hrefill
    · split at h
      · cases h
      · exact ih h

theorem BitRng.pick_le {fuel : Nat} {rng rng' : BitRng ε} {max candidate : Nat}
    (h : rng.pick fuel max = (.ok candidate, rng')) : candidate ≤ max := by
  induction fuel generalizing rng with
  | zero => cases h
  | succ fuel ih =>
    simp only [BitRng.pick] at h
    split at h
    · cases h
    · split at h
      · cases h; exact Nat.lt_succ_iff.mp (Nat.mod_lt _ (Nat.succ_pos _))
      · exact ih h

theorem bitAt_ok (padding : Bytes) {i : Nat} (h : i < padding.length * 8) : ∃ bit, bitAt padding i = .ok bit := by
  have hi : i / 8 < padding.length := by omega
  exact ⟨_, by rw [bitAt, List.getElem?_eq_getElem hi]⟩

theorem putBit_ok {padding : Bytes} {i : Nat} (bit : Bool) (h : i < padding.length * 8) :
    ∃ padding', putBit padding i bit = .ok padding' := by
  have hi : i / 8 < padding.length := by omega
  exact ⟨_, by rw [putBit, List.getElem?_eq_getElem hi]⟩

theorem fillBitsLoop_error {fuel : Nat} {bit : Bool} {n j : Nat} {rng : BitRng ε} {padding : Bytes} {f : Fault}
    {entropy : ε} (hj : j + n = padding.length * 8) (h : fillBitsLoop fuel bit n j rng padding = (.error f, entropy)) :
    EntropyFault ε f := by
  induction n generalizing j rng padding with
  | zero => cases h
  | succ n ih =>
    simp only [fillBitsLoop] at h
    split at h
    · next hpick => cases h; exact BitRng.pick_error hpick
    · next candidate rng' hpick =>
      have hc := BitRng.pick_le hpick
      obtain ⟨taken, htaken⟩ := bitAt_ok padding (show candidate < _ by omega)
      have hi : (if taken = bit then j else candidate) < padding.length * 8 := by split <;> omega
      obtain ⟨padding', hput⟩ := putBit_ok bit hi
      simp only [htaken, hput, bind, Except.bind] at h
      exact ih (by rw [putBit_length hput]; omega) h

theorem fillPaddingBits_error {fuel len target : Nat} {entropy entropy' : ε} {f : Fault} (ht : target ≤ len * 8)
    (h : fillPaddingBits fuel len target entropy = (.error f, entropy')) : EntropyFault ε f := by
  simp only [fillPaddingBits] at h
  rw [if_neg (by omega)] at h
  split at h
  · exact fillBitsLoop_error (by rw [List.length_replicate]; omega) h
  · exact fillBitsLoop_error (by rw [List.length_replicate]; omega) h

/-- Every slice whose bits binary64 counts exactly is filled, or the entropy
is to blame. -/
theorem fillV4Padding_error {ne : Endian} {fuel len : Nat} {cipher : Bytes} {entropy entropy' : ε} {f : Fault}
    (hlen : len * 8 < 2 ^ 53) (h : fillV4Padding ne fuel len cipher entropy = (.error f, entropy')) :
    EntropyFault ε f := by
  simp only [fillV4Padding] at h
  split at h
  · cases h
  split at h
  · exact fillBytes_error h
  split at h
  · exact fillBytes_error h
  split at h
  · next hfill => cases h; exact fillBytes_error hfill
  split at h
  · exact fillBytes_error h
  · next rnd _ _ htarget =>
    rw [Binary64.round_natCast hlen, not_or, not_lt, not_lt] at htarget
    refine fillPaddingBits_error ?_ h
    have hfloor : ⌊paddingTarget (countOnes ne cipher) (cipher.length * 8 - countOnes ne cipher)
        ((len + cipher.length) * 8) rnd⌋ ≤ ((len * 8 : Nat) : ℤ) :=
      Int.floor_le_iff.mpr (lt_of_le_of_lt htarget.2 (by push_cast; exact lt_add_one _))
    omega

end Snell.V4
