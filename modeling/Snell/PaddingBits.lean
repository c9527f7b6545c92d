/-
The weight of bit-targeted v4 padding. `fill_padding_bits` samples without
replacement: step `j` turns over a bit at `0..=j` that no step has turned over
yet, falling back to `j` itself. So after `n` steps exactly `n` bits differ
from the fill, whatever was drawn (`fillBitsLoop_turned`), and the padding has
exactly the ones asked for (`fillPaddingBits_weight`).
-/
import Mathlib.Data.Finset.Card
import Mathlib.Data.Finset.Range
import Snell.V4PaddingFacts

namespace Snell.V4

open LittleEndian

/-! ## Single bits -/

theorem bitAt_eq {padding : Bytes} {i : Nat} (h : i < padding.length * 8) :
    bitAt padding i = .ok ((leNat padding).testBit i) := by
  have hi : i / 8 < padding.length := by omega
  rw [bitAt, testBit_leNat, List.getElem?_eq_getElem hi]
  rfl

/-- Setting or clearing bit `k` of a byte. -/
theorem testBit_putMask (b : UInt8) {k : Nat} (hk : k < 8) (bit : Bool) (m : Nat) :
    (if bit then b ||| ((1 : UInt8) <<< UInt8.ofNat k) else b &&& ~~~((1 : UInt8) <<< UInt8.ofNat k)).toNat.testBit m =
      if m = k then bit else b.toNat.testBit m := by
  have hmask : ((1 : UInt8) <<< UInt8.ofNat k).toNat = 2 ^ k := by
    have : ∀ k < 8, ((1 : UInt8) <<< UInt8.ofNat k).toNat = 2 ^ k := by decide
    exact this k hk
  cases bit with
  | true =>
    simp only [if_true, UInt8.toNat_or, Nat.testBit_or, hmask, Nat.testBit_two_pow]
    by_cases hm : m = k
    · simp [hm]
    · simp [hm, Ne.symm hm]
  | false =>
    simp only [Bool.false_eq_true, if_false, UInt8.toNat_and, UInt8.toNat_not, Nat.testBit_and, hmask]
    rcases Nat.lt_or_ge m 8 with h8 | h8
    · have hlt : 2 ^ k < 2 ^ 8 := Nat.pow_lt_pow_right (by decide) hk
      have hnot : (UInt8.size - 1 - 2 ^ k).testBit m = (decide (m < 8) && !(2 ^ k).testBit m) := by
        rw [show UInt8.size - 1 - 2 ^ k = 2 ^ 8 - (2 ^ k + 1) by simp only [UInt8.size]; omega]
        exact Nat.testBit_two_pow_sub_succ hlt m
      rw [hnot, Nat.testBit_two_pow]
      by_cases hm : m = k
      · simp [hm]
      · simp [hm, Ne.symm hm, h8]
    · have hb : b.toNat.testBit m = false :=
        Nat.testBit_lt_two_pow (Nat.lt_of_lt_of_le b.toNat_lt (Nat.pow_le_pow_right (by decide) h8))
      rw [hb, if_neg (by omega)]
      rfl

theorem putBit_eq {padding : Bytes} {i : Nat} (bit : Bool) (h : i < padding.length * 8) :
    ∃ padding', putBit padding i bit = .ok padding' ∧ padding'.length = padding.length ∧
      ∀ m, (leNat padding').testBit m = if m = i then bit else (leNat padding).testBit m := by
  have hi : i / 8 < padding.length := by omega
  obtain ⟨padding', hput⟩ := putBit_ok bit h
  refine ⟨padding', hput, putBit_length hput, fun m => ?_⟩
  rw [putBit, List.getElem?_eq_getElem hi] at hput
  obtain rfl := Except.ok.inj hput
  rw [testBit_leNat, testBit_leNat]
  by_cases hbyte : m / 8 = i / 8
  · rw [hbyte, List.getElem?_set_self hi, List.getElem?_eq_getElem hi]
    simp only [Option.elim_some]
    rw [testBit_putMask _ (Nat.mod_lt _ (by decide)) bit (m % 8)]
    have hiff : m % 8 = i % 8 ↔ m = i := by omega
    simp only [hiff]
  · rw [List.getElem?_set_ne (Ne.symm hbyte), if_neg (by rintro rfl; exact hbyte rfl)]

/-! ## The weight -/

/-- The indices of the bits that are `bit`. -/
def bitsOf (bit : Bool) (padding : Bytes) : Finset Nat :=
  (Finset.range (padding.length * 8)).filter fun i => (leNat padding).testBit i = bit

theorem mem_bitsOf {bit : Bool} {padding : Bytes} {i : Nat} :
    i ∈ bitsOf bit padding ↔ i < padding.length * 8 ∧ (leNat padding).testBit i = bit := by
  rw [bitsOf, Finset.mem_filter, Finset.mem_range]

/-- The ones of the bytes, counted bit by bit. -/
theorem card_bitsOf_true (padding : Bytes) : (bitsOf true padding).card = (padding.map ones8).sum := by
  have hcount := countP_testBit_leNat padding
  have hdecide : (fun i => (leNat padding).testBit i) = fun i => decide ((leNat padding).testBit i = true) := by
    funext i
    rw [Bool.decide_eq_true]
  rw [Nat.mul_comm, List.countP_eq_length_filter, hdecide] at hcount
  exact hcount

theorem card_bitsOf_add (padding : Bytes) :
    (bitsOf true padding).card + (bitsOf false padding).card = padding.length * 8 := by
  have h := Finset.card_filter_add_card_filter_not (s := Finset.range (padding.length * 8))
    (fun i => (leNat padding).testBit i = true)
  simpa only [bitsOf, Bool.not_eq_true, Finset.card_range] using h

theorem bitsOf_true_zeros (len : Nat) : bitsOf true (List.replicate len 0) = ∅ := by
  refine Finset.eq_empty_of_forall_notMem fun i hi => ?_
  obtain ⟨hlt, hbit⟩ := mem_bitsOf.mp hi
  rw [List.length_replicate] at hlt
  rw [testBit_leNat, List.getElem?_replicate, if_pos (by omega)] at hbit
  simp at hbit

theorem bitsOf_false_ones (len : Nat) : bitsOf false (List.replicate len 0xff) = ∅ := by
  refine Finset.eq_empty_of_forall_notMem fun i hi => ?_
  obtain ⟨hlt, hbit⟩ := mem_bitsOf.mp hi
  rw [List.length_replicate] at hlt
  rw [testBit_leNat, List.getElem?_replicate, if_pos (by omega)] at hbit
  have hff : ∀ k < 8, (0xff : UInt8).toNat.testBit k = true := by decide
  rw [Option.elim_some, hff _ (Nat.mod_lt _ (by decide))] at hbit
  cases hbit

/-- Turning over a bit that was not `bit`. -/
theorem bitsOf_put {bit : Bool} {padding padding' : Bytes} {i : Nat} (hi : i < padding.length * 8)
    (hl : padding'.length = padding.length)
    (hput : ∀ m, (leNat padding').testBit m = if m = i then bit else (leNat padding).testBit m) :
    bitsOf bit padding' = insert i (bitsOf bit padding) := by
  ext m
  rw [Finset.mem_insert, mem_bitsOf, mem_bitsOf, hl, hput]
  by_cases hm : m = i
  · subst hm
    simp [hi]
  · simp [hm]

variable {ε : Type} [Entropy ε]

/-- The loop turns over one more bit at every step: while the bits turned over
so far are all below `j`, the fallback to `j` is one of the others. -/
theorem fillBitsLoop_turned {fuel : Nat} {bit : Bool} {n j : Nat} {rng : BitRng ε} {padding bytes : Bytes} {entropy : ε}
    (hj : j + n = padding.length * 8) (hbelow : ∀ i ∈ bitsOf bit padding, i < j)
    (h : fillBitsLoop fuel bit n j rng padding = (.ok bytes, entropy)) :
    (bitsOf bit bytes).card = (bitsOf bit padding).card + n := by
  induction n generalizing j rng padding with
  | zero => cases h; rfl
  | succ n ih =>
    simp only [fillBitsLoop] at h
    split at h
    · cases h
    · next candidate rng' hpick =>
      have hc : candidate ≤ j := BitRng.pick_le hpick
      have hcb : candidate < padding.length * 8 := by omega
      generalize hindex : (if (leNat padding).testBit candidate = bit then j else candidate) = index at *
      have hle : index ≤ j := by rw [← hindex]; split <;> omega
      have hnew : index ∉ bitsOf bit padding := by
        intro hmem
        have hlt := hbelow index hmem
        obtain ⟨-, hbit⟩ := mem_bitsOf.mp hmem
        rw [← hindex] at hlt hbit
        split at hlt
        · omega
        · next hfree => rw [if_neg hfree] at hbit; exact hfree hbit
      obtain ⟨padding', hput, hl, hbits⟩ := putBit_eq bit (show index < padding.length * 8 by omega)
      have hset := bitsOf_put (show index < padding.length * 8 by omega) hl hbits
      simp only [bitAt_eq hcb, bind, Except.bind, hindex, hput] at h
      have hrest := ih (by rw [hl]; omega) (fun i hi => ?_) h
      · rw [hrest, hset, Finset.card_insert_of_notMem hnew]
        omega
      · rw [hset, Finset.mem_insert] at hi
        rcases hi with rfl | hi
        · omega
        · exact Nat.lt_succ_of_lt (hbelow i hi)

/-- **Bit-targeted padding has exactly the weight asked for**, in both
branches and whatever the entropy source gave: every pick is in its range, no
index leaves the padding, and `target` of its bits are ones. The slice is
filled before anything else, so only its length counts. -/
theorem fillPaddingBits_weight (fuel len target : Nat) (entropy : ε) (ht : target ≤ 8 * len) :
    (∀ (rng rng' : BitRng ε) (j candidate : Nat), rng.pick fuel j = (.ok candidate, rng') → candidate ≤ j) ∧
    (fillPaddingBits fuel len target entropy).1 ≠ .error .panic ∧
    ∀ bytes, (fillPaddingBits fuel len target entropy).1 = .ok bytes →
      bytes.length = len ∧ (bytes.map ones8).sum = target := by
  refine ⟨fun rng rng' j candidate h => BitRng.pick_le h, ?_, ?_⟩
  · intro hpanic
    have hfault := fillPaddingBits_error (f := .panic) (by omega : target ≤ len * 8) (Prod.ext hpanic rfl)
    rcases hfault with hf | ⟨_, _, _, _, hf⟩ <;> cases hf
  · intro bytes hok
    have hlen : bytes.length = len := fillPaddingBits_length (Prod.ext hok rfl)
    refine ⟨hlen, ?_⟩
    rw [← card_bitsOf_true]
    simp only [fillPaddingBits, if_neg (show ¬ len * 8 < target by omega)] at hok
    split at hok
    · -- ones are set on zeros
      have hturned := fillBitsLoop_turned (by rw [List.length_replicate]; omega)
        (by rw [bitsOf_true_zeros]; intro i hi; cases hi) (Prod.ext hok rfl)
      rw [hturned, bitsOf_true_zeros, Finset.card_empty, Nat.zero_add]
    · -- ones are cleared, all but `target`
      have hturned := fillBitsLoop_turned (by rw [List.length_replicate]; omega)
        (by rw [bitsOf_false_ones]; intro i hi; cases hi) (Prod.ext hok rfl)
      have hadd := card_bitsOf_add bytes
      rw [hturned, bitsOf_false_ones, Finset.card_empty, hlen] at hadd
      omega

/-- Five ones and eleven ones in two bytes, from a source that repeats one
byte. -/
theorem fillPaddingBits_weight_repeat :
    (∃ bytes, (fillPaddingBits 1 2 5 (⟨0x21⟩ : RepeatEntropy)).1 = .ok bytes ∧ (bytes.map ones8).sum = 5) ∧
    ∃ bytes, (fillPaddingBits 1 2 11 (⟨0x21⟩ : RepeatEntropy)).1 = .ok bytes ∧ (bytes.map ones8).sum = 11 := by
  have hfew : (fillPaddingBits 1 2 5 (⟨0x21⟩ : RepeatEntropy)).1 = .ok [0x22, 0x4a] := by decide +kernel
  have hmany : (fillPaddingBits 1 2 11 (⟨0x21⟩ : RepeatEntropy)).1 = .ok [0xdd, 0xb5] := by decide +kernel
  exact ⟨⟨_, hfew, ((fillPaddingBits_weight 1 2 5 (⟨0x21⟩ : RepeatEntropy) (by decide)).2.2 _ hfew).2⟩,
    ⟨_, hmany, ((fillPaddingBits_weight 1 2 11 (⟨0x21⟩ : RepeatEntropy) (by decide)).2.2 _ hmany).2⟩⟩

end Snell.V4
