/-
Fixed-width little-endian integers: `leBytes n k` is `k mod 256^n` in `n`
bytes, `leNat` reads bytes back, and the ripple-carry increment of a counter
kept as such bytes is `k + 1` (`leIncrement_leBytes`).
-/
import Mathlib.Data.Nat.Basic
import Mathlib.Tactic.Ring

namespace LittleEndian

def leBytes : Nat → Nat → List UInt8
  | 0, _ => []
  | n + 1, k => UInt8.ofNat k :: leBytes n (k / 256)

def leNat : List UInt8 → Nat
  | [] => 0
  | b :: bs => b.toNat + 256 * leNat bs

/-- Add one at the front byte and carry. -/
def leIncrement : List UInt8 → List UInt8
  | [] => []
  | b :: bs => if b + 1 = 0 then (b + 1) :: leIncrement bs else (b + 1) :: bs

@[simp] theorem length_leBytes (n k : Nat) : (leBytes n k).length = n := by
  induction n generalizing k with
  | zero => rfl
  | succ n ih => simp [leBytes, ih]

@[simp] theorem length_leIncrement (bs : List UInt8) : (leIncrement bs).length = bs.length := by
  induction bs with
  | nil => rfl
  | cons b bs ih => simp only [leIncrement]; split <;> simp [ih]

theorem leNat_leBytes (n k : Nat) : leNat (leBytes n k) = k % 256 ^ n := by
  induction n generalizing k with
  | zero => simp [leBytes, leNat, Nat.mod_one]
  | succ n ih =>
    simp only [leBytes, leNat, ih, UInt8.toNat_ofNat']
    conv_rhs => rw [Nat.pow_succ', Nat.mod_mul]

theorem leNat_lt (bs : List UInt8) : leNat bs < 256 ^ bs.length := by
  induction bs with
  | nil => simp [leNat]
  | cons b bs ih =>
    have hb := b.toNat_lt
    simp only [leNat, List.length_cons, pow_succ]
    omega

theorem leBytes_inj {n i j : Nat} (hi : i < 256 ^ n) (hj : j < 256 ^ n) (h : leBytes n i = leBytes n j) :
    i = j := by
  have := congrArg leNat h
  rwa [leNat_leBytes, leNat_leBytes, Nat.mod_eq_of_lt hi, Nat.mod_eq_of_lt hj] at this

theorem leBytes_leNat (bs : List UInt8) : leBytes bs.length (leNat bs) = bs := by
  induction bs with
  | nil => rfl
  | cons b bs ih =>
    have hb := b.toNat_lt
    have hhead : UInt8.ofNat (b.toNat + 256 * leNat bs) = b := by
      rw [← UInt8.toNat_inj, UInt8.toNat_ofNat']; omega
    have htail : (b.toNat + 256 * leNat bs) / 256 = leNat bs := by omega
    simp only [leNat, List.length_cons, leBytes, hhead, htail, ih]

theorem testBit_cons (b : UInt8) (m i : Nat) :
    (b.toNat + 256 * m).testBit i = if i < 8 then b.toNat.testBit i else m.testBit (i - 8) := by
  rw [Nat.add_comm]
  exact Nat.testBit_two_pow_mul_add m (i := 8) b.toNat_lt i

/-- Bit `i` is bit `i % 8` of byte `i / 8`. -/
theorem testBit_leNat (bs : List UInt8) (i : Nat) :
    (leNat bs).testBit i = (bs[i / 8]?).elim false (·.toNat.testBit (i % 8)) := by
  induction bs generalizing i with
  | nil => simp [leNat]
  | cons b bs ih =>
    rw [leNat, testBit_cons]
    split
    · next hi => simp [Nat.div_eq_of_lt hi, Nat.mod_eq_of_lt hi]
    · next hi =>
      have hdiv : i / 8 = (i - 8) / 8 + 1 := by omega
      have hmod : i % 8 = (i - 8) % 8 := by omega
      rw [ih, hdiv, List.getElem?_cons_succ, hmod]

/-- The one-bits of an integer are those of its bytes. -/
theorem countP_testBit_leNat (bs : List UInt8) :
    (List.range (8 * bs.length)).countP (fun i => (leNat bs).testBit i) =
      (bs.map fun b => (List.range 8).countP fun i => b.toNat.testBit i).sum := by
  induction bs with
  | nil => rfl
  | cons b bs ih =>
    have hlow : ∀ i ∈ List.range 8, (leNat (b :: bs)).testBit i = true ↔ b.toNat.testBit i = true := by
      intro i hi
      rw [leNat, testBit_cons, if_pos (List.mem_range.mp hi)]
    have hhigh : ((fun i => (leNat (b :: bs)).testBit i) ∘ fun i => 8 + i) = fun i => (leNat bs).testBit i := by
      funext i
      rw [Function.comp_apply, leNat, testBit_cons, if_neg (by omega), Nat.add_sub_cancel_left]
    rw [List.length_cons, Nat.mul_succ, Nat.add_comm, List.range_add, List.countP_append, List.countP_map, hhigh, ih,
      List.countP_congr hlow, List.map_cons, List.sum_cons]

/-- Bytes put together by an operation on bits: the integers are. -/
theorem leNat_zipWith {f : UInt8 → UInt8 → UInt8} {g : Nat → Nat → Nat} {h : Bool → Bool → Bool}
    (hf : ∀ a b i, (f a b).toNat.testBit i = h (a.toNat.testBit i) (b.toNat.testBit i))
    (hg : ∀ m n i, (g m n).testBit i = h (m.testBit i) (n.testBit i)) (h0 : g 0 0 = 0) :
    ∀ {as bs : List UInt8}, as.length = bs.length →
      leNat (List.zipWith f as bs) = g (leNat as) (leNat bs)
  | [], [], _ => h0.symm
  | a :: as, b :: bs, hl => by
    have ih := leNat_zipWith hf hg h0 (by simpa using hl : as.length = bs.length)
    refine Nat.eq_of_testBit_eq fun i => ?_
    simp only [List.zipWith_cons_cons, leNat, hg, testBit_cons, ih]
    split
    · exact hf a b i
    · rfl

/-- **The increment counts.** -/
theorem leIncrement_leBytes (n k : Nat) : leIncrement (leBytes n k) = leBytes n (k + 1) := by
  induction n generalizing k with
  | zero => rfl
  | succ n ih =>
    have hz : (UInt8.ofNat k + 1 = 0) ↔ k % 256 = 255 := by
      rw [← UInt8.toNat_inj]
      simp only [UInt8.toNat_add, UInt8.toNat_ofNat', UInt8.toNat_one, UInt8.toNat_zero]
      omega
    have hhead : UInt8.ofNat k + 1 = UInt8.ofNat (k + 1) := by
      rw [← UInt8.toNat_inj]
      simp only [UInt8.toNat_add, UInt8.toNat_ofNat', UInt8.toNat_one]
      omega
    simp only [leBytes, leIncrement, hz]
    split
    · rw [ih, hhead]; congr 2; omega
    · rw [hhead]; congr 2; omega

end LittleEndian
