/-
Two slices that exchange their items at chosen indices. Exchanges compose by
the symmetric difference of their indices (`swapWhere_swapWhere`), so any
number of rounds is one exchange (`foldl_swapWhere`) and doing it again
undoes it, whatever the order of the rounds.
-/
import Mathlib.Data.List.Basic

namespace Exchange

variable {α : Type}

/-- Exchange the items of two slices at the indices `sel` picks, from `i` on. -/
def swapWhere (sel : Nat → Bool) : Nat → List α → List α → List α × List α
  | i, p :: ps, c :: cs =>
    let r := swapWhere sel (i + 1) ps cs
    if sel i then (c :: r.1, p :: r.2) else (p :: r.1, c :: r.2)
  | _, ps, cs => (ps, cs)

@[simp] theorem swapWhere_nil_left (sel : Nat → Bool) (i : Nat) (cs : List α) : swapWhere sel i [] cs = ([], cs) := by
  simp [swapWhere]

@[simp] theorem swapWhere_nil_right (sel : Nat → Bool) (i : Nat) (ps : List α) : swapWhere sel i ps [] = (ps, []) := by
  cases ps <;> simp [swapWhere]

theorem swapWhere_length (sel : Nat → Bool) (i : Nat) (ps cs : List α) :
    (swapWhere sel i ps cs).1.length = ps.length ∧ (swapWhere sel i ps cs).2.length = cs.length := by
  fun_induction swapWhere sel i ps cs with
  | case1 i p ps c cs r hs ih => exact ⟨congrArg (· + 1) ih.1, congrArg (· + 1) ih.2⟩
  | case2 i p ps c cs r hs ih => exact ⟨congrArg (· + 1) ih.1, congrArg (· + 1) ih.2⟩
  | case3 => exact ⟨rfl, rfl⟩

/-- What is at each index afterwards. -/
theorem getElem?_swapWhere (sel : Nat → Bool) (i : Nat) (ps cs : List α) (j : Nat) :
    (swapWhere sel i ps cs).1[j]? =
        (if j < min ps.length cs.length ∧ sel (i + j) = true then cs[j]? else ps[j]?) ∧
      (swapWhere sel i ps cs).2[j]? =
        (if j < min ps.length cs.length ∧ sel (i + j) = true then ps[j]? else cs[j]?) := by
  induction ps generalizing i cs j with
  | nil => simp
  | cons p ps ih =>
    cases cs with
    | nil => simp
    | cons c cs =>
      cases j with
      | zero => rcases Bool.eq_false_or_eq_true (sel i) with hs | hs <;> simp [swapWhere, hs]
      | succ j =>
        have hidx : i + 1 + j = i + (j + 1) := by omega
        obtain ⟨h₁, h₂⟩ := ih (i + 1) cs j
        rw [hidx] at h₁ h₂
        have hlt : j + 1 < min (p :: ps).length (c :: cs).length ↔ j < min ps.length cs.length := by
          simp only [List.length_cons]; omega
        rcases Bool.eq_false_or_eq_true (sel i) with hs | hs <;>
          simp only [swapWhere, hs, Bool.false_eq_true, if_true, if_false, List.getElem?_cons_succ, h₁, h₂, hlt, and_self]

/-- Slices of one length that have the right item at every index are the
exchange. -/
theorem eq_swapWhere {sel : Nat → Bool} {ps cs : List α} (hl : ps.length = cs.length) {r : List α × List α}
    (h₁ : ∀ j, r.1[j]? = if sel j then cs[j]? else ps[j]?) (h₂ : ∀ j, r.2[j]? = if sel j then ps[j]? else cs[j]?) :
    r = swapWhere sel 0 ps cs := by
  have hcond : ∀ j, j < ps.length → ((j < min ps.length cs.length ∧ sel (0 + j) = true) ↔ sel j = true) := by
    intro j hj
    rw [Nat.zero_add]
    exact ⟨And.right, fun hs => ⟨by omega, hs⟩⟩
  refine Prod.ext (List.ext_getElem? fun j => ?_) (List.ext_getElem? fun j => ?_)
  · rw [h₁, (getElem?_swapWhere sel 0 ps cs j).1]
    rcases Nat.lt_or_ge j ps.length with hj | hj
    · simp only [hcond j hj]
    · simp only [List.getElem?_eq_none hj, List.getElem?_eq_none (hl ▸ hj), ite_self]
  · rw [h₂, (getElem?_swapWhere sel 0 ps cs j).2]
    rcases Nat.lt_or_ge j ps.length with hj | hj
    · simp only [hcond j hj]
    · simp only [List.getElem?_eq_none hj, List.getElem?_eq_none (hl ▸ hj), ite_self]

/-- What is behind the shorter slice stays where it is. -/
theorem swapWhere_take (sel : Nat → Bool) (i : Nat) (ps cs : List α) :
    swapWhere sel i ps cs =
      ((swapWhere sel i (ps.take (min ps.length cs.length)) (cs.take (min ps.length cs.length))).1 ++
          ps.drop (min ps.length cs.length),
        (swapWhere sel i (ps.take (min ps.length cs.length)) (cs.take (min ps.length cs.length))).2 ++
          cs.drop (min ps.length cs.length)) := by
  induction ps generalizing i cs with
  | nil => simp
  | cons p ps ih =>
    cases cs with
    | nil => simp
    | cons c cs =>
      have hmin : min (p :: ps).length (c :: cs).length = min ps.length cs.length + 1 := by
        simp only [List.length_cons]; omega
      have hrec := ih (i + 1) cs
      simp only [hmin, List.take_succ_cons, List.drop_succ_cons, swapWhere]
      rw [hrec]
      rcases Bool.eq_false_or_eq_true (sel i) with hs | hs <;> simp [hs]

/-- Swapping here and then there swaps where exactly one of them does. -/
theorem swapWhere_swapWhere (sel sel' : Nat → Bool) (i : Nat) (ps cs : List α) :
    swapWhere sel' i (swapWhere sel i ps cs).1 (swapWhere sel i ps cs).2 =
      swapWhere (fun i => sel i ^^ sel' i) i ps cs := by
  induction ps generalizing i cs with
  | nil => simp only [swapWhere_nil_left]
  | cons p ps ih =>
    cases cs with
    | nil => simp only [swapWhere_nil_right]
    | cons c cs =>
      have := ih (i + 1) cs
      rcases Bool.eq_false_or_eq_true (sel i) with hs | hs <;>
        rcases Bool.eq_false_or_eq_true (sel' i) with hs' | hs' <;> simp [swapWhere, hs, hs', this]

theorem swapWhere_none (i : Nat) (ps cs : List α) : swapWhere (fun _ => false) i ps cs = (ps, cs) := by
  induction ps generalizing i cs with
  | nil => rw [swapWhere_nil_left]
  | cons p ps ih =>
    cases cs with
    | nil => rw [swapWhere_nil_right]
    | cons c cs => simp [swapWhere, ih]

/-- An exchange undoes itself. -/
theorem swapWhere_self (sel : Nat → Bool) (i : Nat) (ps cs : List α) :
    swapWhere sel i (swapWhere sel i ps cs).1 (swapWhere sel i ps cs).2 = (ps, cs) := by
  rw [swapWhere_swapWhere]
  simp only [Bool.xor_self]
  exact swapWhere_none _ _ _

/-- A sequence of swaps is one swap. -/
theorem foldl_swapWhere (sels : List (Nat → Bool)) (r : List α × List α) :
    sels.foldl (fun r sel => swapWhere sel 0 r.1 r.2) r =
      swapWhere (fun i => sels.foldl (fun b sel => b ^^ sel i) false) 0 r.1 r.2 := by
  have hgen : ∀ (sels : List (Nat → Bool)) (sel₀ : Nat → Bool),
      sels.foldl (fun r sel => swapWhere sel 0 r.1 r.2) (swapWhere sel₀ 0 r.1 r.2) =
        swapWhere (fun i => sels.foldl (fun b sel => b ^^ sel i) (sel₀ i)) 0 r.1 r.2 := by
    intro sels
    induction sels with
    | nil => exact fun _ => rfl
    | cons sel sels ih => intro sel₀; rw [List.foldl_cons, swapWhere_swapWhere, ih]; rfl
  have := hgen sels fun _ => false
  rwa [swapWhere_none] at this

end Exchange
