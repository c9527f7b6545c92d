/-
Slices walked in pieces: `as_chunks` and `chunks_exact` (`asChunks`),
`chunks` (`chunks`), and the items `skip(..).step_by(..)` of an iterator
reaches (`visit`). Each comes with the item it leaves at every index.
-/
import Mathlib.Data.List.Basic

namespace Chunks

variable {α : Type}

/-- `k` pieces of `n` items each, and what is behind them. -/
def asChunksLoop (n : Nat) : Nat → List α → List (List α) × List α
  | 0, l => ([], l)
  | k + 1, l =>
    let r := asChunksLoop n k (l.drop n)
    (l.take n :: r.1, r.2)

/-- `as_chunks::<n>`: the full pieces and the tail. -/
def asChunks (n : Nat) (l : List α) : List (List α) × List α := asChunksLoop n (l.length / n) l

/-- At most `fuel` pieces of `n` items, the last one possibly shorter. -/
def chunksLoop (n : Nat) : Nat → List α → List (List α)
  | 0, _ => []
  | fuel + 1, l => if l.isEmpty then [] else l.take n :: chunksLoop n fuel (l.drop n)

/-- `chunks(n)`, for `n` at least one. -/
def chunks (n : Nat) (l : List α) : List (List α) := chunksLoop n l.length l

/-- `f` on the items that `skip(wait).step_by(step)` yields. -/
def visit (step : Nat) (f : α → α) : Nat → List α → List α
  | _, [] => []
  | 0, x :: xs => f x :: visit step f (step - 1) xs
  | wait + 1, x :: xs => x :: visit step f wait xs

/-! ## Full pieces -/

theorem length_asChunksLoop (n k : Nat) (l : List α) : (asChunksLoop n k l).1.length = k := by
  induction k generalizing l with
  | zero => rfl
  | succ k ih => rw [asChunksLoop, List.length_cons, ih]

theorem getElem?_asChunksLoop (n k : Nat) (l : List α) {j : Nat} (hj : j < k) :
    (asChunksLoop n k l).1[j]? = some ((l.drop (j * n)).take n) := by
  induction k generalizing l j with
  | zero => omega
  | succ k ih =>
    cases j with
    | zero => simp [asChunksLoop]
    | succ j =>
      rw [asChunksLoop, List.getElem?_cons_succ, ih _ (by omega), List.drop_drop, Nat.succ_mul, Nat.add_comm]

theorem asChunksLoop_tail (n k : Nat) (l : List α) : (asChunksLoop n k l).2 = l.drop (k * n) := by
  induction k generalizing l with
  | zero => simp [asChunksLoop]
  | succ k ih => rw [asChunksLoop, ih, List.drop_drop, Nat.succ_mul, Nat.add_comm]

@[simp] theorem length_asChunks (n : Nat) (l : List α) : (asChunks n l).1.length = l.length / n :=
  length_asChunksLoop _ _ _

theorem getElem?_asChunks {n : Nat} {l : List α} {j : Nat} (hj : j < l.length / n) :
    (asChunks n l).1[j]? = some ((l.drop (j * n)).take n) := getElem?_asChunksLoop _ _ _ hj

theorem asChunks_tail (n : Nat) (l : List α) : (asChunks n l).2 = l.drop (l.length / n * n) :=
  asChunksLoop_tail _ _ _

/-- An index into pieces of one length put together. -/
theorem getElem?_flatten {n : Nat} (hn : 0 < n) {blocks : List (List α)} (h : ∀ b ∈ blocks, b.length = n) (i : Nat) :
    blocks.flatten[i]? = (blocks[i / n]?).bind (·[i % n]?) := by
  induction blocks generalizing i with
  | nil => simp
  | cons b bs ih =>
    have hb : b.length = n := h b List.mem_cons_self
    rw [List.flatten_cons, List.getElem?_append, hb]
    split
    · next hi => simp [Nat.div_eq_of_lt hi, Nat.mod_eq_of_lt hi]
    · next hi =>
      have hdiv : i / n = (i - n) / n + 1 := Nat.div_eq_sub_div hn (by omega)
      rw [ih (fun b' hb' => h b' (List.mem_cons_of_mem _ hb')), hdiv, List.getElem?_cons_succ,
        Nat.mod_eq_sub_mod (by omega : n ≤ i)]

/-- Pieces put back before the tail they were cut from. -/
theorem getElem?_rebuild {n : Nat} (hn : 0 < n) {l : List α} {blocks : List (List α)}
    (hlen : blocks.length = l.length / n) (h : ∀ b ∈ blocks, b.length = n) (i : Nat) :
    (blocks.flatten ++ (asChunks n l).2)[i]? =
      if i < l.length / n * n then (blocks[i / n]?).bind (·[i % n]?) else l[i]? := by
  have hflat : blocks.flatten.length = l.length / n * n := by
    rw [List.length_flatten, List.map_congr_left h, List.map_const', List.sum_replicate_nat, hlen]
  rw [List.getElem?_append, hflat, getElem?_flatten hn h, asChunks_tail, List.getElem?_drop]
  split
  · rfl
  · next hi => rw [Nat.add_sub_cancel' (by omega)]

/-- The piece an index falls into holds the item there. -/
theorem getElem?_piece {n : Nat} (hn : 0 < n) (l : List α) (i : Nat) :
    ((l.drop (i / n * n)).take n)[i % n]? = l[i]? := by
  rw [List.getElem?_take_of_lt (Nat.mod_lt i hn), List.getElem?_drop, Nat.mul_comm, Nat.div_add_mod]

/-- Working on full pieces and tail alike, item by item, is working on the
whole with the index taken modulo `n`. -/
theorem asChunks_mapIdx {n : Nat} (hn : 0 < n) (g : Nat → α → α) (l : List α) :
    ((asChunks n l).1.map (List.mapIdx g)).flatten ++ (asChunks n l).2.mapIdx g =
      l.mapIdx fun i => g (i % n) := by
  have hgen : ∀ (k : Nat) (l : List α), k * n ≤ l.length → l.length < (k + 1) * n →
      ((asChunksLoop n k l).1.map (List.mapIdx g)).flatten ++ (asChunksLoop n k l).2.mapIdx g =
        l.mapIdx fun i => g (i % n) := by
    intro k
    induction k with
    | zero =>
      intro l _ hu
      refine List.ext_getElem? fun i => ?_
      simp only [asChunksLoop, List.map_nil, List.flatten_nil, List.nil_append, List.getElem?_mapIdx]
      rcases Nat.lt_or_ge i l.length with hi | hi
      · rw [Nat.mod_eq_of_lt (by omega)]
      · rw [List.getElem?_eq_none hi]; rfl
    | succ k ih =>
      intro l hl hu
      have hmul : (k + 1) * n = k * n + n := Nat.succ_mul k n
      have hmul' : (k + 1 + 1) * n = (k + 1) * n + n := Nat.succ_mul _ n
      have htake : (l.take n).length = n := by rw [List.length_take]; omega
      have hrest := ih (l.drop n) (by rw [List.length_drop]; omega) (by rw [List.length_drop]; omega)
      conv_rhs => rw [← List.take_append_drop n l, List.mapIdx_append, htake]
      simp only [asChunksLoop, List.map_cons, List.flatten_cons, List.append_assoc, hrest]
      congr 1
      · refine List.ext_getElem? fun i => ?_
        simp only [List.getElem?_mapIdx]
        rcases Nat.lt_or_ge i n with hi | hi
        · rw [Nat.mod_eq_of_lt hi]
        · rw [List.getElem?_eq_none (by omega)]; rfl
      · simp only [Nat.add_mod_right]
  refine hgen _ l (Nat.div_mul_le_self _ _) ?_
  rw [Nat.mul_comm]
  exact Nat.lt_mul_div_succ _ hn

/-! ## Pieces overwritten -/

/-- Every piece overwritten with the start of `source`: the whole repeats the
first `n` items of it. -/
theorem getElem?_chunks_overwrite {β : Type} {n : Nat} (hn : 0 < n) {source : List β} (hs : n ≤ source.length)
    (l : List α) {i : Nat} (hi : i < l.length) :
    ((chunks n l).map fun chunk => source.take chunk.length).flatten[i]? = source[i % n]? := by
  have hgen : ∀ (fuel : Nat) (l : List α) (i : Nat), l.length ≤ fuel → i < l.length →
      ((chunksLoop n fuel l).map fun chunk => source.take chunk.length).flatten[i]? = source[i % n]? := by
    intro fuel
    induction fuel with
    | zero => intro l i hl hi; omega
    | succ fuel ih =>
      intro l i hl hi
      have hne : l.isEmpty = false := by
        cases l with
        | nil => cases hi
        | cons => rfl
      have hpiece : (source.take (l.take n).length).length = min n l.length := by
        simp only [List.length_take]; omega
      simp only [chunksLoop, hne, Bool.false_eq_true, if_false, List.map_cons, List.flatten_cons]
      rw [List.getElem?_append, hpiece]
      split
      · next hlt =>
        rw [List.length_take, List.getElem?_take_of_lt hlt, Nat.mod_eq_of_lt (by omega)]
      · next hge =>
        have hni : n ≤ i := by omega
        rw [Nat.min_eq_left (by omega), ih _ _ (by rw [List.length_drop]; omega) (by rw [List.length_drop]; omega),
          Nat.mod_eq_sub_mod hni]
  exact hgen _ l i (Nat.le_refl _) hi

/-! ## Visited items -/

@[simp] theorem length_visit (step : Nat) (f : α → α) (wait : Nat) (l : List α) :
    (visit step f wait l).length = l.length := by
  induction l generalizing wait with
  | nil => cases wait <;> rfl
  | cons x xs ih => cases wait <;> simp [visit, ih]

/-- `skip(wait).step_by(step)` reaches every `step`-th item from `wait` on. -/
theorem getElem?_visit {step : Nat} (hs : 0 < step) (f : α → α) (wait : Nat) (l : List α) (i : Nat) :
    (visit step f wait l)[i]? = if wait ≤ i ∧ (i - wait) % step = 0 then l[i]?.map f else l[i]? := by
  induction l generalizing wait i with
  | nil => cases wait <;> simp [visit]
  | cons x xs ih =>
    cases wait with
    | zero =>
      cases i with
      | zero => simp [visit]
      | succ i =>
        -- the next item is `step - 1` further on
        have hiff : (step - 1 ≤ i ∧ (i - (step - 1)) % step = 0) ↔ (0 ≤ i + 1 ∧ (i + 1 - 0) % step = 0) := by
          rcases Nat.lt_or_ge i (step - 1) with hi | hi
          · rw [Nat.sub_zero, Nat.mod_eq_of_lt (by omega : i + 1 < step)]; omega
          · rw [Nat.sub_zero, Nat.mod_eq_sub_mod (by omega : step ≤ i + 1),
              show i + 1 - step = i - (step - 1) by omega]
            omega
        simp only [visit, List.getElem?_cons_succ, ih, hiff]
    | succ wait =>
      cases i with
      | zero => simp [visit]
      | succ i => simp only [visit, List.getElem?_cons_succ, ih, Nat.add_le_add_iff_right, Nat.add_sub_add_right]

end Chunks
