/-
A queue of timed entries, the oldest first, from which entries leave at the
front: when they are older than a time to live, and when there are too many.

Two facts about expiry. It stops at the first entry that is still fresh, so it
leaves only fresh ones at every time exactly when the queue is ordered by time
(`expire_fresh_iff`). And an ordered queue holds a key exactly when the latest
entry of that key in the whole history is fresh and fewer than `cap` entries
came after it (`Window.mem_iff`).
-/
import Mathlib.Data.List.Nodup
import Mathlib.Data.List.TakeWhile

namespace ExpiringQueue

variable {α : Type}

/-- `x` has been there for `ttl` or longer at time `now`. -/
def expired (ttl now : Nat) (x : α × Nat) : Bool := ttl ≤ now - x.2

/-- Drop expired entries from the front. -/
def expire (ttl now : Nat) (q : List (α × Nat)) : List (α × Nat) := q.dropWhile (expired ttl now)

/-- Drop the oldest entry of a full queue. -/
def evict (cap : Nat) (q : List (α × Nat)) : List (α × Nat) := if q.length = cap then q.tail else q

/-- No entry is older than one in front of it. -/
def Ordered (q : List (α × Nat)) : Prop := q.Pairwise fun x y => x.2 ≤ y.2

variable {ttl now now' cap : Nat} {q history : List (α × Nat)}

theorem expired_iff {x : α × Nat} : expired ttl now x = true ↔ ttl ≤ now - x.2 := decide_eq_true_iff

theorem expire_suffix (ttl now : Nat) (q : List (α × Nat)) : expire ttl now q <:+ q := List.dropWhile_suffix _

theorem evict_suffix (cap : Nat) (q : List (α × Nat)) : evict cap q <:+ q := by
  unfold evict
  split
  · exact List.tail_suffix q
  · exact List.suffix_refl q

/-- What expiry removes is expired. -/
theorem expire_split (ttl now : Nat) (q : List (α × Nat)) :
    ∃ gone, q = gone ++ expire ttl now q ∧ ∀ x ∈ gone, ttl ≤ now - x.2 :=
  ⟨_, List.takeWhile_append_dropWhile.symm, fun _ hx => expired_iff.mp (List.mem_takeWhile_imp hx)⟩

/-! ## Ordered queues -/

/-- In an ordered queue, expiry leaves only fresh entries. -/
theorem Ordered.expire_fresh (h : Ordered q) (ttl now : Nat) : ∀ x ∈ expire ttl now q, now - x.2 < ttl := by
  induction q with
  | nil => intro x hx; cases hx
  | cons y q ih =>
    obtain ⟨hy, hq⟩ := List.pairwise_cons.mp h
    intro x hx
    by_cases hexp : ttl ≤ now - y.2
    · rw [expire, List.dropWhile_cons_of_pos (expired_iff.mpr hexp)] at hx
      exact ih hq x hx
    · rw [expire, List.dropWhile_cons_of_neg (mt expired_iff.mp hexp)] at hx
      rcases List.mem_cons.mp hx with rfl | hx
      · omega
      · have := hy x hx; omega

/-- In an ordered queue, expiry removes exactly the expired entries. -/
theorem Ordered.expire_eq_filter (h : Ordered q) : expire ttl now q = q.filter fun x => !expired ttl now x := by
  obtain ⟨gone, hq, hgone⟩ := expire_split ttl now q
  have hfresh := h.expire_fresh ttl now
  generalize expire ttl now q = left at hq hfresh
  subst hq
  rw [List.filter_append, List.filter_eq_nil_iff.mpr, List.filter_eq_self.mpr, List.nil_append]
  · intro x hx
    have := hfresh x hx
    simp only [expired, Bool.not_eq_eq_eq_not, Bool.not_true, decide_eq_false_iff_not]
    omega
  · intro x hx
    simp only [expired, hgone x hx, decide_true, Bool.not_true, Bool.false_eq_true, not_false_eq_true]

/-- Expiry leaves only fresh entries, whenever it runs, exactly in an ordered
queue. -/
theorem expire_fresh_iff (hpos : 0 < ttl) : (∀ now, ∀ x ∈ expire ttl now q, now - x.2 < ttl) ↔ Ordered q := by
  refine ⟨fun h => ?_, fun h now => h.expire_fresh ttl now⟩
  induction q with
  | nil => exact List.Pairwise.nil
  | cons y q ih =>
    refine List.pairwise_cons.mpr ⟨fun x hx => ?_, ih fun now x hx => ?_⟩
    · -- when `x` expires, `y` must have: otherwise expiry stops in front of both
      by_contra hlt
      have hstop : expire ttl (x.2 + ttl) (y :: q) = y :: q :=
        List.dropWhile_cons_of_neg (mt expired_iff.mp (by omega))
      have := h (x.2 + ttl) x (by rw [hstop]; exact List.mem_cons_of_mem _ hx)
      omega
    · by_cases hexp : ttl ≤ now - y.2
      · exact h now x (by rw [expire, List.dropWhile_cons_of_pos (expired_iff.mpr hexp)]; exact hx)
      · refine h now x ?_
        rw [expire, List.dropWhile_cons_of_neg (mt expired_iff.mp hexp)]
        exact List.mem_cons_of_mem _ ((expire_suffix ttl now q).subset hx)

/-! ## What a window of a history holds -/

/-- The latest entry of `x` is fresh, and fewer than `cap` came after it. -/
def Holds (cap ttl now : Nat) (history : List (α × Nat)) (x : α) : Prop :=
  ∃ before t since, history = before ++ (x, t) :: since ∧ x ∉ since.map Prod.fst ∧ now - t < ttl ∧ since.length < cap

/-- `q` is what is left at time `now` of all that was ever pushed. -/
structure Window (cap ttl now : Nat) (history q : List (α × Nat)) : Prop where
  left : ∃ gone, history = gone ++ q ∧ ((∀ x ∈ gone, ttl ≤ now - x.2) ∨ cap ≤ q.length)
  nodup : (q.map Prod.fst).Nodup
  ordered : Ordered history
  past : ∀ x ∈ history, x.2 ≤ now
  length_le : q.length ≤ cap

namespace Window

theorem queue_ordered (h : Window cap ttl now history q) : Ordered q := by
  obtain ⟨gone, rfl, _⟩ := h.left
  exact (List.pairwise_append.mp h.ordered).2.1

theorem nil (cap ttl now : Nat) : Window cap ttl now ([] : List (α × Nat)) [] :=
  ⟨⟨[], rfl, .inl nofun⟩, List.nodup_nil, List.Pairwise.nil, nofun, Nat.zero_le _⟩

theorem expire (h : Window cap ttl now history q) (hle : now ≤ now') :
    Window cap ttl now' history (expire ttl now' q) := by
  obtain ⟨gone, rfl, hgone⟩ := h.left
  obtain ⟨out, hq, hout⟩ := expire_split ttl now' q
  have hsuffix := expire_suffix ttl now' q
  refine ⟨⟨gone ++ out, by rw [List.append_assoc, ← hq], ?_⟩, (hsuffix.sublist.map _).nodup h.nodup, h.ordered,
    fun x hx => Nat.le_trans (h.past x hx) hle, Nat.le_trans hsuffix.length_le h.length_le⟩
  cases out with
  | nil =>
    rw [List.nil_append] at hq
    rw [List.append_nil, ← hq]
    exact hgone.imp_left fun hg x hx => Nat.le_trans (hg x hx) (Nat.sub_le_sub_right hle _)
  | cons y out =>
    -- all that left earlier is at least as old as `y`, which has expired
    refine .inl fun x hx => (List.mem_append.mp hx).elim (fun hx => ?_) (hout x)
    have hy : y ∈ q := by rw [hq]; exact List.mem_append_left _ List.mem_cons_self
    have hxy := (List.pairwise_append.mp h.ordered).2.2 x hx y hy
    have := hout y List.mem_cons_self
    omega

theorem push (h : Window cap ttl now history q) (hcap : 0 < cap) {x : α} (hx : x ∉ q.map Prod.fst) :
    Window cap ttl now (history ++ [(x, now)]) (evict cap q ++ [(x, now)]) := by
  have hsuffix := evict_suffix cap q
  have hlen : (evict cap q).length < cap := by
    unfold evict
    have := h.length_le
    split
    · rw [List.length_tail]; omega
    · omega
  refine ⟨?_, ?_, ?_, ?_, by rw [List.length_append]; exact hlen⟩
  · obtain ⟨gone, rfl, hgone⟩ := h.left
    unfold evict
    split
    · next hfull =>
      obtain ⟨y, q, rfl⟩ := List.exists_cons_of_length_pos (by omega : 0 < q.length)
      refine ⟨gone ++ [y], by simp, .inr ?_⟩
      rw [List.tail_cons, List.length_append, ← hfull]
      exact Nat.le_refl _
    · have := h.length_le
      exact ⟨gone, List.append_assoc _ _ _, hgone.imp_right fun _ => by omega⟩
  · rw [List.map_append]
    refine ((hsuffix.sublist.map _).nodup h.nodup).append (List.nodup_singleton x) fun y hy hy' => ?_
    rw [List.eq_of_mem_singleton hy'] at hy
    exact hx ((hsuffix.sublist.map _).subset hy)
  · refine List.pairwise_append.mpr ⟨h.ordered, List.pairwise_singleton _ _, fun y hy z hz => ?_⟩
    rw [List.eq_of_mem_singleton hz]
    exact h.past y hy
  · intro y hy
    rcases List.mem_append.mp hy with hy | hy
    · exact h.past y hy
    · rw [List.eq_of_mem_singleton hy]

/-- With no expired entry left, the window holds what the history says. -/
theorem mem_iff (h : Window cap ttl now history q) (hfresh : ∀ x ∈ q, now - x.2 < ttl) (x : α) :
    x ∈ q.map Prod.fst ↔ Holds cap ttl now history x := by
  obtain ⟨gone, rfl, hgone⟩ := h.left
  constructor
  · intro hx
    obtain ⟨⟨_, t⟩, hmem, rfl⟩ := List.mem_map.mp hx
    obtain ⟨a, since, rfl⟩ := List.append_of_mem hmem
    have hnodup := h.nodup
    rw [List.map_append, List.map_cons] at hnodup
    have hlen := h.length_le
    rw [List.length_append, List.length_cons] at hlen
    exact ⟨gone ++ a, t, since, (List.append_assoc _ _ _).symm,
      (List.nodup_cons.mp (List.Nodup.of_append_right hnodup)).1, hfresh _ hmem, by omega⟩
  · rintro ⟨before, t, since, heq, _, ht, hlen⟩
    rcases List.append_eq_append_iff.mp heq with ⟨a, _, rfl⟩ | ⟨c, hc, hcons⟩
    · simp
    · cases c with
      | nil => simp only [List.nil_append] at hcons; rw [← hcons]; exact List.mem_cons_self
      | cons y c =>
        obtain ⟨rfl, hsince⟩ := List.cons.inj hcons
        rcases hgone with hgone | hfull
        · have := hgone (x, t) (by rw [hc]; exact List.mem_append_right _ List.mem_cons_self)
          omega
        · have := congrArg List.length hsince
          rw [List.append_eq, List.length_append] at this
          omega

end Window

end ExpiringQueue
