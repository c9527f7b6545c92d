/-
Parsers that read a stream in stages.

A stage waits for a number of items at the front of the stream it fixes
beforehand (`needed`), then acts on exactly those: it moves to the next
stage, hands out an item, or fails, and may rewrite the items it looked at
in place. Such a parser cannot tell how the stream was cut: more input never
changes what it answered (`run_append_emit`, `run_append_fail`), and asking
again after being told to wait is asking the first time (`run_need_resume`).
-/
import Mathlib.Data.List.Basic

namespace Staged

/-- What a stage does with the items it waited for; `front` is those items,
rewritten in place. -/
inductive Act (σ ι ε α : Type) where
  | next (s : σ)
  | emit (item : ι) (front : List α) (s : σ)
  | fail (e : ε) (front : List α) (s : σ)

/-- A parser in stages over items `α`, handing out `ι` and failing with `ε`. -/
structure Machine (σ ι ε α : Type) where
  /-- Items a stage looks at, counted from the front. -/
  needed : σ → Nat
  /-- No stage may wait for more than this. -/
  max : Nat
  tooLarge : ε
  act : σ → List α → Act σ ι ε α
  rank : σ → Nat
  rank_next : ∀ {s l s'}, act s l = .next s' → rank s' < rank s
  needed_pos : ∀ {s l x f s'}, act s l = .emit x f s' → 0 < needed s
  length_emit : ∀ {s l x f s'}, act s l = .emit x f s' → f.length = l.length
  length_fail : ∀ {s l e f s'}, act s l = .fail e f s' → f.length = l.length

/-- The answer to one call: wait until `k` items are there; `n` items make
up `item` and the stream now reads `rest`; or an error. -/
inductive Result (σ ι ε α : Type) where
  | need (k : Nat) (s : σ)
  | emit (n : Nat) (item : ι) (stream : List α) (s : σ)
  | fail (e : ε) (stream : List α) (s : σ)

variable {σ ι ε α : Type} (M : Machine σ ι ε α)

/-- One call on the items received so far. -/
def run (s : σ) (l : List α) : Result σ ι ε α :=
  if M.max < M.needed s then .fail M.tooLarge l s
  else if l.length < M.needed s then .need (M.needed s) s
  else match _h : M.act s (l.take (M.needed s)) with
    | .next s' => run s' l
    | .emit x f s' => .emit (M.needed s) x (f ++ l.drop (M.needed s)) s'
    | .fail e f s' => .fail e (f ++ l.drop (M.needed s)) s'
termination_by M.rank s
decreasing_by exact M.rank_next _h

variable {M}

theorem run_tooLarge {s : σ} {l : List α} (h : M.max < M.needed s) :
    run M s l = .fail M.tooLarge l s := by
  rw [run, if_pos h]

theorem run_short {s : σ} {l : List α} (hm : M.needed s ≤ M.max) (h : l.length < M.needed s) :
    run M s l = .need (M.needed s) s := by
  rw [run, if_neg (by omega), if_pos h]

theorem run_next {s s' : σ} {l : List α} (hm : M.needed s ≤ M.max) (hl : M.needed s ≤ l.length)
    (h : M.act s (l.take (M.needed s)) = .next s') : run M s l = run M s' l := by
  rw [run, if_neg (by omega), if_neg (by omega)]
  split <;> simp_all

theorem run_emit {s s' : σ} {l f : List α} {x : ι} (hm : M.needed s ≤ M.max)
    (hl : M.needed s ≤ l.length) (h : M.act s (l.take (M.needed s)) = .emit x f s') :
    run M s l = .emit (M.needed s) x (f ++ l.drop (M.needed s)) s' := by
  rw [run, if_neg (by omega), if_neg (by omega)]
  split <;> simp_all

theorem run_fail {s s' : σ} {l f : List α} {e : ε} (hm : M.needed s ≤ M.max)
    (hl : M.needed s ≤ l.length) (h : M.act s (l.take (M.needed s)) = .fail e f s') :
    run M s l = .fail e (f ++ l.drop (M.needed s)) s' := by
  rw [run, if_neg (by omega), if_neg (by omega)]
  split <;> simp_all

/-- A stage with its items split off. -/
theorem run_next_front {s s' : σ} {front rest : List α} (hn : M.needed s = front.length)
    (hm : front.length ≤ M.max) (h : M.act s front = .next s') :
    run M s (front ++ rest) = run M s' (front ++ rest) := by
  refine run_next (by omega) (by simp; omega) ?_
  rw [hn, List.take_left]; exact h

/-- The last stage, with nothing behind it. -/
theorem run_emit_all {s s' : σ} {l f : List α} {x : ι} (hn : M.needed s = l.length)
    (hm : l.length ≤ M.max) (h : M.act s l = .emit x f s') : run M s l = .emit l.length x f s' := by
  rw [run_emit (by omega) (by omega) (by rw [hn, List.take_length]; exact h), hn, List.drop_length,
    List.append_nil]

/-- A call is decided at some stage: what holds of a stage that answers, and
passes from the stage it moves to, holds of every call. -/
theorem run_induct {P : σ → List α → Result σ ι ε α → Prop} (l : List α)
    (tooLarge : ∀ s, M.max < M.needed s → P s l (.fail M.tooLarge l s))
    (short : ∀ s, M.needed s ≤ M.max → l.length < M.needed s → P s l (.need (M.needed s) s))
    (emit : ∀ s x f s', M.needed s ≤ M.max → M.needed s ≤ l.length →
      M.act s (l.take (M.needed s)) = .emit x f s' →
      P s l (.emit (M.needed s) x (f ++ l.drop (M.needed s)) s'))
    (fail : ∀ s e f s', M.needed s ≤ M.max → M.needed s ≤ l.length →
      M.act s (l.take (M.needed s)) = .fail e f s' → P s l (.fail e (f ++ l.drop (M.needed s)) s'))
    (next : ∀ s s', M.needed s ≤ M.max → M.needed s ≤ l.length →
      M.act s (l.take (M.needed s)) = .next s' → P s' l (run M s' l) → P s l (run M s' l)) :
    ∀ s, P s l (run M s l) := by
  suffices ∀ n s, M.rank s < n → P s l (run M s l) from fun s => this _ s (Nat.lt_succ_self _)
  intro n
  induction n with
  | zero => intro s h; omega
  | succ n ih =>
    intro s hr
    by_cases hm : M.max < M.needed s
    · rw [run_tooLarge hm]; exact tooLarge s hm
    by_cases hl : l.length < M.needed s
    · rw [run_short (by omega) hl]; exact short s (by omega) hl
    cases ha : M.act s (l.take (M.needed s)) with
    | next s' =>
      rw [run_next (by omega) (by omega) ha]
      exact next s s' (by omega) (by omega) ha (ih s' (by have := M.rank_next ha; omega))
    | emit x f s' =>
      rw [run_emit (by omega) (by omega) ha]; exact emit s x f s' (by omega) (by omega) ha
    | fail e f s' =>
      rw [run_fail (by omega) (by omega) ha]; exact fail s e f s' (by omega) (by omega) ha

theorem take_append_of_le {l m : List α} {k : Nat} (h : k ≤ l.length) :
    (l ++ m).take k = l.take k ∧ (l ++ m).drop k = l.drop k ++ m :=
  ⟨List.take_append_of_le_length h, List.drop_append_of_le_length h⟩

/-! ## What stages keep -/

/-- The stage an action leads to. -/
def Act.state : Act σ ι ε α → σ
  | .next s => s
  | .emit _ _ s => s
  | .fail _ _ s => s

/-- The stage a call ends at. -/
def Result.state : Result σ ι ε α → σ
  | .need _ s => s
  | .emit _ _ _ s => s
  | .fail _ _ s => s

/-- What every action keeps, every call keeps. -/
theorem run_keeps {I : σ → Prop} (h : ∀ s l, I s → I (M.act s l).state) {s : σ} (hs : I s) (l : List α) :
    I (run M s l).state := by
  revert hs
  refine run_induct (P := fun s _ r => I s → I r.state) l ?_ ?_ ?_ ?_ ?_ s
  · exact fun _ _ hs => hs
  · exact fun _ _ _ hs => hs
  · intro s x f s' _ _ ha hs
    have := h s (l.take (M.needed s)) hs
    rwa [ha] at this
  · intro s e f s' _ _ ha hs
    have := h s (l.take (M.needed s)) hs
    rwa [ha] at this
  · intro s s' _ _ ha ih hs
    have := h s (l.take (M.needed s)) hs
    rw [ha] at this
    exact ih this

/-! ## More input -/

/-- What `m` more items do to an answer that did not ask for more. -/
def Result.append (m : List α) : Result σ ι ε α → Result σ ι ε α
  | .need k s => .need k s
  | .emit n x l s => .emit n x (l ++ m) s
  | .fail e l s => .fail e (l ++ m) s

/-- More input after an answer only lengthens the stream behind it; after a
request for more, it is the same as asking the stage reached. -/
theorem run_append (s : σ) (l m : List α) :
    run M s (l ++ m) = match run M s l with
      | .need _ s' => run M s' (l ++ m)
      | r => r.append m := by
  refine run_induct (P := fun s l r => run M s (l ++ m) = match r with
      | .need _ s' => run M s' (l ++ m)
      | r => r.append m) l ?_ ?_ ?_ ?_ ?_ s
  · intro s h; rw [run_tooLarge h]; rfl
  · intro s _ _; rfl
  · intro s x f s' hm hl ha
    obtain ⟨ht, hd⟩ := take_append_of_le (m := m) hl
    rw [run_emit hm (by simp; omega) (by rw [ht]; exact ha), hd]
    simp [Result.append]
  · intro s e f s' hm hl ha
    obtain ⟨ht, hd⟩ := take_append_of_le (m := m) hl
    rw [run_fail hm (by simp; omega) (by rw [ht]; exact ha), hd]
    simp [Result.append]
  · intro s s' hm hl ha ih
    rw [run_next hm (by simp; omega) (by rw [(take_append_of_le hl).1]; exact ha)]
    exact ih

theorem run_append_emit {s s' : σ} {l l' : List α} {n : Nat} {x : ι}
    (h : run M s l = .emit n x l' s') (m : List α) : run M s (l ++ m) = .emit n x (l' ++ m) s' := by
  rw [run_append, h]; rfl

theorem run_append_fail {s s' : σ} {l l' : List α} {e : ε}
    (h : run M s l = .fail e l' s') (m : List α) : run M s (l ++ m) = .fail e (l' ++ m) s' := by
  rw [run_append, h]; rfl

theorem run_need_resume {s s' : σ} {l : List α} {k : Nat} (h : run M s l = .need k s') (m : List α) :
    run M s' (l ++ m) = run M s (l ++ m) := by
  rw [run_append s, h]

/-- A request for more is for more than is there, for what the stage reached
needs. -/
theorem run_need {s s' : σ} {l : List α} {k : Nat} (h : run M s l = .need k s') :
    l.length < k ∧ k ≤ M.max ∧ k = M.needed s' := by
  revert h
  refine run_induct (P := fun _ l r => r = .need k s' → l.length < k ∧ k ≤ M.max ∧ k = M.needed s')
    l ?_ ?_ ?_ ?_ ?_ s
  · intro s _ h; cases h
  · intro s hm hl h; cases h; exact ⟨hl, hm, rfl⟩
  · intro s x f s' _ _ _ h; cases h
  · intro s e f s' _ _ _ h; cases h
  · intro s s' _ _ _ ih; exact ih

/-- Until the requested number of items is there, the request stands. -/
theorem run_need_again {s s' : σ} {l m : List α} {k : Nat} (h : run M s l = .need k s')
    (hk : (l ++ m).length < k) : run M s (l ++ m) = .need k s' := by
  obtain ⟨_, hm, rfl⟩ := run_need h
  rw [← run_need_resume h, run_short hm hk]

/-- What a machine waits for, one with a smaller limit refuses. -/
theorem run_smaller (M M' : Machine σ ι ε α) (hn : M'.needed = M.needed) (ha : M'.act = M.act) {s s' : σ} {l : List α}
    {k : Nat} (h : run M s l = .need k s') (hk : M'.max < k) : ∃ s'', run M' s l = .fail M'.tooLarge l s'' := by
  revert h
  refine run_induct (P := fun s l r => r = .need k s' → ∃ s'', run M' s l = .fail M'.tooLarge l s'') l ?_ ?_ ?_ ?_ ?_ s
  · intro s _ h; cases h
  · intro s _ _ h
    cases h
    exact ⟨_, run_tooLarge (by rw [hn]; exact hk)⟩
  · intro _ _ _ _ _ _ _ h; cases h
  · intro _ _ _ _ _ _ _ h; cases h
  · intro s s₁ _ hl hact ih h
    by_cases hm : M'.max < M'.needed s
    · exact ⟨s, run_tooLarge hm⟩
    · have hact' : M'.act s (l.take (M'.needed s)) = .next s₁ := by rw [hn, ha]; exact hact
      rw [run_next (by omega) (by rw [hn]; exact hl) hact']
      exact ih h

theorem run_emit_bounds {s s' : σ} {l l' : List α} {n : Nat} {x : ι} (h : run M s l = .emit n x l' s') :
    0 < n ∧ n ≤ l.length ∧ n ≤ M.max ∧ l'.length = l.length ∧ l'.drop n = l.drop n := by
  revert h
  refine run_induct (P := fun _ l r => r = .emit n x l' s' →
    0 < n ∧ n ≤ l.length ∧ n ≤ M.max ∧ l'.length = l.length ∧ l'.drop n = l.drop n) l ?_ ?_ ?_ ?_ ?_ s
  · intro s _ h; cases h
  · intro s _ _ h; cases h
  · intro s x f s' hm hl ha h
    have hf := M.length_emit ha
    cases h
    simp only [List.length_take] at hf
    refine ⟨M.needed_pos ha, hl, hm, by simp; omega, ?_⟩
    rw [List.drop_left' (by omega)]
  · intro s e f s' _ _ _ h; cases h
  · intro s s' _ _ _ ih; exact ih

/-- An item is handed out at this stage or at one it moves to. -/
theorem run_emit_cases {s s' : σ} {l l' : List α} {n : Nat} {x : ι} (h : run M s l = .emit n x l' s') :
    M.needed s ≤ l.length ∧
      ((∃ s₁, M.act s (l.take (M.needed s)) = .next s₁ ∧ run M s₁ l = .emit n x l' s') ∨
        ∃ f, M.act s (l.take (M.needed s)) = .emit x f s' ∧ n = M.needed s ∧ l' = f ++ l.drop n) := by
  by_cases hm : M.max < M.needed s
  · rw [run_tooLarge hm] at h; cases h
  by_cases hl : l.length < M.needed s
  · rw [run_short (by omega) hl] at h; cases h
  refine ⟨by omega, ?_⟩
  cases ha : M.act s (l.take (M.needed s)) with
  | next s₁ =>
    rw [run_next (by omega) (by omega) ha] at h
    exact .inl ⟨s₁, rfl, h⟩
  | emit y f s₁ =>
    rw [run_emit (by omega) (by omega) ha] at h
    cases h
    exact .inr ⟨f, rfl, rfl, rfl⟩
  | fail e f s₁ => rw [run_fail (by omega) (by omega) ha] at h; cases h

/-- A call on the front of an item's own stream asks for more, and for no
more than the item has. -/
theorem run_front_of_emit {s s' : σ} {l m l' : List α} {x : ι}
    (h : run M s (l ++ m) = .emit (l ++ m).length x l' s') (hm : m ≠ []) :
    ∃ k s'', run M s l = .need k s'' ∧ k ≤ (l ++ m).length := by
  have hlen : l.length < (l ++ m).length := by
    have := List.length_pos_iff.mpr hm
    simp only [List.length_append]; omega
  cases hl : run M s l with
  | emit n y l'' s'' =>
    have hn := (run_emit_bounds hl).2.1
    rw [run_append_emit hl m] at h
    cases h
    omega
  | fail e l'' s'' => rw [run_append_fail hl m] at h; cases h
  | need k s'' =>
    refine ⟨k, s'', rfl, ?_⟩
    by_contra hk
    rw [run_need_again hl (by omega)] at h
    cases h

theorem run_fail_length {s s' : σ} {l l' : List α} {e : ε} (h : run M s l = .fail e l' s') :
    l'.length = l.length := by
  revert h
  refine run_induct (P := fun _ l r => r = .fail e l' s' → l'.length = l.length) l ?_ ?_ ?_ ?_ ?_ s
  · intro s _ h; cases h; rfl
  · intro s _ _ h; cases h
  · intro s x f s' _ _ _ h; cases h
  · intro s e f s' _ hl ha h
    have hf := M.length_fail ha
    cases h
    simp only [List.length_take] at hf
    simp; omega
  · intro s s' _ _ _ ih; exact ih

/-! ## A whole stream -/

/-- From stage `s` on stream `l`, calls hand out `xs` (each item with the
part of the stream it was made of, as rewritten), and are then at `s'` with
`l'` left. -/
inductive Parses (M : Machine σ ι ε α) : σ → List α → List (ι × List α) → σ → List α → Prop
  | refl {s l} : Parses M s l [] s l
  | emit {s l n x l' s' xs s'' l''} : run M s l = .emit n x l' s' →
      Parses M s' (l'.drop n) xs s'' l'' → Parses M s l ((x, l'.take n) :: xs) s'' l''

theorem Parses.append {s s' : σ} {l l' : List α} {xs : List (ι × List α)} (h : Parses M s l xs s' l')
    (m : List α) : Parses M s (l ++ m) xs s' (l' ++ m) := by
  induction h with
  | refl => exact .refl
  | emit hr _ ih =>
    obtain ⟨_, hn, _, hlen, _⟩ := run_emit_bounds hr
    rw [← (take_append_of_le (m := m) (by omega)).1]
    refine .emit (run_append_emit hr m) ?_
    rw [List.drop_append_of_le_length (by omega)]
    exact ih

theorem Parses.trans {s s' s'' : σ} {l l' l'' : List α} {xs ys : List (ι × List α)}
    (h : Parses M s l xs s' l') (h' : Parses M s' l' ys s'' l'') : Parses M s l (xs ++ ys) s'' l'' := by
  induction h with
  | refl => exact h'
  | emit hr _ ih => exact .emit hr (ih h')

theorem Parses.one {s s' : σ} {l l' : List α} {n : Nat} {x : ι} (h : run M s l = .emit n x l' s') :
    Parses M s l [(x, l'.take n)] s' (l'.drop n) :=
  .emit h .refl

/-- What is left is what was not made into items. -/
theorem Parses.rest {s s' : σ} {l l' : List α} {xs : List (ι × List α)} (h : Parses M s l xs s' l') :
    l' = l.drop (xs.flatMap Prod.snd).length := by
  induction h with
  | refl => simp
  | @emit s l n x l' s' xs s'' l'' hr _ ih =>
    obtain ⟨_, hn, _, hlen, hd⟩ := run_emit_bounds hr
    rw [ih, List.flatMap_cons, List.length_append, List.length_take, Nat.min_eq_left (by omega), hd, List.drop_drop]

theorem Parses.length_add {s s' : σ} {l l' : List α} {xs : List (ι × List α)} (h : Parses M s l xs s' l') :
    (xs.flatMap Prod.snd).length + l'.length = l.length := by
  induction h with
  | refl => simp
  | @emit s l n x l' s' xs s'' l'' hr _ ih =>
    obtain ⟨_, hn, _, hlen, hd⟩ := run_emit_bounds hr
    rw [List.length_drop] at ih
    rw [List.flatMap_cons, List.length_append, List.length_take, Nat.min_eq_left (by omega)]
    omega

/-- Two readings of one stream agree as far as both go. -/
theorem Parses.prefix_or {s s₁ s₂ : σ} {l l₁ l₂ : List α} {xs ys : List (ι × List α)}
    (h₁ : Parses M s l xs s₁ l₁) (h₂ : Parses M s l ys s₂ l₂) :
    (∃ zs, ys = xs ++ zs ∧ Parses M s₁ l₁ zs s₂ l₂) ∨ (∃ zs, xs = ys ++ zs ∧ Parses M s₂ l₂ zs s₁ l₁) := by
  induction h₁ generalizing ys with
  | refl => exact .inl ⟨ys, rfl, h₂⟩
  | emit hr h₁ ih =>
    cases h₂ with
    | refl => exact .inr ⟨_, rfl, .emit hr h₁⟩
    | emit hr' h₂ =>
      rw [hr] at hr'
      cases hr'
      rcases ih h₂ with ⟨zs, rfl, h⟩ | ⟨zs, rfl, h⟩
      · exact .inl ⟨zs, rfl, h⟩
      · exact .inr ⟨zs, rfl, h⟩

/-- A reading that got stuck is the longest one. -/
theorem Parses.prefix_of_stuck {s s₁ s₂ : σ} {l l₁ l₂ : List α} {xs ys : List (ι × List α)}
    (h₁ : Parses M s l xs s₁ l₁) (h₂ : Parses M s l ys s₂ l₂)
    (hs : ∀ n x l' s', run M s₂ l₂ ≠ .emit n x l' s') :
    ∃ zs, ys = xs ++ zs ∧ Parses M s₁ l₁ zs s₂ l₂ := by
  rcases h₁.prefix_or h₂ with h | ⟨zs, rfl, h⟩
  · exact h
  · cases h with
    | refl => exact ⟨[], by simp, .refl⟩
    | emit hr _ => exact absurd hr (hs _ _ _ _)

/-- Every item of the stream, and the stage and stream the last one leaves. -/
def parse (M : Machine σ ι ε α) : Nat → σ → List α → List (ι × List α) × σ × List α
  | 0, s, l => ([], s, l)
  | fuel + 1, s, l => match run M s l with
    | .emit n x l' s' =>
      let r := parse M fuel s' (l'.drop n)
      ((x, l'.take n) :: r.1, r.2)
    | _ => ([], s, l)

theorem parse_parses (fuel : Nat) (s : σ) (l : List α) :
    Parses M s l (parse M fuel s l).1 (parse M fuel s l).2.1 (parse M fuel s l).2.2 := by
  induction fuel generalizing s l with
  | zero => exact .refl
  | succ fuel ih =>
    simp only [parse]
    split
    · rename_i hr; exact .emit hr (ih _ _)
    · exact .refl

/-- With more fuel than the stream has items, `parse` reads it to the end. -/
theorem parse_stuck {fuel : Nat} {s : σ} {l : List α} (h : l.length < fuel) (n x l' s') :
    run M (parse M fuel s l).2.1 (parse M fuel s l).2.2 ≠ .emit n x l' s' := by
  induction fuel generalizing s l with
  | zero => omega
  | succ fuel ih =>
    simp only [parse]
    split
    · rename_i hr
      obtain ⟨hpos, hn, _, hlen, _⟩ := run_emit_bounds hr
      exact ih (by simp; omega)
    · rename_i hne; exact hne _ _ _ _

end Staged
