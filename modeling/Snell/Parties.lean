/-
Many parties around a shared state, one of them stepping at a time: any number
of them come, and their steps interleave in any order.

What the parties hold of a resource is a sum over them (`held`). A step
changes one term of it (`held_set`), so a counter in the shared state that
moves with the party's own share follows the sum through every interleaving.
-/
import Mathlib
import Snell.Runs

namespace Parties

variable {σ π A B E : Type}

/-! ## What the parties hold -/

section Held

variable (share : π → Nat) {ps : List π} {p p' : π} {i : Nat}

def held (ps : List π) : Nat := (ps.map share).sum

@[simp] theorem held_nil : held share [] = 0 := rfl

theorem held_concat (ps : List π) (p : π) : held share (ps ++ [p]) = held share ps + share p := by
  simp [held]

theorem held_set (h : ps[i]? = some p) (p' : π) : held share (ps.set i p') + share p = held share ps + share p' := by
  induction ps generalizing i with
  | nil => cases h
  | cons q ps ih =>
    cases i with
    | zero =>
      obtain rfl : q = p := by simpa using h
      simp only [held, List.set_cons_zero, List.map_cons, List.sum_cons]
      omega
    | succ i =>
      have := ih (i := i) (by simpa using h)
      simp only [held, List.set_cons_succ, List.map_cons, List.sum_cons] at this ⊢
      omega

theorem held_eq_zero (h : ∀ p ∈ ps, share p = 0) : held share ps = 0 := by
  rw [held, List.sum_eq_zero]
  intro n hn
  obtain ⟨p, hp, rfl⟩ := List.mem_map.mp hn
  exact h p hp

/-- Those who hold one each are as many as are held. -/
theorem countP_le_held {q : π → Bool} (h : ∀ p, q p = true → 1 ≤ share p) (ps : List π) : ps.countP q ≤ held share ps := by
  induction ps with
  | nil => exact Nat.zero_le _
  | cons p ps ih =>
    simp only [held, List.countP_cons, List.map_cons, List.sum_cons] at ih ⊢
    split
    · next hq =>
      have := h p hq
      omega
    · omega

end Held

theorem forall_set {P : π → Prop} {ps : List π} {i : Nat} {p' : π} (h : ∀ p ∈ ps, P p) (h' : P p') :
    ∀ p ∈ ps.set i p', P p := by
  intro p hp
  rcases List.mem_or_eq_of_mem_set hp with hp | rfl
  · exact h p hp
  · exact h'

theorem forall_concat {P : π → Prop} {ps : List π} {p' : π} (h : ∀ p ∈ ps, P p) (h' : P p') : ∀ p ∈ ps ++ [p'], P p := by
  intro p hp
  rcases List.mem_append.mp hp with hp | hp
  · exact h p hp
  · rw [List.mem_singleton.mp hp]; exact h'

/-! ## The system -/

/-- How a party comes, and what one step of it does to the shared state and to
itself; `none` where it cannot take that step. -/
structure System (σ π A B E : Type) where
  enter : B → π
  step : σ → π → A → Option (E × σ × π)

structure World (σ π : Type) where
  shared : σ
  parties : List π

inductive Move (A B : Type) where
  | enter (b : B)
  | act (i : Nat) (a : A)

namespace System

variable (S : System σ π A B E)

/-- The party's step, if there is that party and it can take it. -/
def act (w : World σ π) (i : Nat) (a : A) : Option E × World σ π :=
  match w.parties[i]? with
  | none => (none, w)
  | some p =>
    match S.step w.shared p a with
    | none => (none, w)
    | some (e, shared, p') => (some e, ⟨shared, w.parties.set i p'⟩)

def move (w : World σ π) : Move A B → Option E × World σ π
  | .enter b => (none, { w with parties := w.parties ++ [S.enter b] })
  | .act i a => S.act w i a

def machine : Runs.Machine (World σ π) (Move A B) (Option E) where
  step := S.move
  returns _ := true

def run (w : World σ π) (moves : List (Move A B)) : World σ π := (S.machine.run w moves).2

variable {S}

theorem act_cases (w : World σ π) (i : Nat) (a : A) :
    S.act w i a = (none, w) ∨
      ∃ p e shared p', w.parties[i]? = some p ∧ S.step w.shared p a = some (e, shared, p') ∧
        S.act w i a = (some e, ⟨shared, w.parties.set i p'⟩) := by
  unfold act
  cases hp : w.parties[i]? with
  | none => exact .inl rfl
  | some p =>
    simp only
    rcases hs : S.step w.shared p a with _ | ⟨e, shared, p'⟩
    · exact .inl rfl
    · exact .inr ⟨p, e, shared, p', rfl, hs, rfl⟩

theorem act_of_step {w : World σ π} {i : Nat} {a : A} {p p' : π} {e : E} {shared : σ} (hp : w.parties[i]? = some p)
    (hs : S.step w.shared p a = some (e, shared, p')) : S.act w i a = (some e, ⟨shared, w.parties.set i p'⟩) := by
  simp only [act, hp, hs]

theorem run_cons (w : World σ π) (m : Move A B) (moves : List (Move A B)) :
    S.run w (m :: moves) = S.run (S.move w m).2 moves := by
  rw [run, Runs.Machine.run_cons (by rfl)]
  rfl

theorem run_concat (w : World σ π) (moves : List (Move A B)) (m : Move A B) :
    S.run w (moves ++ [m]) = (S.move (S.run w moves) m).2 := by
  induction moves generalizing w with
  | nil => exact run_cons w m []
  | cons m' moves ih => rw [List.cons_append, run_cons, ih, run_cons]

/-- **The invariant rule**: what newcomers and steps keep holds after any
interleaving. -/
theorem run_invariant (Inv : World σ π → Prop)
    (henter : ∀ w b, Inv w → Inv { w with parties := w.parties ++ [S.enter b] })
    (hstep : ∀ w i a p e shared p', Inv w → w.parties[i]? = some p → S.step w.shared p a = some (e, shared, p') →
      Inv ⟨shared, w.parties.set i p'⟩) (moves : List (Move A B)) {w : World σ π} (h : Inv w) : Inv (S.run w moves) := by
  refine S.machine.run_invariant Inv ?_ moves h
  intro w m hw _
  cases m with
  | enter b => exact henter w b hw
  | act i a =>
    show Inv (S.act w i a).2
    obtain heq | ⟨p, e, shared, p', hp, hs, heq⟩ := S.act_cases w i a
    · rw [heq]; exact hw
    · rw [heq]; exact hstep w i a p e shared p' hw hp hs

/-- Every event is good if steps from where the invariant holds return good ones. -/
theorem run_events (Inv : World σ π → Prop) (Good : E → Prop)
    (henter : ∀ w b, Inv w → Inv { w with parties := w.parties ++ [S.enter b] })
    (hstep : ∀ w i a p e shared p', Inv w → w.parties[i]? = some p → S.step w.shared p a = some (e, shared, p') →
      Good e ∧ Inv ⟨shared, w.parties.set i p'⟩) (moves : List (Move A B)) {w : World σ π} (h : Inv w) :
    ∀ x ∈ (S.machine.run w moves).1, ∀ e, x.2 = some e → Good e := by
  have hmove : ∀ (_ : Unit) w m, Inv w → True → (∀ e, (S.move w m).1 = some e → Good e) ∧ Inv (S.move w m).2 := by
    intro _ w m hw _
    cases m with
    | enter b => exact ⟨fun e he => (by cases he), henter w b hw⟩
    | act i a =>
      show (∀ e, (S.act w i a).1 = some e → Good e) ∧ Inv (S.act w i a).2
      obtain heq | ⟨p, e, shared, p', hp, hs, heq⟩ := S.act_cases w i a
      · rw [heq]; exact ⟨fun e he => (by cases he), hw⟩
      · rw [heq]
        obtain ⟨hgood, hinv⟩ := hstep w i a p e shared p' hw hp hs
        refine ⟨fun e' he => ?_, hinv⟩
        cases he
        exact hgood
  have hmeets : Runs.Machine.Meets (fun _ _ _ => True) (fun _ _ _ => ()) () (S.machine.run w moves).1 :=
    .of_forall (fun _ _ _ => trivial) () _
  exact S.machine.run_meets (fun _ event => ∀ e, event = some e → Good e) hmove moves h hmeets

/-- What one move makes true of a party, that party's step does, unless it is
true of newcomers. -/
theorem move_became (P : π → Prop) (henter : ∀ b, ¬ P (S.enter b)) {w : World σ π} {m : Move A B} {i : Nat}
    (h : ¬ ∃ p, w.parties[i]? = some p ∧ P p) (h' : ∃ p, (S.move w m).2.parties[i]? = some p ∧ P p) :
    ∃ a p e shared p', m = .act i a ∧ w.parties[i]? = some p ∧ ¬ P p ∧ S.step w.shared p a = some (e, shared, p') ∧
      P p' := by
  obtain ⟨p', hp', hP⟩ := h'
  cases m with
  | enter b =>
    -- a newcomer does not have it, and nobody else changed
    exfalso
    simp only [move] at hp'
    by_cases hi : i < w.parties.length
    · rw [List.getElem?_append_left hi] at hp'
      exact h ⟨p', hp', hP⟩
    · rw [List.getElem?_append_right (by omega)] at hp'
      have hmem : p' ∈ [S.enter b] := List.mem_of_getElem? hp'
      rw [List.mem_singleton.mp hmem] at hP
      exact henter b hP
  | act j a =>
    obtain heq | ⟨p, e, shared, p'', hp, hs, heq⟩ := S.act_cases w j a
    · simp only [move, heq] at hp'
      exact absurd ⟨p', hp', hP⟩ h
    · simp only [move, heq] at hp'
      by_cases hij : j = i
      · subst hij
        rw [List.getElem?_set_self (List.getElem?_eq_some_iff.mp hp).1] at hp'
        obtain rfl := Option.some.inj hp'
        exact ⟨a, p, e, shared, p'', rfl, hp, fun hP' => h ⟨p, hp, hP'⟩, hs, hP⟩
      · rw [List.getElem?_set_ne hij] at hp'
        exact absurd ⟨p', hp', hP⟩ h

/-- **What is true of a party after a run**, and of no newcomer, one of its
steps made so. -/
theorem party_became (P : π → Prop) (henter : ∀ b, ¬ P (S.enter b)) (moves : List (Move A B)) {shared₀ : σ} {i : Nat}
    {q : π} (hq : (S.run ⟨shared₀, []⟩ moves).parties[i]? = some q) (hP : P q) :
    ∃ moves₁ a moves₂ p e shared p', moves = moves₁ ++ .act i a :: moves₂ ∧
      (S.run ⟨shared₀, []⟩ moves₁).parties[i]? = some p ∧ ¬ P p ∧
      S.step (S.run ⟨shared₀, []⟩ moves₁).shared p a = some (e, shared, p') ∧ P p' := by
  have hbefore : ¬ ∃ p, (⟨shared₀, []⟩ : World σ π).parties[i]? = some p ∧ P p := by
    rintro ⟨p, hp, -⟩
    cases hp
  obtain ⟨moves₁, m, moves₂, rfl, -, hn, hp'⟩ :=
    S.machine.run_became (fun w => ∃ p, w.parties[i]? = some p ∧ P p) moves hbefore ⟨q, hq, hP⟩
  obtain ⟨a, p, e, shared, p', rfl, hp, hnp, hs, hP'⟩ := S.move_became P henter hn hp'
  exact ⟨moves₁, a, moves₂, p, e, shared, p', rfl, hp, hnp, hs, hP'⟩

end System

end Parties
