/-
Runs of a machine whose calls return events.

A call that does not return ends the run. Five rules: an invariant that every
step keeps holds after a run; what a run brings about, one of its steps does;
a run of the machine is a run of any abstraction
its steps follow; a run whose steps meet a condition does only what the
condition allows; and the steps that some relation cannot tell from doing
nothing can be erased from a run without changing the rest of it.
-/
import Mathlib.Data.List.Basic

namespace Runs

structure Machine (S Op Ev : Type) where
  step : S → Op → Ev × S
  returns : Ev → Bool

namespace Machine

variable {S T G Op Ev : Type} (M : Machine S Op Ev)

/-- The calls that returned, with their events, and the state after. -/
def run (s : S) : List Op → List (Op × Ev) × S
  | [] => ([], s)
  | op :: ops =>
    if M.returns (M.step s op).1 then
      ((op, (M.step s op).1) :: (run (M.step s op).2 ops).1, (run (M.step s op).2 ops).2)
    else ([], s)

variable {M} {s : S} {op : Op} {ops : List Op}

@[simp] theorem run_nil : M.run s [] = ([], s) := rfl

theorem run_cons (h : M.returns (M.step s op).1 = true) :
    M.run s (op :: ops) = ((op, (M.step s op).1) :: (M.run (M.step s op).2 ops).1, (M.run (M.step s op).2 ops).2) := by
  rw [run, if_pos h]

theorem run_stopped (h : ¬ M.returns (M.step s op).1 = true) : M.run s (op :: ops) = ([], s) := by
  rw [run, if_neg h]

/-! ## Invariants -/

theorem run_invariant (M : Machine S Op Ev) (Inv : S → Prop)
    (hstep : ∀ s op, Inv s → M.returns (M.step s op).1 = true → Inv (M.step s op).2) (ops : List Op) {s : S} (h : Inv s) :
    Inv (M.run s ops).2 := by
  induction ops generalizing s with
  | nil => exact h
  | cons op ops ih =>
    by_cases hret : M.returns (M.step s op).1 = true
    · rw [run_cons hret]; exact ih (hstep s op h hret)
    · rw [run_stopped hret]; exact h

/-- What holds after a run and did not before it was brought about by one of
its steps. -/
theorem run_became (M : Machine S Op Ev) (P : S → Prop) (ops : List Op) {s : S} (h : ¬ P s) (h' : P (M.run s ops).2) :
    ∃ ops₁ op ops₂, ops = ops₁ ++ op :: ops₂ ∧ M.returns (M.step (M.run s ops₁).2 op).1 = true ∧
      ¬ P (M.run s ops₁).2 ∧ P (M.step (M.run s ops₁).2 op).2 := by
  induction ops generalizing s with
  | nil => exact absurd h' h
  | cons op ops ih =>
    by_cases hret : M.returns (M.step s op).1 = true
    · by_cases hp : P (M.step s op).2
      · exact ⟨[], op, ops, rfl, hret, h, hp⟩
      · rw [run_cons hret] at h'
        obtain ⟨ops₁, op', ops₂, rfl, hret', hn, hp'⟩ := ih hp h'
        refine ⟨op :: ops₁, op', ops₂, rfl, ?_⟩
        rw [run_cons hret]
        exact ⟨hret', hn, hp'⟩
    · rw [run_stopped hret] at h'
      exact absurd h' h

/-! ## Refinement -/

/-- Steps that commute with a map of the states make runs that do. -/
theorem run_map (M : Machine S Op Ev) (M' : Machine T Op Ev) (f : S → T) (hret : M'.returns = M.returns)
    (hstep : ∀ s op, M'.step (f s) op = ((M.step s op).1, f (M.step s op).2)) (ops : List Op) (s : S) :
    M'.run (f s) ops = ((M.run s ops).1, f (M.run s ops).2) := by
  induction ops generalizing s with
  | nil => rfl
  | cons op ops ih =>
    have h := hstep s op
    by_cases hr : M.returns (M.step s op).1 = true
    · rw [run_cons hr, run_cons (by rw [hret, h]; exact hr), h, ih]
    · rw [run_stopped hr, run_stopped (by rw [hret, h]; exact hr)]

/-- A run of an abstract step relation. -/
inductive AbstractRun (A : T → Op → Ev → T → Prop) : T → List (Op × Ev) → T → Prop
  | nil {t} : AbstractRun A t [] t
  | cons {t t' t'' op event trace} : A t op event t' → AbstractRun A t' trace t'' →
      AbstractRun A t ((op, event) :: trace) t''

theorem run_refines (M : Machine S Op Ev) (A : T → Op → Ev → T → Prop) (Abs : S → T → Prop)
    (hstep : ∀ s t op, Abs s t → M.returns (M.step s op).1 = true →
      ∃ t', A t op (M.step s op).1 t' ∧ Abs (M.step s op).2 t') (ops : List Op) {s : S} {t : T} (h : Abs s t) :
    ∃ t', AbstractRun A t (M.run s ops).1 t' ∧ Abs (M.run s ops).2 t' := by
  induction ops generalizing s t with
  | nil => exact ⟨t, .nil, h⟩
  | cons op ops ih =>
    by_cases hret : M.returns (M.step s op).1 = true
    · obtain ⟨t₁, ha, h₁⟩ := hstep s t op h hret
      obtain ⟨t', hrun, h'⟩ := ih h₁
      rw [run_cons hret]
      exact ⟨t', .cons ha hrun, h'⟩
    · rw [run_stopped hret]; exact ⟨t, .nil, h⟩

/-! ## Runs under a condition -/

/-- A condition on each step of a trace, with a ghost state that follows it. -/
def Meets (Ok : G → Op → Ev → Prop) (next : G → Op → Ev → G) : G → List (Op × Ev) → Prop
  | _, [] => True
  | g, (op, event) :: trace => Ok g op event ∧ Meets Ok next (next g op event) trace

instance Meets.decidable (Ok : G → Op → Ev → Prop) (next : G → Op → Ev → G) [∀ g op event, Decidable (Ok g op event)] :
    ∀ g trace, Decidable (Meets Ok next g trace)
  | _, [] => isTrue trivial
  | g, (op, event) :: trace =>
    have := decidable Ok next (next g op event) trace
    inferInstanceAs (Decidable (Ok g op event ∧ Meets Ok next (next g op event) trace))

theorem Meets.of_forall {Ok : G → Op → Ev → Prop} {next : G → Op → Ev → G} (h : ∀ g op event, Ok g op event) (g : G)
    (trace : List (Op × Ev)) : Meets Ok next g trace := by
  induction trace generalizing g with
  | nil => trivial
  | cons step trace ih => exact ⟨h g step.1 step.2, ih _⟩

/-- Along a trace that meets its condition, every step is good if the condition
makes it so where an invariant holds that it keeps. -/
theorem run_meets (M : Machine S Op Ev) (Good : Op → Ev → Prop) {Ok : G → Op → Ev → Prop} {next : G → Op → Ev → G}
    {Inv : G → S → Prop}
    (hstep : ∀ g s op, Inv g s → Ok g op (M.step s op).1 →
      Good op (M.step s op).1 ∧ Inv (next g op (M.step s op).1) (M.step s op).2)
    (ops : List Op) {g : G} {s : S} (h : Inv g s) (hok : Meets Ok next g (M.run s ops).1) :
    ∀ x ∈ (M.run s ops).1, Good x.1 x.2 := by
  induction ops generalizing g s with
  | nil => intro x hx; cases hx
  | cons op ops ih =>
    by_cases hret : M.returns (M.step s op).1 = true
    · rw [run_cons hret] at hok ⊢
      obtain ⟨hgood, hinv⟩ := hstep g s op h hok.1
      intro x hx
      rcases List.mem_cons.mp hx with rfl | hx
      · exact hgood
      · exact ih hinv hok.2 x hx
    · rw [run_stopped hret]; intro x hx; cases hx

/-- The same of a run, where the condition and the ghost state may also look at
the state a step is made in. -/
def MeetsFrom (M : Machine S Op Ev) (Ok : G → S → Op → Ev → Prop) (next : G → S → Op → Ev → G) : G → S → List Op → Prop
  | _, _, [] => True
  | g, s, op :: ops =>
    M.returns (M.step s op).1 = true →
      Ok g s op (M.step s op).1 ∧ M.MeetsFrom Ok next (next g s op (M.step s op).1) (M.step s op).2 ops

theorem MeetsFrom.of_forall {Ok : G → S → Op → Ev → Prop} {next : G → S → Op → Ev → G}
    (h : ∀ g s op event, Ok g s op event) (g : G) (s : S) (ops : List Op) : M.MeetsFrom Ok next g s ops := by
  induction ops generalizing g s with
  | nil => trivial
  | cons op ops ih => exact fun _ => ⟨h g s op _, ih _ _⟩

/-! ## Erasing steps -/

/-- The steps of a run that are not hidden. -/
def visible (hidden : Ev → Bool) (trace : List (Op × Ev)) : List (Op × Ev) := trace.filter fun s => !hidden s.2

/-- **Erasing the hidden steps.** Let `R` relate the states of a run to those
of the run without its hidden steps: a hidden step on the left keeps it, and
any other step returns the same event on both sides. Then what is left of the
run is what the calls that are left return. -/
theorem run_erased (M : Machine S Op Ev) {hidden : Ev → Bool} (R : G → S → S → Prop) {Ok : G → S → Op → Ev → Prop}
    {next : G → S → Op → Ev → G} {Legal : Op → Prop}
    (hhidden : ∀ g s t op, Legal op → R g s t → M.returns (M.step s op).1 = true → hidden (M.step s op).1 = true →
      Ok g s op (M.step s op).1 → R (next g s op (M.step s op).1) (M.step s op).2 t)
    (hvisible : ∀ g s t op, Legal op → R g s t → M.returns (M.step s op).1 = true → hidden (M.step s op).1 = false →
      Ok g s op (M.step s op).1 →
      (M.step t op).1 = (M.step s op).1 ∧ R (next g s op (M.step s op).1) (M.step s op).2 (M.step t op).2)
    (ops : List Op) (hlegal : ∀ op ∈ ops, Legal op) {g : G} {s t : S} (h : R g s t)
    (hok : M.MeetsFrom Ok next g s ops) :
    (M.run t ((visible hidden (M.run s ops).1).map Prod.fst)).1 = visible hidden (M.run s ops).1 ∧
      ∃ g', R g' (M.run s ops).2 (M.run t ((visible hidden (M.run s ops).1).map Prod.fst)).2 := by
  induction ops generalizing g s t with
  | nil => exact ⟨rfl, g, h⟩
  | cons op ops ih =>
    have hop := hlegal op List.mem_cons_self
    have hops : ∀ op ∈ ops, Legal op := fun op hm => hlegal op (List.mem_cons_of_mem _ hm)
    by_cases hret : M.returns (M.step s op).1 = true
    · rw [run_cons hret]
      obtain ⟨hok₁, hok₂⟩ := hok hret
      cases hh : hidden (M.step s op).1 with
      | true =>
        have h₁ := hhidden g s t op hop h hret hh hok₁
        simp only [visible, List.filter_cons, hh, Bool.not_true, Bool.false_eq_true, ↓reduceIte]
        exact ih hops h₁ hok₂
      | false =>
        obtain ⟨hevent, h₁⟩ := hvisible g s t op hop h hret hh hok₁
        obtain ⟨hrun, hr⟩ := ih hops h₁ hok₂
        rw [← hevent] at hret
        simp only [visible, List.filter_cons, hh, Bool.not_false, ↓reduceIte, List.map_cons, run_cons hret, hevent]
        exact ⟨congrArg _ hrun, hr⟩
    · rw [run_stopped hret]; exact ⟨rfl, g, h⟩

end Machine

end Runs
