/-
Futures whose body is a loop.

A turn of the loop goes on, waits, or returns; a poll makes turns until one
does not go on, and a future is polled again each time it waited. Two rules: what the
turns of one poll come to, by an invariant and a measure that every turn which
goes on lowers, and what any number of polls come to.
-/
import Mathlib.Logic.Relation

namespace Polling

variable {σ ρ : Type}

inductive Turn (σ ρ : Type) where
  | again (s : σ)
  | pending (s : σ)
  | ready (r : ρ) (s : σ)

/-- What holds of the three ways a turn may come out. -/
def Turn.Leads (again pending : σ → Prop) (ready : ρ → σ → Prop) : Turn σ ρ → Prop
  | .again s => again s
  | .pending s => pending s
  | .ready r s => ready r s

theorem Turn.Leads.imp {again again' pending pending' : σ → Prop} {ready ready' : ρ → σ → Prop} {t : Turn σ ρ}
    (h : t.Leads again pending ready) (ha : ∀ s, again s → again' s) (hp : ∀ s, pending s → pending' s)
    (hr : ∀ r s, ready r s → ready' r s) : t.Leads again' pending' ready' := by
  cases t with
  | again s => exact ha s h
  | pending s => exact hp s h
  | ready r s => exact hr r s h

/-- One thing until it returns, and then another. -/
abbrev Turn.Until (going : σ → Prop) (ready : ρ → σ → Prop) (t : Turn σ ρ) : Prop := t.Leads going going ready

theorem Turn.Until.imp {going going' : σ → Prop} {ready ready' : ρ → σ → Prop} {t : Turn σ ρ} (h : t.Until going ready)
    (hg : ∀ s, going s → going' s) (hr : ∀ r s, ready r s → ready' r s) : t.Until going' ready' :=
  Turn.Leads.imp h hg hg hr

/-- However it comes out. -/
abbrev Turn.Keeps (P : σ → Prop) (t : Turn σ ρ) : Prop := t.Until P fun _ => P

theorem Turn.Keeps.imp {P Q : σ → Prop} {t : Turn σ ρ} (h : t.Keeps P) (hpq : ∀ s, P s → Q s) : t.Keeps Q :=
  Turn.Until.imp h hpq fun _ => hpq

/-- The same turn of a future that is part of a larger state. -/
def Turn.map {τ : Type} (f : σ → τ) : Turn σ ρ → Turn τ ρ
  | .again s => .again (f s)
  | .pending s => .pending (f s)
  | .ready r s => .ready r (f s)

theorem Turn.Leads.map {τ : Type} {f : σ → τ} {again pending : τ → Prop} {ready : ρ → τ → Prop} {t : Turn σ ρ}
    (h : t.Leads (fun s => again (f s)) (fun s => pending (f s)) fun r s => ready r (f s)) :
    (t.map f).Leads again pending ready := by
  cases t with
  | again s | pending s | ready r s => exact h

/-- A turn that does not return. -/
def Moves (turn : σ → Turn σ ρ) (s s' : σ) : Prop := turn s = .again s' ∨ turn s = .pending s'

/-- Any number of them. -/
def MovesTo (turn : σ → Turn σ ρ) : σ → σ → Prop := Relation.ReflTransGen (Moves turn)

/-- One poll, of at most `fuel` turns; it comes out `again` if they do not do. -/
def poll (turn : σ → Turn σ ρ) : (fuel : Nat) → σ → Turn σ ρ
  | 0, s => .again s
  | fuel + 1, s =>
    match turn s with
    | .again s => poll turn fuel s
    | .pending s => .pending s
    | .ready r s => .ready r s

/-- At most `n` polls. -/
def polls (poll : σ → Turn σ ρ) : (n : Nat) → σ → Turn σ ρ
  | 0, s => .pending s
  | n + 1, s =>
    match poll s with
    | .again s => .again s
    | .pending s => polls poll n s
    | .ready r s => .ready r s

theorem poll_leads {turn : σ → Turn σ ρ} {I P : σ → Prop} {R : ρ → σ → Prop} {μ : σ → Nat}
    (hturn : ∀ s, I s → (turn s).Leads (fun s' => I s' ∧ μ s' < μ s) P R) {fuel : Nat} {s : σ} (hs : I s)
    (hfuel : μ s < fuel) : (poll turn fuel s).Leads (fun _ => False) P R := by
  induction fuel generalizing s with
  | zero => omega
  | succ fuel ih =>
    have h := hturn s hs
    unfold poll
    cases hr : turn s with
    | again s' =>
      rw [hr] at h
      exact ih h.1 (by have := h.2; omega)
    | pending s' => rw [hr] at h; exact h
    | ready r s' => rw [hr] at h; exact h

/-- What every turn keeps, a poll keeps, however it comes out. -/
theorem poll_keeps {turn : σ → Turn σ ρ} {I : σ → Prop} (hturn : ∀ s, I s → (turn s).Keeps I) (fuel : Nat) {s : σ}
    (hs : I s) : (poll turn fuel s).Keeps I := by
  induction fuel generalizing s with
  | zero => exact hs
  | succ fuel ih =>
    have h := hturn s hs
    unfold poll
    cases hr : turn s with
    | again s' =>
      rw [hr] at h
      exact ih h
    | pending s' => rw [hr] at h; exact h
    | ready r s' => rw [hr] at h; exact h

theorem polls_leads {poll : σ → Turn σ ρ} {I : σ → Prop} {R : ρ → σ → Prop}
    (hpoll : ∀ s, I s → (poll s).Leads (fun _ => False) I R) (n : Nat) {s : σ} (hs : I s) :
    (polls poll n s).Leads (fun _ => False) I R := by
  induction n generalizing s with
  | zero => exact hs
  | succ n ih =>
    have h := hpoll s hs
    unfold polls
    cases hr : poll s with
    | again s' => rw [hr] at h; exact h.elim
    | pending s' => rw [hr] at h; exact ih h
    | ready r s' => rw [hr] at h; exact h

end Polling
