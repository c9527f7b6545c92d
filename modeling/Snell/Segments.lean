/-
Streams of messages cut into segments.

A message is an item, some symbols, or a stop, which closes a segment. Cutting
a stream gives the segments that are closed, each its items put together, and
the one that is open (`cut`). Of a front of a stream the closed segments are
those of the stream, and every segment is a front of the stream's
(`cut_front`): where a segment ends does not depend on what follows.
-/
import Mathlib.Data.List.Basic

namespace Segments

variable {α : Type}

inductive Msg (α : Type) where
  | item (content : List α)
  | stop

/-- The segments of a stream so far. -/
structure Cut (α : Type) where
  closed : List (List α)
  current : List α

namespace Cut

def step (s : Cut α) : Msg α → Cut α
  | .item content => { s with current := s.current ++ content }
  | .stop => ⟨s.closed ++ [s.current], []⟩

/-- All segments, the open one last. -/
def all (s : Cut α) : List (List α) := s.closed ++ [s.current]

/-- The `i`-th segment; empty where there is none yet. -/
def segment (s : Cut α) (i : Nat) : List α := s.all.getD i []

/-- As far as `s` goes, `s'` is the same. -/
structure Front (s s' : Cut α) : Prop where
  closed : s.closed <+: s'.closed
  current : s.current <+: s'.segment s.closed.length

/-- The `i`-th segment is the same, and closed if it was. -/
structure Same (s s' : Cut α) (i : Nat) : Prop where
  segment : s'.segment i = s.segment i
  closed : i < s'.closed.length ↔ i < s.closed.length

variable {s s' s'' : Cut α} {i : Nat}

@[simp] theorem segment_current (s : Cut α) : s.segment s.closed.length = s.current := by
  simp [segment, all]

theorem segment_closed (h : i < s.closed.length) : s.segment i = s.closed.getD i [] := by
  simp [segment, all, List.getElem?_append_left h]

theorem segment_beyond (h : s.closed.length < i) : s.segment i = [] := by
  have hlen : s.all.length ≤ i := by
    rw [all, List.length_append, List.length_singleton]
    exact h
  rw [segment, List.getD_eq_getElem?_getD, List.getElem?_eq_none hlen, Option.getD_none]

theorem Front.refl (s : Cut α) : Front s s := ⟨List.prefix_refl _, by simp⟩

theorem Front.length_le (h : Front s s') : s.closed.length ≤ s'.closed.length := h.closed.length_le

/-- A closed segment is the same. -/
theorem Front.same (h : Front s s') (hi : i < s.closed.length) : Same s s' i := by
  obtain ⟨cs, hcs⟩ := h.closed
  have hlen : s'.closed.length = s.closed.length + cs.length := by rw [← hcs, List.length_append]
  refine ⟨?_, by omega⟩
  rw [segment_closed hi, segment_closed (by omega), ← hcs]
  simp [List.getElem?_append_left hi]

/-- Every segment is a front of the one it becomes. -/
theorem Front.segment (h : Front s s') (i : Nat) : s.segment i <+: s'.segment i := by
  rcases Nat.lt_trichotomy i s.closed.length with hlt | rfl | hgt
  · exact ⟨[], by rw [List.append_nil, (h.same hlt).segment]⟩
  · rw [segment_current]
    exact h.current
  · rw [segment_beyond hgt]
    exact List.nil_prefix

theorem Front.trans (h : Front s s') (h' : Front s' s'') : Front s s'' :=
  ⟨h.closed.trans h'.closed, h.current.trans (h'.segment _)⟩

/-! ## The open segment grows -/

/-- More of the open segment, and whether that was all. -/
def grown (s : Cut α) (more : List α) (ended : Bool) : Cut α :=
  if ended then ⟨s.closed ++ [s.current ++ more], []⟩ else ⟨s.closed, s.current ++ more⟩

@[simp] theorem grown_nil (s : Cut α) : s.grown [] false = s := by simp [grown]

theorem length_grown (s : Cut α) (more : List α) (ended : Bool) :
    (s.grown more ended).closed.length = s.closed.length + ended.toNat := by
  cases ended <;> simp [grown]

@[simp] theorem segment_grown (s : Cut α) (more : List α) (ended : Bool) :
    (s.grown more ended).segment s.closed.length = s.current ++ more := by
  cases ended with
  | false => exact segment_current _
  | true =>
    rw [segment_closed (by simp [grown])]
    simp [grown]

/-- The other segments are the same. -/
theorem grown_same (s : Cut α) (more : List α) (ended : Bool) (hi : i ≠ s.closed.length) :
    Same s (s.grown more ended) i := by
  have hlen := length_grown s more ended
  have hle := Bool.toNat_le ended
  rcases Nat.lt_or_gt_of_ne hi with hlt | hgt
  · refine ⟨?_, by omega⟩
    rw [segment_closed hlt, segment_closed (by omega)]
    cases ended <;> simp [grown, List.getElem?_append_left hlt]
  · refine ⟨?_, by omega⟩
    rw [segment_beyond hgt]
    rcases Nat.lt_or_eq_of_le (show s.closed.length + ended.toNat ≤ i by omega) with hlt | rfl
    · exact segment_beyond (by omega)
    · rw [← hlen, segment_current]
      cases ended with
      | false => simp at hi
      | true => rfl

theorem front_grown (s : Cut α) (more : List α) (ended : Bool) : Front s (s.grown more ended) := by
  refine ⟨?_, by rw [segment_grown]; exact List.prefix_append _ _⟩
  cases ended with
  | false => exact List.prefix_refl _
  | true => exact List.prefix_append _ _

theorem front_step (s : Cut α) (m : Msg α) : Front s (s.step m) := by
  cases m with
  | item content => exact front_grown s content false
  | stop =>
    have h := front_grown s [] true
    rwa [show s.grown [] true = s.step .stop by simp [grown, step]] at h

end Cut

open Cut

/-- The messages behind those of `s`. -/
def cutFrom (s : Cut α) (ms : List (Msg α)) : Cut α := ms.foldl step s

def cut (ms : List (Msg α)) : Cut α := cutFrom ⟨[], []⟩ ms

@[simp] theorem cut_nil : cut ([] : List (Msg α)) = ⟨[], []⟩ := rfl

@[simp] theorem cutFrom_nil (s : Cut α) : cutFrom s [] = s := rfl

@[simp] theorem cutFrom_cons (s : Cut α) (m : Msg α) (ms : List (Msg α)) :
    cutFrom s (m :: ms) = cutFrom (s.step m) ms := rfl

theorem cutFrom_append (s : Cut α) (ms ms' : List (Msg α)) : cutFrom s (ms ++ ms') = cutFrom (cutFrom s ms) ms' :=
  List.foldl_append

theorem cut_append (ms ms' : List (Msg α)) : cut (ms ++ ms') = cutFrom (cut ms) ms' := cutFrom_append _ ms ms'

theorem front_cutFrom (s : Cut α) (ms : List (Msg α)) : Front s (cutFrom s ms) := by
  induction ms generalizing s with
  | nil => exact .refl s
  | cons m ms ih => exact (front_step s m).trans (ih (s.step m))

theorem cut_front {ms ms' : List (Msg α)} (h : ms <+: ms') : Front (cut ms) (cut ms') := by
  obtain ⟨later, rfl⟩ := h
  rw [cut_append]
  exact front_cutFrom _ later

end Segments
