/-
Writing to a socket poll by poll: the writer answers each poll with the bytes
it took, with an error, or with `Pending`. `Unwritten` of
`snell-runtime/src/session.rs` gathers the parts of a batch that are not
written yet; the loop around it (`writeParts`) ends when none is left.

Whatever the writer does, what it was given is the parts in their order, each
byte once (`writeParts_sent`), and the loop waits only where the writer does
(`writePartsLoop_waited`).
-/
import Snell.Base
import Snell.SessionError

namespace Snell

/-- `Poll` -/
inductive Polled (α : Type) where
  | pending
  | ready (a : α)
  deriving DecidableEq

/-- What a poll for writing comes to. A writer takes at most what it is
offered. -/
inductive WriteAnswer where
  | pending
  | failed (kind : IoErrorKind)
  | took (n : Nat)
  deriving DecidableEq, Repr

/-- Neither an error nor an empty write. -/
def WriteAnswer.Good : WriteAnswer → Prop
  | .pending => True
  | .failed _ => False
  | .took n => 0 < n

/-- What was written so far, and the answers to come; after the last one the
writer stays pending. -/
structure Writer where
  sent : Bytes
  answers : List WriteAnswer

/-- `poll_write` of one slice, or `poll_write_vectored` of several put
together. -/
def Writer.poll (w : Writer) (offered : Bytes) : Polled (Except IoErrorKind Nat) × Writer :=
  match w.answers with
  | [] => (.pending, w)
  | .pending :: answers => (.pending, { w with answers })
  | .failed kind :: answers => (.ready (.error kind), { w with answers })
  | .took n :: answers =>
    (.ready (.ok (min n offered.length)), ⟨w.sent ++ offered.take (min n offered.length), answers⟩)

/-! ## A batch's bytes not yet written -/

/-- `Unwritten`: the slices gathered, and how much is still to be skipped. -/
structure Unwritten where
  slices : List Bytes
  skip : Nat

namespace Unwritten

def new (written : Nat) : Unwritten := ⟨[], written⟩

/-- Add the batch's next part; there is room for `room` slices. -/
def push (room : Nat) (u : Unwritten) (part : Bytes) : Res Unwritten :=
  if part.length ≤ u.skip then .ok { u with skip := u.skip - part.length }
  else if u.slices.length < room then .ok ⟨u.slices ++ [part.drop u.skip], 0⟩
  else .error .panic

/-- Write once. Returns how much was written, 0 only when nothing is left; a
zero-length write is an error, never progress. -/
def pollWrite (u : Unwritten) (w : Writer) : Polled (SessionRes Nat) × Writer :=
  match u.slices with
  | [] => (.ready (.ok 0), w)
  | slices =>
    match w.poll slices.flatten with
    | (.pending, w) => (.pending, w)
    | (.ready (.error kind), w) => (.ready (.error (.err (.io kind))), w)
    | (.ready (.ok n), w) =>
      if n = 0 then (.ready (.error (.err (.io .writeZero))), w) else (.ready (.ok n), w)

/-- `push` of each part in turn. -/
def gather (room : Nat) (u : Unwritten) (parts : List Bytes) : Res Unwritten := parts.foldlM (push room) u

/-- What is gathered is what is left of the parts after the first `skip`
bytes; no slice is empty. -/
theorem gather_ok {room : Nat} (parts : List Bytes) {u : Unwritten} (hroom : u.slices.length + parts.length ≤ room)
    (hskip : u.slices ≠ [] → u.skip = 0) :
    ∃ u', gather room u parts = .ok u' ∧ u'.slices.flatten = u.slices.flatten ++ parts.flatten.drop u.skip ∧
      ((∀ s ∈ u.slices, s ≠ []) → ∀ s ∈ u'.slices, s ≠ []) := by
  induction parts generalizing u with
  | nil => exact ⟨u, rfl, by simp, fun h => h⟩
  | cons part parts ih =>
    rw [List.length_cons] at hroom
    by_cases hpart : part.length ≤ u.skip
    · -- the part was written already
      have hpush : push room u part = .ok { u with skip := u.skip - part.length } := if_pos hpart
      obtain ⟨u', hu', hflat, hne⟩ := ih (u := { u with skip := u.skip - part.length }) (by simp only; omega)
        (fun h => by have := hskip h; simp only; omega)
      refine ⟨u', ?_, ?_, hne⟩
      · simp only [gather, List.foldlM_cons, hpush, bind, Except.bind] at hu' ⊢
        exact hu'
      · rw [hflat, List.flatten_cons, List.drop_append, List.drop_eq_nil_of_le hpart, List.nil_append]
    · have hpush : push room u part = .ok ⟨u.slices ++ [part.drop u.skip], 0⟩ := by
        rw [push, if_neg hpart, if_pos (by omega)]
      obtain ⟨u', hu', hflat, hne⟩ := ih (u := ⟨u.slices ++ [part.drop u.skip], 0⟩)
        (by simp only [List.length_append, List.length_cons, List.length_nil]; omega) (fun _ => rfl)
      refine ⟨u', ?_, ?_, fun h => hne fun s hs => ?_⟩
      · simp only [gather, List.foldlM_cons, hpush, bind, Except.bind] at hu' ⊢
        exact hu'
      · have hdrop : (part ++ parts.flatten).drop u.skip = part.drop u.skip ++ parts.flatten := by
          rw [List.drop_append, Nat.sub_eq_zero_of_le (by omega), List.drop_zero]
        rw [hflat, List.flatten_append, List.flatten_singleton, List.drop_zero, List.append_assoc,
          List.flatten_cons, hdrop]
      · simp only [List.mem_append, List.mem_singleton] at hs
        rcases hs with hs | rfl
        · exact h s hs
        · intro hnil
          have := List.drop_eq_nil_iff.mp hnil
          omega

theorem gather_new {room : Nat} {parts : List Bytes} (hroom : parts.length ≤ room) (written : Nat) :
    ∃ u, gather room (.new written) parts = .ok u ∧ u.slices.flatten = parts.flatten.drop written ∧
      ∀ s ∈ u.slices, s ≠ [] := by
  obtain ⟨u, hu, hflat, hne⟩ := gather_ok (u := .new written) parts
    (show 0 + parts.length ≤ room by omega) (fun h => absurd rfl h)
  exact ⟨u, hu, hflat, hne fun s hs => by cases hs⟩

end Unwritten

/-! ## Writing all of it -/

/-- The loop of a batch's `poll_write`: gather, write once, count what was
written. Every turn but the last uses up an answer, so one more turn than
there are answers is enough. -/
def writePartsLoop (room : Nat) (parts : List Bytes) : Nat → Nat → Writer → Polled (SessionRes Unit) × Nat × Writer
  | 0, written, w => (.ready (.error .diverged), written, w)
  | fuel + 1, written, w =>
    match Unwritten.gather room (.new written) parts with
    | .error f => (.ready (.error f.inSession), written, w)
    | .ok unwritten =>
      match unwritten.pollWrite w with
      | (.pending, w) => (.pending, written, w)
      | (.ready (.error f), w) => (.ready (.error f), written, w)
      | (.ready (.ok 0), w) => (.ready (.ok ()), written, w)
      | (.ready (.ok n), w) => writePartsLoop room parts fuel (written + n) w

def writeParts (room : Nat) (parts : List Bytes) (written : Nat) (w : Writer) :
    Polled (SessionRes Unit) × Nat × Writer :=
  writePartsLoop room parts (w.answers.length + 1) written w

/-- How a poll that took the count from `written` to `written'` ends: with all
of `parts` written, pending, or as the writer failed, and in the last two
cases with some of it left. It is pending because the writer was, or because
no answer is left and each of them was worth a byte. -/
inductive WriteEnding (parts : List Bytes) (written written' : Nat) (answers : List WriteAnswer) :
    Polled (SessionRes Unit) → Prop where
  | done (h : written' = parts.flatten.length) : WriteEnding parts written written' answers (.ready (.ok ()))
  | pending (h : written' < parts.flatten.length)
    (hp : .pending ∈ answers ∨ answers.length ≤ written' - written) :
    WriteEnding parts written written' answers .pending
  | failed (kind : IoErrorKind) (h : written' < parts.flatten.length) (ha : ∃ a ∈ answers, ¬ a.Good) :
    WriteEnding parts written written' answers (.ready (.error (.err (.io kind))))

/-- One poll of what is left. -/
theorem Unwritten.pollWrite_cases {u : Unwritten} (w : Writer) (hne : ∀ s ∈ u.slices, s ≠ []) :
    (u.slices.flatten = [] ∧ u.pollWrite w = (.ready (.ok 0), w)) ∨
    (u.slices.flatten ≠ [] ∧
      ((∃ answers, answers <:+ w.answers ∧ (.pending ∈ w.answers ∨ w.answers = []) ∧
        u.pollWrite w = (.pending, ⟨w.sent, answers⟩)) ∨
      (∃ a answers, w.answers = a :: answers ∧ ¬ a.Good ∧
        ∃ kind, u.pollWrite w = (.ready (.error (.err (.io kind))), ⟨w.sent, answers⟩)) ∨
      (∃ a answers n, w.answers = a :: answers ∧ n < u.slices.flatten.length ∧
        u.pollWrite w = (.ready (.ok (n + 1)), ⟨w.sent ++ u.slices.flatten.take (n + 1), answers⟩)))) := by
  obtain ⟨slices, skip⟩ := u
  cases slices with
  | nil => exact .inl ⟨rfl, rfl⟩
  | cons s ss =>
    have hs : s ≠ [] := hne s List.mem_cons_self
    have hflat : (s :: ss).flatten ≠ [] := by
      rw [List.flatten_cons]
      exact List.append_ne_nil_of_left_ne_nil hs _
    refine .inr ⟨hflat, ?_⟩
    obtain ⟨sent, answers⟩ := w
    cases answers with
    | nil => exact .inl ⟨[], List.suffix_refl _, .inr rfl, rfl⟩
    | cons a answers =>
      cases a with
      | pending => exact .inl ⟨answers, List.suffix_cons _ _, .inl List.mem_cons_self, rfl⟩
      | failed kind => exact .inr (.inl ⟨_, answers, rfl, id, kind, rfl⟩)
      | took n =>
        have hpos := List.length_pos_iff.mpr hflat
        rcases Nat.eq_zero_or_pos n with rfl | hn
        · refine .inr (.inl ⟨_, answers, rfl, Nat.lt_irrefl 0, .writeZero, ?_⟩)
          simp only [Unwritten.pollWrite, Writer.poll, Nat.zero_min, if_true, List.take_zero, List.append_nil]
        · obtain ⟨m, hm⟩ : ∃ m, min n (s :: ss).flatten.length = m + 1 := ⟨min n (s :: ss).flatten.length - 1, by omega⟩
          refine .inr (.inr ⟨_, answers, m, rfl, show m < (s :: ss).flatten.length by omega, ?_⟩)
          simp only [Unwritten.pollWrite, Writer.poll, hm, Nat.succ_ne_zero, if_false]

/-- What the loop gives the writer: the next bytes of the parts, as many as it
counts; and it counts all of them exactly if it is done. -/
theorem writePartsLoop_sent {room : Nat} {parts : List Bytes} (hroom : parts.length ≤ room) (fuel written : Nat)
    (w : Writer) (hw : written ≤ parts.flatten.length) (hfuel : w.answers.length < fuel) :
    ∃ r written' w', writePartsLoop room parts fuel written w = (r, written', w') ∧
      written ≤ written' ∧ written' ≤ parts.flatten.length ∧
      w'.sent = w.sent ++ (parts.flatten.drop written).take (written' - written) ∧
      w'.answers <:+ w.answers ∧ WriteEnding parts written written' w.answers r := by
  induction fuel generalizing written w with
  | zero => omega
  | succ fuel ih =>
    obtain ⟨u, hu, hflat, hne⟩ := Unwritten.gather_new hroom written
    have hlen : u.slices.flatten.length = parts.flatten.length - written := by rw [hflat, List.length_drop]
    rcases Unwritten.pollWrite_cases w hne with ⟨hnil, hp⟩
      | ⟨hleft, ⟨answers, hsuf, hwhy, hp⟩ | ⟨a, answers, ha, hbad, kind, hp⟩ |
      ⟨a, answers, n, ha, hn, hp⟩⟩
    · have hall : written = parts.flatten.length := by
        rw [hnil, List.length_nil] at hlen; omega
      refine ⟨_, _, _, by simp only [writePartsLoop, hu, hp], Nat.le_refl _, hw, ?_, List.suffix_refl _, .done hall⟩
      rw [Nat.sub_self, List.take_zero, List.append_nil]
    · have hlt : written < parts.flatten.length := by
        have := List.length_pos_iff.mpr hleft; omega
      refine ⟨_, _, ⟨w.sent, answers⟩, by simp only [writePartsLoop, hu, hp], Nat.le_refl _, hw, ?_, hsuf, .pending hlt ?_⟩
      · rw [Nat.sub_self, List.take_zero, List.append_nil]
      · exact hwhy.imp_right fun hnil => by rw [hnil]; exact Nat.zero_le _
    · have hlt : written < parts.flatten.length := by
        have := List.length_pos_iff.mpr hleft; omega
      refine ⟨_, _, ⟨w.sent, answers⟩, by simp only [writePartsLoop, hu, hp], Nat.le_refl _, hw, ?_, ?_,
        .failed kind hlt ⟨a, by rw [ha]; exact List.mem_cons_self, hbad⟩⟩
      · rw [Nat.sub_self, List.take_zero, List.append_nil]
      · rw [ha]; exact List.suffix_cons _ _
    · -- some bytes went out: go on behind them
      obtain ⟨r, written', w', hrun, hle, hle', hsent, hsuf, hend⟩ :=
        ih (written + (n + 1)) ⟨w.sent ++ u.slices.flatten.take (n + 1), answers⟩ (by omega)
          (by rw [ha, List.length_cons] at hfuel; simp only; omega)
      have hsub : answers <:+ w.answers := by rw [ha]; exact List.suffix_cons _ _
      refine ⟨r, written', w', by simp only [writePartsLoop, hu, hp]; exact hrun, by omega, hle', ?_,
        hsuf.trans hsub, ?_⟩
      · have hsplit : (parts.flatten.drop written).take (written' - written) =
            (parts.flatten.drop written).take (n + 1) ++
              (parts.flatten.drop (written + (n + 1))).take (written' - (written + (n + 1))) := by
          rw [show written' - written = (n + 1) + (written' - (written + (n + 1))) by omega,
            List.take_add (j := written' - (written + (n + 1))), List.drop_drop]
        rw [hsent, hflat, List.append_assoc, hsplit]
      · cases hend with
        | done h => exact .done h
        | pending h hwhy =>
          refine .pending h (hwhy.imp (fun hp => hsub.subset hp) fun hlen => ?_)
          rw [ha, List.length_cons]
          simp only at hlen
          omega
        | failed kind h hbad =>
          obtain ⟨a', hmem, hbad⟩ := hbad
          exact .failed kind h ⟨a', hsub.subset hmem, hbad⟩

/-- **A batch goes out in order, each byte once**, however the writer cuts it. -/
theorem writeParts_sent {room : Nat} {parts : List Bytes} (hroom : parts.length ≤ room) (written : Nat) (w : Writer)
    (hw : written ≤ parts.flatten.length) :
    ∃ r written' w', writeParts room parts written w = (r, written', w') ∧
      written ≤ written' ∧ written' ≤ parts.flatten.length ∧
      w'.sent = w.sent ++ (parts.flatten.drop written).take (written' - written) ∧
      w'.answers <:+ w.answers ∧ WriteEnding parts written written' w.answers r :=
  writePartsLoop_sent hroom _ _ _ hw (Nat.lt_succ_self _)

/-! ## Waiting for the writer -/

/-- The last answer used was to wait, or none is left. -/
def Waited {α : Type} (wait : α) (before after : List α) : Prop :=
  after = [] ∨ ∃ used, before = used ++ wait :: after

theorem Waited.of_suffix {α : Type} {wait : α} {before before' after : List α} (h : Waited wait before' after)
    (hs : before' <:+ before) : Waited wait before after := by
  refine h.imp_right fun ⟨used, hused⟩ => ?_
  obtain ⟨front, rfl⟩ := hs
  exact ⟨front ++ used, by rw [hused, List.append_assoc]⟩

theorem Unwritten.pollWrite_waited {u : Unwritten} {w w' : Writer} (h : u.pollWrite w = (.pending, w')) :
    Waited .pending w.answers w'.answers := by
  obtain ⟨slices, skip⟩ := u
  obtain ⟨sent, answers⟩ := w
  cases slices with
  | nil => cases h
  | cons s ss =>
    cases answers with
    | nil => cases h; exact .inl rfl
    | cons a answers =>
      cases a with
      | pending => cases h; exact .inr ⟨[], rfl⟩
      | failed kind => cases h
      | took n =>
        simp only [pollWrite, Writer.poll] at h
        split at h <;> cases h

theorem Unwritten.pollWrite_suffix {u : Unwritten} {w w' : Writer} {r : Polled (SessionRes Nat)}
    (h : u.pollWrite w = (r, w')) : w'.answers <:+ w.answers := by
  have hpoll (offered : Bytes) : (w.poll offered).2.answers <:+ w.answers := by
    unfold Writer.poll
    cases ha : w.answers with
    | nil => simp only [ha, List.suffix_refl]
    | cons a answers => cases a <;> exact List.suffix_cons _ _
  obtain ⟨slices, skip⟩ := u
  cases slices with
  | nil => cases h; exact List.suffix_refl _
  | cons s ss =>
    have := hpoll (s :: ss).flatten
    simp only [pollWrite] at h
    rcases hp : w.poll (s :: ss).flatten with ⟨_ | (kind | n), w₁⟩
    · rw [hp] at h this; cases h; exact this
    · rw [hp] at h this; cases h; exact this
    · rw [hp] at h this
      simp only at h
      split at h <;> (cases h; exact this)

theorem writePartsLoop_waited {room : Nat} {parts : List Bytes} {fuel written written' : Nat} {w w' : Writer}
    (h : writePartsLoop room parts fuel written w = (.pending, written', w')) : Waited .pending w.answers w'.answers := by
  induction fuel generalizing written w with
  | zero => cases h
  | succ fuel ih =>
    unfold writePartsLoop at h
    cases hu : Unwritten.gather room (.new written) parts with
    | error f => rw [hu] at h; cases h
    | ok u =>
      rw [hu] at h
      simp only at h
      rcases hp : u.pollWrite w with ⟨_ | (f | n), w₁⟩
      · rw [hp] at h
        cases h
        exact Unwritten.pollWrite_waited hp
      · rw [hp] at h; cases h
      · rw [hp] at h
        cases n with
        | zero => cases h
        | succ n => exact (ih h).of_suffix (Unwritten.pollWrite_suffix hp)

/-! ## The write half of a socket -/

/-- What `poll_shutdown` comes to. -/
inductive ShutdownAnswer where
  | pending
  | failed (kind : IoErrorKind)
  | done
  deriving DecidableEq, Repr

structure WriteHalf extends Writer where
  shutdowns : List ShutdownAnswer
  /-- `poll_shutdown` was called. -/
  closing : Bool

/-- `poll_shutdown` -/
def WriteHalf.pollShutdown (w : WriteHalf) : Polled (SessionRes Unit) × WriteHalf :=
  match w.shutdowns with
  | [] => (.pending, { w with closing := true })
  | .pending :: shutdowns => (.pending, { w with shutdowns, closing := true })
  | .failed kind :: shutdowns => (.ready (.error (.err (.io kind))), { w with shutdowns, closing := true })
  | .done :: shutdowns => (.ready (.ok ()), { w with shutdowns, closing := true })

end Snell
