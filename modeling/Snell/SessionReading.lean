/-
What a receiving session over any wire comes to.

The wire need not be one a sender made. However it arrives and however the
caller interleaves decoding and consuming, the records handed out are the
items the decoder's machine makes of the wire (`Session.run_tracks`), and
until the next consume each is where the session said it is
(`Session.Tracks.intact`).
-/
import Snell.Reading
import Snell.SessionFacts

namespace Snell

open RecordDecoder StagedDecoder Staged

variable {C : Crypto} {D : Type} [RecordDecoder D] [StagedDecoder D] [KdfDecoder C D]

namespace Session

/-- A session that has not failed: its buffer holds the records not consumed,
then what was not read of the bytes that arrived. -/
structure Live (C : Crypto) [KdfDecoder C D] (max : Nat) (d₀ : D) (wire : Bytes) (xs : List (Item × Bytes))
    (s : Session D) : Prop where
  wf : s.buf.Wf
  max_eq : s.buf.max = max
  fresh_le : s.consumed + s.fresh ≤ xs.length
  reading : ∃ stream rest, stream ++ s.unread = wire ∧ s.buf.filled = outstanding xs s.consumed ++ rest ∧
    Reading C max d₀ stream xs s.consumed rest s.decoder
  /-- Records handed out since the last consume are where they were. -/
  placed : ∀ (i : Nat) r x, xs.length ≤ i + s.fresh → s.returned[i]? = some r → xs[i]? = some x →
    r = x.1.record (outstanding (xs.take i) s.consumed).length x.2.length

/-- The session handed out the items `xs` of the wire. -/
structure Tracks (C : Crypto) [KdfDecoder C D] (max : Nat) (d₀ : D) (wire : Bytes) (xs : List (Item × Bytes))
    (s : Session D) : Prop where
  parses : ∃ d₁ rest, Parses (machine max) d₀ wire xs d₁ rest
  told : List.Forall₂ (fun r x => ∃ off, r = x.1.record off x.2.length) s.returned xs
  live : s.fault = none → Live C max d₀ wire xs s

variable {max : Nat} {d₀ : D} {wire : Bytes} {xs : List (Item × Bytes)} {s : Session D}

theorem new_tracks (C : Crypto) [KdfDecoder C D] (max : Nat) (wire : Bytes) (hp : pending d₀ = 0) :
    Tracks C max d₀ wire [] (new d₀ max wire) where
  parses := ⟨d₀, wire, .refl⟩
  told := .nil
  live _ := {
    wf := Buffer.new_wf max
    max_eq := rfl
    fresh_le := Nat.le_refl _
    reading := ⟨[], [], rfl, rfl, .start C max hp⟩
    placed := nofun }

/-- What arrived was read as the items, and so is the whole wire. -/
theorem Live.parses (h : Live C max d₀ wire xs s) : ∃ d₁ rest, Parses (machine max) d₀ wire xs d₁ rest := by
  obtain ⟨stream, rest, rfl, -, hread⟩ := h.reading
  obtain ⟨d₁, -, hparses, -⟩ := hread.reads
  exact ⟨d₁, rest ++ s.unread, hparses.append s.unread⟩

theorem Live.append (h : Live C max d₀ wire xs s) (n : Nat) :
    Live C max d₀ wire xs (s.step C (KdfDecoder.psk C d₀) (.append n)) := by
  simp only [step]
  rcases Buffer.extendFromSlice_cases (s.unread.take n) h.wf with ⟨err, he⟩ | ⟨buf, he, hf, hw, hm, -, -⟩
  · simp only [he]
    exact h
  · simp only [he]
    obtain ⟨stream, rest, hwire, hfilled, hread⟩ := h.reading
    refine { h with
      wf := hw, max_eq := hm.trans h.max_eq
      reading := ⟨stream ++ s.unread.take n, rest ++ s.unread.take n, ?_, ?_, hread.arrive _⟩ }
    · simp only [List.append_assoc, List.take_append_drop, hwire]
    · simp only [hf, hfilled, List.append_assoc]

/-- What a decode does to the session's records. -/
theorem Tracks.decode (h : Tracks C max d₀ wire xs s) (hs : s.fault = none) :
    ∃ ys, Tracks C max d₀ wire (xs ++ ys) (s.step C (KdfDecoder.psk C d₀) .decode) := by
  have hl := h.live hs
  obtain ⟨stream, rest, hwire, hfilled, hread⟩ := hl.reading
  have hdec := hread.decode
  have hlen : (outstanding xs s.consumed ++ rest).length = s.buf.len := by rw [← hfilled, Buffer.filled_length]
  simp only [step, decodeBuf, hl.max_eq, hfilled]
  generalize RecordDecoder.decode s.decoder max (outstanding xs s.consumed ++ rest) = result at hdec
  cases hdec with
  | needMore _ _ hread' =>
    refine ⟨[], ?_⟩
    rw [List.append_nil]
    exact {
      parses := h.parses, told := h.told
      live := fun _ => {
        wf := Buffer.setFilled_wf hl.wf hlen, max_eq := hl.max_eq
        fresh_le := hl.fresh_le
        reading := ⟨stream, rest, hwire, Buffer.setFilled_filled hl.wf, hread'⟩
        placed := hl.placed } }
  | @record item w rest' d' hpos _ hsum _ hread' =>
    have hlen' : (outstanding xs s.consumed ++ (w ++ rest')).length = s.buf.len := by
      simp only [List.length_append] at hlen hsum ⊢; omega
    have hret := h.told.length_eq
    have hlive : Live C max d₀ wire (xs ++ [(item, w)]) { s with
        decoder := d', buf := s.buf.setFilled (outstanding xs s.consumed ++ (w ++ rest'))
        returned := s.returned ++ [item.record (outstanding xs s.consumed).length w.length], fresh := s.fresh + 1 } := by
      have hfresh := hl.fresh_le
      refine {
        wf := Buffer.setFilled_wf hl.wf hlen', max_eq := hl.max_eq
        fresh_le := by simp only [List.length_append, List.length_singleton]; omega
        reading := ⟨stream, rest', hwire, ?_, hread'⟩, placed := ?_ }
      · rw [Buffer.setFilled_filled hl.wf, outstanding_append (show s.consumed ≤ xs.length by omega)]
        simp only [List.map_cons, List.map_nil, List.flatten_cons, List.flatten_nil, List.append_nil, List.append_assoc]
      · intro i r x hi hr hx
        rcases Nat.lt_or_ge i xs.length with hlt | hge
        · rw [List.getElem?_append_left (by omega)] at hr
          rw [List.getElem?_append_left hlt] at hx
          rw [List.take_append_of_le_length (by omega)]
          simp only [List.length_append, List.length_singleton] at hi
          exact hl.placed i r x (by omega) hr hx
        · rw [List.getElem?_append_right (by omega)] at hr
          rw [List.getElem?_append_right hge] at hx
          obtain ⟨h0, rfl⟩ := List.getElem?_eq_some_iff.mp hx
          obtain rfl : i = xs.length := by simp only [List.length_singleton] at h0; omega
          rw [hret, Nat.sub_self] at hr
          rw [List.take_left]
          simp only [List.getElem_singleton]
          exact (Option.some.inj hr).symm
    exact ⟨[(item, w)], hlive.parses, List.rel_append h.told (.cons ⟨_, rfl⟩ .nil), fun _ => hlive⟩
  | error _ =>
    refine ⟨[], ?_⟩
    rw [List.append_nil]
    exact ⟨h.parses, h.told, fun hf => by cases hf⟩

theorem Tracks.consume (h : Tracks C max d₀ wire xs s) (hs : s.fault = none) :
    Tracks C max d₀ wire xs (s.step C (KdfDecoder.psk C d₀) .consume) := by
  have hl := h.live hs
  simp only [step]
  cases hr : s.returned[s.consumed]? with
  | none => exact h
  | some r =>
    obtain ⟨hlt, hget⟩ := List.getElem?_eq_some_iff.mp hr
    have hlen := h.told.length_eq
    have hx : xs[s.consumed]? = some xs[s.consumed] := List.getElem?_eq_getElem (by omega)
    obtain ⟨off, hrec⟩ := h.told.get hlt (by omega)
    have hconsumed : r.consumed = (xs[s.consumed]).2.length := by
      rw [← hget, show s.returned[s.consumed] = _ from hrec]
      cases (xs[s.consumed]).1 <;> rfl
    obtain ⟨stream, rest, hwire, hfilled, hread⟩ := hl.reading
    obtain ⟨hpend, hread'⟩ := hread.consume hx
    have hfit : r.consumed ≤ s.buf.len := by
      rw [← Buffer.filled_length, hfilled, List.length_append, ← hread.pending_eq, hpend]
      omega
    obtain ⟨buf, hb⟩ := Buffer.consume_fits hfit
    obtain ⟨-, hfill, hmax, -, hwf⟩ := Buffer.consume_ok hl.wf hb
    have hdo : RecordDecoder.consume s.decoder s.buf r =
        (.ok (), setPending s.decoder (pending s.decoder - r.consumed), buf) := by
      rw [RecordDecoder.consume, if_neg (by omega)]
      simp only [hb]
    simp only [hdo]
    refine { parses := h.parses, told := h.told, live := fun _ => ?_ }
    exact {
      wf := hwf, max_eq := hmax.trans hl.max_eq
      fresh_le := hread'.taken_le
      reading := by
        refine ⟨stream, rest, hwire, ?_, ?_⟩
        · rw [hfill, hfilled, outstanding_cons hx, List.append_assoc, hconsumed, List.drop_left]
        · rw [hconsumed]; exact hread'
      placed := fun i r x hi _ hx => by
        have hlt := (List.getElem?_eq_some_iff.mp hx).1
        have hge : xs.length ≤ i := hi
        omega }

theorem Tracks.install (h : Tracks C max d₀ wire xs s) (hs : s.fault = none) :
    Tracks C max d₀ wire xs (s.step C (KdfDecoder.psk C d₀) .install) := by
  have hl := h.live hs
  obtain ⟨stream, rest, hwire, hfilled, hread⟩ := hl.reading
  have hfits : (outstanding xs s.consumed ++ rest).length ≤ max := by
    have := hl.wf.len_le; have := hl.max_eq
    rw [← hfilled, Buffer.filled_length, Buffer.len]
    omega
  have hinst := hread.install hfits
  simp only [step, hfilled]
  cases hi : installKdf C (KdfDecoder.psk C d₀) s.decoder (outstanding xs s.consumed ++ rest) with
  | ok d' =>
    rw [hi] at hinst
    exact ⟨h.parses, h.told, fun _ => { hl with reading := ⟨stream, rest, hwire, hfilled, hinst⟩ }⟩
  | error f => exact ⟨h.parses, h.told, fun hf => by cases hf⟩

theorem Tracks.step (h : Tracks C max d₀ wire xs s) (hs : s.fault = none) (op : SessionOp) :
    ∃ ys, Tracks C max d₀ wire (xs ++ ys) (s.step C (KdfDecoder.psk C d₀) op) := by
  cases op with
  | append n =>
    refine ⟨[], ?_⟩
    rw [List.append_nil]
    have hlive := (h.live hs).append n
    have hsame : (s.step C (KdfDecoder.psk C d₀) (.append n)).returned = s.returned := by
      simp only [Session.step]
      split <;> rfl
    exact ⟨h.parses, by rw [hsame]; exact h.told, fun _ => hlive⟩
  | decode => exact h.decode hs
  | consume => exact ⟨[], by rw [List.append_nil]; exact h.consume hs⟩
  | install => exact ⟨[], by rw [List.append_nil]; exact h.install hs⟩

theorem Tracks.run (h : Tracks C max d₀ wire xs s) (ops : List SessionOp) :
    ∃ ys, Tracks C max d₀ wire (xs ++ ys) (s.run C (KdfDecoder.psk C d₀) ops) := by
  induction ops generalizing s xs with
  | nil => exact ⟨[], by rw [List.append_nil]; exact h⟩
  | cons op ops ih =>
    rw [Session.run]
    split
    · exact ⟨[], by rw [List.append_nil]; exact h⟩
    · next hs =>
      obtain ⟨ys, h₁⟩ := h.step (by simpa using hs) op
      obtain ⟨zs, h₂⟩ := ih h₁
      exact ⟨ys ++ zs, by rw [← List.append_assoc]; exact h₂⟩

/-- **Sessions hand out what the wire reads as**, up to their first error. -/
theorem run_tracks (C : Crypto) [KdfDecoder C D] (max : Nat) (wire : Bytes) (hp : pending d₀ = 0)
    (ops : List SessionOp) :
    ∃ xs, Tracks C max d₀ wire xs (run C (KdfDecoder.psk C d₀) (new d₀ max wire) ops) :=
  (new_tracks C max wire hp).run ops

/-! ## Intact sessions -/

/-- Up to the session's first error, the records handed out are the first of
those with the payloads `sealed`, in order, and readable as such until the next
consume. -/
structure Intact (sealed : List Bytes) (s : Session D) : Prop where
  in_order : s.returned.length ≤ sealed.length ∧
    s.returned.map DecodedRecord.kind = (sealed.take s.returned.length).map kindOf
  readable : s.fault = none → ∀ (i : Nat) r payload, s.returned.length ≤ i + s.fresh → s.returned[i]? = some r →
    sealed[i]? = some payload → r.plaintext s.buf.filled = .ok payload

theorem Tracks.intact {sealed : List Bytes} (h : Tracks C max d₀ wire xs s)
    (hshow : List.Forall₂ (fun x payload => x.1.Shows x.2 payload) xs (sealed.take xs.length)) : Intact sealed s := by
  have hlen := h.told.length_eq
  have hle : xs.length ≤ sealed.length := by
    have := hshow.length_eq
    rw [List.length_take] at this
    omega
  have hshows : ∀ (i : Nat) x payload, xs[i]? = some x → sealed[i]? = some payload → x.1.Shows x.2 payload := by
    intro i x payload hx hp
    obtain ⟨hi, rfl⟩ := List.getElem?_eq_some_iff.mp hx
    obtain ⟨hi', rfl⟩ := List.getElem?_eq_some_iff.mp hp
    have := hshow.get hi (by rw [List.length_take]; omega)
    simpa only [List.get_eq_getElem, List.getElem_take] using this
  refine ⟨⟨by omega, ?_⟩, fun hs i r payload hi hr hp => ?_⟩
  · refine List.ext_getElem? fun i => ?_
    simp only [List.getElem?_map]
    rcases Nat.lt_or_ge i s.returned.length with hlt | hge
    · obtain ⟨off, hrec⟩ := h.told.get hlt (by omega)
      have hx := hshows i _ _ (List.getElem?_eq_getElem (by omega)) (List.getElem?_eq_getElem (by omega))
      rw [List.getElem?_take_of_lt hlt, List.getElem?_eq_getElem hlt, List.getElem?_eq_getElem (by omega)]
      have hkind := (Item.record_shows (P := List.replicate off 0) (A := []) hx (xs[i]).2.length).2.1
      rw [List.length_replicate] at hkind
      rw [Option.map_some, Option.map_some, ← hkind, show s.returned[i] = _ from hrec]
      rfl
    · rw [List.getElem?_eq_none hge, List.getElem?_eq_none (by rw [List.length_take]; omega)]
      rfl
  · have hl := h.live hs
    have hfresh := hl.fresh_le
    obtain ⟨hlt, -⟩ := List.getElem?_eq_some_iff.mp hr
    have hx : xs[i]? = some xs[i] := List.getElem?_eq_getElem (by omega)
    obtain ⟨stream, rest, -, hfilled, -⟩ := hl.reading
    rw [hl.placed i r _ (by omega) hr hx, hfilled]
    -- the record's own bytes, between those before and those behind it
    have hsplit : outstanding xs s.consumed =
        outstanding (xs.take i) s.consumed ++ ((xs[i]).2 ++ outstanding xs (i + 1)) := by
      have hle : s.consumed ≤ (xs.take i).length := by rw [List.length_take]; omega
      rw [← outstanding_cons hx]
      nth_rw 1 [← List.take_append_drop i xs]
      exact outstanding_append hle
    rw [hsplit, List.append_assoc, List.append_assoc]
    exact (Item.record_shows (hshows i _ _ hx hp) _).2.2.2

end Session

end Snell
