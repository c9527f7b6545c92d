/-
`decode_once` (`snell-runtime/src/session.rs`) turn by turn: derive the key
once the salt is there, decode, and read more until the bytes the decoder asked
for have arrived.

The futures that read a handshake are this one, over and over. A turn keeps
what was read of the stream (`Receiving`), and what it returns is the next
record (`DecodeLeads`).
-/
import Snell.BufIo
import Snell.Hearing
import Snell.Polling
import Snell.SnellToPlain

namespace Snell

open RecordDecoder StagedDecoder Staged Polling

/-- What `kdf.derive` comes to at a poll. -/
inductive KdfAnswer where
  | pending
  | failed (error : SessionError)
  | derived
  deriving DecidableEq, Repr

/-- One decoded record. `zero` is consumed already. -/
inductive RecordEvent where
  | zero
  | data (record : DecodedRecord)
  deriving DecidableEq

/-- The receiving side of a Snell connection. -/
structure Inbound (D : Type) where
  reader : ReadHalf
  decoder : D
  recv : PooledBuffer

namespace Inbound

variable {D : Type} [RecordDecoder D]

/-- `maybe_install_kdf` -/
def maybeInstallKdf (C : Crypto) (psk : Psk) (kdf : KdfAnswer) (s : Inbound D) : Polled (SessionRes D) :=
  if kdfNeed s.decoder = 0 ∨ s.recv.buffer.len < kdfNeed s.decoder then .ready (.ok s.decoder)
  else
    match kdfSalt s.decoder s.recv.buffer.filled, kdf with
    | .error f, _ => .ready (.error f.inSession)
    | .ok _, .pending => .pending
    | .ok _, .failed error => .ready (.error (.err error))
    | .ok _, .derived =>
      match installKdf C psk s.decoder s.recv.buffer.filled with
      | .error f => .ready (.error f.inSession)
      | .ok decoder => .ready (.ok decoder)

/-- A turn of `fill_until`, around `read_into_recv`. -/
def fillTurn (minimum : Nat) (s : Inbound D) : Turn (Inbound D × Nat) (SessionRes RecordEvent) :=
  match pollReadInto s.reader s.recv minimum 4096 with
  | (.pending, reader, recv) => .pending ({ s with reader, recv }, minimum)
  | (.ready (.error f), reader, recv) => .ready (.error f) ({ s with reader, recv }, minimum)
  | (.ready (.ok n), reader, recv) =>
    if n = 0 then .ready (.error (.err .eof)) ({ s with reader, recv }, minimum)
    else .again ({ s with reader, recv }, minimum)

/-- A decode, with the key installed. -/
def decodeTurn (s : Inbound D) : Turn (Inbound D × Nat) (SessionRes RecordEvent) :=
  match decodeBuf s.decoder s.recv.buffer with
  | (r, decoder, buffer) =>
    let s := { s with decoder, recv := { s.recv with buffer } }
    match r with
    | .error f => .ready (.error f.inSession) (s, 0)
    | .ok (.needMore minimum) => .again (s, minimum)
    | .ok (.record record) =>
      if record.kind = .zeroChunk then
        match consume s.decoder s.recv.buffer record with
        | (.error f, decoder, buffer) =>
          .ready (.error f.inSession) ({ s with decoder, recv := { s.recv with buffer } }, 0)
        | (.ok (), decoder, buffer) => .ready (.ok .zero) ({ s with decoder, recv := { s.recv with buffer } }, 0)
      else .ready (.ok (.data record)) (s, 0)

/-- A turn of `decode_once`, with `minimum` bytes to wait for. -/
def decodeOnceTurn (C : Crypto) (psk : Psk) (kdf : KdfAnswer) (s : Inbound D) (minimum : Nat) :
    Turn (Inbound D × Nat) (SessionRes RecordEvent) :=
  if s.recv.buffer.len < minimum then s.fillTurn minimum
  else
    match s.maybeInstallKdf C psk kdf with
    | .pending => .pending (s, 0)
    | .ready (.error f) => .ready (.error f) (s, 0)
    | .ready (.ok decoder) => decodeTurn { s with decoder }

variable [StagedDecoder D] {C : Crypto} [KdfDecoder C D] [SafeDecoder D] {max minimum : Nat} {d₀ : D} {stream rest : Bytes}
  {xs : List (Item × Bytes)} {s : Inbound D} {psk : Psk}

/-- Of `stream` the records `xs` were read and consumed; `rest` was not. -/
structure Inv (C : Crypto) [KdfDecoder C D] (max : Nat) (d₀ : D) (stream : Bytes) (xs : List (Item × Bytes))
    (rest : Bytes) (s : Inbound D) : Prop where
  receiving : Receiving C max d₀ stream xs xs.length rest s.decoder s.recv.buffer
  small : max ≤ 73728

theorem Inv.filled (h : Inv C max d₀ stream xs rest s) : s.recv.buffer.filled = rest := by
  rw [h.receiving.filled, outstanding_all, List.nil_append]

theorem Inv.len_eq (h : Inv C max d₀ stream xs rest s) : s.recv.buffer.len = rest.length := by
  rw [← Buffer.filled_length, h.filled]

/-- What a turn comes to, from a state with `stream` read as `xs`: bytes
arrive, the next record is there, or the future fails. -/
def DecodeLeads (C : Crypto) [KdfDecoder C D] (max : Nat) (d₀ : D) (stream : Bytes) (xs : List (Item × Bytes))
    (rest : Bytes) (s : Inbound D) : Turn (Inbound D × Nat) (SessionRes RecordEvent) → Prop :=
  Turn.Leads
    (fun x => x.2 ≤ max ∧ ∃ got, s.reader.Gave x.1.reader got ∧ Inv C max d₀ (stream ++ got) xs (rest ++ got) x.1)
    (fun x => x.2 ≤ max ∧ s.reader.Gave x.1.reader [] ∧ Inv C max d₀ stream xs rest x.1)
    fun r x => s.reader.Gave x.1.reader [] ∧
      match r with
      | .error _ => True
      | .ok .zero => ∃ w rest', rest ≠ [] ∧ Inv C max d₀ stream (xs ++ [(.zeroChunk, w)]) rest' x.1
      | .ok (.data record) => ∃ i j w rest', rest ≠ [] ∧ record = (Item.data i j).record 0 w.length ∧
        Receiving C max d₀ stream (xs ++ [(.data i j, w)]) xs.length rest' x.1.decoder x.1.recv.buffer

theorem fillTurn_leads (h : Inv C max d₀ stream xs rest s) (hlt : s.recv.buffer.len < minimum) (hmin : minimum ≤ max) :
    DecodeLeads C max d₀ stream xs rest s (s.fillTurn minimum) := by
  have hrecv := h.receiving
  have hread := pollReadInto_reads s.reader 4096 hrecv.wf (show minimum ≤ _ by rw [hrecv.max_eq]; exact hmin)
    (by rw [hrecv.max_eq]; omega) (by rw [hrecv.max_eq]; exact h.small)
  unfold fillTurn
  generalize pollReadInto s.reader s.recv minimum 4096 = result at hread
  cases hread with
  | pending hg _ hw hf hm => exact ⟨hmin, hg, hrecv.moved hw hm hf, h.small⟩
  | failed kind hg _ hw hf hm => exact ⟨hg, trivial⟩
  | @read reader recv bytes hg _ hw hf hm =>
    simp only
    by_cases hzero : bytes.length = 0
    · rw [if_pos hzero]
      obtain rfl := List.eq_nil_of_length_eq_zero hzero
      exact ⟨hg, trivial⟩
    · rw [if_neg hzero]
      exact ⟨hmin, bytes, hg, hrecv.arrive hw hm hf, h.small⟩

/-- A decode that asks for more asks for more than is there. -/
theorem decodeTurn_waits (h : Inv C max d₀ stream xs rest s) :
    s.decodeTurn.Leads (fun x => x.1.recv.buffer.len < x.2) (fun _ => True) fun _ _ => True := by
  have hdecode := h.receiving.decode
  unfold decodeTurn
  generalize decodeBuf s.decoder s.recv.buffer = result at hdecode
  cases hdecode with
  | @needMore k d' b' hlt hk _ hrecv =>
    change b'.len < _ + k
    rw [← Buffer.filled_length, hrecv.filled, outstanding_all, List.nil_append, List.length_nil]
    omega
  | error => trivial
  | @record item w rest' d' b' hpos hsum _ hrecv =>
    simp only
    split
    · split <;> trivial
    · trivial

theorem decodeTurn_leads (h : Inv C max d₀ stream xs rest s) : DecodeLeads C max d₀ stream xs rest s s.decodeTurn := by
  have hdecode := h.receiving.decode
  have hnone : (outstanding xs xs.length).length = 0 := by rw [outstanding_all, List.length_nil]
  unfold decodeTurn
  generalize decodeBuf s.decoder s.recv.buffer = result at hdecode
  cases hdecode with
  | @needMore k d' b' _ hk _ hrecv =>
    refine ⟨by rw [hnone]; omega, [], .refl _, ?_, h.small⟩
    rw [List.append_nil, List.append_nil]
    exact hrecv
  | error => exact ⟨.refl _, trivial⟩
  | @record item w rest' d' b' hpos hsum _ hrecv =>
    have hne : rest ≠ [] := List.ne_nil_of_length_pos (by omega)
    cases item with
    | data i j =>
      simp only [if_neg (show ¬ ((Item.data i j).record (outstanding xs xs.length).length w.length).kind = .zeroChunk by
        intro hk; cases hk)]
      exact ⟨.refl _, i, j, w, rest', hne, by rw [hnone], hrecv⟩
    | zeroChunk =>
      have hx : (xs ++ [(Item.zeroChunk, w)])[xs.length]? = some (.zeroChunk, w) := by
        rw [List.getElem?_append_right (Nat.le_refl _), Nat.sub_self]
        rfl
      obtain ⟨d'', b'', hconsume, hrecv'⟩ := hrecv.consume hx
        (r := Item.zeroChunk.record (outstanding xs xs.length).length w.length) rfl
      have hkind : (Item.zeroChunk.record (outstanding xs xs.length).length w.length).kind = .zeroChunk := rfl
      simp only [if_pos hkind, hconsume]
      refine ⟨.refl _, w, rest', hne, ?_, h.small⟩
      rw [List.length_append, List.length_singleton]
      exact hrecv'

theorem decodeOnceTurn_leads (h : Inv C max d₀ stream xs rest s) (hpsk : psk = KdfDecoder.psk C d₀) (kdf : KdfAnswer)
    (hmin : minimum ≤ max) : DecodeLeads C max d₀ stream xs rest s (s.decodeOnceTurn C psk kdf minimum) := by
  unfold decodeOnceTurn
  by_cases hlt : s.recv.buffer.len < minimum
  · rw [if_pos hlt]
    exact fillTurn_leads h hlt hmin
  rw [if_neg hlt]
  have hpending : DecodeLeads C max d₀ stream xs rest s (.pending (s, 0)) := ⟨Nat.zero_le _, .refl _, h⟩
  have hfailed (f : SessionFault) : DecodeLeads C max d₀ stream xs rest s (.ready (.error f) (s, 0)) := ⟨.refl _, trivial⟩
  unfold maybeInstallKdf
  by_cases hneed : kdfNeed s.decoder = 0 ∨ s.recv.buffer.len < kdfNeed s.decoder
  · rw [if_pos hneed]
    exact decodeTurn_leads h
  rw [if_neg hneed]
  cases kdfSalt s.decoder s.recv.buffer.filled with
  | error f => exact hfailed _
  | ok salt =>
    cases kdf with
    | pending => exact hpending
    | failed error => exact hfailed _
    | derived =>
      subst hpsk
      obtain ⟨d', hinstall, hrecv⟩ | ⟨f, hinstall, -⟩ := h.receiving.install
      · simp only [hinstall]
        exact decodeTurn_leads (s := { s with decoder := d' }) ⟨hrecv, h.small⟩
      · simp only [hinstall]
        exact hfailed _

/-- The payload of the record just decoded, and the state once it is
consumed. -/
theorem consume_leads {i j : Nat} {w : Bytes} (hsmall : max ≤ 73728)
    (h : Receiving C max d₀ stream (xs ++ [(.data i j, w)]) xs.length rest s.decoder s.recv.buffer) :
    ((Item.data i j).record 0 w.length).plaintext s.recv.buffer.filled = .ok (Item.plain (.data i j, w)) ∧
    ∃ d' b', consume s.decoder s.recv.buffer ((Item.data i j).record 0 w.length) = (.ok (), d', b') ∧
      Inv C max d₀ stream (xs ++ [(.data i j, w)]) rest
        { s with decoder := d', recv := { s.recv with buffer := b' } } := by
  have hx : (xs ++ [(Item.data i j, w)])[xs.length]? = some (.data i j, w) := by
    rw [List.getElem?_append_right (Nat.le_refl _), Nat.sub_self]
    rfl
  constructor
  · obtain ⟨hij, hj⟩ := h.within (.data i j, w) (List.mem_append_right _ List.mem_cons_self)
    have hfilled : s.recv.buffer.filled = w ++ rest := by
      rw [h.filled, outstanding_cons hx, show xs.length + 1 = (xs ++ [(Item.data i j, w)]).length by simp, outstanding_all,
        List.append_nil]
    rw [hfilled]
    simp only [Item.record, DecodedRecord.plaintext, slice, Nat.zero_add, Item.plain] at hij hj ⊢
    rw [if_pos ⟨Nat.le_of_lt hij, by rw [List.length_append]; omega⟩, List.drop_append_of_le_length (by omega),
      List.take_append_of_le_length (by rw [List.length_drop]; omega)]
  · obtain ⟨d', b', hconsume, hrecv⟩ := h.consume hx (r := (Item.data i j).record 0 w.length) rfl
    refine ⟨d', b', hconsume, ?_, hsmall⟩
    rw [List.length_append, List.length_singleton]
    exact hrecv

/-! ## Since the beginning of the connection -/

variable {ys : List (Item × Bytes)}

/-- The connection has heard and consumed `xs`, from `d₀` on. -/
structure Listening (C : Crypto) [KdfDecoder C D] (max : Nat) (d₀ : D) (s : Inbound D) (xs : List (Item × Bytes)) :
    Prop where
  heard : Heard max d₀ s.reader.received xs s.decoder s.recv.buffer.filled
  pending : pending s.decoder = 0
  psk_eq : KdfDecoder.psk C s.decoder = KdfDecoder.psk C d₀
  valid : SafeDecoder.Valid s.decoder
  wf : s.recv.buffer.Wf
  max_eq : s.recv.buffer.max = max
  small : max ≤ 73728

theorem Listening.inv (h : Listening C max d₀ s xs) :
    Inv C max s.decoder s.recv.buffer.filled [] s.recv.buffer.filled s := by
  have := Receiving.start C h.pending h.valid h.wf
  rw [h.max_eq] at this
  exact ⟨this, h.small⟩

/-- The records a future read are heard behind the others. -/
theorem Listening.andThen {t : Inbound D} (h : Listening C max d₀ s xs) {got : Bytes} (hg : s.reader.Gave t.reader got)
    (h' : Inv C max s.decoder (s.recv.buffer.filled ++ got) ys rest t) : Listening C max d₀ t (xs ++ ys) where
  heard := by
    rw [hg.received, h'.filled]
    exact h.heard.andThen h.pending h'.receiving
  pending := by rw [h'.receiving.reading.pending_eq, outstanding_all, List.length_nil]
  psk_eq := h'.receiving.reading.psk_eq.trans h.psk_eq
  valid := h'.receiving.valid
  wf := h'.receiving.wf
  max_eq := h'.receiving.max_eq
  small := h.small

/-- Bytes went from the socket into the lease, or none. -/
def Took (s s' : Inbound D) : Prop :=
  ∃ got, s.reader.Gave s'.reader got ∧ s'.recv.buffer.filled = s.recv.buffer.filled ++ got

/-- More was read, or nothing. -/
theorem Listening.read {r : Polled (SessionRes Nat)} {reader : ReadHalf} {recv : PooledBuffer}
    (h : Listening C max d₀ s xs) (hmin : minimum ≤ max) (hlen : s.recv.buffer.len < max)
    (hpoll : pollReadInto s.reader s.recv minimum 4096 = (r, reader, recv)) :
    Listening C max d₀ { s with reader, recv } xs ∧ s.Took { s with reader, recv } := by
  have hrecv := h.inv.receiving
  have hread := pollReadInto_reads s.reader 4096 h.wf (show minimum ≤ _ by rw [h.max_eq]; exact hmin)
    (by rw [h.max_eq]; exact hlen) (by rw [h.max_eq]; exact h.small)
  rw [hpoll] at hread
  have hnone {reader : ReadHalf} {recv : PooledBuffer} (hg : s.reader.Gave reader []) (hw : recv.buffer.Wf)
      (hf : recv.buffer.filled = s.recv.buffer.filled) (hm : recv.buffer.max = s.recv.buffer.max) :
      Listening C max d₀ { s with reader, recv } xs ∧ s.Took { s with reader, recv } := by
    refine ⟨?_, [], hg, by rw [List.append_nil]; exact hf⟩
    have := h.andThen (t := { s with reader, recv }) hg ⟨by rw [List.append_nil]; exact hrecv.moved hw hm hf, h.small⟩
    rwa [List.append_nil] at this
  cases hread with
  | pending hg _ hw hf hm => exact hnone hg hw hf hm
  | failed kind hg _ hw hf hm => exact hnone hg hw hf hm
  | @read reader recv bytes hg _ hw hf hm =>
    refine ⟨?_, bytes, hg, hf⟩
    have := h.andThen (t := { s with reader, recv }) hg ⟨hrecv.arrive hw hm hf, h.small⟩
    rwa [List.append_nil] at this

/-- Asked for nothing, `decode_once` reads nothing; what it then waits for is
more than is there. -/
theorem Listening.decodeOnceTurn_waits (h : Listening C max d₀ s xs) (hpsk : psk = KdfDecoder.psk C d₀) (kdf : KdfAnswer) :
    (s.decodeOnceTurn C psk kdf 0).Leads (fun x => x.1.recv.buffer.len < x.2) (fun _ => True) fun _ _ => True := by
  unfold Inbound.decodeOnceTurn
  rw [if_neg (Nat.not_lt_zero _)]
  unfold maybeInstallKdf
  by_cases hneed : kdfNeed s.decoder = 0 ∨ s.recv.buffer.len < kdfNeed s.decoder
  · rw [if_pos hneed]
    exact decodeTurn_waits h.inv
  rw [if_neg hneed]
  cases kdfSalt s.decoder s.recv.buffer.filled with
  | error f => trivial
  | ok salt =>
    cases kdf with
    | pending => trivial
    | failed error => trivial
    | derived =>
      rw [hpsk.trans h.psk_eq.symm]
      obtain ⟨d', hinstall, hrecv⟩ | ⟨f, hinstall, -⟩ := h.inv.receiving.install
      · simp only [hinstall]
        exact decodeTurn_waits (s := { s with decoder := d' }) ⟨hrecv, h.small⟩
      · simp only [hinstall]
        trivial

/-- The next record is there: what it says, and the state once it is
consumed. -/
def Says (C : Crypto) [KdfDecoder C D] (max : Nat) (d₀ : D) (s : Inbound D) (xs : List (Item × Bytes))
    (record : DecodedRecord) : Prop :=
  ∃ x, Item.isData x = true ∧ record.plaintext s.recv.buffer.filled = .ok (Item.plain x) ∧
    ∃ d' b', consume s.decoder s.recv.buffer record = (.ok (), d', b') ∧
      Listening C max d₀ { s with decoder := d', recv := { s.recv with buffer := b' } } (xs ++ [x])

/-- **What a turn of `decode_once` comes to**: it listens on, or the next
record is there, or it fails. At the end of the stream with nothing left no
record is there. -/
theorem Listening.decodeOnceTurn (h : Listening C max d₀ s xs) (hpsk : psk = KdfDecoder.psk C d₀) (kdf : KdfAnswer)
    (hmin : minimum ≤ max) :
    (s.decodeOnceTurn C psk kdf minimum).Until
      (fun x => x.2 ≤ max ∧ Listening C max d₀ x.1 xs ∧ s.Took x.1)
      fun r x => s.reader.Gave x.1.reader [] ∧
        match r with
        | .error _ => True
        | .ok .zero => s.recv.buffer.filled ≠ [] ∧ ∃ w, Listening C max d₀ x.1 (xs ++ [(.zeroChunk, w)])
        | .ok (.data record) => s.recv.buffer.filled ≠ [] ∧ Says C max d₀ x.1 xs record := by
  have hsame : s.recv.buffer.filled = s.recv.buffer.filled ++ [] := (List.append_nil _).symm
  refine (decodeOnceTurn_leads h.inv (hpsk.trans h.psk_eq.symm) kdf hmin).imp ?_ ?_ ?_
  · rintro x ⟨hle, got, hg, h'⟩
    exact ⟨hle, by simpa using h.andThen hg h', got, hg, h'.filled⟩
  · rintro x ⟨hle, hg, h'⟩
    rw [hsame] at h'
    exact ⟨hle, by simpa using h.andThen hg h', [], hg, h'.filled⟩
  · rintro r x ⟨hg, h'⟩
    refine ⟨hg, ?_⟩
    match r, h' with
    | .error _, _ => trivial
    | .ok .zero, ⟨w, rest', hne, h'⟩ =>
      rw [hsame] at h'
      exact ⟨hne, w, h.andThen hg h'⟩
    | .ok (.data record), ⟨i, j, w, rest', hne, hrecord, h'⟩ =>
      obtain ⟨hplain, d', b', hconsume, hinv⟩ := consume_leads (s := x.1) h.small h'
      rw [hsame] at hinv
      subst hrecord
      exact ⟨hne, (.data i j, w), rfl, hplain, d', b', hconsume,
        h.andThen (t := { x.1 with decoder := d', recv := { x.1.recv with buffer := b' } }) hg hinv⟩

end Inbound

end Snell
