/-
`snell-runtime/src/bufio.rs`: reading from a socket poll by poll.

The socket holds the bytes still to come and answers each poll, for readiness
and for reading, as its two scripts say: wait, fail, or go on, a read with as
many bytes as it likes but at least one if any is left. After the last answer
of a script it waits.
-/
import Snell.PooledBuffer
import Snell.Sockets

namespace Snell

/-! ## The socket -/

/-- What `poll_ready` comes to. -/
inductive ReadyAnswer where
  | pending
  | failed (kind : IoErrorKind)
  | ready
  deriving DecidableEq, Repr

/-- What `poll_read` comes to. -/
inductive ReadAnswer where
  | pending
  | failed (kind : IoErrorKind)
  | upTo (n : Nat)
  deriving DecidableEq, Repr

structure ReadHalf where
  received : Bytes
  coming : Bytes
  /-- The end of the stream is behind the bytes still to come. -/
  closed : Bool
  readies : List ReadyAnswer
  reads : List ReadAnswer
  deriving DecidableEq, Repr

namespace ReadHalf

/-- `ReadReady::poll_ready` -/
def pollReady (r : ReadHalf) : Polled (Except IoErrorKind Unit) × ReadHalf :=
  match r.readies with
  | [] => (.pending, r)
  | .pending :: readies => (.pending, { r with readies })
  | .failed kind :: readies => (.ready (.error kind), { r with readies })
  | .ready :: readies => (.ready (.ok ()), { r with readies })

/-- `poll_read` into `room` bytes; what was read. -/
def pollRead (r : ReadHalf) (room : Nat) : Polled (Except IoErrorKind Bytes) × ReadHalf :=
  match r.reads with
  | [] => (.pending, r)
  | .pending :: reads => (.pending, { r with reads })
  | .failed kind :: reads => (.ready (.error kind), { r with reads })
  | .upTo n :: reads =>
    if r.coming = [] ∧ r.closed = false then (.pending, { r with reads })
    else
      let bytes := r.coming.take (min room (max n 1))
      (.ready (.ok bytes), { r with received := r.received ++ bytes, coming := r.coming.drop bytes.length, reads })

end ReadHalf

/-- `poll_read_into`: how many bytes were read into `recv`. -/
def pollReadInto (reader : ReadHalf) (recv : PooledBuffer) (minimum window : Nat) :
    Polled (SessionRes Nat) × ReadHalf × PooledBuffer :=
  match reader.pollReady with
  | (.pending, reader) => (.pending, reader, recv.releaseEmpty)
  | (.ready (.error kind), reader) => (.ready (.error (.err (.io kind))), reader, recv)
  | (.ready (.ok ()), reader) =>
    let needed := max (max minimum (recv.buffer.len + 1)) (min window recv.buffer.max)
    match recv.ensure needed with
    | .error f => (.ready (.error f.inSession), reader, recv)
    | .ok recv =>
      let missing := max (minimum - recv.buffer.len) 1
      match recv.buffer.spareCapacityMut missing with
      | (.error f, buffer) => (.ready (.error f.inSession), reader, { recv with buffer })
      | (.ok (), buffer) =>
        match reader.pollRead buffer.writable with
        | (.pending, reader) => (.pending, reader, PooledBuffer.releaseEmpty { recv with buffer })
        | (.ready (.error kind), reader) => (.ready (.error (.err (.io kind))), reader, { recv with buffer })
        | (.ready (.ok bytes), reader) =>
          match (buffer.writeSpare bytes).commit bytes.length with
          | (.error f, buffer) => (.ready (.error f.inSession), reader, { recv with buffer })
          | (.ok (), buffer) => (.ready (.ok bytes.length), reader, { recv with buffer })

/-! ## What reading comes to -/

namespace ReadHalf

/-- From `r` to `r'` the socket gave the bytes `bytes`. -/
structure Gave (r r' : ReadHalf) (bytes : Bytes) : Prop where
  received : r'.received = r.received ++ bytes
  coming : r.coming = bytes ++ r'.coming
  closed : r'.closed = r.closed
  readies : r'.readies <:+ r.readies
  reads : r'.reads <:+ r.reads

/-- A poll is to fail. -/
def Fails (r : ReadHalf) (kind : IoErrorKind) : Prop := .failed kind ∈ r.readies ∨ .failed kind ∈ r.reads

/-- At the end of the stream. -/
def AtEnd (r : ReadHalf) : Prop := r.coming = [] ∧ r.closed = true

/-- The socket was not ready, a read was to wait, or the stream is open and
nothing is there. -/
inductive Waits (r r' : ReadHalf) : Prop
  | ready (h : Waited .pending r.readies r'.readies)
  | read (h : Waited .pending r.reads r'.reads)
  | idle (h : r'.coming = []) (hopen : r'.closed = false)

variable {r r' r'' : ReadHalf} {bytes bytes' : Bytes}

theorem Gave.refl (r : ReadHalf) : Gave r r [] :=
  ⟨(List.append_nil _).symm, rfl, rfl, List.suffix_refl _, List.suffix_refl _⟩

theorem Gave.trans (h : Gave r r' bytes) (h' : Gave r' r'' bytes') : Gave r r'' (bytes ++ bytes') where
  received := by rw [h'.received, h.received, List.append_assoc]
  coming := by rw [h.coming, h'.coming, List.append_assoc]
  closed := h'.closed.trans h.closed
  readies := h'.readies.trans h.readies
  reads := h'.reads.trans h.reads

theorem Fails.before {kind : IoErrorKind} (h : r'.Fails kind) (hg : Gave r r' bytes) : r.Fails kind :=
  h.imp (fun hm => hg.readies.subset hm) fun hm => hg.reads.subset hm

theorem Waits.after (h : Waits r' r'') (hg : Gave r r' bytes) : Waits r r'' := by
  cases h with
  | ready h => exact .ready (h.of_suffix hg.readies)
  | read h => exact .read (h.of_suffix hg.reads)
  | idle h hopen => exact .idle h hopen

/-- What `poll_ready` comes to: nothing is read. -/
inductive Readies (r : ReadHalf) : Polled (Except IoErrorKind Unit) × ReadHalf → Prop
  | pending {next} : Gave r next [] → Waits r next → Readies r (.pending, next)
  | failed {next} (kind : IoErrorKind) : Gave r next [] → r.Fails kind → Readies r (.ready (.error kind), next)
  | ready {next} : Gave r next [] → Readies r (.ready (.ok ()), next)

theorem pollReady_readies (r : ReadHalf) : Readies r r.pollReady := by
  have hgave (readies : List ReadyAnswer) (h : readies <:+ r.readies) : Gave r { r with readies } [] :=
    ⟨(List.append_nil _).symm, rfl, rfl, h, List.suffix_refl _⟩
  unfold pollReady
  cases hr : r.readies with
  | nil => exact .pending (.refl r) (.ready (.inl hr))
  | cons a readies =>
    have h := hgave readies (by rw [hr]; exact List.suffix_cons _ _)
    cases a with
    | pending => exact .pending h (.ready (.inr ⟨[], hr⟩))
    | failed kind => exact .failed kind h (.inl (hr ▸ List.mem_cons_self))
    | ready => exact .ready h

/-- What `poll_read` into `room` bytes comes to. -/
inductive Reads (r : ReadHalf) (room : Nat) : Polled (Except IoErrorKind Bytes) × ReadHalf → Prop
  | pending {next} : Gave r next [] → Waits r next → Reads r room (.pending, next)
  | failed {next} (kind : IoErrorKind) : Gave r next [] → r.Fails kind → Reads r room (.ready (.error kind), next)
  | read {next} {got : Bytes} : Gave r next got → got.length ≤ room → (got = [] → r.AtEnd) →
      Reads r room (.ready (.ok got), next)

theorem pollRead_reads (r : ReadHalf) {room : Nat} (hroom : 0 < room) : Reads r room (r.pollRead room) := by
  have hgave {reads : List ReadAnswer} (h : reads <:+ r.reads) : Gave r { r with reads } [] :=
    ⟨(List.append_nil _).symm, rfl, rfl, List.suffix_refl _, h⟩
  unfold pollRead
  cases hr : r.reads with
  | nil => exact .pending (.refl r) (.read (.inl hr))
  | cons a reads =>
    have hsuf : reads <:+ r.reads := by rw [hr]; exact List.suffix_cons _ _
    cases a with
    | pending => exact .pending (hgave hsuf) (.read (.inr ⟨[], hr⟩))
    | failed kind => exact .failed kind (hgave hsuf) (.inr (hr ▸ List.mem_cons_self))
    | upTo n =>
      simp only
      by_cases hidle : r.coming = [] ∧ r.closed = false
      · rw [if_pos hidle]
        exact .pending (hgave hsuf) (.idle hidle.1 hidle.2)
      rw [if_neg hidle]
      have hlen : (r.coming.take (min room (max n 1))).length = min (min room (max n 1)) r.coming.length :=
        List.length_take ..
      refine .read ⟨rfl, ?_, rfl, List.suffix_refl _, hsuf⟩ (by omega) fun hnil => ?_
      · simp only [hlen]
        rw [List.take_eq_take_min, List.take_append_drop]
      · have hzero : r.coming.length = 0 := by
          rw [hnil, List.length_nil] at hlen
          omega
        have hcoming := List.eq_nil_of_length_eq_zero hzero
        refine ⟨hcoming, ?_⟩
        cases hc : r.closed with
        | true => rfl
        | false => exact absurd ⟨hcoming, hc⟩ hidle

end ReadHalf

/-- The halves a future reads and writes, later on: bytes were read, and
answers were used. -/
structure HalvesLater (r : ReadHalf) (w : WriteHalf) (r' : ReadHalf) (w' : WriteHalf) : Prop where
  reader : ∃ bytes, r.Gave r' bytes
  answers : w'.answers <:+ w.answers
  shutdowns : w'.shutdowns <:+ w.shutdowns

namespace HalvesLater

variable {r r' r'' : ReadHalf} {w w' w'' : WriteHalf} {bytes : Bytes}

theorem refl (r : ReadHalf) (w : WriteHalf) : HalvesLater r w r w :=
  ⟨⟨[], .refl _⟩, List.suffix_refl _, List.suffix_refl _⟩

theorem trans (h : HalvesLater r w r' w') (h' : HalvesLater r' w' r'' w'') : HalvesLater r w r'' w'' := by
  obtain ⟨bytes, hg⟩ := h.reader
  obtain ⟨bytes', hg'⟩ := h'.reader
  exact ⟨⟨_, hg.trans hg'⟩, h'.answers.trans h.answers, h'.shutdowns.trans h.shutdowns⟩

/-- Bytes are read. -/
theorem read (h : HalvesLater r w r' w') (hg : r'.Gave r'' bytes) : HalvesLater r w r'' w' :=
  h.trans ⟨⟨bytes, hg⟩, List.suffix_refl _, List.suffix_refl _⟩

end HalvesLater

theorem PooledBuffer.releaseEmpty_kept {p : PooledBuffer} (hw : p.buffer.Wf) :
    p.releaseEmpty.buffer.Wf ∧ p.releaseEmpty.buffer.filled = p.buffer.filled ∧
      p.releaseEmpty.buffer.max = p.buffer.max := by
  unfold releaseEmpty Buffer.takeEmptyStorage
  by_cases he : p.buffer.isEmpty = true
  · have hstart : p.buffer.start = p.buffer.storage.length := by simpa [Buffer.isEmpty] using he
    rw [if_pos he]
    refine ⟨⟨Nat.le_refl _, Nat.zero_le _⟩, ?_, rfl⟩
    rw [Buffer.filled, Buffer.filled, hstart, List.drop_length]
    rfl
  · rw [if_neg he]
    exact ⟨hw, rfl, rfl⟩

/-- What `poll_read_into` comes to: nothing was read, or the bytes read are
behind those that were there. -/
inductive ReadsInto (reader : ReadHalf) (recv : PooledBuffer) : Polled (SessionRes Nat) × ReadHalf × PooledBuffer → Prop
  | pending {reader' recv'} : reader.Gave reader' [] → reader.Waits reader' → recv'.buffer.Wf →
      recv'.buffer.filled = recv.buffer.filled → recv'.buffer.max = recv.buffer.max →
      ReadsInto reader recv (.pending, reader', recv')
  | failed {reader' recv'} (kind : IoErrorKind) : reader.Gave reader' [] → reader.Fails kind → recv'.buffer.Wf →
      recv'.buffer.filled = recv.buffer.filled → recv'.buffer.max = recv.buffer.max →
      ReadsInto reader recv (.ready (.error (.err (.io kind))), reader', recv')
  | read {reader' recv'} {bytes : Bytes} : reader.Gave reader' bytes → (bytes = [] → reader.AtEnd) →
      recv'.buffer.Wf → recv'.buffer.filled = recv.buffer.filled ++ bytes → recv'.buffer.max = recv.buffer.max →
      ReadsInto reader recv (.ready (.ok bytes.length), reader', recv')

/-- The lease holds a whole window, and a limit that is a block's size at most
is no obstacle. -/
theorem pollReadInto_reads (reader : ReadHalf) {recv : PooledBuffer} {minimum : Nat} (window : Nat) (hw : recv.buffer.Wf)
    (hmin : minimum ≤ recv.buffer.max) (hlen : recv.buffer.len < recv.buffer.max) (hmax : recv.buffer.max ≤ 73728) :
    ReadsInto reader recv (pollReadInto reader recv minimum window) := by
  unfold pollReadInto
  have hready := reader.pollReady_readies
  generalize reader.pollReady = ready at hready
  cases hready with
  | pending hg hwaits =>
    obtain ⟨hw', hf', hm'⟩ := PooledBuffer.releaseEmpty_kept hw
    exact .pending hg hwaits hw' hf' hm'
  | failed kind hg hfails => exact .failed kind hg hfails hw rfl rfl
  | @ready reader₁ hg =>
    simp only
    obtain ⟨grown, hensure, hgrown⟩ := PooledBuffer.ensure_grown (p := recv)
      (max (max minimum (recv.buffer.len + 1)) (min window recv.buffer.max)) hw (by omega) (by omega) (by omega)
    rw [hensure]
    simp only
    have hlen' : grown.buffer.len = recv.buffer.len := by
      rw [← Buffer.filled_length, ← Buffer.filled_length, hgrown.filled]
    have hcap := hgrown.capacity
    have hgmax := hgrown.max
    obtain ⟨b, hspare, hfilled, hkept, hroom⟩ := Buffer.spareCapacityMut_made hgrown.wf
      (n := max (minimum - grown.buffer.len) 1) (Buffer.refusal_none.mpr ⟨by omega, by omega⟩)
    rw [hspare]
    simp only
    have hwritable : 0 < b.writable := by
      have := hroom.writable
      omega
    have hread := reader₁.pollRead_reads hwritable
    generalize reader₁.pollRead b.writable = read at hread
    cases hread with
    | pending hg' hwaits =>
      obtain ⟨hw', hf', hm'⟩ := PooledBuffer.releaseEmpty_kept (p := { grown with buffer := b }) hkept.wf
      exact .pending (hg.trans hg') (hwaits.after hg) hw' (hf'.trans (hfilled.trans hgrown.filled))
        (hm'.trans (hkept.max.trans hgrown.max))
    | failed kind hg' hfails =>
      exact .failed kind (hg.trans hg') (hfails.before hg) hkept.wf (hfilled.trans hgrown.filled)
        (hkept.max.trans hgrown.max)
    | @read _ bytes hg' hle hend =>
      have hfits : b.Room bytes.length := by
        have h₁ := hkept.wf.len_le
        simp only [Buffer.writable, Buffer.capacity] at hle
        exact ⟨by omega, by omega⟩
      obtain ⟨b', hcommit, hf, hk⟩ := Buffer.commit_writeSpare hkept.wf hfits
      simp only [hcommit]
      refine .read (hg.trans hg') (fun hnil => ?_) hk.wf (hf.trans (by rw [hfilled, hgrown.filled]))
        (hk.max.trans (hkept.max.trans hgrown.max))
      obtain ⟨hcoming, hclosed⟩ := hend hnil
      exact ⟨hg.coming.trans (by rw [hcoming]; rfl), hg.closed.symm.trans hclosed⟩

end Snell
