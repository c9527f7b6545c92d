/-
`open_remote` (`snell-runtime/src/server/mod.rs`): dial, then answer the client
with a Tunnel reply, or with a rejection where that failed. The deadline
bounds the dial and the Tunnel reply together, the rejection not at all.

The writer is seen poll by poll. Where the deadline has passed at a pending
poll, the future is dropped there: the bytes already taken are on the wire,
the encoder has sealed their record, and the rest of the record goes with its
buffer.
-/
import Snell.EncodeRun
import Snell.SessionWrite
import Snell.Unshaped

namespace Snell

/-! ## The stream -/

/-- What a poll of the Snell stream for writing comes to. `expired`: the
deadline has passed when the poll is pending. -/
inductive WritePoll where
  | took (n : Nat)
  | failed (kind : IoErrorKind)
  | pending (expired : Bool)
  deriving DecidableEq, Repr

/-- What was written, and the answers to the coming polls. -/
structure SnellStream where
  written : Bytes
  polls : List WritePoll
  deriving DecidableEq, Repr

/-- How an `await` ends: the future returns, or the deadline passes first, or
neither ever happens. -/
inductive Ended (α : Type) where
  | returned (r : SessionRes α)
  | expired
  | stalled

namespace Ended

variable {α β σ : Type}

/-- `.await?`, and the rest. -/
def andThen (r : Ended α × σ) (rest : α → σ → Ended β × σ) : Ended β × σ :=
  match r with
  | (.returned (.ok a), x) => rest a x
  | (.returned (.error f), x) => (.returned (.error f), x)
  | (.expired, x) => (.expired, x)
  | (.stalled, x) => (.stalled, x)

/-- `.await?`, and a result that needs no waiting. -/
def followed (r : Ended α) (next : SessionRes β) : Ended β :=
  match r with
  | .returned (.ok _) => .returned next
  | .returned (.error f) => .returned (.error f)
  | .expired => .expired
  | .stalled => .stalled

/-- The error `with_handshake_timeout` makes of it. -/
def failure : Ended α → Option SessionError
  | .returned (.error (.err error)) => some error
  | .expired => some .handshakeTimeout
  | _ => none

end Ended

/-- `write_all_buf`, under the deadline if `timed`. -/
def SnellStream.writeAllBuf (timed : Bool) (written : Bytes) : List WritePoll → Bytes → Ended Unit × SnellStream
  | polls, [] => (.returned (.ok ()), ⟨written, polls⟩)
  | [], _ :: _ => (.stalled, ⟨written, []⟩)
  | .pending expired :: polls, bytes@(_ :: _) =>
    if timed && expired then (.expired, ⟨written, polls⟩) else writeAllBuf timed written polls bytes
  | .failed kind :: polls, _ :: _ => (.returned (.error (.err (.io kind))), ⟨written, polls⟩)
  | .took n :: polls, bytes@(_ :: _) =>
    if n = 0 then (.returned (.error (.err (.io .writeZero))), ⟨written, polls⟩)
    else if bytes.length < n then (.returned (.error .panic), ⟨written, polls⟩)
    else writeAllBuf timed (written ++ bytes.take n) polls (bytes.drop n)

/-! ## A reply -/

/-- What a session writes with. -/
structure Outgoing (E : Type) where
  encoder : E
  stream : SnellStream

/-- What the environment answers while a reply is written: the pool, and for
each record the clock and the sealing. -/
structure ReplyEnv where
  popped : Bytes
  scans : List (List Bytes)
  clock : Nat → Nat → Nat
  sealing : Nat → SealEnv

section Reply

variable {E : Type} [RecordEncoder E]

/-- The end of `drain_encode`: the lease is returned. -/
def drained (encode : PooledBuffer) : SessionRes PooledBuffer :=
  match encode.buffer.consume encode.buffer.len with
  | (.error f, _) => .error f.inSession
  | (.ok (), buffer) => .ok (PooledBuffer.releaseEmpty { encode with buffer })

namespace Outgoing

/-- `drain_encode` -/
def drainEncode (timed : Bool) (x : Outgoing E) (encode : PooledBuffer) (split : Nat) : Ended PooledBuffer × Outgoing E :=
  if encode.buffer.filled.length < split then (.returned (.error .panic), x)
  else
    match SnellStream.writeAllBuf timed x.stream.written x.stream.polls (rotate split encode.buffer.filled) with
    | (r, stream) => (r.followed (drained encode), { x with stream })

end Outgoing

/-- The closure `write_plain_records` fills a record with. -/
def fillPlain (src slot : Bytes) : Res (Nat × Bytes) :=
  let take := min slot.length src.length
  if take = 0 then .error (.err .payloadTooLarge) else .ok (take, src.take take ++ slot.drop take)

/-- The `i`-th record of a reply. -/
def encodePlain (env : ReplyEnv) (i : Nat) (e : E) (encode : PooledBuffer) (src : Bytes) :
    SessionRes (Nat × Nat) × E × PooledBuffer :=
  encodeRecord encodeTurns e encode (.stream src.length) (env.clock i) (env.sealing i) (fillPlain src)

namespace Outgoing

/-- The loop of `write_plain_records`. Each turn takes at least one byte of
`src`, so `fuel` is its length. -/
def writeRecords (timed : Bool) (env : ReplyEnv) (fuel i : Nat) (x : Outgoing E) (encode : PooledBuffer) (src : Bytes) :
    Ended Unit × Outgoing E :=
  if src = [] then (.returned (.ok ()), x)
  else
    match fuel with
    | 0 => (.returned (.error .diverged), x)
    | fuel + 1 =>
      match encodePlain env i x.encoder encode src with
      | (.error f, encoder, _) => (.returned (.error f), { x with encoder })
      | (.ok (take, split), encoder, encode) =>
        Ended.andThen (drainEncode timed { x with encoder } encode split) fun encode x =>
          writeRecords timed env fuel (i + 1) x encode (src.drop take)

def writePlainRecords (timed : Bool) (env : ReplyEnv) (x : Outgoing E) (src : Bytes) : Ended Unit × Outgoing E :=
  match PooledBuffer.get v6WireCap env.popped env.scans with
  | .error f => (.returned (.error f.inSession), x)
  | .ok encode => writeRecords timed env src.length 0 x encode src

def writeTunnel (timed : Bool) (env : ReplyEnv) (x : Outgoing E) : Ended Unit × Outgoing E :=
  match encodeTunnelReply (List.replicate 1 0) with
  | .error f => (.returned (.error f.inSession), x)
  | .ok (n, buf) => writePlainRecords timed env x (buf.take n)

def writeReject (timed : Bool) (env : ReplyEnv) (x : Outgoing E) (message : Str) : Ended Unit × Outgoing E :=
  match encodeReject (List.replicate (3 + 255) 0) message with
  | .error f => (.returned (.error f.inSession), x)
  | .ok (n, buf) => writePlainRecords timed env x (buf.take n)

end Outgoing

end Reply

/-! ## Opening the remote -/

/-- `outbound.connect`: at each poll that is pending, whether the deadline has
passed; then what it returns, if it ever does. -/
structure Dial (R : Type) where
  polls : List Bool
  result : Option (Except SessionError R)

/-- The dial, under the deadline. -/
def Dial.run {R : Type} (dial : Dial R) : Ended R :=
  if dial.polls.any id then .expired
  else
    match dial.result with
    | none => .stalled
    | some (.error error) => .returned (.error (.err error))
    | some (.ok remote) => .returned (.ok remote)

/-- What the environment answers to `open_remote`. `forward` is how writing the
early payload to the remote ends, if it does; `describe` the text of an error. -/
structure OpenEnv (R : Type) where
  dial : Dial R
  tunnel : ReplyEnv
  reject : ReplyEnv
  forward : Option (Except IoErrorKind Unit)
  describe : SessionError → Str

namespace Outgoing

variable {E R : Type} [RecordEncoder E]

/-- What the deadline bounds: the dial and the Tunnel reply. -/
def openTimed (env : OpenEnv R) (x : Outgoing E) : Ended R × Outgoing E :=
  Ended.andThen (env.dial.run, x) fun remote x =>
    Ended.andThen (writeTunnel true env.tunnel x) fun _ x => (.returned (.ok remote), x)

/-- The rejection's own errors are ignored. -/
def answerError (env : OpenEnv R) (x : Outgoing E) (error : SessionError) : Ended R × Outgoing E :=
  match writeReject false env.reject x (env.describe error) with
  | (.stalled, x) => (.stalled, x)
  | (.returned (.error .panic), x) => (.returned (.error .panic), x)
  | (.returned (.error .diverged), x) => (.returned (.error .diverged), x)
  | (_, x) => (.returned (.error (.err error)), x)

/-- `open_remote` -/
def openRemote (env : OpenEnv R) (x : Outgoing E) (earlyPayload : Bytes) : Ended R × Outgoing E :=
  match openTimed env x with
  | (.returned (.ok remote), x) =>
    if earlyPayload = [] then (.returned (.ok remote), x)
    else
      match env.forward with
      | none => (.stalled, x)
      | some (.error kind) => (.returned (.error (.err (.io kind))), x)
      | some (.ok ()) => (.returned (.ok remote), x)
  | (.returned (.error (.err error)), x) => answerError env x error
  | (.expired, x) => answerError env x .handshakeTimeout
  | (.returned (.error f), x) => (.returned (.error f), x)
  | (.stalled, x) => (.stalled, x)

end Outgoing

/-! ## What one reply is on the wire -/

section Wire

variable {E : Type} [RecordEncoder E]

/-- The records of `src`, one after the other. -/
def recordsWire (env : ReplyEnv) (fuel i : Nat) (e : E) (encode : PooledBuffer) (src : Bytes) : Bytes :=
  if src = [] then []
  else
    match fuel with
    | 0 => []
    | fuel + 1 =>
      match encodePlain env i e encode src with
      | (.error _, _, _) => []
      | (.ok (take, split), e, encode) =>
        if encode.buffer.filled.length < split then []
        else
          match drained encode with
          | .error _ => rotate split encode.buffer.filled
          | .ok encode' =>
            rotate split encode.buffer.filled ++ recordsWire env fuel (i + 1) e encode' (src.drop take)

/-- The encoding of a plaintext by an encoder. -/
def plainWire (env : ReplyEnv) (e : E) (src : Bytes) : Bytes :=
  match PooledBuffer.get v6WireCap env.popped env.scans with
  | .error _ => []
  | .ok encode => recordsWire env src.length 0 e encode src

def tunnelWire (env : ReplyEnv) (e : E) : Bytes := plainWire env e [commandTunnel]

def rejectWire (env : ReplyEnv) (e : E) (message : Str) : Bytes :=
  match encodeReject (List.replicate (3 + 255) 0) message with
  | .error _ => []
  | .ok (n, buf) => plainWire env e (buf.take n)

/-- The encoder has sealed nothing: it is as it was, or as a Tunnel record that
could not be encoded left it. -/
def Unused (env : ReplyEnv) (e e' : E) : Prop :=
  e' = e ∨ ∃ encode f encode', PooledBuffer.get v6WireCap env.popped env.scans = .ok encode ∧
    encodePlain env 0 e encode [commandTunnel] = (.error f, e', encode')

/-- `bytes` begin one reply: the Tunnel record, or the rejection with the error
that opening ended with. -/
def SingleReply {R : Type} (env : OpenEnv R) (x : Outgoing E) (bytes : Bytes) : Prop :=
  bytes <+: tunnelWire env.tunnel x.encoder ∨
    ∃ error e', (x.openTimed env).1.failure = some error ∧ Unused env.tunnel x.encoder e' ∧
      bytes <+: rejectWire env.reject e' (env.describe error)

end Wire

/-! ## What is written -/

namespace SnellStream

/-- After `written`, a front of `bytes` was written, and all of them if `whole`. -/
def Wrote (written bytes : Bytes) (s : SnellStream) (whole : Prop) : Prop :=
  ∃ p, s.written = written ++ p ∧ p <+: bytes ∧ (whole → p = bytes)

theorem Wrote.nothing {written bytes : Bytes} {s : SnellStream} {whole : Prop} (hs : s.written = written) (h : ¬ whole) :
    Wrote written bytes s whole :=
  ⟨[], by rw [hs, List.append_nil], List.nil_prefix, fun hw => absurd hw h⟩

/-- What was taken, and what is left, make up what was offered. -/
theorem writeAllBuf_wrote (timed : Bool) (written : Bytes) (polls : List WritePoll) (bytes : Bytes) :
    Wrote written bytes (writeAllBuf timed written polls bytes).2
      ((writeAllBuf timed written polls bytes).1 = .returned (.ok ())) := by
  induction polls generalizing written bytes with
  | nil =>
    cases bytes with
    | nil => exact ⟨[], (List.append_nil _).symm, List.nil_prefix, fun _ => rfl⟩
    | cons b bytes => exact Wrote.nothing rfl fun h => by cases h
  | cons poll polls ih =>
    cases bytes with
    | nil => exact ⟨[], by simp [writeAllBuf], List.nil_prefix, fun _ => rfl⟩
    | cons b bytes =>
      cases poll with
      | pending expired =>
        rw [writeAllBuf]
        split
        · exact Wrote.nothing rfl fun h => by cases h
        · exact ih written (b :: bytes)
      | failed kind => exact Wrote.nothing rfl fun h => by cases h
      | took n =>
        rw [writeAllBuf]
        split
        · exact Wrote.nothing rfl fun h => by cases h
        split
        · exact Wrote.nothing rfl fun h => by cases h
        · obtain ⟨p, hw, hp, hall⟩ := ih (written ++ (b :: bytes).take n) ((b :: bytes).drop n)
          refine ⟨(b :: bytes).take n ++ p, by rw [hw, List.append_assoc], ?_, fun h => ?_⟩
          · have h := (List.prefix_append_right_inj ((b :: bytes).take n)).mpr hp
            rwa [List.take_append_drop] at h
          · rw [hall h, List.take_append_drop]

/-- The stream takes the next `n` bytes with no failure and before the
deadline, or it never answers. -/
def Carries : List WritePoll → Nat → Prop
  | _, 0 => True
  | [], _ => True
  | .pending expired :: polls, n => expired = false ∧ Carries polls n
  | .failed _ :: _, _ => False
  | .took k :: polls, n => 0 < k ∧ k ≤ n ∧ Carries polls (n - k)

theorem writeAllBuf_carried (written : Bytes) {polls : List WritePoll} {bytes : Bytes} (h : Carries polls bytes.length) :
    (writeAllBuf true written polls bytes).1 = .returned (.ok ()) ∨
    (writeAllBuf true written polls bytes).1 = .stalled := by
  induction polls generalizing written bytes with
  | nil =>
    cases bytes with
    | nil => exact .inl rfl
    | cons b bytes => exact .inr rfl
  | cons poll polls ih =>
    cases bytes with
    | nil => exact .inl (by simp [writeAllBuf])
    | cons b bytes =>
      cases poll with
      | pending expired =>
        obtain ⟨rfl, h⟩ := h
        exact ih written h
      | failed kind => exact h.elim
      | took n =>
        obtain ⟨hpos, hle, h⟩ := h
        rw [writeAllBuf, if_neg (by omega), if_neg (by omega)]
        exact ih _ (by rw [List.length_drop]; exact h)

end SnellStream

section Records

variable {E : Type} [RecordEncoder E]

theorem drained_ok (encode : PooledBuffer) : ∃ encode', drained encode = .ok encode' := by
  obtain ⟨buffer, hconsume⟩ := Buffer.consume_fits (b := encode.buffer) (Nat.le_refl _)
  exact ⟨PooledBuffer.releaseEmpty { encode with buffer }, by simp only [drained, hconsume]⟩

namespace Outgoing

/-- A run of the loop writes a front of the records. -/
theorem writeRecords_wrote (timed : Bool) (env : ReplyEnv) (fuel i : Nat) (x : Outgoing E) (encode : PooledBuffer)
    (src : Bytes) :
    SnellStream.Wrote x.stream.written (recordsWire env fuel i x.encoder encode src)
      (writeRecords timed env fuel i x encode src).2.stream
      ((writeRecords timed env fuel i x encode src).1 = .returned (.ok ())) := by
  induction fuel generalizing i x encode src with
  | zero =>
    unfold writeRecords recordsWire
    by_cases hsrc : src = []
    · simp only [if_pos hsrc]
      exact ⟨[], (List.append_nil _).symm, List.nil_prefix, fun _ => rfl⟩
    · simp only [if_neg hsrc]
      exact .nothing rfl fun h => by cases h
  | succ fuel ih =>
    unfold writeRecords recordsWire
    by_cases hsrc : src = []
    · simp only [if_pos hsrc]
      exact ⟨[], (List.append_nil _).symm, List.nil_prefix, fun _ => rfl⟩
    simp only [if_neg hsrc]
    rcases encodePlain env i x.encoder encode src with ⟨_ | ⟨take, split⟩, e, encode₁⟩
    · exact .nothing rfl fun h => by cases h
    by_cases hsplit : encode₁.buffer.filled.length < split
    · simp only [drainEncode, if_pos hsplit, Ended.andThen]
      exact .nothing rfl fun h => by cases h
    obtain ⟨encode₂, hd⟩ := drained_ok encode₁
    obtain ⟨p, hw, hp, hall⟩ :=
      SnellStream.writeAllBuf_wrote timed x.stream.written x.stream.polls (rotate split encode₁.buffer.filled)
    simp only [drainEncode, if_neg hsplit, hd]
    generalize SnellStream.writeAllBuf timed x.stream.written x.stream.polls
      (rotate split encode₁.buffer.filled) = r at hw hall ⊢
    have hfront := hp.trans (List.prefix_append _ (recordsWire env fuel (i + 1) e encode₂ (src.drop take)))
    obtain ⟨(f | u) | _ | _, stream⟩ := r
    · exact ⟨p, hw, hfront, fun h => by cases h⟩
    · -- this record is out, and the loop goes on behind it
      obtain rfl : p = rotate split encode₁.buffer.filled := hall rfl
      obtain ⟨p', hw', hp', hall'⟩ := ih (i + 1) ⟨e, stream⟩ encode₂ (src.drop take)
      refine ⟨rotate split encode₁.buffer.filled ++ p', ?_, ?_, fun h => ?_⟩
      · rw [← List.append_assoc, ← hw]; exact hw'
      · exact (List.prefix_append_right_inj _).mpr hp'
      · rw [hall' h]
    · exact ⟨p, hw, hfront, fun h => by cases h⟩
    · exact ⟨p, hw, hfront, fun h => by cases h⟩

theorem writePlainRecords_wrote (timed : Bool) (env : ReplyEnv) (x : Outgoing E) (src : Bytes) :
    SnellStream.Wrote x.stream.written (plainWire env x.encoder src) (writePlainRecords timed env x src).2.stream
      ((writePlainRecords timed env x src).1 = .returned (.ok ())) := by
  unfold writePlainRecords plainWire
  rw [PooledBuffer.get_ok]
  exact writeRecords_wrote timed env src.length 0 x _ src

theorem writeReject_wrote (timed : Bool) (env : ReplyEnv) (x : Outgoing E) (message : Str) :
    ∃ p, (writeReject timed env x message).2.stream.written = x.stream.written ++ p ∧
      p <+: rejectWire env x.encoder message := by
  unfold writeReject rejectWire
  split
  · exact ⟨[], (List.append_nil _).symm, List.nil_prefix⟩
  · next n buf _ =>
    obtain ⟨p, hw, hp, -⟩ := writePlainRecords_wrote timed env x (buf.take n)
    exact ⟨p, hw, hp⟩

end Outgoing

/-- What was sealed is as much as `fill` put there. -/
theorem encodeRecord_filled {fuel n split : Nat} {e e' : E} {encode encode' : PooledBuffer} {size : RecordSize}
    {clock : Nat → Nat} {env : SealEnv} {fill : Bytes → Res (Nat × Bytes)}
    (h : encodeRecord fuel e encode size clock env fill = (.ok (n, split), e', encode')) :
    ∃ slot region, fill slot = .ok (n, region) := by
  induction fuel generalizing e encode clock with
  | zero => cases h
  | succ fuel ih =>
    unfold encodeRecord at h
    split at h
    · split at h
      · cases h
      · exact ih h
    · cases h
    · unfold fillAndSeal at h
      simp only at h
      split at h
      · cases h
      · split at h
        · cases h
        · next region _ _ n' region' hfill =>
          split at h
          · cases h; exact ⟨_, _, hfill⟩
          · cases h

theorem fillPlain_pos {src slot region : Bytes} {n : Nat} (h : fillPlain src slot = .ok (n, region)) : 0 < n := by
  unfold fillPlain at h
  simp only at h
  split at h
  · cases h
  · cases h; omega

/-! ## The Tunnel reply is one record -/

section Tunnel

variable {env : ReplyEnv} {e e' : E} {encode : PooledBuffer} {take split : Nat}

/-- The lease a reply starts with. -/
def ReplyEnv.lease (env : ReplyEnv) : PooledBuffer := ⟨⟨[], env.popped, 0, v6WireCap⟩, env.scans⟩

theorem encodePlain_rest (h : encodePlain env 0 e env.lease [commandTunnel] = (.ok (take, split), e', encode)) :
    [commandTunnel].drop take = [] := by
  obtain ⟨slot, region, hfill⟩ := encodeRecord_filled h
  have hpos := fillPlain_pos hfill
  exact List.drop_eq_nil_of_le hpos

theorem tunnelWire_sealed (h : encodePlain env 0 e env.lease [commandTunnel] = (.ok (take, split), e', encode))
    (hsplit : ¬ encode.buffer.filled.length < split) : tunnelWire env e = rotate split encode.buffer.filled := by
  obtain ⟨encode', hd⟩ := drained_ok encode
  have hget := PooledBuffer.get_ok v6WireCap env.popped env.scans
  have hnil : recordsWire env 0 1 e' encode' ([commandTunnel].drop take) = [] := by
    rw [encodePlain_rest h, recordsWire, if_pos rfl]
  unfold tunnelWire plainWire
  rw [hget]
  show recordsWire env 1 0 e env.lease [commandTunnel] = _
  rw [recordsWire, if_neg (List.cons_ne_nil _ _)]
  simp only [h, if_neg hsplit, hd, hnil, List.append_nil]

namespace Outgoing

theorem writeTunnel_start (timed : Bool) (env : ReplyEnv) (x : Outgoing E) :
    writeTunnel timed env x = writeRecords timed env 1 0 x env.lease [commandTunnel] := by
  have hget := PooledBuffer.get_ok v6WireCap env.popped env.scans
  show writePlainRecords timed env x [commandTunnel] = _
  rw [writePlainRecords, hget]
  rfl

theorem writeTunnel_refused {x : Outgoing E} {f : SessionFault} (timed : Bool)
    (h : encodePlain env 0 x.encoder env.lease [commandTunnel] = (.error f, e', encode)) :
    writeTunnel timed env x = (.returned (.error f), ⟨e', x.stream⟩) := by
  rw [writeTunnel_start, writeRecords, if_neg (List.cons_ne_nil _ _)]
  simp only [h]

theorem writeTunnel_sealed {x : Outgoing E} (timed : Bool)
    (h : encodePlain env 0 x.encoder env.lease [commandTunnel] = (.ok (take, split), e', encode)) :
    writeTunnel timed env x =
      Ended.andThen (drainEncode timed ⟨e', x.stream⟩ encode split) fun _ x => (.returned (.ok ()), x) := by
  rw [writeTunnel_start, writeRecords, if_neg (List.cons_ne_nil _ _)]
  simp only [h, encodePlain_rest h, writeRecords, if_true]

/-- A Tunnel reply that the stream carries does not fail, unless it could not
be encoded. -/
theorem writeTunnel_carried (env : ReplyEnv) (x : Outgoing E)
    (h : SnellStream.Carries x.stream.polls (tunnelWire env x.encoder).length) :
    (writeTunnel true env x).1.failure = none ∨
      Unused env x.encoder (writeTunnel true env x).2.encoder ∧ (writeTunnel true env x).2.stream = x.stream := by
  rcases hplain : encodePlain env 0 x.encoder env.lease [commandTunnel] with ⟨f | ⟨take, split⟩, e', encode⟩
  · rw [writeTunnel_refused true hplain]
    exact .inr ⟨.inr ⟨env.lease, f, encode, PooledBuffer.get_ok v6WireCap env.popped env.scans, hplain⟩, rfl⟩
  · rw [writeTunnel_sealed true hplain]
    left
    by_cases hsplit : encode.buffer.filled.length < split
    · rw [drainEncode, if_pos hsplit]
      rfl
    · rw [tunnelWire_sealed hplain hsplit] at h
      obtain ⟨encode', hd⟩ := drained_ok encode
      rw [drainEncode, if_neg hsplit, hd]
      obtain hw | hw := SnellStream.writeAllBuf_carried x.stream.written h
      · simp only [hw, Ended.followed, Ended.andThen, Ended.failure]
      · simp only [hw, Ended.followed, Ended.andThen, Ended.failure]

end Outgoing

end Tunnel

end Records

/-! ## One reply -/

namespace Outgoing

variable {E R : Type} [RecordEncoder E]

/-- The deadline does not pass while the Tunnel record is on its way, and the
stream does not fail then. -/
def Undisturbed (env : OpenEnv R) (x : Outgoing E) : Prop :=
  ∀ remote, env.dial.run = .returned (.ok remote) →
    SnellStream.Carries x.stream.polls (tunnelWire env.tunnel x.encoder).length

theorem answerError_wrote (env : OpenEnv R) (x : Outgoing E) (error : SessionError) :
    ∃ p, (answerError env x error).2.stream.written = x.stream.written ++ p ∧
      p <+: rejectWire env.reject x.encoder (env.describe error) := by
  have hsame : (answerError env x error).2 = (writeReject false env.reject x (env.describe error)).2 := by
    unfold answerError
    split
    · next heq => rw [heq]
    · next heq => rw [heq]
    · next heq => rw [heq]
    · next heq => rw [heq]
  rw [hsame]
  exact writeReject_wrote false env.reject x (env.describe error)

theorem openRemote_opened {env : OpenEnv R} {x : Outgoing E} (earlyPayload : Bytes)
    (h : (openTimed env x).1.failure = none) : (openRemote env x earlyPayload).2 = (openTimed env x).2 := by
  unfold openRemote
  split
  · next remote x' heq =>
    rw [heq]
    by_cases hearly : earlyPayload = []
    · rw [if_pos hearly]
    · rw [if_neg hearly]
      split <;> rfl
  · next heq => rw [heq] at h; cases h
  · next heq => rw [heq] at h; cases h
  · next heq => rw [heq]
  · next heq => rw [heq]

theorem openRemote_failed {env : OpenEnv R} {x : Outgoing E} (earlyPayload : Bytes) {error : SessionError}
    (h : (openTimed env x).1.failure = some error) :
    openRemote env x earlyPayload = answerError env (openTimed env x).2 error := by
  unfold openRemote
  split
  · next heq => rw [heq] at h; cases h
  · next heq => rw [heq] at h ⊢; cases h; rfl
  · next heq => rw [heq] at h ⊢; cases h; rfl
  · next f _ hf heq =>
    rw [heq] at h
    cases f with
    | err e => exact absurd rfl (hf e)
    | panic | diverged => cases h
  · next heq => rw [heq] at h; cases h

/-- What the deadline bounds writes a front of the Tunnel record, and fails
only where it sealed none. -/
theorem openTimed_undisturbed {env : OpenEnv R} {x : Outgoing E} (h : Undisturbed env x) :
    (∃ p, (openTimed env x).2.stream.written = x.stream.written ++ p ∧ p <+: tunnelWire env.tunnel x.encoder) ∧
      ((openTimed env x).1.failure = none ∨
        Unused env.tunnel x.encoder (openTimed env x).2.encoder ∧ (openTimed env x).2.stream = x.stream) := by
  have hnothing : ∃ p, x.stream.written = x.stream.written ++ p ∧ p <+: tunnelWire env.tunnel x.encoder :=
    ⟨[], (List.append_nil _).symm, List.nil_prefix⟩
  unfold openTimed
  rcases hdial : env.dial.run with (f | remote) | _ | _
  · exact ⟨hnothing, .inr ⟨.inl rfl, rfl⟩⟩
  · simp only [Ended.andThen]
    obtain ⟨p, hw, hp, -⟩ := writePlainRecords_wrote true env.tunnel x [commandTunnel]
    have hfails := writeTunnel_carried env.tunnel x (h remote hdial)
    change (writeTunnel true env.tunnel x).2.stream.written = _ at hw
    generalize writeTunnel true env.tunnel x = r at hw hfails
    obtain ⟨(f | u) | _ | _, x'⟩ := r
    · refine ⟨⟨p, hw, hp⟩, hfails.imp_left fun hnone => ?_⟩
      cases f with
      | err error => cases hnone
      | panic | diverged => rfl
    · exact ⟨⟨p, hw, hp⟩, .inl rfl⟩
    · exact ⟨⟨p, hw, hp⟩, hfails.imp_left fun hnone => by cases hnone⟩
    · exact ⟨⟨p, hw, hp⟩, .inl rfl⟩
  · exact ⟨hnothing, .inr ⟨.inl rfl, rfl⟩⟩
  · exact ⟨hnothing, .inr ⟨.inl rfl, rfl⟩⟩

/-- **One reply to a CONNECT**, as long as nothing cuts the Tunnel record. -/
theorem open_remote_single_reply (env : OpenEnv R) (e : E) (polls : List WritePoll) (earlyPayload : Bytes)
    (h : Undisturbed env ⟨e, ⟨[], polls⟩⟩) :
    SingleReply env ⟨e, ⟨[], polls⟩⟩ (openRemote env ⟨e, ⟨[], polls⟩⟩ earlyPayload).2.stream.written := by
  obtain ⟨⟨p, hw, hp⟩, hfails⟩ := openTimed_undisturbed h
  cases hfailure : (openTimed env ⟨e, ⟨[], polls⟩⟩).1.failure with
  | none =>
    rw [openRemote_opened earlyPayload hfailure, hw]
    exact .inl hp
  | some error =>
    obtain ⟨hunused, hstream⟩ := hfails.resolve_left (by rw [hfailure]; exact Option.some_ne_none _)
    obtain ⟨p', hw', hp'⟩ := answerError_wrote env (openTimed env ⟨e, ⟨[], polls⟩⟩).2 error
    rw [openRemote_failed earlyPayload hfailure, hw', hstream]
    exact .inr ⟨error, _, hfailure, hunused, hp'⟩

/-- An unshaped v6 session before its first record. -/
def freshEncoder : V6UnshapedEncoder Crypto.transparent := ⟨(), Nonce.new, .replicate saltLen 1, false, .ready⟩

/-- The dial succeeds at once; the text is that of `HandshakeTimeout`. -/
def dialedEnv : OpenEnv Nat where
  dial := ⟨[], some (.ok 7)⟩
  tunnel := ⟨[], [], fun _ _ => 0, fun _ => ⟨0, false, false, 0⟩⟩
  reject := ⟨[], [], fun _ _ => 0, fun _ => ⟨0, false, false, 0⟩⟩
  forward := none
  describe _ := ⟨[104, 97, 110, 100, 115, 104, 97, 107, 101, 32, 116, 105, 109, 101, 100, 32, 111, 117, 116], by decide⟩

/-- The stream takes 20 bytes of the Tunnel record, is pending, and takes the rest. -/
theorem open_remote_single_reply_slow :
    Undisturbed dialedEnv ⟨freshEncoder, ⟨[], [.took 20, .pending false, .took 36]⟩⟩ ∧
      SingleReply dialedEnv ⟨freshEncoder, ⟨[], [.took 20, .pending false, .took 36]⟩⟩
        (openRemote dialedEnv ⟨freshEncoder, ⟨[], [.took 20, .pending false, .took 36]⟩⟩ []).2.stream.written := by
  have hlength : (tunnelWire dialedEnv.tunnel freshEncoder).length = 56 := by decide +kernel
  have hcarried : Undisturbed dialedEnv ⟨freshEncoder, ⟨[], [.took 20, .pending false, .took 36]⟩⟩ := by
    intro remote _
    show SnellStream.Carries _ (tunnelWire dialedEnv.tunnel freshEncoder).length
    rw [hlength]
    exact ⟨by decide, by decide, rfl, by decide, by decide, trivial⟩
  exact ⟨hcarried, open_remote_single_reply dialedEnv freshEncoder _ [] hcarried⟩

/-- The stream takes 20 bytes of the Tunnel record and is pending when the
deadline passes; then it takes 7 bytes of the rejection. -/
def cut : Outgoing (V6UnshapedEncoder Crypto.transparent) := ⟨freshEncoder, ⟨[], [.took 20, .pending true, .took 7]⟩⟩

theorem open_remote_rejects_after_tunnel :
    (openRemote dialedEnv cut []).2.stream.written.take 20 = (tunnelWire dialedEnv.tunnel freshEncoder).take 20 ∧
      (openRemote dialedEnv cut []).2.stream.written.length = 27 ∧
      ¬ SingleReply dialedEnv cut (openRemote dialedEnv cut []).2.stream.written := by
  refine ⟨by decide +kernel, by decide +kernel, ?_⟩
  rintro (htunnel | ⟨error, e', hfailure, hunused, hreject⟩)
  · revert htunnel
    decide +kernel
  · have hexpired : (openTimed dialedEnv cut).1.failure = some .handshakeTimeout := by decide +kernel
    obtain rfl : e' = freshEncoder := by
      rcases hunused with rfl | ⟨encode, f, encode', hget, hplain⟩
      · rfl
      · -- the Tunnel record was encoded
        rw [PooledBuffer.get_ok] at hget
        cases hget
        have hsealed :
            (encodePlain dialedEnv.tunnel 0 freshEncoder dialedEnv.tunnel.lease [commandTunnel]).1.isOk = true := by
          decide +kernel
        have hrefused := congrArg (fun r => r.1.isOk) hplain
        cases hsealed.symm.trans hrefused
    revert hreject
    cases hexpired.symm.trans hfailure
    decide +kernel

end Outgoing

end Snell
