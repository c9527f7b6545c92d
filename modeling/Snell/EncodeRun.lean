/-
Runs of a record encoder: what a caller can do with it, one reservation
after another, each in a buffer of its own choice. The encoder keeps no
reference to the buffer between reservations.
-/
import Snell.Record
import Snell.BufferFacts

namespace Snell

open RecordEncoder

/-- A write to the payload of an open reservation. -/
inductive Access where
  | payloadMut (data : Bytes)
  | payloadUninit (data : Bytes)
  deriving DecidableEq

/-- How a reservation ends. `forget` is `mem::forget`: no destructor runs. -/
inductive Close where
  | sealMut (written : Nat) (env : SealEnv)
  | sealInit (written : Nat) (env : SealEnv)
  | drop
  | forget
  deriving DecidableEq

/-- One reservation from `reserve` to its end. -/
structure RecordOp where
  buf : Buffer
  wf : buf.Wf
  pfx : Bytes
  size : RecordSize
  now : Nat
  accesses : List Access
  close : Close

/-- What came of it. `sealed` carries the payload, the prefix and the caller's
bytes as they were in the buffer when the record was sealed, and the record's
bytes in the order they are sent. -/
inductive Outcome where
  | sealed (payload wire : Bytes)
  | failed (f : Fault)
  | dropped
  | forgotten

namespace Slot

def access (slot : Slot) (b : Buffer) : Access → Res Buffer
  | .payloadMut data => slot.payloadMut b data
  | .payloadUninit data => slot.payloadUninit b data

def accesses (slot : Slot) (b : Buffer) (as : List Access) : Res Buffer := as.foldlM slot.access b

/-- The caller's first `n` bytes, behind the prefix. -/
def written (slot : Slot) (b : Buffer) (n : Nat) : Bytes := (b.storage.drop slot.unwrittenStart).take n

end Slot

/-- A record's bytes as they are sent: `[split..]`, then `[..split]`. -/
def rotate (split : Nat) (record : Bytes) : Bytes := record.drop split ++ record.take split

theorem rotate_append {split : Nat} {x y : Bytes} (h : x.length = split) : rotate split (x ++ y) = y ++ x := by
  rw [rotate, List.drop_left' h, List.take_left' h]

theorem rotate_zero (record : Bytes) : rotate 0 record = record := by
  rw [rotate, List.drop_zero, List.take_zero, List.append_nil]

variable {E : Type} [RecordEncoder E]

/-- The outcome of a seal that appended to the `live` bytes before it. -/
def sealOutcome (live : Nat) (payload : Bytes) (r : Res Nat × E × Buffer) : Outcome × E × Buffer :=
  match r with
  | (.ok split, e, b) => (.sealed payload (rotate split (b.filled.drop live)), e, b)
  | (.error f, e, b) => (.failed f, e, b)

/-- End an open reservation. -/
def Close.run (close : Close) (live : Nat) (pfx : Bytes) (e : E) (b : Buffer) (slot : Slot) (record : Record E) :
    Outcome × E × Buffer :=
  match close with
  | .sealMut written env =>
    sealOutcome live (pfx ++ slot.written b written) (Reservation.sealMut e b slot record written env)
  | .sealInit written env =>
    -- the caller's bytes are still behind the committed ones
    sealOutcome live (pfx ++ slot.written { b with storage := b.storage ++ b.spare } written)
      (Reservation.sealInit e b slot record written env)
  | .drop => (.dropped, Reservation.cancel e b slot)
  | .forget => (.forgotten, e, b)

def RecordOp.run (op : RecordOp) (e : E) : Outcome × E × Buffer :=
  match reserve e op.buf op.pfx op.size op.now with
  | (.error f, e, b) => (.failed f, e, b)
  | (.ok (slot, record), e, b) =>
    match slot.accesses b op.accesses with
    | .error f => (.failed f, Reservation.cancel e b slot)
    | .ok b => op.close.run op.buf.len op.pfx e b slot record

/-! ## In a buffer the caller keeps -/

/-- One reservation from `reserve` to its end, wherever it is made. -/
structure Attempt where
  pfx : Bytes
  size : RecordSize
  now : Nat
  accesses : List Access
  close : Close
  deriving DecidableEq

/-- What came of it: `reserve` refused, or a reservation that offered
`capacity` bytes was sealed, failed to, or was given up. A forgotten one leaves
its bytes in the buffer. -/
inductive Attempted where
  | refused (f : Fault)
  | sealed (capacity : Nat) (payload : Bytes) (split : Nat) (record : Bytes)
  | failed (capacity : Nat) (f : Fault)
  | dropped (capacity : Nat)
  | forgotten (capacity : Nat) (left : Bytes)
  deriving DecidableEq, Repr

namespace Attempted

/-- The bytes it added to the buffer. -/
def left : Attempted → Bytes
  | .sealed _ _ _ record => record
  | .forgotten _ left => left
  | _ => []

def outcome : Attempted → Outcome
  | .refused f => .failed f
  | .sealed _ payload split record => .sealed payload (rotate split record)
  | .failed _ f => .failed f
  | .dropped _ => .dropped
  | .forgotten _ _ => .forgotten

/-- The capacity offered, if `reserve` succeeded. -/
def offered : Attempted → Option Nat
  | .refused _ => none
  | .sealed capacity _ _ _ | .failed capacity _ | .dropped capacity | .forgotten capacity _ => some capacity

/-- `reserve` returned an error, or the reservation was dropped unsealed. -/
def deleted : Attempted → Bool
  | .refused _ | .dropped _ => true
  | _ => false

def isSealed : Attempted → Bool
  | .sealed _ _ _ _ => true
  | _ => false

/-- Whether the caller goes on after it. -/
def returns : Attempted → Bool
  | .refused (.err _) => true
  | .refused _ => false
  | .failed _ (.err _) => true
  | .failed _ _ => false
  | _ => true

end Attempted

/-- A seal that appended to the `live` bytes before it. -/
def sealAttempted (capacity live : Nat) (payload : Bytes) (r : Res Nat × E × Buffer) : Attempted × E × Buffer :=
  match r with
  | (.ok split, e, b) => (.sealed capacity payload split (b.filled.drop live), e, b)
  | (.error f, e, b) => (.failed capacity f, e, b)

/-- `Close.run`, with all that came of it. -/
def Close.attempt (close : Close) (live : Nat) (pfx : Bytes) (e : E) (b : Buffer) (slot : Slot) (record : Record E) :
    Attempted × E × Buffer :=
  match close with
  | .sealMut written env =>
    sealAttempted slot.capacity live (pfx ++ slot.written b written) (Reservation.sealMut e b slot record written env)
  | .sealInit written env =>
    sealAttempted slot.capacity live (pfx ++ slot.written { b with storage := b.storage ++ b.spare } written)
      (Reservation.sealInit e b slot record written env)
  | .drop => (.dropped slot.capacity, Reservation.cancel e b slot)
  | .forget => (.forgotten slot.capacity (b.filled.drop live), e, b)

def Attempt.run (a : Attempt) (e : E) (b : Buffer) : Attempted × E × Buffer :=
  match reserve e b a.pfx a.size a.now with
  | (.error f, e, b) => (.refused f, e, b)
  | (.ok (slot, record), e, b₁) =>
    match slot.accesses b₁ a.accesses with
    | .error f => (.failed slot.capacity f, Reservation.cancel e b₁ slot)
    | .ok b₂ => a.close.attempt b.len a.pfx e b₂ slot record

def RecordOp.attempt (op : RecordOp) : Attempt := ⟨op.pfx, op.size, op.now, op.accesses, op.close⟩

omit [RecordEncoder E] in
theorem sealOutcome_eq (capacity live : Nat) (payload : Bytes) (r : Res Nat × E × Buffer) :
    sealOutcome live payload r =
      ((sealAttempted capacity live payload r).1.outcome, (sealAttempted capacity live payload r).2) := by
  obtain ⟨r, e, b⟩ := r
  cases r <;> rfl

/-- A record operation is an attempt in its own buffer. -/
theorem RecordOp.run_eq (op : RecordOp) (e : E) :
    op.run e = ((op.attempt.run e op.buf).1.outcome, (op.attempt.run e op.buf).2) := by
  unfold RecordOp.run Attempt.run
  simp only [RecordOp.attempt]
  rcases reserve e op.buf op.pfx op.size op.now with ⟨r, e₁, b₁⟩
  cases r with
  | error f => rfl
  | ok r =>
    obtain ⟨slot, record⟩ := r
    simp only
    cases slot.accesses b₁ op.accesses with
    | error f => rfl
    | ok b₂ =>
      simp only
      cases op.close with
      | sealMut n env => exact sealOutcome_eq _ _ _ _
      | sealInit n env => exact sealOutcome_eq _ _ _ _
      | drop => rfl
      | forget => rfl

/-! ## A run -/

/-- Whether the caller goes on after an outcome: an error is returned to it,
a panic or a call that never returns is not. -/
def Outcome.returns : Outcome → Bool
  | .failed (.err _) => true
  | .failed _ => false
  | _ => true

/-- The records sealed, payload and wire, in order, and the encoder after. -/
def encodeRun (e : E) : List RecordOp → List (Bytes × Bytes) × E
  | [] => ([], e)
  | op :: ops =>
    match op.run e with
    | (.sealed payload wire, e', _) =>
      let r := encodeRun e' ops
      ((payload, wire) :: r.1, r.2)
    | (o, e', _) => if o.returns then encodeRun e' ops else ([], e')

/-- The bytes sent for them. -/
def wireOf (records : List (Bytes × Bytes)) : Bytes := (records.map Prod.snd).flatten

end Snell
