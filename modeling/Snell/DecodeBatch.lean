/-
`DecodeBatch` of `snell-runtime/src/session.rs`: records decoded ahead in the
receive buffer. They are written with one vectored write and then consumed in
order; offsets are kept as `u32`.
-/
import Snell.PooledBuffer
import Snell.Receiving
import Snell.Sockets

namespace Snell

open RecordDecoder StagedDecoder

def writeBatchMax : Nat := 16

/-- A `DecodedRecord` at half the size. -/
structure BatchedRecord where
  plaintextStart : UInt32
  plaintextEnd : UInt32
  consumed : UInt32
  kind : RecordKind
  deriving DecidableEq, Repr

namespace BatchedRecord

def ofDecoded (r : DecodedRecord) : BatchedRecord :=
  ⟨.ofNat r.plaintextStart, .ofNat r.plaintextEnd, .ofNat r.consumed, r.kind⟩

def decoded (r : BatchedRecord) : DecodedRecord :=
  ⟨r.consumed.toNat, r.plaintextStart.toNat, r.plaintextEnd.toNat, r.kind⟩

end BatchedRecord

structure DecodeBatch where
  records : List BatchedRecord
  written : Nat
  /-- How the stream ends once the batch is written: `Ok` after a zero chunk,
  an error deferred behind the earlier records. -/
  ending : Option (Except SessionError Unit)

namespace DecodeBatch

def default : DecodeBatch := ⟨[], 0, none⟩

def isEmpty (batch : DecodeBatch) : Bool := batch.records.length == 0

def isFull (batch : DecodeBatch) : Bool := batch.records.length == writeBatchMax

def push (batch : DecodeBatch) (record : DecodedRecord) : Res DecodeBatch :=
  if batch.records.length < writeBatchMax then
    .ok { batch with records := batch.records ++ [.ofDecoded record] }
  else .error .panic

/-- The plaintext of each record. -/
def parts (filled : Bytes) : List BatchedRecord → Res (List Bytes)
  | [] => .ok []
  | r :: records => do
    let part ← slice filled r.plaintextStart.toNat r.plaintextEnd.toNat
    let rest ← parts filled records
    return part :: rest

/-- Write the rest of the batch's plaintext from `filled`. -/
def pollWrite (batch : DecodeBatch) (filled : Bytes) (w : Writer) : Polled (SessionRes Unit) × DecodeBatch × Writer :=
  match parts filled batch.records with
  | .error f => (.ready (.error f.inSession), batch, w)
  | .ok parts =>
    match writeParts writeBatchMax parts batch.written w with
    | (r, written, w) => (r, { batch with written }, w)

variable {D : Type} [RecordDecoder D]

def consumeRecords (d : D) (b : Buffer) : List BatchedRecord → Res Unit × D × Buffer
  | [] => (.ok (), d, b)
  | r :: records =>
    match RecordDecoder.consume d b r.decoded with
    | (.ok (), d, b) => consumeRecords d b records
    | (.error f, d, b) => (.error f, d, b)

/-- Consume the written records from `recv`. Returns whether the stream ended
with them, or the error deferred behind them. -/
def consume (batch : DecodeBatch) (d : D) (recv : PooledBuffer) : SessionRes Bool × DecodeBatch × D × PooledBuffer :=
  match consumeRecords d recv.buffer batch.records with
  | (.error f, d, buffer) => (.error f.inSession, batch, d, { recv with buffer })
  | (.ok (), d, buffer) =>
    match batch.ending with
    | none => (.ok false, default, d, { recv with buffer })
    | some (.ok ()) => (.ok true, default, d, { recv with buffer })
    | some (.error e) => (.error (.err e), default, d, { recv with buffer })

/-! ## The records of a batch -/

/-- The entries for records that start at `off`. -/
def placed (off : Nat) : List (Item × Bytes) → List BatchedRecord
  | [] => []
  | x :: xs => .ofDecoded (x.1.record off x.2.length) :: placed (off + x.2.length) xs

theorem length_placed (off : Nat) (xs : List (Item × Bytes)) : (placed off xs).length = xs.length := by
  induction xs generalizing off with
  | nil => rfl
  | cons x xs ih => simp only [placed, List.length_cons, ih]

theorem placed_concat (off : Nat) (xs : List (Item × Bytes)) (x : Item × Bytes) :
    placed off (xs ++ [x]) =
      placed off xs ++ [.ofDecoded (x.1.record (off + (xs.map Prod.snd).flatten.length) x.2.length)] := by
  induction xs generalizing off with
  | nil => rfl
  | cons y xs ih =>
    simp only [List.cons_append, placed, ih, List.map_cons, List.flatten_cons, List.length_append, Nat.add_assoc]

theorem ofDecoded_plain {P B : Bytes} {x : Item × Bytes} (hx : x.1.Within x.2.length)
    (hsmall : (P ++ (x.2 ++ B)).length < 2 ^ 32) :
    slice (P ++ (x.2 ++ B)) (BatchedRecord.ofDecoded (x.1.record P.length x.2.length)).plaintextStart.toNat
      (BatchedRecord.ofDecoded (x.1.record P.length x.2.length)).plaintextEnd.toNat = .ok (Item.plain x) := by
  obtain ⟨item, w⟩ := x
  simp only [List.length_append] at hsmall
  cases item with
  | zeroChunk => rfl
  | data i j =>
    obtain ⟨hij, hj⟩ := hx
    simp only at hj
    simp only [BatchedRecord.ofDecoded, Item.record, UInt32.toNat_ofNat']
    rw [Nat.mod_eq_of_lt (by omega), Nat.mod_eq_of_lt (by omega), slice_append_right, slice_ok (by omega)
      (by rw [List.length_append]; omega), Item.plain, List.drop_append_of_le_length (by omega),
      List.take_append_of_le_length (by rw [List.length_drop]; omega)]

theorem parts_placed (P rest : Bytes) (xs : List (Item × Bytes)) (hx : ∀ x ∈ xs, x.1.Within x.2.length)
    (hsmall : (P ++ ((xs.map Prod.snd).flatten ++ rest)).length < 2 ^ 32) :
    parts (P ++ ((xs.map Prod.snd).flatten ++ rest)) (placed P.length xs) = .ok (xs.map Item.plain) := by
  induction xs generalizing P with
  | nil => rfl
  | cons x xs ih =>
    have hbytes : P ++ (((x :: xs).map Prod.snd).flatten ++ rest) =
        P ++ (x.2 ++ ((xs.map Prod.snd).flatten ++ rest)) := by
      rw [List.map_cons, List.flatten_cons, List.append_assoc]
    rw [hbytes] at hsmall ⊢
    have hrest := ih (P ++ x.2) (fun y hy => hx y (List.mem_cons_of_mem _ hy))
      (by rw [List.append_assoc]; exact hsmall)
    rw [List.append_assoc, List.length_append] at hrest
    rw [placed, parts, ofDecoded_plain (hx x List.mem_cons_self) hsmall]
    simp only [bind, Except.bind, hrest]
    rfl

variable [StagedDecoder D] {max taken : Nat} {d : D} {rest : Bytes} {xs : List (Item × Bytes)} {b : Buffer}

/-- The records in the batch are those not consumed. -/
theorem consumeRecords_placed (h : Holding max xs taken rest d b) (hmax : max < 2 ^ 32) (off : Nat) :
    ∃ b', consumeRecords d b (placed off (xs.drop taken)) = (.ok (), setPending d 0, b') ∧
      Holding max xs xs.length rest (setPending d 0) b' := by
  induction hn : xs.length - taken generalizing taken d b off with
  | zero =>
    have htaken : taken = xs.length := by have := h.taken_le; omega
    subst htaken
    have hzero : setPending d 0 = d := set_zero (by rw [h.pending_eq, outstanding_all, List.length_nil])
    refine ⟨b, ?_, hzero.symm ▸ h⟩
    rw [List.drop_length, hzero]
    rfl
  | succ n ih =>
    have hlt : taken < xs.length := by omega
    have hx : xs[taken]? = some xs[taken] := List.getElem?_eq_getElem hlt
    have hsmall : xs[taken].2.length < 2 ^ 32 := by
      have := h.length_le
      rw [outstanding_cons hx, List.length_append] at this
      omega
    have hconsumed : (BatchedRecord.ofDecoded (xs[taken].1.record off xs[taken].2.length)).decoded.consumed =
        xs[taken].2.length := by
      cases xs[taken].1 <;>
        simp only [BatchedRecord.decoded, BatchedRecord.ofDecoded, Item.record, UInt32.toNat_ofNat',
          Nat.mod_eq_of_lt hsmall]
    obtain ⟨b₁, hone, h₁⟩ := h.consume hx hconsumed
    obtain ⟨b', hrest, h'⟩ := ih h₁ (off + xs[taken].2.length) (by omega)
    rw [set_set] at hrest h'
    refine ⟨b', ?_, h'⟩
    rw [List.drop_eq_getElem_cons hlt, placed, consumeRecords, hone]
    exact hrest

end DecodeBatch

end Snell
