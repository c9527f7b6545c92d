/-
`snell-protocol/src/buffer.rs`: a fixed allocation with a live byte range.

The allocation is the committed bytes (`storage`, a `Vec`'s contents)
followed by the uncommitted rest (`spare`, whatever the memory holds: pooled
storage keeps another session's bytes there). No operation grows it; what
`&mut [u8]` or `&mut [MaybeUninit<u8>]` hands to the caller is written back
with `writeAt` or `writeSpare`. What can fail returns its result beside the
buffer it leaves; what can only panic, the buffer.
-/
import Snell.Base

namespace Snell

structure Buffer where
  storage : Bytes
  spare : Bytes
  start : Nat
  max : Nat
  deriving DecidableEq, Repr

namespace Buffer

/-- A fresh allocation of `max` bytes. Its contents are never read before
they are written; zeros stand for them. -/
def new (max : Nat) : Buffer := ⟨[], List.replicate max 0, 0, max⟩

/-- No allocation. -/
def empty (max : Nat) : Buffer := ⟨[], [], 0, max⟩

def filled (b : Buffer) : Bytes := b.storage.drop b.start

def isEmpty (b : Buffer) : Bool := b.start == b.storage.length

def len (b : Buffer) : Nat := b.storage.length - b.start

def capacity (b : Buffer) : Nat := b.storage.length + b.spare.length

/-- Absolute end index of committed storage. -/
def stop (b : Buffer) : Nat := b.storage.length

/-- Bytes that can be committed without compaction. -/
def writable (b : Buffer) : Nat := min b.capacity b.max - b.storage.length

/-- Write through `filled_mut`. -/
def setFilled (b : Buffer) (bytes : Bytes) : Buffer :=
  { b with storage := b.storage.take b.start ++ bytes }

/-- The live bytes move to the front; what they leave behind is stale. -/
def compact (b : Buffer) : Buffer :=
  if b.start = 0 then b
  else
    { b with
      storage := b.storage.drop b.start
      spare := b.storage.drop (b.storage.length - b.start) ++ b.spare
      start := 0 }

/-- Ensure `min` writable bytes; the caller then has `writable` of them. -/
def spareCapacityMut (b : Buffer) (min : Nat) : Res Unit × Buffer :=
  let live := b.len
  if b.max < live + min then (.error (.err .payloadTooLarge), b)
  else if Nat.min b.capacity b.max - live < min then
    (.error (.err (.bufferTooSmall (b.len + min) b.capacity)), b)
  else if Nat.min b.capacity b.max - b.storage.length < min then (.ok (), b.compact)
  else (.ok (), b)

/-- Fill `n` spare bytes with zeros and commit them. -/
def extendZeroed (b : Buffer) (n : Nat) : Res Buffer :=
  if n ≤ b.spare.length then
    .ok { b with storage := b.storage ++ List.replicate n 0, spare := b.spare.drop n }
  else .error .panic

/-- Where the committed bytes end, and `n` zeros behind them. -/
def zeroed (b : Buffer) (n : Nat) : Res Nat × Buffer :=
  match b.extendZeroed n with
  | .error f => (.error f, b)
  | .ok b' => (.ok b.storage.length, b')

/-- Capacity for a record of `total` bytes, its first `fixed` zeroed and
committed; returns where the record starts. -/
def reserveRecord (b : Buffer) (total fixed : Nat) : Res Nat × Buffer :=
  match b.spareCapacityMut total with
  | (.error f, b) => (.error f, b)
  | (.ok (), b) => b.zeroed fixed

def extendFromSlice (b : Buffer) (bytes : Bytes) : Res Unit × Buffer :=
  if bytes = [] then (.ok (), b)
  else
    match b.spareCapacityMut bytes.length with
    | (.error f, b) => (.error f, b)
    | (.ok (), b) =>
      if bytes.length ≤ b.writable then
        (.ok (), { b with storage := b.storage ++ bytes, spare := b.spare.drop bytes.length })
      else (.error .panic, b)

/-- Zero-commit up to absolute index `e`; committed bytes stay. -/
def zeroExtendTo (b : Buffer) (e : Nat) : Res Buffer :=
  if b.storage.length ≤ e then b.extendZeroed (e - b.storage.length) else .ok b

/-- `Vec::truncate`: the bytes dropped stay in the allocation. -/
def truncateStorage (b : Buffer) (e : Nat) : Buffer :=
  { b with storage := b.storage.take e, spare := b.storage.drop e ++ b.spare }

/-- Move the committed end of a record to absolute index `e`. -/
def setRecordEnd (b : Buffer) (e : Nat) : Res Buffer :=
  if b.storage.length < e then b.zeroExtendTo e else .ok (b.truncateStorage e)

def reserveZeroed (b : Buffer) (n : Nat) : Res Nat × Buffer :=
  if n = 0 then (.ok b.storage.length, b)
  else
    match b.spareCapacityMut n with
    | (.error f, b) => (.error f, b)
    | (.ok (), b) => b.zeroed n

/-- Write into the uncommitted tail, as a reader does through `ReadBuf`. -/
def writeSpare (b : Buffer) (bytes : Bytes) : Buffer :=
  { b with spare := bytes ++ b.spare.drop bytes.length }

def commit (b : Buffer) (n : Nat) : Res Unit × Buffer :=
  if b.writable < n then
    (.error (.err (.bufferTooSmall (b.storage.length + n) (b.storage.length + b.writable))), b)
  else (.ok (), { b with storage := b.storage ++ b.spare.take n, spare := b.spare.drop n })

/-- `range_mut`, read. -/
def range (b : Buffer) (i j : Nat) : Res Bytes := slice b.storage i j

/-- `range_mut`, written back. -/
def writeAt (b : Buffer) (i : Nat) (bytes : Bytes) : Buffer :=
  { b with storage := b.storage.take i ++ bytes ++ b.storage.drop (i + bytes.length) }

/-- `range_mut(i, i + bytes.len()).copy_from_slice(bytes)` -/
def copyAt (b : Buffer) (i : Nat) (bytes : Bytes) : Res Buffer :=
  if i + bytes.length ≤ b.storage.length then .ok (b.writeAt i bytes) else .error .panic

def truncate (b : Buffer) (len : Nat) : Res Unit × Buffer :=
  if len < b.start ∨ b.storage.length < len then
    (.error (.err (.bufferTooSmall len b.storage.length)), b)
  else (.ok (), b.truncateStorage len)

def consume (b : Buffer) (written : Nat) : Res Unit × Buffer :=
  let remaining := b.storage.length - b.start
  if remaining < written then (.error (.err (.bufferTooSmall written remaining)), b)
  else
    let b := { b with start := b.start + written }
    if b.start = b.storage.length then
      (.ok (), { b with storage := [], spare := b.storage ++ b.spare, start := 0 })
    else (.ok (), b)

/-- Replace the allocation by `block` (a `Vec`'s memory), copying only live
bytes; returns the old one. -/
def replaceStorage (b : Buffer) (block : Bytes) : Res Bytes × Buffer :=
  if block.length < b.len then (.error (.err (.bufferTooSmall b.len block.length)), b)
  else (.ok (b.storage ++ b.spare), { b with storage := b.filled, spare := block.drop b.len, start := 0 })

/-- Give up the allocation when there are no live bytes. The bytes still in
`storage` go with it, as the length of the `Vec` returned. -/
def takeEmptyStorage (b : Buffer) : Option ((Bytes × Bytes) × Buffer) :=
  if b.isEmpty then
    some ((b.storage, b.spare), { b with storage := [], spare := [], start := 0 })
  else none

end Buffer

end Snell
