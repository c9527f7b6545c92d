/-
Leases of the buffer pool (`snell-runtime/src/buffer.rs`), as one session sees
them. Other sessions take blocks and return them at any time, so what the
pool holds is an argument: the block a lease starts with, and the blocks each
later scan comes across. A block is the memory of an empty `Vec`: it has a
length, and some other session's bytes.

Allocation does not fail here.
-/
import Snell.BufferFacts

namespace Snell

/-- `CLASSES`: the sizes of new blocks. -/
def classes : List Nat := [64, 128, 256, 512, 1024, 2048, 4096, 8192, 16384, 32768, 65536, 73728]

structure PooledBuffer where
  buffer : Buffer
  /-- What the coming scans look at, in order. -/
  scans : List (List Bytes)

namespace PooledBuffer

/-- `BufferPool::get`, with the block popped from the cache; an empty one if
there was none. -/
def get (max : Nat) (popped : Bytes) (scans : List (List Bytes)) : Res PooledBuffer :=
  match (Buffer.empty max).replaceStorage popped with
  | (.ok _, buffer) => .ok ⟨buffer, scans⟩
  | (.error _, _) => .error .panic

/-- `take_suitable` -/
def takeSuitable (scan : List Bytes) (needed : Nat) : Option Bytes := scan.find? fun block => needed ≤ block.length

/-- A cached block that is large enough, or a new one of the next class. -/
def findBlock (scan : List Bytes) (needed : Nat) : Res Bytes :=
  match takeSuitable scan needed with
  | some block => .ok block
  | none =>
    match classes.find? fun n => needed ≤ n with
    | some capacity => .ok (List.replicate capacity 0)
    | none => .error (.err .payloadTooLarge)

def ensure (p : PooledBuffer) (needed : Nat) : Res PooledBuffer :=
  if p.buffer.max < needed then .error (.err .payloadTooLarge)
  else if needed ≤ p.buffer.capacity then .ok p
  else do
    let block ← findBlock (p.scans.headD []) needed
    match p.buffer.replaceStorage block with
    | (.ok _, buffer) => return ⟨buffer, p.scans.tail⟩
    | (.error _, _) => throw .panic

/-- `release_empty`: the block goes back to the pool. -/
def releaseEmpty (p : PooledBuffer) : PooledBuffer :=
  match p.buffer.takeEmptyStorage with
  | some (_, buffer) => { p with buffer }
  | none => p

/-! ## Facts -/

theorem get_ok (max : Nat) (popped : Bytes) (scans : List (List Bytes)) :
    get max popped scans = .ok ⟨⟨[], popped, 0, max⟩, scans⟩ := by
  have : ¬ popped.length < (Buffer.empty max).len := by simp [Buffer.empty, Buffer.len]
  simp only [get, Buffer.replaceStorage, if_neg this]
  rfl

theorem findBlock_ok (scan : List Bytes) {needed : Nat} (h : needed ≤ 73728) :
    ∃ block, findBlock scan needed = .ok block ∧ needed ≤ block.length := by
  unfold findBlock takeSuitable
  split
  · next block hfind => exact ⟨block, rfl, by simpa using List.find?_some hfind⟩
  · split
    · next n hfind => exact ⟨_, rfl, by simpa using List.find?_some hfind⟩
    · next hnone =>
      have := List.find?_eq_none.mp hnone 73728 (by decide)
      exact absurd h (by simpa using this)

/-- More room for the same live bytes. -/
structure Grown (p p' : PooledBuffer) (needed : Nat) : Prop where
  wf : p'.buffer.Wf
  filled : p'.buffer.filled = p.buffer.filled
  max : p'.buffer.max = p.buffer.max
  capacity : needed ≤ p'.buffer.capacity

theorem ensure_grown {p : PooledBuffer} (needed : Nat) (hw : p.buffer.Wf) (hlen : p.buffer.len ≤ needed)
    (hmax : needed ≤ p.buffer.max) (hclass : needed ≤ 73728) : ∃ p', p.ensure needed = .ok p' ∧ Grown p p' needed := by
  unfold ensure
  rw [if_neg (by omega)]
  split
  · next hcap => exact ⟨p, rfl, hw, rfl, rfl, hcap⟩
  · obtain ⟨block, hblock, hle⟩ := findBlock_ok (p.scans.headD []) hclass
    have hfits : ¬ block.length < p.buffer.len := by omega
    simp only [hblock, bind, Except.bind, Buffer.replaceStorage, if_neg hfits]
    have hfl : p.buffer.filled.length = p.buffer.len := Buffer.filled_length _
    refine ⟨_, rfl, ⟨Nat.zero_le _, ?_⟩, rfl, rfl, ?_⟩
    · simp only [hfl]; omega
    · simp only [Buffer.capacity, hfl, List.length_drop]; omega

end PooledBuffer

end Snell
