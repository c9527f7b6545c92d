/-
`snell-runtime/src/buffer.rs`: the pool of buffers that all tasks share.

A lease is a party that steps at every access to what is shared: a shard's
queue, the shard counter, `leased_bytes`. What it does to its own buffer in
between is part of the step. Leases come and step in any order; one lease has
one operation in progress at a time, since each takes `&mut self`.

`leased_bytes` is an integer here. A `usize` wraps where this one leaves its
range. The shard counter is only read modulo four, which wrapping keeps.
-/
import Snell.Parties
import Snell.PooledBuffer
import Snell.SessionError

namespace Snell

/-- `SHARDS` -/
def shardCount : Nat := 4

/-- `CACHED_BLOCKS` -/
def cachedBlocks : Nat := 64

def maxCachedCapacity : Nat := 73728

/-- `Vec<u8>`: its bytes, and the rest of its allocation. -/
structure Block where
  data : Bytes
  spare : Bytes
  deriving DecidableEq, Repr

namespace Block

def capacity (v : Block) : Nat := v.data.length + v.spare.length

/-- The whole allocation. -/
def memory (v : Block) : Bytes := v.data ++ v.spare

def clear (v : Block) : Block := ⟨[], v.memory⟩

@[simp] theorem memory_length (v : Block) : v.memory.length = v.capacity := List.length_append

@[simp] theorem clear_capacity (v : Block) : v.clear.capacity = v.capacity := by
  simp [clear, capacity, memory]

/-- What a block in the cache is. -/
structure Cached (v : Block) : Prop where
  empty : v.data.length = 0
  pos : 1 ≤ v.capacity
  le : v.capacity ≤ maxCachedCapacity

theorem clear_cached {v : Block} (hpos : v.capacity ≠ 0) (hle : v.capacity ≤ maxCachedCapacity) : v.clear.Cached := by
  refine ⟨rfl, ?_, ?_⟩
  · rw [clear_capacity]; exact Nat.one_le_iff_ne_zero.mpr hpos
  · rw [clear_capacity]; exact hle

end Block

/-- The caches are `ArrayQueue`s. -/
structure BufferPool where
  shards : Fin shardCount → List Block
  next : Nat
  leasedBytes : Int

/-! ## Accesses to the pool -/

namespace BufferPool

/-- `default` -/
def new : BufferPool := ⟨fun _ => [], 0, 0⟩

def pop (s : BufferPool) (i : Fin shardCount) : Option Block × BufferPool :=
  match s.shards i with
  | [] => (none, s)
  | v :: rest => (some v, { s with shards := Function.update s.shards i rest })

/-- A full queue hands the block back, and the caller frees it. -/
def push (s : BufferPool) (i : Fin shardCount) (v : Block) : BufferPool :=
  if (s.shards i).length < cachedBlocks / shardCount then
    { s with shards := Function.update s.shards i (s.shards i ++ [v]) }
  else s

/-- `next.fetch_add(1) % SHARDS` -/
def nextShard (s : BufferPool) : Fin shardCount × BufferPool :=
  (⟨s.next % shardCount, Nat.mod_lt _ (by decide)⟩, { s with next := s.next + 1 })

def fetchAdd (s : BufferPool) (n : Nat) : BufferPool := { s with leasedBytes := s.leasedBytes + n }

def fetchSub (s : BufferPool) (n : Nat) : BufferPool := { s with leasedBytes := s.leasedBytes - n }

end BufferPool

/-! ## Leases -/

namespace BufferPool

/-- Who called `ensure`. -/
inductive Caller where
  | ensure
  | extend (bytes : Bytes)

/-- A call of `ensure`. -/
structure Growth where
  needed : Nat
  caller : Caller

/-- Where a lease is. The stages of `take_suitable` name the shard the scan
started at and how far it is. -/
inductive Stage where
  | getEmpty
  | getShard
  | getPop (shard : Fin shardCount)
  | getAdd (shard : Fin shardCount) (storage : Block)
  /-- No operation in progress. -/
  | idle
  | growShard (g : Growth)
  | scanLen (g : Growth) (start : Fin shardCount) (offset : Nat)
  | scanPop (g : Growth) (start : Fin shardCount) (offset left : Nat)
  /-- An undersized block goes back. -/
  | scanPush (g : Growth) (start : Fin shardCount) (offset left : Nat) (storage : Block)
  | reserve (g : Growth)
  | growAdd (g : Growth) (storage : Block)
  | growSub (g : Growth) (storage : Block)
  | append (bytes : Bytes)
  /-- In `put`; `gone` if the lease is being dropped. -/
  | putPush (storage : Block) (shard : Fin shardCount) (gone : Bool)
  | putSub (capacity : Nat) (gone : Bool)
  | dropped
  | panicked

/-- `PooledBuffer` -/
structure Lease where
  buffer : Buffer
  shard : Option (Fin shardCount)
  stage : Stage

inductive Entry where
  | get (max : Nat)
  | getEmpty (max : Nat)

inductive Act where
  /-- The operation in progress makes its next access. -/
  | go
  /-- `try_reserve_exact` answers: an allocation at least that large, or a failure. -/
  | allocate (memory : Option Bytes)
  | ensure (needed : Nat)
  | extend (bytes : Bytes)
  | releaseEmpty
  | drop
  /-- Any other operation of `Buffer`: it keeps the allocation. -/
  | touch (buffer : Buffer)

/-- What an operation that ended in this step returned. -/
inductive Event where
  | quiet
  | leased (buffer : Buffer)
  | ensured (needed : Nat) (before : Buffer) (r : Except SessionError Unit) (after : Buffer)
  | extended (bytes : Bytes) (before : Buffer) (r : Except Fault Unit) (after : Buffer)
  /-- An `expect` failed. -/
  | panicked

abbrev Outcome := Event × BufferPool × Lease

def Growth.followup (g : Growth) : Except SessionError Unit → Stage
  | .error _ => .idle
  | .ok _ =>
    match g.caller with
    | .ensure => .idle
    | .extend bytes => .append bytes

def Stage.ended (gone : Bool) : Stage := if gone then .dropped else .idle

namespace Lease

def enter : Entry → Lease
  | .get max => ⟨Buffer.empty max, none, .getShard⟩
  | .getEmpty max => ⟨Buffer.empty max, none, .getEmpty⟩

/-- `ensure` returns. -/
def ensured (l : Lease) (s : BufferPool) (g : Growth) (r : Except SessionError Unit) (after : Buffer) : Outcome :=
  (.ensured g.needed l.buffer r after, s, { l with buffer := after, stage := g.followup r })

/-- `ensure`, up to its first access. -/
def ensure (l : Lease) (s : BufferPool) (g : Growth) : Outcome :=
  if l.buffer.max < g.needed then l.ensured s g (.error (.ofProtocol .payloadTooLarge)) l.buffer
  else if g.needed ≤ l.buffer.capacity then l.ensured s g (.ok ()) l.buffer
  else
    match l.shard with
    | some start => (.quiet, s, { l with stage := .scanLen g start 0 })
    | none => (.quiet, s, { l with stage := .growShard g })

/-- No cached block was suitable. -/
def reserve (l : Lease) (s : BufferPool) (g : Growth) (memory : Option Bytes) : Option Outcome :=
  match classes.find? fun n => g.needed ≤ n with
  | none => some (l.ensured s g (.error (.ofProtocol .payloadTooLarge)) l.buffer)
  | some capacity =>
    match memory with
    | none => some (l.ensured s g (.error (.io .other)) l.buffer)
    | some memory =>
      if capacity ≤ memory.length then some (.quiet, s, { l with stage := .growAdd g ⟨[], memory⟩ }) else none

/-- `put`, up to its first access. -/
def put (l : Lease) (storage : Block) (shard : Fin shardCount) (gone : Bool) : Lease :=
  if storage.capacity = 0 then { l with stage := .ended gone }
  else if storage.capacity ≤ maxCachedCapacity then { l with stage := .putPush storage.clear shard gone }
  else { l with stage := .putSub storage.capacity gone }

def releaseEmpty (l : Lease) : Lease :=
  match l.buffer.takeEmptyStorage with
  | none => l
  | some ((data, spare), buffer) =>
    match l.shard with
    | none => { l with buffer }
    | some shard => put { l with buffer, shard := none } ⟨data, spare⟩ shard false

def drop (l : Lease) : Lease :=
  match l.shard with
  | none => { l with buffer := Buffer.empty 0, stage := .dropped }
  | some shard =>
    -- `into_storage`
    put { l with buffer := Buffer.empty 0 } (Block.clear ⟨l.buffer.storage, l.buffer.spare⟩) shard true

/-- The queue the scan looks at. -/
def scanned (start : Fin shardCount) (offset : Nat) : Fin shardCount :=
  ⟨(start + offset) % shardCount, Nat.mod_lt _ (by decide)⟩

/-- The next access of the operation in progress. -/
def go (l : Lease) (s : BufferPool) : Option Outcome :=
  match l.stage with
  | .getEmpty => some (.leased l.buffer, s, { l with stage := .idle })
  | .getShard => some (.quiet, s.nextShard.2, { l with stage := .getPop s.nextShard.1 })
  | .getPop shard => some (.quiet, (s.pop shard).2, { l with stage := .getAdd shard ((s.pop shard).1.getD ⟨[], []⟩) })
  | .getAdd shard storage =>
    match l.buffer.replaceStorage storage.memory with
    | (.ok _, buffer) => some (.leased buffer, s.fetchAdd storage.capacity, ⟨buffer, some shard, .idle⟩)
    | (.error _, _) => some (.panicked, s.fetchAdd storage.capacity, { l with stage := .panicked })
  | .growShard g =>
    some (.quiet, s.nextShard.2, { l with shard := some s.nextShard.1, stage := .scanLen g s.nextShard.1 0 })
  | .scanLen g start offset =>
    if offset < shardCount then
      some (.quiet, s, { l with stage := .scanPop g start offset (s.shards (scanned start offset)).length })
    else some (.quiet, s, { l with stage := .reserve g })
  | .scanPop g start offset 0 => some (.quiet, s, { l with stage := .scanLen g start (offset + 1) })
  | .scanPop g start offset (left + 1) =>
    match s.pop (scanned start offset) with
    | (none, s) => some (.quiet, s, { l with stage := .scanLen g start (offset + 1) })
    | (some storage, s) =>
      if g.needed ≤ storage.capacity then some (.quiet, s, { l with stage := .growAdd g storage })
      else some (.quiet, s, { l with stage := .scanPush g start offset left storage })
  | .scanPush g start offset left storage =>
    some (.quiet, s.push (scanned start offset) storage, { l with stage := .scanPop g start offset left })
  | .growAdd g storage => some (.quiet, s.fetchAdd storage.capacity, { l with stage := .growSub g storage })
  | .growSub g storage =>
    match l.buffer.replaceStorage storage.memory with
    | (.ok previous, buffer) => some (l.ensured (s.fetchSub previous.length) g (.ok ()) buffer)
    | (.error _, _) => some (.panicked, s, { l with stage := .panicked })
  | .append bytes =>
    let r := l.buffer.extendFromSlice bytes
    some (.extended bytes l.buffer r.1 r.2, s, { l with buffer := r.2, stage := .idle })
  | .putPush storage shard gone =>
    some (.quiet, s.push shard storage, { l with stage := .putSub storage.capacity gone })
  | .putSub capacity gone => some (.quiet, s.fetchSub capacity, { l with stage := .ended gone })
  | .idle | .reserve _ | .dropped | .panicked => none

/-- The operation of `Buffer` kept the allocation and the bound. -/
def InPlace (b b' : Buffer) : Prop := b'.Wf ∧ b'.capacity = b.capacity ∧ b'.max = b.max

instance (b b' : Buffer) : Decidable (InPlace b b') :=
  decidable_of_iff
    ((b'.start ≤ b'.storage.length ∧ b'.storage.length ≤ b'.max) ∧ b'.capacity = b.capacity ∧ b'.max = b.max)
    (and_congr_left' ⟨fun h => ⟨h.1, h.2⟩, fun h => ⟨h.1, h.2⟩⟩)

def step (s : BufferPool) (l : Lease) (a : Act) : Option Outcome :=
  match l.stage, a with
  | .idle, .ensure needed => some (l.ensure s ⟨needed, .ensure⟩)
  | .idle, .extend bytes => some (l.ensure s ⟨l.buffer.len + bytes.length, .extend bytes⟩)
  | .idle, .releaseEmpty => some (.quiet, s, l.releaseEmpty)
  | .idle, .drop => some (.quiet, s, l.drop)
  | .idle, .touch buffer => if InPlace l.buffer buffer then some (.quiet, s, { l with buffer }) else none
  | .reserve g, .allocate memory => l.reserve s g memory
  | _, .go => l.go s
  | _, _ => none

end Lease

/-- Any number of leases on one pool. -/
def system : Parties.System BufferPool Lease Act Entry Event where
  enter := Lease.enter
  step := Lease.step

abbrev Move := Parties.Move Act Entry

/-- The pool and its leases after an interleaving from a new pool. -/
def run (moves : List Move) : Parties.World BufferPool Lease := system.run ⟨new, []⟩ moves

/-- The events of it, in order. -/
def trace (moves : List Move) : List (Move × Option Event) := (system.machine.run ⟨new, []⟩ moves).1

/-! ## What a step keeps -/

structure Bounded (s : BufferPool) : Prop where
  length_le : ∀ i, (s.shards i).length ≤ cachedBlocks / shardCount
  cached : ∀ i, ∀ v ∈ s.shards i, v.Cached

namespace Bounded

variable {s : BufferPool}

/-- One queue changes. -/
theorem update (h : s.Bounded) {i : Fin shardCount} {blocks : List Block} (hl : blocks.length ≤ cachedBlocks / shardCount)
    (hc : ∀ v ∈ blocks, v.Cached) : ({ s with shards := Function.update s.shards i blocks } : BufferPool).Bounded := by
  constructor
  · intro j
    by_cases hj : j = i
    · subst hj; simpa using hl
    · simpa [Function.update_of_ne hj] using h.length_le j
  · intro j v hv
    by_cases hj : j = i
    · subst hj; exact hc v (by simpa using hv)
    · exact h.cached j v (by simpa [Function.update_of_ne hj] using hv)

theorem pop (h : s.Bounded) (i : Fin shardCount) :
    (s.pop i).2.Bounded ∧ (s.pop i).2.leasedBytes = s.leasedBytes ∧ ∀ v, (s.pop i).1 = some v → v.Cached := by
  unfold BufferPool.pop
  have hl := h.length_le i
  have hc := h.cached i
  split
  · exact ⟨h, rfl, fun v hv => by cases hv⟩
  · next v rest heq =>
    rw [heq] at hl hc
    refine ⟨h.update (Nat.le_of_succ_le hl) fun v hv => hc v (List.mem_cons_of_mem _ hv), rfl, ?_⟩
    intro v' hv'
    obtain rfl : v = v' := Option.some.inj hv'
    exact hc v List.mem_cons_self

theorem push (h : s.Bounded) (i : Fin shardCount) {v : Block} (hv : v.Cached) :
    (s.push i v).Bounded ∧ (s.push i v).leasedBytes = s.leasedBytes := by
  unfold BufferPool.push
  by_cases hlt : (s.shards i).length < cachedBlocks / shardCount
  · rw [if_pos hlt]
    refine ⟨h.update ?_ (Parties.forall_concat (h.cached i) hv), rfl⟩
    rw [List.length_append]
    exact hlt
  · rw [if_neg hlt]
    exact ⟨h, rfl⟩

end Bounded

/-- Why a scan goes on, and what `extend` asked for. -/
structure Growth.Wanted (g : Growth) (b : Buffer) : Prop where
  short : b.capacity < g.needed
  allowed : g.needed ≤ b.max
  extends_ : ∀ bytes, g.caller = .extend bytes → g.needed = b.len + bytes.length

/-- The lease has its shard by now. -/
structure Growth.Placed (g : Growth) (b : Buffer) (shard : Option (Fin shardCount)) : Prop extends g.Wanted b where
  placed : shard ≠ none

def Stage.Ok (b : Buffer) (shard : Option (Fin shardCount)) : Stage → Prop
  | .getEmpty | .getShard | .getPop _ | .getAdd _ _ => b.filled = [] ∧ b.capacity = 0
  | .growShard g => g.Wanted b
  | .scanLen g _ _ | .scanPop g _ _ _ | .reserve g => g.Placed b shard
  | .scanPush g _ _ _ v => g.Placed b shard ∧ v.Cached
  | .growAdd g v | .growSub g v => g.Placed b shard ∧ g.needed ≤ v.capacity
  | .append bytes => b.len + bytes.length ≤ b.capacity ∧ b.len + bytes.length ≤ b.max
  | .putPush v _ _ => b.capacity = 0 ∧ v.Cached
  | .putSub _ _ | .dropped => b.capacity = 0
  | .idle => True
  | .panicked => False

structure Lease.Ok (l : Lease) : Prop where
  wf : l.buffer.Wf
  unsharded : l.shard = none → l.buffer.capacity = 0
  stage : l.stage.Ok l.buffer l.shard

/-- Bytes in `leased_bytes` besides the lease's own storage. -/
def Stage.extra : Stage → Nat
  | .growSub _ v | .putPush v _ _ => v.capacity
  | .putSub capacity _ => capacity
  | _ => 0

/-- What the lease has added to `leased_bytes` and not yet taken off. -/
def Lease.counted (l : Lease) : Nat := l.buffer.capacity + l.stage.extra

/-- An operation returned what it should. -/
def Event.Good : Event → Prop
  | .quiet => True
  | .leased b => b.filled = []
  | .ensured needed before r after => after.filled = before.filled ∧ (r = .ok () → needed ≤ after.capacity)
  | .extended bytes before r after => r = .ok () ∧ after.filled = before.filled ++ bytes
  | .panicked => False

/-- What one session sees of it: `PooledBuffer`, for some blocks of the pool. -/
def Event.Viewed : Event → Prop
  | .leased b => ∃ popped, PooledBuffer.get b.max popped [] = .ok ⟨b, []⟩
  | .ensured needed before (.ok _) after => ∃ scans rest, PooledBuffer.ensure ⟨before, scans⟩ needed = .ok ⟨after, rest⟩
  | _ => True

/-- One step: what `leased_bytes` gains, the lease counts. -/
structure Keeps (s : BufferPool) (l : Lease) (r : Outcome) : Prop where
  good : r.1.Good
  viewed : r.1.Viewed
  bounded : r.2.1.Bounded
  ok : r.2.2.Ok
  counted : r.2.1.leasedBytes + l.counted = s.leasedBytes + r.2.2.counted

namespace Lease

variable {s : BufferPool} {l : Lease}

theorem enter_ok (e : Entry) : (enter e).Ok := by
  cases e with
  | get max | getEmpty max => exact ⟨Buffer.empty_wf max, fun _ => rfl, rfl, rfl⟩

/-- A step between the stages of an operation, with the buffer as it was. -/
theorem keeps_quiet {s' : BufferPool} {stage : Stage} (hl : l.Ok) (hb : s'.Bounded) (hs : stage.Ok l.buffer l.shard)
    (hc : s'.leasedBytes + l.stage.extra = s.leasedBytes + stage.extra) :
    Keeps s l (.quiet, s', { l with stage }) := by
  refine ⟨trivial, trivial, hb, ⟨hl.wf, hl.unsharded, hs⟩, ?_⟩
  simp only [counted]
  omega

/-- A buffer that took over the live bytes of another. -/
structure Taken (b b' : Buffer) (capacity : Nat) : Prop where
  wf : b'.Wf
  filled : b'.filled = b.filled
  max : b'.max = b.max
  capacity : b'.capacity = capacity

theorem Taken.len {b b' : Buffer} {n : Nat} (h : Taken b b' n) : b'.len = b.len := by
  rw [← Buffer.filled_length, ← Buffer.filled_length, h.filled]

/-- The allocation is replaced, and the one before handed out. -/
theorem replaceStorage_taken {b : Buffer} (v : Block) (hw : b.Wf) (hfits : b.len ≤ v.capacity) :
    ∃ b', b.replaceStorage v.memory = (.ok (b.storage ++ b.spare), b') ∧ Taken b b' v.capacity := by
  have hl := Buffer.filled_length b
  have hlen : b.len ≤ b.max := Nat.le_trans (Nat.sub_le _ _) hw.len_le
  unfold Buffer.replaceStorage
  rw [if_neg (by rw [Block.memory_length]; omega)]
  refine ⟨_, rfl, ⟨Nat.zero_le _, ?_⟩, rfl, rfl, ?_⟩
  · show b.filled.length ≤ b.max
    omega
  · show b.filled.length + (v.memory.drop b.len).length = v.capacity
    rw [List.length_drop, Block.memory_length]
    omega

/-- `ensure` returns, with the buffer it has or a larger one. -/
theorem ensured_keeps {s' : BufferPool} {g : Growth} {r : Except SessionError Unit} {after : Buffer} {n : Nat}
    (hb : s'.Bounded) (ht : Taken l.buffer after n) (hshard : l.shard = none → n = 0)
    (hok : r = .ok () → g.needed ≤ n ∧ g.needed ≤ l.buffer.max)
    (hview : r = .ok () → ∃ scans rest, PooledBuffer.ensure ⟨l.buffer, scans⟩ g.needed = .ok ⟨after, rest⟩)
    (hext : ∀ bytes, g.caller = .extend bytes → g.needed = l.buffer.len + bytes.length)
    (hc : s'.leasedBytes + l.counted = s.leasedBytes + n) : Keeps s l (l.ensured s' g r after) := by
  refine ⟨⟨ht.filled, ?_⟩, ?_, hb, ⟨ht.wf, ?_, ?_⟩, ?_⟩
  · intro hr
    rw [ht.capacity]
    exact (hok hr).1
  · cases r with
    | error e => trivial
    | ok u => exact hview rfl
  · intro hnone
    exact ht.capacity.trans (hshard hnone)
  · show (g.followup r).Ok after l.shard
    unfold Growth.followup
    split
    · trivial
    · split
      · trivial
      · next bytes hcaller =>
        obtain ⟨hcap, hmax⟩ := hok rfl
        have hneeded := hext bytes hcaller
        show after.len + _ ≤ after.capacity ∧ after.len + _ ≤ after.max
        rw [ht.len, ht.capacity, ht.max]
        omega
  · have hextra : (g.followup r).extra = 0 := by
      unfold Growth.followup
      split
      · rfl
      · split <;> rfl
    show s'.leasedBytes + l.counted = s.leasedBytes + ↑(after.capacity + (g.followup r).extra)
    rw [hextra, ht.capacity]
    exact hc

/-- `ensure` returns with the buffer it has. -/
theorem ensured_same {g : Growth} {r : Except SessionError Unit} (hl : l.Ok) (hb : s.Bounded) (hstage : l.stage.extra = 0)
    (hok : r = .ok () → g.needed ≤ l.buffer.capacity ∧ g.needed ≤ l.buffer.max)
    (hext : ∀ bytes, g.caller = .extend bytes → g.needed = l.buffer.len + bytes.length) :
    Keeps s l (l.ensured s g r l.buffer) := by
  refine ensured_keeps hb ⟨hl.wf, rfl, rfl, rfl⟩ hl.unsharded hok ?_ hext ?_
  · intro hr
    obtain ⟨hcap, hmax⟩ := hok hr
    exact ⟨[], [], by rw [PooledBuffer.ensure, if_neg (Nat.not_lt.mpr hmax), if_pos hcap]⟩
  · rw [counted, hstage]
    rfl

theorem ensure_keeps {g : Growth} (hl : l.Ok) (hb : s.Bounded) (hstage : l.stage = .idle)
    (hext : ∀ bytes, g.caller = .extend bytes → g.needed = l.buffer.len + bytes.length) : Keeps s l (l.ensure s g) := by
  have hextra : l.stage.extra = 0 := by rw [hstage]; rfl
  unfold ensure
  by_cases hmax : l.buffer.max < g.needed
  · rw [if_pos hmax]
    exact ensured_same hl hb hextra (fun h => by cases h) hext
  rw [if_neg hmax]
  by_cases hcap : g.needed ≤ l.buffer.capacity
  · rw [if_pos hcap]
    exact ensured_same hl hb hextra (fun _ => ⟨hcap, Nat.le_of_not_lt hmax⟩) hext
  rw [if_neg hcap]
  have hwanted : g.Wanted l.buffer := ⟨Nat.lt_of_not_le hcap, Nat.le_of_not_lt hmax, hext⟩
  split
  · next start hshard =>
    have hplaced : g.Placed l.buffer l.shard := ⟨hwanted, by rw [hshard]; exact Option.some_ne_none _⟩
    exact keeps_quiet hl hb hplaced (by rw [hextra]; rfl)
  · exact keeps_quiet hl hb hwanted (by rw [hextra]; rfl)

theorem reserve_keeps {g : Growth} {memory : Option Bytes} {r : Outcome} (hl : l.Ok) (hb : s.Bounded)
    (hstage : l.stage = .reserve g) (h : l.reserve s g memory = some r) : Keeps s l r := by
  have hextra : l.stage.extra = 0 := by rw [hstage]; rfl
  have hplaced : g.Placed l.buffer l.shard := by have := hl.stage; rwa [hstage] at this
  have hfail : ∀ e, Keeps s l (l.ensured s g (.error e) l.buffer) := by
    intro e
    exact ensured_same hl hb hextra (fun h => by cases h) hplaced.extends_
  unfold reserve at h
  split at h
  · cases h; exact hfail _
  · next capacity hfind =>
    split at h
    · cases h; exact hfail _
    · next memory =>
      split at h <;> cases h
      next hle =>
      have hclass : g.needed ≤ capacity := by simpa using List.find?_some hfind
      refine keeps_quiet hl hb ⟨hplaced, ?_⟩ (by rw [hextra]; rfl)
      show g.needed ≤ 0 + memory.length
      omega

theorem ended_ok (gone : Bool) {b : Buffer} (shard : Option (Fin shardCount)) (h : b.capacity = 0) :
    (Stage.ended gone).Ok b shard ∧ (Stage.ended gone).extra = 0 := by
  cases gone with
  | false => exact ⟨trivial, rfl⟩
  | true => exact ⟨h, rfl⟩

/-- `put`, for a lease that no longer has the storage. -/
theorem put_keeps {l₀ : Lease} {v : Block} {shard : Fin shardCount} {gone : Bool} (hb : s.Bounded) (hw : l₀.buffer.Wf)
    (hempty : l₀.buffer.capacity = 0) (hc : l.counted = v.capacity) : Keeps s l (.quiet, s, l₀.put v shard gone) := by
  have hended := ended_ok gone l₀.shard hempty
  unfold put
  by_cases hzero : v.capacity = 0
  · rw [if_pos hzero]
    refine ⟨trivial, trivial, hb, ⟨hw, fun _ => hempty, hended.1⟩, ?_⟩
    simp only [counted] at hc ⊢
    omega
  rw [if_neg hzero]
  by_cases hle : v.capacity ≤ maxCachedCapacity
  · rw [if_pos hle]
    refine ⟨trivial, trivial, hb, ⟨hw, fun _ => hempty, hempty, Block.clear_cached hzero hle⟩, ?_⟩
    rw [hc, counted, hempty]
    simp [Stage.extra]
  · rw [if_neg hle]
    refine ⟨trivial, trivial, hb, ⟨hw, fun _ => hempty, hempty⟩, ?_⟩
    rw [hc, counted, hempty]
    simp [Stage.extra]

theorem releaseEmpty_keeps (hl : l.Ok) (hb : s.Bounded) (hstage : l.stage = .idle) :
    Keeps s l (.quiet, s, l.releaseEmpty) := by
  have hcounted : l.counted = l.buffer.capacity := by rw [counted, hstage]; rfl
  unfold releaseEmpty Buffer.takeEmptyStorage
  by_cases he : l.buffer.isEmpty = true
  · rw [if_pos he]
    have hw : Buffer.Wf { l.buffer with storage := [], spare := [], start := 0 } := ⟨Nat.zero_le _, Nat.zero_le _⟩
    dsimp only
    split
    · next hshard =>
      -- without a shard there is nothing to give back
      refine ⟨trivial, trivial, hb, ⟨hw, fun _ => rfl, ?_⟩, ?_⟩
      · rw [hstage]; trivial
      · rw [hcounted, hl.unsharded hshard]
        simp [counted, hstage, Stage.extra, Buffer.capacity]
    · exact put_keeps hb hw rfl hcounted
  · rw [if_neg he]
    exact keeps_quiet hl hb hl.stage rfl

theorem drop_keeps (hl : l.Ok) (hb : s.Bounded) (hstage : l.stage = .idle) : Keeps s l (.quiet, s, l.drop) := by
  have hcounted : l.counted = l.buffer.capacity := by rw [counted, hstage]; rfl
  unfold drop
  split
  · next hshard =>
    refine ⟨trivial, trivial, hb, ⟨Buffer.empty_wf 0, fun _ => rfl, rfl⟩, ?_⟩
    rw [hcounted, hl.unsharded hshard]
    rfl
  · refine put_keeps hb (Buffer.empty_wf 0) rfl ?_
    rw [hcounted, Block.clear_capacity]
    rfl

/-- A buffer without storage is as good as new. -/
theorem empty_eq {b : Buffer} (hw : b.Wf) (h : b.capacity = 0) : b = ⟨[], [], 0, b.max⟩ := by
  obtain ⟨storage, spare, start, max⟩ := b
  have hstart := hw.start_le
  simp only [Buffer.capacity, Nat.add_eq_zero_iff, List.length_eq_zero_iff] at h hstart
  obtain ⟨rfl, rfl⟩ := h
  obtain rfl : start = 0 := Nat.le_zero.mp hstart
  rfl

/-- The block popped becomes the storage of the new lease. -/
theorem getAdd_keeps {shard : Fin shardCount} {v : Block} {r : Outcome} (hl : l.Ok) (hb : s.Bounded)
    (hstage : l.stage = .getAdd shard v) (h : l.go s = some r) : Keeps s l r := by
  obtain ⟨hfilled, hcap⟩ : l.buffer.filled = [] ∧ l.buffer.capacity = 0 := by have := hl.stage; rwa [hstage] at this
  have hlen : l.buffer.len ≤ v.capacity := by
    rw [← Buffer.filled_length, hfilled]
    exact Nat.zero_le _
  obtain ⟨b', hreplace, ht⟩ := replaceStorage_taken v hl.wf hlen
  simp only [go, hstage, hreplace] at h
  cases h
  refine ⟨ht.filled.trans hfilled, ⟨v.memory, ?_⟩, ⟨hb.length_le, hb.cached⟩, ⟨ht.wf, ?_, trivial⟩, ?_⟩
  · have hnew : Buffer.empty b'.max = l.buffer := by
      rw [ht.max]
      exact (empty_eq hl.wf hcap).symm
    rw [PooledBuffer.get, hnew, hreplace]
  · intro hnone
    cases hnone
  · simp only [counted, hstage, Stage.extra, hcap, ht.capacity, fetchAdd]
    omega

/-- The new block takes over the live bytes, and the old one is taken off. -/
theorem growSub_keeps {g : Growth} {v : Block} {r : Outcome} (hl : l.Ok) (hb : s.Bounded)
    (hstage : l.stage = .growSub g v) (h : l.go s = some r) : Keeps s l r := by
  obtain ⟨hplaced, hneeded⟩ : g.Placed l.buffer l.shard ∧ g.needed ≤ v.capacity := by
    have := hl.stage; rwa [hstage] at this
  have hshort := hplaced.short
  have hlen : l.buffer.len ≤ v.capacity := by
    simp only [Buffer.len, Buffer.capacity] at hshort ⊢
    omega
  obtain ⟨b', hreplace, ht⟩ := replaceStorage_taken v hl.wf hlen
  simp only [go, hstage, hreplace] at h
  cases h
  refine ensured_keeps ⟨hb.length_le, hb.cached⟩ ht ?_ (fun _ => ⟨hneeded, hplaced.allowed⟩) ?_ hplaced.extends_ ?_
  · exact fun hnone => absurd hnone hplaced.placed
  · -- the scan that comes across this block alone
    intro _
    refine ⟨[[v.memory]], [], ?_⟩
    have hfind : PooledBuffer.findBlock [v.memory] g.needed = .ok v.memory := by
      simp [PooledBuffer.findBlock, PooledBuffer.takeSuitable, hneeded]
    rw [PooledBuffer.ensure, if_neg (Nat.not_lt.mpr hplaced.allowed), if_neg (Nat.not_le.mpr hshort)]
    simp only [List.headD_cons, hfind, bind, Except.bind, hreplace]
    rfl
  · simp only [counted, hstage, Stage.extra, fetchSub, List.length_append, Buffer.capacity]
    omega

theorem append_keeps {bytes : Bytes} {r : Outcome} (hl : l.Ok) (hb : s.Bounded) (hstage : l.stage = .append bytes)
    (h : l.go s = some r) : Keeps s l r := by
  have hroom : l.buffer.len + bytes.length ≤ l.buffer.capacity ∧ l.buffer.len + bytes.length ≤ l.buffer.max := by
    have := hl.stage; rwa [hstage] at this
  obtain ⟨b', hextend, hfilled, hkept⟩ := Buffer.extendFromSlice_made bytes hl.wf (Buffer.refusal_none.mpr hroom)
  simp only [go, hstage, hextend] at h
  cases h
  refine ⟨⟨rfl, hfilled⟩, trivial, hb, ⟨hkept.wf, ?_, trivial⟩, ?_⟩
  · intro hshard
    exact hkept.capacity.trans (hl.unsharded hshard)
  · simp only [counted, hstage, Stage.extra, hkept.capacity]

theorem scanPop_keeps {g : Growth} {start : Fin shardCount} {offset left : Nat} {r : Outcome} (hl : l.Ok) (hb : s.Bounded)
    (hstage : l.stage = .scanPop g start offset (left + 1)) (h : l.go s = some r) : Keeps s l r := by
  have hplaced : g.Placed l.buffer l.shard := by have := hl.stage; rwa [hstage] at this
  have hextra : l.stage.extra = 0 := by rw [hstage]; rfl
  obtain ⟨hb', hleased, hcached⟩ := hb.pop (scanned start offset)
  simp only [go, hstage] at h
  split at h
  · next s' hpop =>
    rw [hpop] at hb' hleased
    cases h
    exact keeps_quiet hl hb' hplaced (by rw [hextra, hleased]; rfl)
  · next v s' hpop =>
    rw [hpop] at hb' hleased hcached
    split at h <;> cases h
    · next hle => exact keeps_quiet hl hb' ⟨hplaced, hle⟩ (by rw [hextra, hleased]; rfl)
    · exact keeps_quiet hl hb' ⟨hplaced, hcached v rfl⟩ (by rw [hextra, hleased]; rfl)

theorem go_keeps {r : Outcome} (hl : l.Ok) (hb : s.Bounded) (h : l.go s = some r) : Keeps s l r := by
  have hok := hl.stage
  cases hstage : l.stage with
  | getEmpty =>
    rw [hstage] at hok
    simp only [go, hstage] at h
    cases h
    refine ⟨hok.1, ⟨[], ?_⟩, hb, ⟨hl.wf, hl.unsharded, trivial⟩, ?_⟩
    · rw [PooledBuffer.get_ok, ← empty_eq hl.wf hok.2]
    · rw [counted, hstage]
      rfl
  | getShard =>
    rw [hstage] at hok
    simp only [go, hstage] at h
    cases h
    exact keeps_quiet hl ⟨hb.length_le, hb.cached⟩ hok (by rw [hstage]; rfl)
  | getPop shard =>
    rw [hstage] at hok
    obtain ⟨hb', hleased, -⟩ := hb.pop shard
    simp only [go, hstage] at h
    cases h
    exact keeps_quiet hl hb' hok (by rw [hstage, hleased]; rfl)
  | getAdd shard v => exact getAdd_keeps hl hb hstage h
  | growShard g =>
    rw [hstage] at hok
    simp only [go, hstage] at h
    cases h
    refine ⟨trivial, trivial, ⟨hb.length_le, hb.cached⟩, ⟨hl.wf, ?_, ⟨hok, Option.some_ne_none _⟩⟩, ?_⟩
    · intro hnone
      cases hnone
    · rw [counted, hstage]
      rfl
  | scanLen g start offset =>
    rw [hstage] at hok
    simp only [go, hstage] at h
    split at h <;> cases h
    · exact keeps_quiet hl hb hok (by rw [hstage]; rfl)
    · exact keeps_quiet hl hb hok (by rw [hstage]; rfl)
  | scanPop g start offset left =>
    cases left with
    | zero =>
      rw [hstage] at hok
      simp only [go, hstage] at h
      cases h
      exact keeps_quiet hl hb hok (by rw [hstage]; rfl)
    | succ left => exact scanPop_keeps hl hb hstage h
  | scanPush g start offset left v =>
    rw [hstage] at hok
    obtain ⟨hb', hleased⟩ := hb.push (scanned start offset) hok.2
    simp only [go, hstage] at h
    cases h
    exact keeps_quiet hl hb' hok.1 (by rw [hstage, hleased]; rfl)
  | growAdd g v =>
    rw [hstage] at hok
    simp only [go, hstage] at h
    cases h
    refine keeps_quiet hl ⟨hb.length_le, hb.cached⟩ hok ?_
    rw [hstage]
    simp [fetchAdd, Stage.extra]
  | growSub g v => exact growSub_keeps hl hb hstage h
  | append bytes => exact append_keeps hl hb hstage h
  | putPush v shard gone =>
    rw [hstage] at hok
    obtain ⟨hb', hleased⟩ := hb.push shard hok.2
    simp only [go, hstage] at h
    cases h
    exact keeps_quiet hl hb' hok.1 (by rw [hstage, hleased]; rfl)
  | putSub capacity gone =>
    rw [hstage] at hok
    simp only [go, hstage] at h
    cases h
    obtain ⟨hended, hextra⟩ := ended_ok gone l.shard hok
    refine keeps_quiet hl ⟨hb.length_le, hb.cached⟩ hended ?_
    rw [hstage, hextra]
    simp [fetchSub, Stage.extra]
  | idle | reserve _ | dropped | panicked =>
    simp only [go, hstage] at h
    cases h

theorem step_keeps {a : Act} {r : Outcome} (hl : l.Ok) (hb : s.Bounded) (h : l.step s a = some r) : Keeps s l r := by
  unfold step at h
  split at h
  · next hstage =>
    cases h
    exact ensure_keeps hl hb hstage fun bytes hcaller => by cases hcaller
  · next hstage =>
    cases h
    refine ensure_keeps hl hb hstage fun bytes hcaller => ?_
    cases hcaller
    rfl
  · next hstage => cases h; exact releaseEmpty_keeps hl hb hstage
  · next hstage => cases h; exact drop_keeps hl hb hstage
  · next buffer hstage =>
    split at h <;> cases h
    next hin =>
    obtain ⟨hw, hcap, hmax⟩ := hin
    refine ⟨trivial, trivial, hb, ⟨hw, fun hnone => hcap.trans (hl.unsharded hnone), ?_⟩, ?_⟩
    · rw [hstage]; trivial
    · simp only [counted, hcap]
  · next hstage => exact reserve_keeps hl hb hstage h
  · exact go_keeps hl hb h
  · cases h

end Lease

/-! ## Every interleaving -/

/-- What holds of the pool and its leases at any time. -/
structure Accounted (w : Parties.World BufferPool Lease) : Prop where
  bounded : w.shared.Bounded
  leases : ∀ l ∈ w.parties, l.Ok
  counted : w.shared.leasedBytes = Parties.held Lease.counted w.parties

theorem accounted_new : Accounted ⟨new, []⟩ := by
  refine ⟨⟨fun _ => Nat.zero_le _, ?_⟩, ?_, rfl⟩
  · intro i v hv
    cases hv
  · intro l hl
    cases hl

theorem Accounted.enter {w : Parties.World BufferPool Lease} (h : Accounted w) (e : Entry) :
    Accounted { w with parties := w.parties ++ [Lease.enter e] } := by
  refine ⟨h.bounded, Parties.forall_concat h.leases (Lease.enter_ok e), ?_⟩
  have hcounted : (Lease.enter e).counted = 0 := by cases e <;> rfl
  rw [Parties.held_concat, hcounted]
  exact h.counted

theorem Accounted.act {w : Parties.World BufferPool Lease} (h : Accounted w) {i : Nat} {l : Lease} {r : Outcome}
    (hl : w.parties[i]? = some l) (hk : Keeps w.shared l r) : Accounted ⟨r.2.1, w.parties.set i r.2.2⟩ := by
  refine ⟨hk.bounded, Parties.forall_set h.leases hk.ok, ?_⟩
  have hheld := Parties.held_set Lease.counted hl r.2.2
  have hcounted := hk.counted
  have hbefore := h.counted
  show r.2.1.leasedBytes = Parties.held Lease.counted (w.parties.set i r.2.2)
  omega

theorem step_kept {w : Parties.World BufferPool Lease} (h : Accounted w) {i : Nat} {a : Act} {l : Lease} {r : Outcome}
    (hl : w.parties[i]? = some l) (hstep : system.step w.shared l a = some r) : Keeps w.shared l r :=
  Lease.step_keeps (h.leases l (List.mem_of_getElem? hl)) h.bounded hstep

/-- The session's view loses no interleaving. -/
theorem trace_viewed (moves : List Move) : ∀ x ∈ trace moves, ∀ e, x.2 = some e → e.Viewed := by
  refine Parties.System.run_events Accounted Event.Viewed (fun w e hw => hw.enter e) ?_ moves accounted_new
  intro w i a l e s' l' hw hl hstep
  have hk := step_kept hw hl hstep
  exact ⟨hk.viewed, hw.act hl hk⟩

/-- The lease is there, and no operation on it is in progress. -/
def Lease.live (l : Lease) : Bool :=
  match l.stage with
  | .idle => true
  | _ => false

def Lease.gone (l : Lease) : Bool :=
  match l.stage with
  | .dropped => true
  | _ => false

/-- A lease takes three bytes; nothing is cached, so they go to a new block. -/
def grown : List Move :=
  [.enter (.get 100), .act 0 .go, .act 0 .go, .act 0 .go, .act 0 (.extend [1, 2, 3])] ++
    List.replicate 9 (.act 0 .go) ++ [.act 0 (.allocate (some (List.replicate 64 0))), .act 0 .go, .act 0 .go, .act 0 .go]

end BufferPool

end Snell
