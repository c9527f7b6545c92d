/-
The shaping arithmetic of `codec/v6/profile/mod.rs` as the machine does it:
sums and products that panic when they overflow `usize`, a `clamp` that
panics when its bounds are the wrong way round, an index that panics out of
range, a `while` that may not end.

`ProfileFields` is the source's `struct Profile`, with no range known of any
field, and its functions check everything. They give what `Profile`'s give on
every key (`derive_eq`, `writeTargetLen_eq`, `finalPaddingLen_eq`): none of
the checks ever fails. Hence no shaped record outgrows its reservation, and
any one of them fits an empty buffer of `V6_WIRE_CAP` bytes.
-/
import Mathlib.Data.List.FinRange
import Snell.ShapedWire

namespace Snell

/-! ## Machine arithmetic -/

/-- The width of `usize`. `V6_WIRE_CAP` is a constant of that type, so it has
more than 16 bits. -/
structure Usize where
  bits : Nat
  bits_ge : 32 ≤ bits

namespace Usize

variable (u : Usize)

/-- `usize::MAX` -/
def last : Nat := 2 ^ u.bits - 1

def add (a b : Nat) : Res Nat := if a + b ≤ u.last then .ok (a + b) else .error .panic

def mul (a b : Nat) : Res Nat := if a * b ≤ u.last then .ok (a * b) else .error .panic

def saturatingAdd (a b : Nat) : Nat := min (a + b) u.last

/-- `x as usize` of an `i64`. -/
def ofI64 (x : Int) : Nat := (x % 2 ^ u.bits).toNat

theorem last_ge : 2 ^ 32 - 1 ≤ u.last :=
  Nat.sub_le_sub_right (Nat.pow_le_pow_right (by decide) u.bits_ge) 1

theorem add_ok {a b : Nat} (h : a + b < 2 ^ 32) : u.add a b = .ok (a + b) := by
  have := u.last_ge
  exact if_pos (by omega)

theorem mul_ok {a b : Nat} (h : a * b < 2 ^ 32) : u.mul a b = .ok (a * b) := by
  have := u.last_ge
  exact if_pos (by omega)

theorem saturatingAdd_eq {a b : Nat} (h : a + b < 2 ^ 32) : u.saturatingAdd a b = a + b := by
  have := u.last_ge
  exact Nat.min_eq_left (by omega)

theorem ofI64_eq {n : Nat} (h : n < 2 ^ 32) : u.ofI64 n = n := by
  have hpow : (n : Int) < 2 ^ u.bits := by
    exact_mod_cast Nat.lt_of_lt_of_le h (Nat.pow_le_pow_right (by decide) u.bits_ge)
  rw [ofI64, Int.emod_eq_of_lt (by omega) hpow, Int.toNat_natCast]

end Usize

theorem ok_bind {α β : Type} (x : α) (f : α → Res β) : (Except.ok x >>= f) = f x := by simp only [bind, Except.bind]

/-- `a % b` -/
def rem (a b : Nat) : Res Nat := if b = 0 then .error .panic else .ok (a % b)

/-- `Ord::clamp` -/
def clamp (x lo hi : Nat) : Res Nat := if lo ≤ hi then .ok (max lo (min x hi)) else .error .panic

/-- `xs[i]` -/
def index (xs : List Nat) (i : Nat) : Res Nat :=
  match xs[i]? with
  | some x => .ok x
  | none => .error .panic

/-- `n as i64` -/
def asI64 (n : Nat) : Int := Int.bmod n (2 ^ 64)

/-- The result of an operation on `i64`. -/
def i64 (x : Int) : Res Int := if -2 ^ 63 ≤ x ∧ x < 2 ^ 63 then .ok x else .error .panic

theorem rem_ok {a b : Nat} (h : 0 < b) : rem a b = .ok (a % b) := if_neg (Nat.ne_of_gt h)

theorem clamp_ok {x lo hi : Nat} (h : lo ≤ hi) : clamp x lo hi = .ok (max lo (min x hi)) := if_pos h

theorem asI64_eq {n : Nat} (h : n < 2 ^ 32) : asI64 n = n :=
  Int.bmod_eq_of_le (by omega) (by omega)

theorem i64_ok {x : Int} (h : -2 ^ 32 ≤ x ∧ x < 2 ^ 33) : i64 x = .ok x := if_pos (by omega)

/-! ## The profile, unchecked -/

/-- `pick_usize` -/
def Usize.pickUsize (u : Usize) (raw : UInt32) (lo hi : Nat) : Res Nat :=
  if hi ≤ lo then .ok lo
  else do
    let span ← u.add (← sub hi lo) 1
    u.add lo (← rem raw.toNat span)

/-- `pick_u32` -/
def Usize.pickU32 (u : Usize) (raw lo hi : UInt32) : Res UInt32 := do
  return UInt32.ofNat (← u.pickUsize raw lo.toNat hi.toNat)

/-- `(value as i64 + j).max(least) as usize`, `j` being `raw as usize % span`
less the jitter. -/
def Usize.jitter (u : Usize) (value jitter : Nat) (raw : UInt32) (least : Nat) : Res Nat := do
  let span ← u.add (← u.mul 2 jitter) 1
  let raw ← rem raw.toNat span
  let j ← i64 (asI64 raw - asI64 jitter)
  return u.ofI64 (max (← i64 (asI64 value + j)) least)

/-- The fields of `struct Profile`. -/
structure ProfileFields where
  namespaces : Namespaces
  generator : UInt32
  padMin : Nat
  padMax : Nat
  padCount : UInt32
  padInterval : UInt32
  smallLimit : Nat
  bitMin : UInt32
  bitMax : UInt32
  prefixMinRecord : Nat
  prefixMaxRecord : Nat
  mixMode : UInt32
  mixRounds : UInt32
  mixStride : Nat
  mixOffsetBase : Nat
  mixBlock : Nat
  chunkPolicy : UInt32
  chunkInitial : Nat
  firstRecordCap : Nat
  chunkMax : Nat
  chunkStep : Nat
  chunkJitter : Nat
  idleResetSecs : Nat
  writePolicy : UInt32
  writeFirst : UInt32
  chunkBuckets : List Nat
  writeBuckets : List Nat
  writeSeq : List Nat
  writeJitter : Nat
  writeJitterPercent : Nat
  g1 : Nat
  g2 : Nat
  g3 : Nat
  g4 : Nat
  g5 : Nat
  g6 : Nat
  saltBlockLen : Nat
  mixStrideHandshake : UInt8
  mixRoundsHandshake : UInt8
  deriving DecidableEq, Repr

namespace ProfileFields

/-- `core::array::from_fn` of eight draws. -/
def buckets (u : Usize) (ns : Namespaces) (label : UInt32) (lo hi : Nat) : Res (List Nat) :=
  (List.finRange 8).mapM fun i : Fin 8 => u.pickUsize (ns.prfStatic label (UInt32.ofNat i)) lo hi

/-- `Profile::derive`, from the namespaces. -/
def derive (u : Usize) (ns : Namespaces) : Res ProfileFields := do
  let generator := ns.prfStatic Labels.generator 0 &&& 3
  let padMin ← u.pickUsize (ns.prfStatic Labels.padMin 0) 0x18 0xa0
  let padMax ← u.add padMin (← u.pickUsize (ns.prfStatic Labels.padMax 0) 0xa0 0x3c0)
  let padMax := min padMax maxExtraTargetPadding
  let padCount ← u.pickU32 (ns.prfStatic Labels.padCount 0) 2 8
  let padInterval ← u.pickU32 (ns.prfStatic Labels.padInterval 0) 2 0x0b
  let smallLimit ← u.pickUsize (ns.prfStatic Labels.smallLimit 0) 0x60 0x300
  let bitMin ← u.pickU32 (ns.prfStatic Labels.bitMin 0) 0x18 0x29
  let bitMax ← u.pickU32 (ns.prfStatic Labels.bitMax 0) 0x3a 0x4c
  let prefixMinHandshake ← u.pickUsize (ns.prfStatic Labels.prefixMin handshakeDomain) 0x10 0x60
  let prefixMaxHandshake ←
    u.add prefixMinHandshake (← u.pickUsize (ns.prfStatic Labels.prefixMax handshakeDomain) 0x10 0xa0)
  let prefixMaxHandshake := min prefixMaxHandshake v6MaxPrefixLen
  let saltPrefixLen ←
    u.pickUsize (ns.prfStatic Labels.recordPrefix handshakeDomain) prefixMinHandshake prefixMaxHandshake
  let saltBlockLen ← u.add saltLen saltPrefixLen
  let mixRoundsHandshake ← u.pickU32 (ns.prfStatic Labels.mixRounds SaltHide.mixHandshakeDomain) 1 4
  let mixStrideHandshake ← u.pickUsize (ns.prfStatic Labels.mixStride SaltHide.mixHandshakeDomain) 0x11 0xfb
  let prefixMinRecord ← u.pickUsize (ns.prfStatic Labels.prefixMin 0) 0x08 0x50
  let prefixMaxRecord ← u.add prefixMinRecord (← u.pickUsize (ns.prfStatic Labels.prefixMax 0) 0x10 0xa0)
  let prefixMaxRecord := min prefixMaxRecord v6MaxPrefixLen
  let mixMode := ns.prfStatic Labels.mixMode 0 % 3
  let mixRounds ← u.pickU32 (ns.prfStatic Labels.mixRounds 0) 1 3
  let mixStride ← u.pickUsize (ns.prfStatic Labels.mixStride 0) 2 13
  let mixOffsetBase ← u.pickUsize (ns.prfStatic Labels.mixOffsetBase 0) 0 15
  let mixBlock ← u.pickUsize (ns.prfStatic Labels.mixBlock 0) 8 0x40
  let chunkPolicy := ns.prfStatic Labels.chunkPolicy 0 % 3
  let chunkInitial ← u.pickUsize (ns.prfStatic Labels.chunkInitial 0) 0x200 profileTrafficShapingMtuCap
  let firstRecordCap ← clamp (← u.pickUsize (ns.prfStatic Labels.chunkFirstCap chunkInitialDomain) 0x100 0x300)
    0x100 (min chunkInitial 0x300)
  let chunkMax ← u.pickUsize (ns.prfStatic Labels.chunkMax 0) 0x2000 profileChunkMaxRawBound
  let chunkStep := min (← u.pickUsize (ns.prfStatic Labels.chunkStep 0) 0x400 0x1000) 0x0b68
  let chunkJitter := min (← u.pickUsize (ns.prfStatic Labels.chunkJitter 0) 0x10 0xc0) 0x0b6
  let idleResetSecs ← u.pickUsize (ns.prfStatic Labels.idleReset 0) 0x0c 0x5a
  let writePolicy := ns.prfStatic Labels.writePolicy 0 % 3
  let writeFirst ← u.pickU32 (ns.prfStatic Labels.writeFirst 0) 4 8
  let chunkBuckets ← buckets u ns Labels.chunkBucket 0x1000 chunkMax
  let writeBuckets ← buckets u ns Labels.writeBucket 0x140 profileTrafficShapingMtuCap
  let writeSeq ← buckets u ns Labels.writeSeq 0x168 profileTrafficShapingMtuCap
  let writeJitter ← u.pickUsize (ns.prfStatic Labels.writeJitter 0) 0x08 0x60
  let writeJitterPercent ← u.pickUsize (ns.prfStatic Labels.writePolicy 0x504c) 8 0x30
  let g1 ← u.pickUsize (ns.prfStatic Labels.generator 1) 0x18 0x80
  let g2 ← u.pickUsize (ns.prfStatic Labels.generator 2) 0x10 0x60
  let g3 ← u.pickUsize (ns.prfStatic Labels.generator 3) 0x10 0x60
  let g4 ← u.pickUsize (ns.prfStatic Labels.generator 4) 0x00 0x09
  let g5 ← u.pickUsize (ns.prfStatic Labels.generator 5) 0x01 0x08
  let g6 ← u.pickUsize (ns.prfStatic Labels.generator 6) 0x07 0x17
  return {
    namespaces := ns, generator, padMin, padMax, padCount, padInterval, smallLimit, bitMin, bitMax, prefixMinRecord,
    prefixMaxRecord, mixMode, mixRounds, mixStride, mixOffsetBase, mixBlock, chunkPolicy, chunkInitial, firstRecordCap,
    chunkMax, chunkStep, chunkJitter, idleResetSecs, writePolicy, writeFirst, chunkBuckets, writeBuckets, writeSeq,
    writeJitter, writeJitterPercent, g1, g2, g3, g4, g5, g6, saltBlockLen,
    mixStrideHandshake := UInt8.ofNat mixStrideHandshake, mixRoundsHandshake := mixRoundsHandshake.toUInt8 }

variable (u : Usize) (p : ProfileFields)

def prf32 (label a b : UInt32) : UInt32 := p.namespaces.prf32 label a b

def pick (label a b : UInt32) (lo hi : Nat) : Res Nat := u.pickUsize (p.prf32 label a b) lo hi

def maxPaddingLen : Res Nat := u.add p.padMax maxExtraTargetPadding

def recordPrefixLen (seq : UInt32) : Res Nat :=
  p.pick u Labels.recordPrefix seq 0 p.prefixMinRecord p.prefixMaxRecord

/-- A bucket by a hash of the record. -/
def bucketAt (buckets : List Nat) (hash : UInt32) : Res Nat := do
  index buckets (← rem hash.toNat buckets.length)

/-- The `while current_len > target` of `write_target_len`, followed for
`fuel` tests of its condition. -/
def raiseTarget (seq : UInt32) (currentLen : Nat) : (fuel target : Nat) → Res Nat
  | 0, _ => .error .diverged
  | fuel + 1, target =>
    if currentLen ≤ target then .ok target
    else do
      let cand ← bucketAt p.writeBuckets (p.prf32 Labels.writeNext seq (UInt32.ofNat target))
      if target < cand then raiseTarget seq currentLen fuel cand
      else
        let target := u.saturatingAdd target p.padMax
        if 65535 < target then return 2 ^ 32 - 1 else raiseTarget seq currentLen fuel target

/-- The target before any jitter. -/
def firstTarget (seq : UInt32) (currentLen : Nat) : Res Nat :=
  if seq < p.writeFirst then index p.writeSeq seq.toNat
  else bucketAt p.writeBuckets (p.prf32 Labels.writeTarget seq (UInt32.ofNat currentLen))

/-- The jitter of write policy 2. -/
def policyTarget (seq : UInt32) (target : Nat) : Res Nat :=
  if p.writePolicy = 2 then u.jitter target p.writeJitter (p.prf32 Labels.writeJitterValue seq 0) 1 else .ok target

/-- The jitter in proportion to the record. -/
def spreadTarget (seq : UInt32) (jitterBound target : Nat) : Res Nat :=
  if p.prf32 Labels.writeTarget seq (UInt32.ofNat jitterBound) &&& 1 = 0 then .ok (u.saturatingAdd target jitterBound)
  else if jitterBound / 2 < target then sub target (jitterBound / 2)
  else .ok target

def writeTargetLen (fuel : Nat) (seq : UInt32) (currentLen : Nat) : Res Nat :=
  if profileTargetDirectLimit < currentLen then
    .ok (if currentLen ≤ profileTargetU16Limit then currentLen else 2 ^ 32 - 1)
  else do
    let target ← p.firstTarget seq currentLen
    let target ← p.policyTarget u seq target
    let jitterBound := min maxExtraTargetPadding ((← u.mul p.writeJitterPercent currentLen) / 100)
    let target ← p.spreadTarget u seq jitterBound target
    p.raiseTarget u seq currentLen fuel target

/-- The padding of some records, before it is brought up to a target. -/
def basePad (seq : UInt32) (payloadLen : Nat) : Res Nat :=
  if seq < p.padCount ∨ (payloadLen ≠ 0 ∧ payloadLen ≤ p.smallLimit) ∨
      (p.padInterval ≠ 0 ∧ seq % p.padInterval = 0) then
    p.pick u Labels.payloadPadding seq (UInt32.ofNat payloadLen) p.padMin p.padMax
  else .ok 0

/-- A payload and its tag. -/
def bodyLen (payloadLen : Nat) : Res Nat := if 0 < payloadLen then u.add payloadLen tagLen else .ok 0

/-- The length of a record, with the salt block of a first one. -/
def withSaltBlock (firstFrame : Bool) (currentLen : Nat) : Res Nat :=
  if firstFrame then u.add currentLen p.saltBlockLen else .ok currentLen

def finalPaddingLen (fuel : Nat) (seq : UInt32) (prefixLen payloadLen : Nat) (firstFrame : Bool) : Res Nat := do
  let basePad ← p.basePad u seq payloadLen
  let currentLen ← u.add (← u.add prefixLen headerCipherLen) basePad
  let currentLen ← u.add currentLen (← bodyLen u payloadLen)
  let currentLen ← p.withSaltBlock u firstFrame currentLen
  let target ← p.writeTargetLen u fuel seq currentLen
  if currentLen < target then u.add basePad (min maxExtraTargetPadding (← sub target currentLen))
  else return basePad

/-- The chunk size the policy makes of `cur`. -/
def policyChunk (seq : UInt32) (cur : Nat) : Res Nat :=
  if p.chunkPolicy = 1 then bucketAt p.chunkBuckets (p.prf32 Labels.chunkSize seq (UInt32.ofNat cur))
  else if p.chunkPolicy = 2 then
    u.jitter cur p.chunkJitter (p.prf32 Labels.chunkJitterValue seq (UInt32.ofNat cur)) 0x40
  else .ok cur

def chunkLimit (seq : UInt32) (currentChunkSize : Nat) : Res Nat := do
  let cur ← p.policyChunk u seq (if currentChunkSize = 0 then p.chunkInitial else currentChunkSize)
  clamp cur 0x40 p.chunkMax

def advanceChunkSize (currentChunkSize : Nat) : Nat :=
  if currentChunkSize = 0 then p.chunkInitial else min (u.saturatingAdd currentChunkSize p.chunkStep) p.chunkMax

end ProfileFields

/-- The fields of a profile, their ranges forgotten. -/
def Profile.fields (p : Profile) : ProfileFields where
  namespaces := p.namespaces
  generator := p.generator
  padMin := p.padMin
  padMax := p.padMax
  padCount := UInt32.ofNat p.padCount
  padInterval := UInt32.ofNat p.padInterval
  smallLimit := p.smallLimit
  bitMin := UInt32.ofNat p.bitMin
  bitMax := UInt32.ofNat p.bitMax
  prefixMinRecord := p.prefixMinRecord
  prefixMaxRecord := p.prefixMaxRecord
  mixMode := UInt32.ofNat p.mixMode
  mixRounds := UInt32.ofNat p.mixRounds
  mixStride := p.mixStride
  mixOffsetBase := p.mixOffsetBase
  mixBlock := p.mixBlock
  chunkPolicy := UInt32.ofNat p.chunkPolicy
  chunkInitial := p.chunkInitial
  firstRecordCap := p.firstRecordCap
  chunkMax := p.chunkMax
  chunkStep := p.chunkStep
  chunkJitter := p.chunkJitter
  idleResetSecs := p.idleResetSecs
  writePolicy := UInt32.ofNat p.writePolicy
  writeFirst := UInt32.ofNat p.writeFirst
  chunkBuckets := List.ofFn p.chunkBuckets
  writeBuckets := List.ofFn p.writeBuckets
  writeSeq := List.ofFn p.writeSeq
  writeJitter := p.writeJitter
  writeJitterPercent := p.writeJitterPercent
  g1 := p.g1
  g2 := p.g2
  g3 := p.g3
  g4 := p.g4
  g5 := p.g5
  g6 := p.g6
  saltBlockLen := p.saltBlockLen
  mixStrideHandshake := p.mixStrideHandshake
  mixRoundsHandshake := p.mixRoundsHandshake

/-! ## No check fails -/

section Draw

variable (u : Usize)

theorem Usize.pickUsize_eq (raw : UInt32) {lo hi : Nat} (h : lo + hi < 2 ^ 32 - 1) :
    u.pickUsize raw lo hi = .ok (Snell.pickUsize raw lo hi) := by
  unfold Usize.pickUsize Snell.pickUsize
  by_cases hle : hi ≤ lo
  · rw [if_pos hle, if_pos hle]
  · have hmod := Nat.mod_lt raw.toNat (y := hi - lo + 1) (by omega)
    rw [if_neg hle, if_neg hle, sub_ok (by omega), ok_bind, u.add_ok (by omega), ok_bind, rem_ok (by omega), ok_bind]
    exact u.add_ok (by omega)

theorem Usize.pickU32_eq (raw lo hi : UInt32) (h : lo.toNat + hi.toNat < 2 ^ 32 - 1) :
    u.pickU32 raw lo hi = .ok (UInt32.ofNat (Snell.pickUsize raw lo.toNat hi.toNat)) := by
  rw [Usize.pickU32, u.pickUsize_eq raw h, ok_bind]
  rfl

theorem Usize.jitter_eq {value jitter : Nat} (raw : UInt32) {least : Nat} (hv : value < 65536) (hj : jitter < 65536)
    (hl : least < 65536) : u.jitter value jitter raw least = .ok (Profile.jittered value jitter raw.toNat least) := by
  have hmod := Nat.mod_lt raw.toNat (y := 2 * jitter + 1) (by omega)
  unfold Usize.jitter Profile.jittered
  rw [u.mul_ok (by omega), ok_bind, u.add_ok (by omega), ok_bind, rem_ok (by omega), ok_bind]
  generalize raw.toNat % (2 * jitter + 1) = r at *
  rw [asI64_eq (by omega), asI64_eq (by omega), asI64_eq (by omega), i64_ok (by omega), ok_bind,
    i64_ok (by omega), ok_bind]
  -- the truncated difference and the integer one agree at or above `least`
  have hmax : max ((value : Int) + ((r : Int) - jitter)) (least : Int) =
      ((max least (value + r - jitter) : Nat) : Int) := by
    omega
  rw [hmax, u.ofI64_eq (by omega)]
  rfl

theorem ProfileFields.buckets_eq (ns : Namespaces) (label : UInt32) {lo hi : Nat} (h : lo + hi < 2 ^ 32 - 1) :
    buckets u ns label lo hi = .ok (List.ofFn (Profile.buckets ns label lo hi)) := by
  have hpick : (fun i : Fin 8 => u.pickUsize (ns.prfStatic label (UInt32.ofNat i)) lo hi) =
      fun i => (pure (Profile.buckets ns label lo hi i) : Res Nat) := funext fun i => u.pickUsize_eq _ h
  rw [buckets, hpick, List.mapM_pure, List.ofFn_eq_map]
  rfl

theorem ProfileFields.bucketAt_eq (buckets : Fin 8 → Nat) (hash : UInt32) :
    bucketAt (List.ofFn buckets) hash = .ok (buckets (Fin.ofNat 8 hash.toNat)) := by
  have hlt := Nat.mod_lt hash.toNat (y := 8) (by decide)
  rw [bucketAt, List.length_ofFn, rem_ok (by decide), ok_bind, index, List.getElem?_ofFn, dif_pos hlt]
  rfl

/-- A sum of two draws is far from overflowing. -/
theorem Usize.add_draw (raw : UInt32) {lo hi base : Nat} (hb : base < 65536) (h : lo ≤ hi) (hh : hi < 65536) :
    u.add base (Snell.pickUsize raw lo hi) = .ok (base + Snell.pickUsize raw lo hi) := by
  have := pickUsize_le raw h
  exact u.add_ok (by omega)

theorem lt_ofNat {x : UInt32} {n : Nat} (h : n < 2 ^ 32) : x < UInt32.ofNat n ↔ x.toNat < n := by
  rw [UInt32.lt_iff_toNat_lt, UInt32.toNat_ofNat', Nat.mod_eq_of_lt h]

theorem ofNat_eq_iff {m n : Nat} (hm : m < 2 ^ 32) (hn : n < 2 ^ 32) : UInt32.ofNat m = UInt32.ofNat n ↔ m = n := by
  rw [← UInt32.toNat_inj, UInt32.toNat_ofNat', UInt32.toNat_ofNat', Nat.mod_eq_of_lt hm, Nat.mod_eq_of_lt hn]

theorem mod_three (x : UInt32) : x % 3 = UInt32.ofNat (x.toNat % 3) := by
  rw [← UInt32.toNat_inj, UInt32.toNat_mod, UInt32.toNat_ofNat']
  show x.toNat % 3 = x.toNat % 3 % 2 ^ 32
  omega

/-- **Every key has a profile**: no sum of `derive` overflows and its `clamp`
is never given bounds the wrong way round. -/
theorem ProfileFields.derive_eq (ns : Namespaces) : derive u ns = .ok (Profile.ofNamespaces ns).fields := by
  -- the draws others depend on, by the names the profile has for them
  have hpadMin : u.pickUsize (ns.prfStatic Labels.padMin 0) 0x18 0xa0 = .ok (Profile.drawPadMin ns) :=
    u.pickUsize_eq _ (by decide)
  have hminh : u.pickUsize (ns.prfStatic Labels.prefixMin handshakeDomain) 0x10 0x60 =
      .ok (Profile.drawPrefixMinHandshake ns) := u.pickUsize_eq _ (by decide)
  have hminr : u.pickUsize (ns.prfStatic Labels.prefixMin 0) 0x08 0x50 = .ok (Profile.drawPrefixMinRecord ns) :=
    u.pickUsize_eq _ (by decide)
  have hinit : u.pickUsize (ns.prfStatic Labels.chunkInitial 0) 0x200 profileTrafficShapingMtuCap =
      .ok (Profile.drawChunkInitial ns) := u.pickUsize_eq _ (by decide)
  have hmax : u.pickUsize (ns.prfStatic Labels.chunkMax 0) 0x2000 profileChunkMaxRawBound =
      .ok (Profile.drawChunkMax ns) := u.pickUsize_eq _ (by decide)
  have hpad_lt : Profile.drawPadMin ns < 65536 := Nat.lt_of_le_of_lt (Profile.drawPadMin_mem ns).2 (by decide)
  have hminh_lt : Profile.drawPrefixMinHandshake ns < 65536 :=
    Nat.lt_of_le_of_lt (pickUsize_le _ (by decide)) (by decide : 0x60 < 65536)
  have hmaxh_le : Profile.drawPrefixMaxHandshake ns ≤ v6MaxPrefixLen := Nat.min_le_right _ _
  have hminr_lt : Profile.drawPrefixMinRecord ns < 65536 :=
    Nat.lt_of_le_of_lt (pickUsize_le _ (by decide)) (by decide : 0x50 < 65536)
  have hmax_le : Profile.drawChunkMax ns ≤ 0x3fff := pickUsize_le _ (by decide)
  have hsalt_le : Profile.drawSaltPrefixLen ns ≤ 0x80 := Profile.drawSaltPrefixLen_le ns
  have hsaltPrefix : u.pickUsize (ns.prfStatic Labels.recordPrefix handshakeDomain) (Profile.drawPrefixMinHandshake ns)
      (Profile.drawPrefixMaxHandshake ns) = .ok (Profile.drawSaltPrefixLen ns) :=
    u.pickUsize_eq _ (by unfold v6MaxPrefixLen at hmaxh_le; omega)
  have hsalt : u.add saltLen (Profile.drawSaltPrefixLen ns) = .ok (saltLen + Profile.drawSaltPrefixLen ns) :=
    u.add_ok (by unfold saltLen; omega)
  have hcap : clamp (Snell.pickUsize (ns.prfStatic Labels.chunkFirstCap chunkInitialDomain) 0x100 0x300) 0x100
      (min (Profile.drawChunkInitial ns) 0x300) = .ok (Profile.drawFirstRecordCap ns) := by
    have : 0x200 ≤ Profile.drawChunkInitial ns := pickUsize_ge _ _ _
    exact clamp_ok (by omega)
  have hwindow : 0x1000 + Profile.drawChunkMax ns < 2 ^ 32 - 1 := by omega
  have hchunk := buckets_eq u ns Labels.chunkBucket hwindow
  unfold derive
  simp only [hpadMin, hminh, hminr, hinit, hmax, ok_bind]
  simp (disch := decide) only [Usize.pickUsize_eq, Usize.pickU32_eq, buckets_eq, ok_bind]
  simp (disch := first | assumption | decide) only [Usize.add_draw, ok_bind]
  rw [← Profile.drawPrefixMaxHandshake]
  simp only [hsaltPrefix, hsalt, hcap, hchunk, ok_bind]
  simp only [mod_three, UInt32.toUInt8_ofNat', pure, Except.pure]
  rfl

end Draw

/-- The ranges `derive` draws from that no function of a `Profile` relies on,
but the machine's arithmetic does. -/
structure Profile.Ranged (p : Profile) : Prop where
  padCount : p.padCount ≤ 8
  padInterval : p.padInterval ≤ 0x0b
  chunkPolicy : p.chunkPolicy < 3
  writePolicy : p.writePolicy < 3
  chunkInitial : p.chunkInitial ≤ profileTrafficShapingMtuCap
  firstRecordCap : p.firstRecordCap ≤ p.chunkInitial
  chunkStep : p.chunkStep ≤ 0x0b68
  chunkBuckets : ∀ i, p.chunkBuckets i ≤ p.chunkMax
  writeBuckets : ∀ i, 0x140 ≤ p.writeBuckets i ∧ p.writeBuckets i ≤ profileTrafficShapingMtuCap
  writeSeq : ∀ i, 0x168 ≤ p.writeSeq i ∧ p.writeSeq i ≤ profileTrafficShapingMtuCap
  writeJitter : p.writeJitter ≤ 0x60
  writeJitterPercent : p.writeJitterPercent ≤ 0x30

theorem Profile.ofNamespaces_ranged (ns : Namespaces) : (ofNamespaces ns).Ranged := by
  have hpick : ∀ raw lo hi, lo ≤ hi → lo ≤ pickUsize raw lo hi ∧ pickUsize raw lo hi ≤ hi :=
    fun raw lo hi h => ⟨pickUsize_ge raw lo hi, pickUsize_le raw h⟩
  have hinit := hpick (ns.prfStatic Labels.chunkInitial 0) 0x200 profileTrafficShapingMtuCap (by decide)
  refine {
    padCount := (hpick _ 2 8 (by decide)).2
    padInterval := (hpick _ 2 0x0b (by decide)).2
    chunkPolicy := Nat.mod_lt _ (by decide)
    writePolicy := Nat.mod_lt _ (by decide)
    chunkInitial := hinit.2
    firstRecordCap := ?_
    chunkStep := Nat.min_le_right _ _
    chunkBuckets := fun _ => (hpick _ 0x1000 _ (Nat.le_trans (by decide) (ofNamespaces ns).chunkMax_ge)).2
    writeBuckets := fun _ => hpick _ 0x140 profileTrafficShapingMtuCap (by decide)
    writeSeq := fun _ => hpick _ 0x168 profileTrafficShapingMtuCap (by decide)
    writeJitter := (hpick _ 0x08 0x60 (by decide)).2
    writeJitterPercent := (hpick _ 8 0x30 (by decide)).2 }
  have hge : 0x200 ≤ drawChunkInitial ns := hinit.1
  show drawFirstRecordCap ns ≤ drawChunkInitial ns
  unfold drawFirstRecordCap
  omega

namespace Profile

section Target

variable (u : Usize) (p : Profile)

theorem fields_maxPaddingLen : p.fields.maxPaddingLen u = .ok p.maxPaddingLen := by
  have hpad := p.padMax_le
  show u.add p.padMax maxExtraTargetPadding = .ok (p.padMax + maxExtraTargetPadding)
  unfold maxExtraTargetPadding at *
  exact u.add_ok (by omega)

theorem fields_recordPrefixLen (seq : UInt32) : p.fields.recordPrefixLen u seq = .ok (p.recordPrefixLen seq) := by
  obtain ⟨h₁, h₂⟩ := p.prefix_le
  unfold v6MaxPrefixLen at h₂
  have hsum : p.prefixMinRecord + p.prefixMaxRecord < 2 ^ 32 - 1 := by omega
  exact u.pickUsize_eq _ hsum

/-- The loop of `write_target_len` ends: every turn raises the target, and it
has at most `current_len` to go. -/
theorem fields_raiseTarget (seq : UInt32) {currentLen : Nat} (hc : currentLen ≤ profileTargetDirectLimit) (n : Nat) :
    ∀ fuel target, n < fuel → currentLen ≤ n + target →
      p.fields.raiseTarget u seq currentLen fuel target = .ok (p.raiseTarget seq currentLen n target) := by
  have hpos := p.padMax_pos; have hpad := p.padMax_le
  unfold maxExtraTargetPadding at hpad
  unfold profileTargetDirectLimit at hc
  induction n with
  | zero =>
    intro fuel target hfuel hle
    obtain ⟨fuel, rfl⟩ : ∃ m, fuel = m + 1 := ⟨fuel - 1, by omega⟩
    rw [ProfileFields.raiseTarget, if_pos (by omega), raiseTarget]
  | succ n ih =>
    intro fuel target hfuel hle
    obtain ⟨fuel, rfl⟩ : ∃ m, fuel = m + 1 := ⟨fuel - 1, by omega⟩
    rw [ProfileFields.raiseTarget, raiseTarget]
    by_cases hdone : currentLen ≤ target
    · rw [if_pos hdone, if_pos hdone]
    · rw [if_neg hdone, if_neg hdone]
      have hcand := ProfileFields.bucketAt_eq p.writeBuckets (p.prf32 Labels.writeNext seq (UInt32.ofNat target))
      rw [show p.fields.writeBuckets = List.ofFn p.writeBuckets from rfl,
        show p.fields.prf32 = p.prf32 from rfl, hcand, ok_bind]
      simp only
      by_cases hlt : target < p.writeBuckets (Fin.ofNat 8 (p.prf32 Labels.writeNext seq (UInt32.ofNat target)).toNat)
      · rw [if_pos hlt, if_pos hlt]
        exact ih _ _ (by omega) (by omega)
      · have hadd : u.saturatingAdd target p.padMax = target + p.padMax := u.saturatingAdd_eq (by omega)
        rw [if_neg hlt, if_neg hlt, show p.fields.padMax = p.padMax from rfl, hadd, if_neg (by omega), if_neg (by omega)]
        exact ih _ _ (by omega) (by omega)

theorem fields_firstTarget (seq : UInt32) (currentLen : Nat) :
    p.fields.firstTarget seq currentLen =
      .ok (if h : seq.toNat < p.writeFirst then p.writeSeq ⟨seq.toNat, Nat.lt_of_lt_of_le h p.writeFirst_le⟩
        else p.writeBuckets (Fin.ofNat 8 (p.prf32 Labels.writeTarget seq (UInt32.ofNat currentLen)).toNat)) := by
  have hfirst := p.writeFirst_le
  have hiff : seq < p.fields.writeFirst ↔ seq.toNat < p.writeFirst := lt_ofNat (by omega)
  rw [ProfileFields.firstTarget]
  by_cases h : seq.toNat < p.writeFirst
  · have hlt : seq.toNat < 8 := Nat.lt_of_lt_of_le h hfirst
    rw [if_pos (hiff.mpr h), dif_pos h, index, show p.fields.writeSeq = List.ofFn p.writeSeq from rfl,
      List.getElem?_ofFn, dif_pos hlt]
  · rw [if_neg (mt hiff.mp h), dif_neg h]
    exact ProfileFields.bucketAt_eq _ _

theorem fields_policyTarget (hr : p.Ranged) (seq : UInt32) {target : Nat} (ht : target < 65536) :
    p.fields.policyTarget u seq target =
      .ok (if p.writePolicy = 2 then jittered target p.writeJitter (p.prf32 Labels.writeJitterValue seq 0).toNat 1
        else target) := by
  have hpolicy := hr.writePolicy; have hjitter := hr.writeJitter
  have hiff : p.fields.writePolicy = 2 ↔ p.writePolicy = 2 := ofNat_eq_iff (n := 2) (by omega) (by decide)
  rw [ProfileFields.policyTarget]
  by_cases h : p.writePolicy = 2
  · rw [if_pos (hiff.mpr h), if_pos h]
    exact u.jitter_eq _ ht (show p.writeJitter < 65536 by omega) (by decide)
  · rw [if_neg (mt hiff.mp h), if_neg h]

theorem fields_spreadTarget (seq : UInt32) {bound target : Nat} (h : target + bound < 2 ^ 32) :
    p.fields.spreadTarget u seq bound target =
      .ok (if p.prf32 Labels.writeTarget seq (UInt32.ofNat bound) &&& 1 = 0 then target + bound
        else if bound / 2 < target then target - bound / 2 else target) := by
  rw [ProfileFields.spreadTarget, u.saturatingAdd_eq h, show p.fields.prf32 = p.prf32 from rfl]
  split
  · rfl
  split
  · exact sub_ok (by omega)
  · rfl

theorem jittered_le (value jitter raw least : Nat) : jittered value jitter raw least ≤ max least (value + jitter) := by
  have := Nat.mod_lt raw (y := 2 * jitter + 1) (by omega)
  unfold jittered
  omega

/-- **`write_target_len` returns**, on every record and whatever the key. -/
theorem fields_writeTargetLen (hr : p.Ranged) {fuel : Nat} (hf : profileTargetDirectLimit < fuel) (seq : UInt32)
    (currentLen : Nat) : p.fields.writeTargetLen u fuel seq currentLen = .ok (p.writeTargetLen seq currentLen) := by
  unfold ProfileFields.writeTargetLen writeTargetLen
  by_cases hd : profileTargetDirectLimit < currentLen
  · rw [if_pos hd, if_pos hd]
  have hc : currentLen ≤ profileTargetDirectLimit := by omega
  have hcl : currentLen < 65536 := Nat.lt_of_le_of_lt hc (by decide)
  rw [if_neg hd, if_neg hd, p.fields_firstTarget seq currentLen, ok_bind]
  simp only
  have hfirst : (if h : seq.toNat < p.writeFirst then p.writeSeq ⟨seq.toNat, Nat.lt_of_lt_of_le h p.writeFirst_le⟩
      else p.writeBuckets (Fin.ofNat 8 (p.prf32 Labels.writeTarget seq (UInt32.ofNat currentLen)).toNat)) ≤
      profileTrafficShapingMtuCap := by
    split
    · exact (hr.writeSeq _).2
    · exact (hr.writeBuckets _).2
  generalize (if h : seq.toNat < p.writeFirst then p.writeSeq ⟨seq.toNat, Nat.lt_of_lt_of_le h p.writeFirst_le⟩
    else p.writeBuckets (Fin.ofNat 8 (p.prf32 Labels.writeTarget seq (UInt32.ofNat currentLen)).toNat)) = target at *
  unfold profileTrafficShapingMtuCap at hfirst
  rw [p.fields_policyTarget u hr seq (by omega), ok_bind]
  have hjit : (if p.writePolicy = 2 then jittered target p.writeJitter (p.prf32 Labels.writeJitterValue seq 0).toNat 1
      else target) < 4096 := by
    have h₁ := jittered_le target p.writeJitter (p.prf32 Labels.writeJitterValue seq 0).toNat 1
    have h₂ := hr.writeJitter
    split <;> omega
  generalize (if p.writePolicy = 2 then jittered target p.writeJitter (p.prf32 Labels.writeJitterValue seq 0).toNat 1
    else target) = target at *
  have hmul : p.writeJitterPercent * currentLen < 2 ^ 32 :=
    Nat.lt_of_le_of_lt (Nat.mul_le_mul hr.writeJitterPercent hc) (by decide)
  rw [show p.fields.writeJitterPercent = p.writeJitterPercent from rfl, u.mul_ok hmul, ok_bind]
  have hbound : min maxExtraTargetPadding (p.writeJitterPercent * currentLen / 100) ≤ 0x2da := Nat.min_le_left _ _
  generalize min maxExtraTargetPadding (p.writeJitterPercent * currentLen / 100) = bound at *
  rw [p.fields_spreadTarget u seq (by omega), ok_bind]
  exact p.fields_raiseTarget u seq hc currentLen fuel _ (by omega) (by omega)

theorem writeTargetLen_ge (seq : UInt32) {currentLen : Nat} (h : currentLen < 2 ^ 32) :
    currentLen ≤ p.writeTargetLen seq currentLen := by
  unfold writeTargetLen
  by_cases hd : profileTargetDirectLimit < currentLen
  · rw [if_pos hd]
    split <;> omega
  · rw [if_neg hd]
    exact p.raiseTarget_done seq currentLen (Nat.le_trans (Nat.le_of_not_lt hd) (by decide)) _ _ (Nat.le_add_right _ _)

theorem fields_basePad (hr : p.Ranged) (seq : UInt32) (payloadLen : Nat) :
    p.fields.basePad u seq payloadLen = .ok (p.basePad seq payloadLen) := by
  have h₁ := hr.padCount; have h₂ := hr.padInterval; have h₃ := p.padMin_le; have h₄ := p.padMax_le
  unfold maxExtraTargetPadding at h₄
  have hcount : seq < p.fields.padCount ↔ seq.toNat < p.padCount := lt_ofNat (by omega)
  have hinterval : p.fields.padInterval ≠ 0 ↔ p.padInterval ≠ 0 :=
    not_congr (ofNat_eq_iff (n := 0) (by omega) (by decide))
  have hmod : seq % p.fields.padInterval = 0 ↔ seq.toNat % p.padInterval = 0 := by
    rw [← UInt32.toNat_inj, UInt32.toNat_mod, show p.fields.padInterval = UInt32.ofNat p.padInterval from rfl,
      UInt32.toNat_ofNat', Nat.mod_eq_of_lt (a := p.padInterval) (by omega)]
    rfl
  unfold ProfileFields.basePad basePad
  simp only [hcount, hinterval, hmod, show p.fields.smallLimit = p.smallLimit from rfl]
  split
  · exact u.pickUsize_eq _ (show p.padMin + p.padMax < 2 ^ 32 - 1 by omega)
  · rfl

theorem fields_finalPaddingLen (hr : p.Ranged) {fuel : Nat} (hf : profileTargetDirectLimit < fuel) (seq : UInt32)
    {prefixLen payloadLen : Nat} (hp : prefixLen ≤ v6MaxPrefixLen) (hl : payloadLen ≤ maxPacketSizeV6)
    (firstFrame : Bool) :
    p.fields.finalPaddingLen u fuel seq prefixLen payloadLen firstFrame =
      .ok (p.finalPaddingLen seq prefixLen payloadLen firstFrame) := by
  have hbase := p.basePad_le seq payloadLen
  have hpad := p.padMax_le; have hsalt := p.saltBlockLen_le
  unfold ProfileFields.finalPaddingLen finalPaddingLen
  rw [p.fields_basePad u hr, ok_bind]
  simp only
  generalize p.basePad seq payloadLen = basePad at *
  unfold maxExtraTargetPadding at hpad
  unfold saltLen at hsalt
  unfold v6MaxPrefixLen at hp hsalt
  unfold maxPacketSizeV6 at hl
  have hhdr : headerCipherLen = 23 := rfl
  have htag : tagLen = 16 := rfl
  have hbody : ProfileFields.bodyLen u payloadLen = .ok (if 0 < payloadLen then payloadLen + tagLen else 0) := by
    unfold ProfileFields.bodyLen
    split
    · exact u.add_ok (by omega)
    · rfl
  have hbody_le : (if 0 < payloadLen then payloadLen + tagLen else 0) ≤ 65551 := by split <;> omega
  rw [u.add_ok (by omega), ok_bind, u.add_ok (by omega), ok_bind, hbody, ok_bind]
  generalize (if 0 < payloadLen then payloadLen + tagLen else 0) = body at *
  rw [u.add_ok (by omega), ok_bind]
  have hfirst : p.fields.withSaltBlock u firstFrame (prefixLen + headerCipherLen + basePad + body) =
      .ok (prefixLen + headerCipherLen + basePad + body + if firstFrame then p.saltBlockLen else 0) := by
    cases firstFrame with
    | true => exact u.add_ok (show prefixLen + headerCipherLen + basePad + body + p.saltBlockLen < 2 ^ 32 by omega)
    | false => rfl
  rw [hfirst, ok_bind, p.fields_writeTargetLen u hr hf, ok_bind]
  generalize prefixLen + headerCipherLen + basePad + body + (if firstFrame then p.saltBlockLen else 0) = currentLen
  generalize p.writeTargetLen seq currentLen = target
  by_cases hlt : currentLen < target
  · rw [if_pos hlt, if_pos hlt, sub_ok (by omega), ok_bind]
    exact u.add_ok (by unfold maxExtraTargetPadding; omega)
  · rw [if_neg hlt, if_neg hlt]
    rfl

theorem fields_chunkLimit (hr : p.Ranged) (seq : UInt32) {currentChunkSize : Nat} (h : currentChunkSize ≤ p.chunkMax) :
    p.fields.chunkLimit u seq currentChunkSize = .ok (p.chunkLimit seq currentChunkSize) := by
  have h₁ := hr.chunkInitial; have h₂ := p.chunkMax_le; have h₃ := hr.chunkPolicy; have h₄ := p.chunkJitter_le
  have h₅ := p.chunkMax_ge
  unfold profileTrafficShapingMtuCap at h₁
  unfold profileChunkMaxRawBound at h₂
  have hone : p.fields.chunkPolicy = 1 ↔ p.chunkPolicy = 1 := ofNat_eq_iff (n := 1) (by omega) (by decide)
  have htwo : p.fields.chunkPolicy = 2 ↔ p.chunkPolicy = 2 := ofNat_eq_iff (n := 2) (by omega) (by decide)
  have hpolicy : ∀ {cur}, cur < 65536 → p.fields.policyChunk u seq cur =
      .ok (if p.chunkPolicy = 1 then p.chunkBuckets (Fin.ofNat 8 (p.prf32 Labels.chunkSize seq (UInt32.ofNat cur)).toNat)
        else if p.chunkPolicy = 2 then
          jittered cur p.chunkJitter (p.prf32 Labels.chunkJitterValue seq (UInt32.ofNat cur)).toNat 0x40
        else cur) := by
    intro cur hcur
    rw [ProfileFields.policyChunk]
    simp only [hone, htwo]
    split
    · exact ProfileFields.bucketAt_eq _ _
    split
    · exact u.jitter_eq _ hcur (show p.chunkJitter < 65536 by omega) (by decide)
    · rfl
  have hcur : (if currentChunkSize = 0 then p.chunkInitial else currentChunkSize) < 65536 := by split <;> omega
  rw [ProfileFields.chunkLimit, show p.fields.chunkInitial = p.chunkInitial from rfl, hpolicy hcur, ok_bind]
  exact clamp_ok (show 0x40 ≤ p.chunkMax by omega)

end Target

end Profile

/-! ## Records fit -/

namespace V6ShapedEncoder

variable {C : Crypto}

theorem length_rotate (split : Nat) (record : Bytes) : (rotate split record).length = record.length := by
  simp only [rotate, List.length_append, List.length_drop, List.length_take]
  omega

/-- The room kept behind the payload, and the longest payload, are less than
`V6_WIRE_CAP`. -/
theorem roomFor_le (enc : V6ShapedEncoder C) : maxPacketSizeV6 + enc.roomFor ≤ v6WireCap := by
  have h₁ := enc.profile.recordPrefixLen_le enc.seq
  have h₂ := enc.profile.maxPaddingLen_le
  have h₃ : enc.layout.saltBlockLen ≤ maxSaltBlockLen := by
    simp only [layout]
    split
    · exact enc.profile.saltBlockLen_le_max
    · exact Nat.zero_le _
  have h₄ : enc.layout.prefixLen = enc.profile.recordPrefixLen enc.seq := rfl
  simp only [roomFor, v6WireCap]
  omega

/-- A record is no longer than its payload and the room kept for it. -/
theorem Contiguous.length_le {enc : V6ShapedEncoder C} {payload wire : Bytes} (h : enc.Contiguous payload wire) :
    wire.length ≤ payload.length + enc.roomFor := by
  have hpad : enc.paddingOf payload.length ≤ enc.profile.maxPaddingLen := enc.profile.finalPaddingLen_le _ _ _ _
  have hsplit : splitOf payload ≤ payload.length + tagLen := by
    unfold splitOf
    split <;> omega
  rw [h.length, roomFor]
  omega

/-- The total of a plan is the longest payload and the room kept. -/
theorem plan_total {enc enc₁ : V6ShapedEncoder C} {n now : Nat} {size : RecordSize} {p : Plan}
    (h : plan enc n size now = (.ok p, enc₁)) : p.total = p.maxPayload + enc.roomFor := by
  obtain ⟨-, hroom, hfixed, -⟩ := plan_ok h
  obtain ⟨chunkSize, rfl⟩ := plan_chunkSize h
  rw [Plan.total, hroom, hfixed, List.length_nil, Nat.zero_add]
  rfl

/-- **A sealed record fits what its reservation obtained.** -/
theorem sealed_fits {enc enc' : V6ShapedEncoder C} {b b' : Buffer} {a : Attempt} {capacity split : Nat} {payload r : Bytes}
    (hw : b.Wf) (hrun : a.run enc b = (.sealed capacity payload split r, enc', b')) :
    r.length ≤ a.pfx.length + capacity + enc.roomFor ∧
      b.len + (a.pfx.length + capacity + enc.roomFor) ≤ min b.capacity b.max ∧ b'.capacity = b.capacity := by
  obtain ⟨-, hkept, p, enc₁, env, hplan, hroom, rfl, -, hlen, himage⟩ := Attempt.run_sealed hw hrun
  have hpfx : a.pfx.length ≤ p.maxPayload := EncoderSpec.plan_prefix hplan
  have htotal : p.total = p.maxPayload + enc.roomFor := plan_total hplan
  obtain ⟨chunkSize, rfl⟩ := plan_chunkSize hplan
  have hwire : enc.Contiguous payload (rotate split r) := (image_contiguous himage).1
  have hle := hwire.length_le
  rw [length_rotate] at hle
  obtain ⟨hcap, hmax⟩ := Buffer.refusal_none.mp hroom
  rw [htotal] at hcap hmax
  refine ⟨?_, ?_, hkept.capacity⟩
  · rw [Plan.capacity]
    omega
  · rw [Plan.capacity]
    omega

/-- An empty buffer of `V6_WIRE_CAP` bytes refuses no plan. -/
theorem reserve_empty {enc : V6ShapedEncoder C} {b : Buffer} (hw : b.Wf) (he : b.len = 0) (hc : v6WireCap ≤ b.capacity)
    (hm : v6WireCap ≤ b.max) (hs : enc.state = .ready) {pfx : Bytes} {size : RecordSize} {now n : Nat}
    (hn : size.payloadLen pfx.length (enc.limitFor size now).1 = .ok n) :
    ∃ slot record enc₁ b₁, reserve enc b pfx size now = (.ok (slot, record), enc₁, b₁) ∧
      slot.capacity = n - pfx.length := by
  have hready : enc.state.ensureReady = .ok () := by rw [hs]; rfl
  have hstate : (enc.limitFor size now).2.state.ensureReady = .ok () := by
    obtain ⟨chunkSize, h⟩ := (enc.limitFor_spec size now).2
    rw [h]
    exact hready
  obtain ⟨p, enc₁, hplan, hp⟩ : ∃ p enc₁, plan enc pfx.length size now = (.ok p, enc₁) ∧ p.maxPayload = n := by
    simp only [plan, hready, planWith, hstate, hn, ok_bind]
    exact ⟨_, _, rfl, rfl⟩
  have hle := (RecordSize.payloadLen_le hn).2
  have hlimit := (enc.limitFor_spec size now).1
  have hroom := enc.roomFor_le
  have hfits : b.len + p.total ≤ v6WireCap := by
    rw [plan_total hplan]
    omega
  have hres := reserve_spec enc b hw pfx size now
  rw [hplan] at hres
  generalize reserve enc b pfx size now = result at hres
  cases hres with
  | refused hr =>
    rw [Buffer.refusal_none.mpr ⟨Nat.le_trans hfits hc, Nat.le_trans hfits hm⟩] at hr
    cases hr
  | held _ hmax hheld _ _ =>
    refine ⟨_, _, _, _, rfl, ?_⟩
    rw [Slot.capacity, hmax, hheld.prefixLen, hp]

end V6ShapedEncoder

/-! ## Every key, every record -/

/-- The bounds a profile's draws are between, the right way round. -/
structure ProfileFields.InRange (f : ProfileFields) : Prop where
  pad : f.padMin ≤ f.padMax ∧ f.padMax ≤ maxExtraTargetPadding
  prefixRecord : f.prefixMinRecord ≤ f.prefixMaxRecord ∧ f.prefixMaxRecord ≤ v6MaxPrefixLen
  saltBlockLen : saltLen ≤ f.saltBlockLen ∧ f.saltBlockLen ≤ 144
  firstRecordCap : 0x100 ≤ f.firstRecordCap ∧ f.firstRecordCap ≤ min f.chunkInitial 0x300
  chunkBuckets : f.chunkBuckets.length = 8 ∧ ∀ x ∈ f.chunkBuckets, 0x1000 ≤ x ∧ x ≤ f.chunkMax
  writeBuckets : f.writeBuckets.length = 8 ∧ ∀ x ∈ f.writeBuckets, 0x140 ≤ x ∧ x ≤ profileTrafficShapingMtuCap
  writeSeq : f.writeSeq.length = 8 ∧ ∀ x ∈ f.writeSeq, 0x168 ≤ x ∧ x ≤ profileTrafficShapingMtuCap

theorem Profile.fields_inRange {p : Profile} (hr : p.Ranged) : p.fields.InRange where
  pad := ⟨p.padMin_le, p.padMax_le⟩
  prefixRecord := p.prefix_le
  saltBlockLen := ⟨p.saltBlockLen_ge, p.saltBlockLen_le⟩
  firstRecordCap := ⟨p.firstRecordCap_ge, Nat.le_min.mpr ⟨hr.firstRecordCap, p.firstRecordCap_le⟩⟩
  chunkBuckets := by
    refine ⟨List.length_ofFn, fun x hx => ?_⟩
    obtain ⟨i, rfl⟩ := List.mem_ofFn.mp hx
    exact ⟨p.chunkBuckets_ge i, hr.chunkBuckets i⟩
  writeBuckets := by
    refine ⟨List.length_ofFn, fun x hx => ?_⟩
    obtain ⟨i, rfl⟩ := List.mem_ofFn.mp hx
    exact hr.writeBuckets i
  writeSeq := by
    refine ⟨List.length_ofFn, fun x hx => ?_⟩
    obtain ⟨i, rfl⟩ := List.mem_ofFn.mp hx
    exact hr.writeSeq i

/-- The shaping of the key with profile secret `secret`, on a machine with
`usize` as wide as `u`: `derive` returns, with ranges that are well formed;
`write_target_len` returns a target no shorter than the record; the lengths a
record is made of are returned, and within what `reserve` keeps for them. -/
structure ShapingTotal (u : Usize) (secret : ByteArr 32) (p : Profile) : Prop where
  derive : ProfileFields.derive u (Namespaces.derive secret) = .ok p.fields
  inRange : p.fields.InRange
  writeTargetLen : ∀ fuel seq currentLen, profileTargetDirectLimit < fuel → currentLen < 2 ^ 32 →
    p.fields.writeTargetLen u fuel seq currentLen = .ok (p.writeTargetLen seq currentLen) ∧
      currentLen ≤ p.writeTargetLen seq currentLen
  recordPrefixLen : ∀ seq, p.fields.recordPrefixLen u seq = .ok (p.recordPrefixLen seq) ∧ p.recordPrefixLen seq ≤ 128
  finalPaddingLen : ∀ fuel seq payloadLen firstFrame, profileTargetDirectLimit < fuel → payloadLen ≤ 65535 →
    p.fields.finalPaddingLen u fuel seq (p.recordPrefixLen seq) payloadLen firstFrame =
        .ok (p.finalPaddingLen seq (p.recordPrefixLen seq) payloadLen firstFrame) ∧
      p.finalPaddingLen seq (p.recordPrefixLen seq) payloadLen firstFrame ≤ p.padMax + 0x2da
  maxPaddingLen : p.fields.maxPaddingLen u = .ok (p.padMax + 0x2da)
  chunkLimit : ∀ seq currentChunkSize, currentChunkSize ≤ p.chunkMax →
    p.fields.chunkLimit u seq currentChunkSize = .ok (p.chunkLimit seq currentChunkSize) ∧
      p.chunkLimit seq currentChunkSize ≤ p.chunkMax

theorem shapingTotal (u : Usize) (secret : ByteArr 32) : ShapingTotal u secret (Profile.derive secret) := by
  have hr : (Profile.derive secret).Ranged := Profile.ofNamespaces_ranged _
  generalize hp : Profile.derive secret = p at hr
  refine {
    derive := ?_
    inRange := Profile.fields_inRange hr
    writeTargetLen := ?_
    recordPrefixLen := ?_
    finalPaddingLen := ?_
    maxPaddingLen := p.fields_maxPaddingLen u
    chunkLimit := ?_ }
  · rw [← hp]
    exact ProfileFields.derive_eq u _
  · intro fuel seq currentLen hf hc
    exact ⟨p.fields_writeTargetLen u hr hf seq currentLen, p.writeTargetLen_ge seq hc⟩
  · intro seq
    exact ⟨p.fields_recordPrefixLen u seq, p.recordPrefixLen_le seq⟩
  · intro fuel seq payloadLen firstFrame hf hl
    exact ⟨p.fields_finalPaddingLen u hr hf seq (p.recordPrefixLen_le seq) hl firstFrame,
      p.finalPaddingLen_le seq _ payloadLen firstFrame⟩
  · intro seq currentChunkSize hc
    exact ⟨p.fields_chunkLimit u hr seq hc, p.chunkLimit_le seq currentChunkSize⟩

/-- The shaped records of every encoder, in every state, fit: no call panics,
a sealed record is within the `total` that `reserve` obtained, the payload
offered and the room for the rest, and the allocation is as large as it was. -/
structure RecordsFit (C : Crypto) : Prop where
  returns : ∀ (enc : V6ShapedEncoder C) (b : Buffer) (a : Attempt), b.Wf → (a.run enc b).1.returns = true
  reservation : ∀ (enc enc' : V6ShapedEncoder C) (b b' : Buffer) (a : Attempt) (capacity split : Nat) (payload r : Bytes),
    b.Wf → a.run enc b = (.sealed capacity payload split r, enc', b') →
      r.length ≤ a.pfx.length + capacity + enc.roomFor ∧
        b.len + (a.pfx.length + capacity + enc.roomFor) ≤ min b.capacity b.max ∧ b'.capacity = b.capacity
  /-- A datagram of up to 65535 bytes, the first record or a later one, into a
  buffer of `V6_WIRE_CAP` bytes with nothing in it. -/
  datagram : ∀ (enc : V6ShapedEncoder C) (b : Buffer) (pfx content : Bytes) (now : Nat) (env : SealEnv),
    enc.state = .ready → b.Wf → b.len = 0 → v6WireCap ≤ b.capacity → v6WireCap ≤ b.max →
    pfx.length + content.length ≤ 65535 → env.headerRefused = false → env.bodyRefused = false →
    ∃ split r enc' b', (V6ShapedEncoder.writeAndSeal pfx content (.datagram content.length) now env).run enc b =
        (.sealed content.length (pfx ++ content) split r, enc', b') ∧ r.length ≤ v6WireCap
  /-- A stream record of whatever length the chunk window leaves. -/
  stream : ∀ (enc : V6ShapedEncoder C) (b : Buffer) (pfx content : Bytes) (hint now : Nat) (env : SealEnv),
    enc.state = .ready → b.Wf → b.len = 0 → v6WireCap ≤ b.capacity → v6WireCap ≤ b.max →
    pfx.length + content.length ≤ min (pfx.length + hint) (enc.limitFor (.stream hint) now).1 →
    env.headerRefused = false → env.bodyRefused = false →
    ∃ capacity split r enc' b', (V6ShapedEncoder.writeAndSeal pfx content (.stream hint) now env).run enc b =
        (.sealed capacity (pfx ++ content) split r, enc', b') ∧ r.length ≤ v6WireCap

theorem V6ShapedEncoder.seal_empty {C : Crypto} {enc : V6ShapedEncoder C} {b : Buffer} (hw : b.Wf) (he : b.len = 0)
    (hc : v6WireCap ≤ b.capacity) (hm : v6WireCap ≤ b.max) (hs : enc.state = .ready) {pfx content : Bytes}
    {size : RecordSize} {now n : Nat} (hn : size.payloadLen pfx.length (enc.limitFor size now).1 = .ok n)
    (hl : pfx.length + content.length ≤ n) {env : SealEnv} (hh : env.headerRefused = false)
    (hb : env.bodyRefused = false) :
    ∃ split r enc' b', (writeAndSeal pfx content size now env).run enc b =
        (.sealed (n - pfx.length) (pfx ++ content) split r, enc', b') ∧ r.length ≤ v6WireCap := by
  obtain ⟨slot, record, enc₁, b₁, hres, hcap⟩ := reserve_empty hw he hc hm hs hn
  have hfits : content.length ≤ slot.capacity := by omega
  obtain ⟨split, r, enc', b', hrun⟩ := enc.writeAndSeal_sealed hw hres hfits hh hb
  rw [hcap] at hrun
  obtain ⟨hle, -, -⟩ := sealed_fits hw hrun
  have hroom := enc.roomFor_le
  have hn_le := (RecordSize.payloadLen_le hn).2
  have hlimit := (enc.limitFor_spec size now).1
  have hpfx : (writeAndSeal pfx content size now env).pfx = pfx := rfl
  rw [hpfx] at hle
  exact ⟨split, r, enc', b', hrun, by omega⟩

theorem recordsFit (C : Crypto) : RecordsFit C where
  returns enc b a hw := enc.run_returns a hw
  reservation enc enc' b b' a capacity split payload r hw hrun := V6ShapedEncoder.sealed_fits hw hrun
  datagram enc b pfx content now env hs hw he hc hm hl hh hb := by
    have hn : (RecordSize.datagram content.length).payloadLen pfx.length
        (enc.limitFor (.datagram content.length) now).1 = .ok (pfx.length + content.length) := if_pos hl
    have hseal := enc.seal_empty hw he hc hm hs hn (Nat.le_refl _) hh hb
    rwa [Nat.add_sub_cancel_left] at hseal
  stream enc b pfx content hint now env hs hw he hc hm hl hh hb := by
    have hn : (RecordSize.stream hint).payloadLen pfx.length (enc.limitFor (.stream hint) now).1 =
        .ok (min (pfx.length + hint) (enc.limitFor (.stream hint) now).1) := if_pos (by omega)
    exact ⟨_, enc.seal_empty hw he hc hm hs hn hl hh hb⟩

/-- **Shaping arithmetic is total and bounded**, for every key, on every
machine; and every shaped record fits. -/
theorem shaping_total_and_bounded (u : Usize) (C : Crypto) :
    (∀ secret, ShapingTotal u secret (Profile.derive secret)) ∧ RecordsFit C :=
  ⟨shapingTotal u, recordsFit C⟩

/-- The longest datagram as the first record of a key, on a 64-bit machine. -/
theorem shaping_total_and_bounded_longest :
    let u : Usize := ⟨64, by decide⟩
    let secret : ByteArr 32 := ⟨List.replicate 32 0, by simp⟩
    let p := Profile.derive secret
    let psk : Psk := ⟨List.replicate pskMinLen 0, by decide⟩
    let enc : V6ShapedEncoder Crypto.transparent :=
      ⟨(), Nonce.new, ⟨List.replicate saltLen 1, by decide⟩, 0, psk.profiled _, 0, none, .ready⟩
    p.fields.finalPaddingLen u 0x5b4 0 (p.recordPrefixLen 0) 65535 true =
        .ok (p.finalPaddingLen 0 (p.recordPrefixLen 0) 65535 true) ∧
      ∀ content : Bytes, content.length = 65535 → ∃ split r enc' b',
        (V6ShapedEncoder.writeAndSeal [] content (.datagram content.length) 0 ⟨0, false, false, 0⟩).run enc
          (.new v6WireCap) = (.sealed content.length content split r, enc', b') ∧ r.length ≤ v6WireCap := by
  intro u secret p psk enc
  obtain ⟨hshaping, hfit⟩ := shaping_total_and_bounded u Crypto.transparent
  refine ⟨((hshaping secret).finalPaddingLen 0x5b4 0 65535 true (by decide) (by decide)).1, fun content hl => ?_⟩
  exact hfit.datagram enc (.new v6WireCap) [] content 0 _ rfl (Buffer.new_wf _) rfl
    (Nat.le_of_eq (Buffer.new_capacity _).symm) (Nat.le_refl _) (by rw [hl]; decide) rfl rfl

end Snell
