/-
`codec/v6/profile/mod.rs`: the traffic profile of a pre-shared key. Record
prefixes, salt blocks, padding, chunk sizes and the mixing of padding and
ciphertext are all drawn from it, the same on both sides.

Lengths and `usize` values are natural numbers; `u32` inputs of the PRF are
truncated to 32 bits as the source's casts do. The ranges the source relies
on (an index below eight, a step that is not zero) are fields of `Profile`,
so its functions need no checks the source does not have.
-/
import Snell.Chunks
import Snell.Header
import Snell.SaltHide
import Snell.V4Padding

namespace Snell

open LittleEndian

namespace Labels

def padding : UInt32 := 0
def bitPercent : UInt32 := 1
def motif : UInt32 := 2
def mixOffset : UInt32 := 3
def profileId : UInt32 := 5
def generator : UInt32 := 6
def padMin : UInt32 := 7
def padMax : UInt32 := 8
def padCount : UInt32 := 9
def padInterval : UInt32 := 10
def smallLimit : UInt32 := 11
def bitMin : UInt32 := 12
def bitMax : UInt32 := 13
def prefixMin : UInt32 := 14
def prefixMax : UInt32 := 15
def mixMode : UInt32 := 16
def mixRounds : UInt32 := 17
def mixStride : UInt32 := 18
def mixOffsetBase : UInt32 := 19
def mixBlock : UInt32 := 20
def chunkPolicy : UInt32 := 21
def chunkInitial : UInt32 := 22
def chunkFirstCap : UInt32 := 22
def chunkMax : UInt32 := 23
def chunkStep : UInt32 := 24
def chunkJitter : UInt32 := 25
def chunkBucket : UInt32 := 26
def idleReset : UInt32 := 27
def writePolicy : UInt32 := 28
def writeFirst : UInt32 := 29
def writeBucket : UInt32 := 30
def writeSeq : UInt32 := 31
def writeJitter : UInt32 := 32
def recordPrefix : UInt32 := 33
def payloadPadding : UInt32 := 34
def writeTarget : UInt32 := 35
def writeJitterValue : UInt32 := 36
def writeNext : UInt32 := 37
def chunkSize : UInt32 := 38
def chunkJitterValue : UInt32 := 39

end Labels

def handshakeDomain : UInt32 := 0x7053
def chunkInitialDomain : UInt32 := 0xf17c
def maxExtraTargetPadding : Nat := 0x02da
def profileChunkMaxRawBound : Nat := 0x3fff
def profileTrafficShapingMtuCap : Nat := 0x05b4
def profileTargetDirectLimit : Nat := 0x05b3
def profileTargetU16Limit : Nat := 0xfffe

/-! ## Namespaces -/

structure Namespaces where
  profile : UInt64
  pfx : UInt64
  motif : UInt64
  salt : UInt64
  mix : UInt64
  chunk : UInt64
  write : UInt64
  deriving DecidableEq, Repr

/-- `u64::from_le_bytes` of the `i`-th eight bytes. -/
def wordAt (secret : Bytes) (i : Nat) : UInt64 := UInt64.ofNat (leNat ((secret.drop (8 * i)).take 8))

def rotateLeft (x : UInt64) (k : UInt64) : UInt64 := (x <<< k) ||| (x >>> (64 - k))

def rotateRight (x : UInt64) (k : UInt64) : UInt64 := (x >>> k) ||| (x <<< (64 - k))

def deriveNamespace (secret : ByteArr 32) (label : UInt32) (seedConst : UInt64) : UInt64 :=
  splitmix64 (label.toUInt64 * 0xd6e8feb86659fd93 ^^^ (seedConst + 0xa0761d6478bd642f) ^^^ wordAt secret.1 0 ^^^
    (wordAt secret.1 1 + goldenGamma) ^^^ rotateLeft (wordAt secret.1 2) 17 ^^^ rotateRight (wordAt secret.1 3) 11)

namespace Namespaces

def derive (secret : ByteArr 32) : Namespaces where
  profile := deriveNamespace secret Labels.profileId 0xb46c2e7d9a1538f1
  pfx := deriveNamespace secret Labels.padding 0x5d9217c083e64ab9
  motif := deriveNamespace secret Labels.motif 0xa71f0c54d8396e2b
  salt := deriveNamespace secret 3 0x3e8a91b52740f6cd
  mix := deriveNamespace secret Labels.mixMode 0xc9f4260b7d1e835a
  chunk := deriveNamespace secret Labels.chunkPolicy 0x62d0b5e19c4a783f
  write := deriveNamespace secret Labels.writePolicy 0x917b3c48e6a205d4

open Labels in
def forLabel (ns : Namespaces) (label : UInt32) : UInt64 :=
  if label ∈ [padding, bitPercent, prefixMin, prefixMax, recordPrefix, payloadPadding] then ns.pfx
  else if label = Labels.motif then ns.motif
  else if label = mixOffset ∨ (mixMode ≤ label ∧ label ≤ mixBlock) then ns.mix
  else if (chunkPolicy ≤ label ∧ label ≤ chunkBucket) ∨ label = chunkSize ∨ label = chunkJitterValue then ns.chunk
  else if (writePolicy ≤ label ∧ label ≤ writeJitter) ∨ (writeTarget ≤ label ∧ label ≤ writeNext) then ns.write
  else ns.profile

def prf32 (ns : Namespaces) (label a b : UInt32) : UInt32 :=
  Snell.prf32 (ns.forLabel label) label a.toUInt64 b.toUInt64

def prfStatic (ns : Namespaces) (label domain : UInt32) : UInt32 := ns.prf32 label 0 domain

def expand (ns : Namespaces) (label seq : UInt32) (len : Nat) : Bytes :=
  expandStream (ns.forLabel label) label seq.toUInt64 len

end Namespaces

/-! ## The profile -/

/-- `pick_usize`, and `pick_u32` on values that fit. -/
def pickUsize (raw : UInt32) (lo hi : Nat) : Nat := if hi ≤ lo then lo else lo + raw.toNat % (hi - lo + 1)

theorem pickUsize_ge (raw : UInt32) (lo hi : Nat) : lo ≤ pickUsize raw lo hi := by
  unfold pickUsize; split <;> omega

theorem pickUsize_le (raw : UInt32) {lo hi : Nat} (h : lo ≤ hi) : pickUsize raw lo hi ≤ hi := by
  have := Nat.mod_lt raw.toNat (y := hi - lo + 1) (by omega)
  unfold pickUsize; split <;> omega

structure Profile where
  namespaces : Namespaces
  generator : UInt32
  padMin : Nat
  padMax : Nat
  padCount : Nat
  padInterval : Nat
  smallLimit : Nat
  bitMin : Nat
  bitMax : Nat
  prefixMinRecord : Nat
  prefixMaxRecord : Nat
  mixMode : Nat
  mixRounds : Nat
  mixStride : Nat
  mixOffsetBase : Nat
  mixBlock : Nat
  chunkPolicy : Nat
  chunkInitial : Nat
  firstRecordCap : Nat
  chunkMax : Nat
  chunkStep : Nat
  chunkJitter : Nat
  idleResetSecs : Nat
  writePolicy : Nat
  writeFirst : Nat
  chunkBuckets : Fin 8 → Nat
  writeBuckets : Fin 8 → Nat
  writeSeq : Fin 8 → Nat
  writeJitter : Nat
  writeJitterPercent : Nat
  g1 : Nat
  g2 : Nat
  g3 : Nat
  g4 : Nat
  g5 : Nat
  g6 : Nat
  saltBlockLen : Nat
  mixStrideHandshake : UInt8
  mixRoundsHandshake : UInt8
  padMin_le : padMin ≤ padMax
  padMax_pos : 0 < padMax
  padMax_le : padMax ≤ maxExtraTargetPadding
  prefix_le : prefixMinRecord ≤ prefixMaxRecord ∧ prefixMaxRecord ≤ v6MaxPrefixLen
  saltBlockLen_ge : saltLen ≤ saltBlockLen
  saltBlockLen_le : saltBlockLen ≤ saltLen + v6MaxPrefixLen
  chunkInitial_ge : 0x200 ≤ chunkInitial
  firstRecordCap_ge : 0x100 ≤ firstRecordCap
  firstRecordCap_le : firstRecordCap ≤ 0x300
  chunkMax_ge : 0x2000 ≤ chunkMax
  chunkMax_le : chunkMax ≤ profileChunkMaxRawBound
  chunkJitter_le : chunkJitter ≤ 0xb6
  chunkBuckets_ge : ∀ i, 0x1000 ≤ chunkBuckets i
  writeFirst_le : writeFirst ≤ 8
  mixStride_ge : 2 ≤ mixStride
  mixBlock_ge : 8 ≤ mixBlock
  g1_mem : 0x18 ≤ g1 ∧ g1 ≤ 0x80
  g2_mem : 0x10 ≤ g2 ∧ g2 ≤ 0x60
  g3_mem : 0x10 ≤ g3 ∧ g3 ≤ 0x60
  g4_le : g4 ≤ 9
  g5_mem : 1 ≤ g5 ∧ g5 ≤ 8
  g6_mem : 7 ≤ g6 ∧ g6 ≤ 0x17

namespace Profile

/-- Eight draws of a label, one per domain. -/
def buckets (ns : Namespaces) (label : UInt32) (lo hi : Nat) (i : Fin 8) : Nat :=
  pickUsize (ns.prfStatic label (UInt32.ofNat i)) lo hi

/-! The values whose range the profile's functions rely on, as `derive` draws
them. -/

section Draws

variable (ns : Namespaces)

def drawPadMin : Nat := pickUsize (ns.prfStatic Labels.padMin 0) 0x18 0xa0

def drawPadMax : Nat :=
  min (drawPadMin ns + pickUsize (ns.prfStatic Labels.padMax 0) 0xa0 0x3c0) maxExtraTargetPadding

def drawPrefixMinHandshake : Nat := pickUsize (ns.prfStatic Labels.prefixMin handshakeDomain) 0x10 0x60

def drawPrefixMaxHandshake : Nat :=
  min (drawPrefixMinHandshake ns + pickUsize (ns.prfStatic Labels.prefixMax handshakeDomain) 0x10 0xa0) v6MaxPrefixLen

def drawSaltPrefixLen : Nat :=
  pickUsize (ns.prfStatic Labels.recordPrefix handshakeDomain) (drawPrefixMinHandshake ns) (drawPrefixMaxHandshake ns)

def drawPrefixMinRecord : Nat := pickUsize (ns.prfStatic Labels.prefixMin 0) 0x08 0x50

def drawPrefixMaxRecord : Nat :=
  min (drawPrefixMinRecord ns + pickUsize (ns.prfStatic Labels.prefixMax 0) 0x10 0xa0) v6MaxPrefixLen

def drawChunkInitial : Nat := pickUsize (ns.prfStatic Labels.chunkInitial 0) 0x200 profileTrafficShapingMtuCap

/-- `clamp(0x100, chunk_initial.min(0x300))` of the draw. -/
def drawFirstRecordCap : Nat :=
  max 0x100 (min (pickUsize (ns.prfStatic Labels.chunkFirstCap chunkInitialDomain) 0x100 0x300)
    (min (drawChunkInitial ns) 0x300))

def drawChunkMax : Nat := pickUsize (ns.prfStatic Labels.chunkMax 0) 0x2000 profileChunkMaxRawBound

theorem drawPadMin_mem : 0x18 ≤ drawPadMin ns ∧ drawPadMin ns ≤ 0xa0 :=
  ⟨pickUsize_ge _ _ _, pickUsize_le _ (by decide)⟩

theorem drawPadMax_mem : drawPadMin ns ≤ drawPadMax ns ∧ 0 < drawPadMax ns ∧ drawPadMax ns ≤ maxExtraTargetPadding := by
  have h₁ := drawPadMin_mem ns
  have h₂ := pickUsize_ge (ns.prfStatic Labels.padMax 0) 0xa0 0x3c0
  unfold drawPadMax maxExtraTargetPadding
  omega

theorem drawSaltPrefixLen_le : drawSaltPrefixLen ns ≤ v6MaxPrefixLen := by
  have h₁ : drawPrefixMinHandshake ns ≤ 0x60 := pickUsize_le _ (by decide)
  have h₂ := pickUsize_ge (ns.prfStatic Labels.prefixMax handshakeDomain) 0x10 0xa0
  have hmax : drawPrefixMinHandshake ns ≤ drawPrefixMaxHandshake ns := by
    unfold drawPrefixMaxHandshake v6MaxPrefixLen; omega
  exact Nat.le_trans (pickUsize_le _ hmax) (Nat.min_le_right _ _)

theorem drawPrefixMaxRecord_mem :
    drawPrefixMinRecord ns ≤ drawPrefixMaxRecord ns ∧ drawPrefixMaxRecord ns ≤ v6MaxPrefixLen := by
  have h₁ : drawPrefixMinRecord ns ≤ 0x50 := pickUsize_le _ (by decide)
  have h₂ := pickUsize_ge (ns.prfStatic Labels.prefixMax 0) 0x10 0xa0
  unfold drawPrefixMaxRecord v6MaxPrefixLen
  omega

theorem drawFirstRecordCap_mem : 0x100 ≤ drawFirstRecordCap ns ∧ drawFirstRecordCap ns ≤ 0x300 := by
  unfold drawFirstRecordCap; omega

end Draws

/-- Everything `derive` draws from the namespaces. -/
def ofNamespaces (ns : Namespaces) : Profile where
  namespaces := ns
  generator := ns.prfStatic Labels.generator 0 &&& 3
  padMin := drawPadMin ns
  padMax := drawPadMax ns
  padCount := pickUsize (ns.prfStatic Labels.padCount 0) 2 8
  padInterval := pickUsize (ns.prfStatic Labels.padInterval 0) 2 0x0b
  smallLimit := pickUsize (ns.prfStatic Labels.smallLimit 0) 0x60 0x300
  bitMin := pickUsize (ns.prfStatic Labels.bitMin 0) 0x18 0x29
  bitMax := pickUsize (ns.prfStatic Labels.bitMax 0) 0x3a 0x4c
  prefixMinRecord := drawPrefixMinRecord ns
  prefixMaxRecord := drawPrefixMaxRecord ns
  mixMode := (ns.prfStatic Labels.mixMode 0).toNat % 3
  mixRounds := pickUsize (ns.prfStatic Labels.mixRounds 0) 1 3
  mixStride := pickUsize (ns.prfStatic Labels.mixStride 0) 2 13
  mixOffsetBase := pickUsize (ns.prfStatic Labels.mixOffsetBase 0) 0 15
  mixBlock := pickUsize (ns.prfStatic Labels.mixBlock 0) 8 0x40
  chunkPolicy := (ns.prfStatic Labels.chunkPolicy 0).toNat % 3
  chunkInitial := drawChunkInitial ns
  firstRecordCap := drawFirstRecordCap ns
  chunkMax := drawChunkMax ns
  chunkStep := min (pickUsize (ns.prfStatic Labels.chunkStep 0) 0x400 0x1000) 0x0b68
  chunkJitter := min (pickUsize (ns.prfStatic Labels.chunkJitter 0) 0x10 0xc0) 0x0b6
  idleResetSecs := pickUsize (ns.prfStatic Labels.idleReset 0) 0x0c 0x5a
  writePolicy := (ns.prfStatic Labels.writePolicy 0).toNat % 3
  writeFirst := pickUsize (ns.prfStatic Labels.writeFirst 0) 4 8
  chunkBuckets := buckets ns Labels.chunkBucket 0x1000 (drawChunkMax ns)
  writeBuckets := buckets ns Labels.writeBucket 0x140 profileTrafficShapingMtuCap
  writeSeq := buckets ns Labels.writeSeq 0x168 profileTrafficShapingMtuCap
  writeJitter := pickUsize (ns.prfStatic Labels.writeJitter 0) 0x08 0x60
  writeJitterPercent := pickUsize (ns.prfStatic Labels.writePolicy 0x504c) 8 0x30
  g1 := pickUsize (ns.prfStatic Labels.generator 1) 0x18 0x80
  g2 := pickUsize (ns.prfStatic Labels.generator 2) 0x10 0x60
  g3 := pickUsize (ns.prfStatic Labels.generator 3) 0x10 0x60
  g4 := pickUsize (ns.prfStatic Labels.generator 4) 0x00 0x09
  g5 := pickUsize (ns.prfStatic Labels.generator 5) 0x01 0x08
  g6 := pickUsize (ns.prfStatic Labels.generator 6) 0x07 0x17
  saltBlockLen := saltLen + drawSaltPrefixLen ns
  mixStrideHandshake := UInt8.ofNat (pickUsize (ns.prfStatic Labels.mixStride SaltHide.mixHandshakeDomain) 0x11 0xfb)
  mixRoundsHandshake := UInt8.ofNat (pickUsize (ns.prfStatic Labels.mixRounds SaltHide.mixHandshakeDomain) 1 4)
  padMin_le := (drawPadMax_mem ns).1
  padMax_pos := (drawPadMax_mem ns).2.1
  padMax_le := (drawPadMax_mem ns).2.2
  prefix_le := drawPrefixMaxRecord_mem ns
  saltBlockLen_ge := Nat.le_add_right _ _
  saltBlockLen_le := Nat.add_le_add_left (drawSaltPrefixLen_le ns) _
  chunkInitial_ge := pickUsize_ge _ _ _
  firstRecordCap_ge := (drawFirstRecordCap_mem ns).1
  firstRecordCap_le := (drawFirstRecordCap_mem ns).2
  chunkMax_ge := pickUsize_ge _ _ _
  chunkMax_le := pickUsize_le _ (by decide)
  chunkJitter_le := Nat.min_le_right _ _
  chunkBuckets_ge _ := pickUsize_ge _ _ _
  writeFirst_le := pickUsize_le _ (by decide)
  mixStride_ge := pickUsize_ge _ _ _
  mixBlock_ge := pickUsize_ge _ _ _
  g1_mem := ⟨pickUsize_ge _ _ _, pickUsize_le _ (by decide)⟩
  g2_mem := ⟨pickUsize_ge _ _ _, pickUsize_le _ (by decide)⟩
  g3_mem := ⟨pickUsize_ge _ _ _, pickUsize_le _ (by decide)⟩
  g4_le := pickUsize_le _ (by decide)
  g5_mem := ⟨pickUsize_ge _ _ _, pickUsize_le _ (by decide)⟩
  g6_mem := ⟨pickUsize_ge _ _ _, pickUsize_le _ (by decide)⟩

/-- `Profile::derive`, from the secret of the pre-shared key. -/
def derive (secret : ByteArr 32) : Profile := ofNamespaces (Namespaces.derive secret)

def prf32 (p : Profile) (label a b : UInt32) : UInt32 := p.namespaces.prf32 label a b

def pick (p : Profile) (label a b : UInt32) (lo hi : Nat) : Nat := pickUsize (p.prf32 label a b) lo hi

def maxPaddingLen (p : Profile) : Nat := p.padMax + maxExtraTargetPadding

def recordPrefixLen (p : Profile) (seq : UInt32) : Nat :=
  p.pick Labels.recordPrefix seq 0 p.prefixMinRecord p.prefixMaxRecord

/-! ## Filling -/

/-- The loop of `generator0_transform` from `k` on, `n` turns left. -/
def generator0Loop (orig : UInt8) (indexMod targetBits : Nat) : Nat → Nat → UInt8 → Nat → UInt8
  | 0, _, b, _ => b
  | n + 1, k, b, ones =>
    if ones = targetBits then b
    else
      let bit := (orig.toNat + indexMod + 3 * k) % 8
      let mask := (1 : UInt8) <<< UInt8.ofNat bit
      if ones < targetBits then
        if b &&& mask = 0 then generator0Loop orig indexMod targetBits n (k + 1) (b ||| mask) (ones + 1)
        else generator0Loop orig indexMod targetBits n (k + 1) b ones
      else if b &&& mask ≠ 0 then generator0Loop orig indexMod targetBits n (k + 1) (b &&& ~~~mask) (ones - 1)
      else generator0Loop orig indexMod targetBits n (k + 1) b ones

def generator0Transform (orig : UInt8) (indexMod targetBits : Nat) : UInt8 :=
  generator0Loop orig indexMod targetBits 8 0 orig (V4.ones8 orig)

/-- `GENERATOR0_TABLE`: 7 target populations, 8 positions, 256 bytes. -/
def generator0Table (target : Fin 7) (index : Fin 8) (byte : UInt8) : UInt8 :=
  generator0Transform byte index (target + 1)

/-- The `target_bits` of `apply_generator_0`. -/
def targetBits (p : Profile) (seq : UInt32) : Nat :=
  let percent := p.pick Labels.bitPercent seq 0 p.bitMin p.bitMax
  let scaled := percent * 8
  if scaled ≤ 49 then 1 else if 749 < scaled then 7 else (scaled + 50) / 100

/-- `for (byte, row) in bytes.iter_mut().zip(rows)` -/
def lookUpRows (rows : Fin 8 → UInt8 → UInt8) (bytes : Bytes) : Bytes :=
  List.zipWith (fun byte row => row byte) bytes (List.ofFn rows) ++ bytes.drop 8

/-- Eight bytes at a time, then the tail; `target_bits` is in `1..=7`. -/
def applyGenerator0 (p : Profile) (seq : UInt32) (out : Bytes) : Bytes :=
  let rows := generator0Table (Fin.ofNat 7 (p.targetBits seq - 1))
  let (blocks, tail) := Chunks.asChunks 8 out
  (blocks.map (lookUpRows rows)).flatten ++ lookUpRows rows tail

/-- The remainder of a byte, its quotient by a multiplication and a shift. -/
structure ByteRemainder where
  magic : UInt32
  divisor : UInt32

def ByteRemainder.new (divisor : Nat) : ByteRemainder :=
  let divisor := UInt32.ofNat divisor
  ⟨((1 : UInt32) <<< 24) / divisor + 1, divisor⟩

def ByteRemainder.of (self : ByteRemainder) (b : UInt8) : UInt32 :=
  let b := b.toUInt32
  b - ((b * self.magic) >>> 24) * self.divisor

def applyGenerator1 (p : Profile) (out : Bytes) : Bytes :=
  let reciprocal := ByteRemainder.new (p.g1 + p.g2 + p.g3)
  let low := UInt32.ofNat p.g1
  let mid := UInt32.ofNat (p.g1 + p.g2)
  out.mapIdx fun i b =>
    let i := UInt8.ofNat i
    let r := reciprocal.of b
    let printable := 0x20 + (b + i) % 0x5f
    let high := 0x80 + (b ^^^ i) % 0x40
    let top := 0xc0 + (b + i * 7) % 0x40
    if r < low then printable else if r < mid then high else top

def applyGenerator2 (p : Profile) (out : Bytes) : Bytes :=
  out.mapIdx fun i (b : UInt8) =>
    let i := UInt8.ofNat i
    let hi := ((b >>> 4) + (i &&& 3) + 3) <<< 4
    let lo := ((b &&& 0x0f) + UInt8.ofNat p.g4 + (i &&& 1)) % 10
    hi ||| lo

/-- The loop of `apply_generator_3` over chunks of `period` bytes, `n` of them
at most; `start` is the chunk's index in the whole, an `i32` of which only the
low byte is used. -/
def generator3Chunks (repeated : Bytes) (stride : UInt8) (period motifLen : Nat) : Nat → Nat → Nat → Bytes → Bytes
  | 0, _, _, out => out
  | n + 1, start, motifAt, out =>
    let chunk := out.take period
    let patterned := chunk.take (period - 3)
    let rest := chunk.drop (period - 3)
    let patterned' := (List.zipWith (fun i m => stride * UInt8.ofNat i ^^^ m)
      (List.range' start patterned.length) (repeated.drop motifAt)) ++
        patterned.drop (repeated.drop motifAt).length
    let rest' := (rest.take 2).map (fun b => 0x30 + b % 10) ++ rest.drop 2
    let motifAt := motifAt + period % motifLen
    let motifAt := if motifLen ≤ motifAt then motifAt - motifLen else motifAt
    patterned' ++ rest' ++ generator3Chunks repeated stride period motifLen n (start + period) motifAt (out.drop period)

def applyGenerator3 (p : Profile) (seq : UInt32) (out : Bytes) : Bytes :=
  let motif := p.namespaces.expand Labels.motif seq 32
  let motifLen := p.g5 * 4
  let repeated := ((Chunks.chunks motifLen (List.replicate 64 (0 : UInt8))).map fun chunk =>
    motif.take chunk.length).flatten
  generator3Chunks repeated (UInt8.ofNat (p.g5 + 3)) p.g6 motifLen out.length 0 0 out

/-- `fill_official` of a slice of `len` bytes. -/
def fillOfficial (p : Profile) (seq : UInt32) (len : Nat) : Bytes :=
  let out := p.namespaces.expand Labels.padding seq len
  if p.generator = 1 then p.applyGenerator1 out
  else if p.generator = 2 then p.applyGenerator2 out
  else if p.generator = 3 then p.applyGenerator3 seq out
  else p.applyGenerator0 seq out

/-- `write_salt_block` into a slice of `len` bytes. -/
def writeSaltBlock (p : Profile) (salt : Salt) (len : Nat) : Res Bytes :=
  SaltHide.write p.namespaces.salt p.mixStrideHandshake p.mixRoundsHandshake (p.fillOfficial 0xffffffff len) salt

def extractSalt (p : Profile) (block : Bytes) : Res Salt :=
  SaltHide.extract p.namespaces.salt p.mixStrideHandshake p.mixRoundsHandshake block

/-! ## Padding lengths and chunk sizes -/

/-- `(value as i64 + j).max(least)`, with `j` drawn from `-jitter..=jitter`. -/
def jittered (value jitter raw least : Nat) : Nat :=
  max least (value + raw % (2 * jitter + 1) - jitter)

/-- The `while current_len > target` of `write_target_len`, `n` turns at
most; `target` grows on every turn, so `current_len` turns are enough. -/
def raiseTarget (p : Profile) (seq : UInt32) (currentLen : Nat) : Nat → Nat → Nat
  | 0, target => target
  | n + 1, target =>
    if currentLen ≤ target then target
    else
      let idx := p.prf32 Labels.writeNext seq (UInt32.ofNat target)
      let cand := p.writeBuckets (Fin.ofNat 8 idx.toNat)
      if target < cand then raiseTarget p seq currentLen n cand
      else
        let target := target + p.padMax
        if 65535 < target then 2 ^ 32 - 1 else raiseTarget p seq currentLen n target

def writeTargetLen (p : Profile) (seq : UInt32) (currentLen : Nat) : Nat :=
  if profileTargetDirectLimit < currentLen then
    if currentLen ≤ profileTargetU16Limit then currentLen else 2 ^ 32 - 1
  else
    let target :=
      if h : seq.toNat < p.writeFirst then p.writeSeq ⟨seq.toNat, Nat.lt_of_lt_of_le h p.writeFirst_le⟩
      else p.writeBuckets (Fin.ofNat 8 (p.prf32 Labels.writeTarget seq (UInt32.ofNat currentLen)).toNat)
    let target :=
      if p.writePolicy = 2 then jittered target p.writeJitter (p.prf32 Labels.writeJitterValue seq 0).toNat 1
      else target
    let jitterBound := min maxExtraTargetPadding (p.writeJitterPercent * currentLen / 100)
    let target :=
      if p.prf32 Labels.writeTarget seq (UInt32.ofNat jitterBound) &&& 1 = 0 then target + jitterBound
      else if jitterBound / 2 < target then target - jitterBound / 2
      else target
    raiseTarget p seq currentLen currentLen target

/-- The padding before the record is brought up to a target length. -/
def basePad (p : Profile) (seq : UInt32) (payloadLen : Nat) : Nat :=
  if seq.toNat < p.padCount ∨ (payloadLen ≠ 0 ∧ payloadLen ≤ p.smallLimit) ∨
      (p.padInterval ≠ 0 ∧ seq.toNat % p.padInterval = 0) then
    p.pick Labels.payloadPadding seq (UInt32.ofNat payloadLen) p.padMin p.padMax
  else 0

def finalPaddingLen (p : Profile) (seq : UInt32) (prefixLen payloadLen : Nat) (firstFrame : Bool) : Nat :=
  let basePad := p.basePad seq payloadLen
  let currentLen := prefixLen + headerCipherLen + basePad + (if 0 < payloadLen then payloadLen + tagLen else 0) +
    (if firstFrame then p.saltBlockLen else 0)
  let target := p.writeTargetLen seq currentLen
  if currentLen < target then basePad + min maxExtraTargetPadding (target - currentLen) else basePad

def chunkLimit (p : Profile) (seq : UInt32) (currentChunkSize : Nat) : Nat :=
  let cur := if currentChunkSize = 0 then p.chunkInitial else currentChunkSize
  let cur :=
    if p.chunkPolicy = 1 then
      p.chunkBuckets (Fin.ofNat 8 (p.prf32 Labels.chunkSize seq (UInt32.ofNat cur)).toNat)
    else if p.chunkPolicy = 2 then
      jittered cur p.chunkJitter (p.prf32 Labels.chunkJitterValue seq (UInt32.ofNat cur)).toNat 0x40
    else cur
  max 0x40 (min cur p.chunkMax)

def advanceChunkSize (p : Profile) (currentChunkSize : Nat) : Nat :=
  if currentChunkSize = 0 then p.chunkInitial else min (currentChunkSize + p.chunkStep) p.chunkMax

/-! ## Mixing -/

/-- `swap_strided` of two slices of one length. -/
def swapStrided (offset stride : Nat) (r : Bytes × Bytes) : Bytes × Bytes :=
  let pairs := Chunks.visit stride Prod.swap offset (r.1.zip r.2)
  (pairs.map Prod.fst, pairs.map Prod.snd)

/-- Exchange every other pair of full blocks, from block `first` on. -/
def swapBlocks (block first : Nat) (r : Bytes × Bytes) : Bytes × Bytes :=
  let (pBlocks, pTail) := Chunks.asChunks block r.1
  let (cBlocks, cTail) := Chunks.asChunks block r.2
  let blocks := Chunks.visit 2 Prod.swap first (pBlocks.zip cBlocks)
  ((blocks.map Prod.fst).flatten ++ pTail, (blocks.map Prod.snd).flatten ++ cTail)

/-- One round of mixing two slices of one length. -/
def mixRound (p : Profile) (seq : UInt32) (r : Bytes × Bytes) (round : Nat) : Bytes × Bytes :=
  let stride := p.mixStride + round % 3
  if p.mixMode = 1 then swapBlocks p.mixBlock (round % 2) r
  else if p.mixMode = 2 then
    let offset := (p.prf32 Labels.mixOffset seq (UInt32.ofNat round)).toNat + p.mixOffsetBase
    swapStrided (offset % stride) stride r
  else swapStrided (p.mixOffsetBase % stride) stride r

/-- `mix_padding_payload`; only the length both have is mixed. -/
def mixPaddingPayload (p : Profile) (seq : UInt32) (padding cipher : Bytes) : Bytes × Bytes :=
  let n := min padding.length cipher.length
  let r := (List.range p.mixRounds).foldl (p.mixRound seq) (padding.take n, cipher.take n)
  (r.1 ++ padding.drop n, r.2 ++ cipher.drop n)

end Profile

/-- `Key`: the key's bytes and the profile derived from them once. -/
structure ProfiledPsk (C : Crypto) extends Psk where
  profile : Profile
  profile_eq : profile = Profile.derive (C.profileSecret bytes)

def Psk.profiled (C : Crypto) (psk : Psk) : ProfiledPsk C :=
  { psk with profile := Profile.derive (C.profileSecret psk.bytes), profile_eq := rfl }

end Snell
