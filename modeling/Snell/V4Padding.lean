/-
`codec/v4/padding.rs`: the padding of the first v4 record, filled so that
the body's share of one-bits stays near a target, and the swap that blurs
the boundary between padding and ciphertext.
-/
import Snell.Binary64
import Snell.Crypto

namespace Snell.V4

open LittleEndian

/-- The byte order of the machine, which `from_ne_bytes` follows. -/
inductive Endian where
  | little
  | big
  deriving DecidableEq, Repr

/-- `u64::from_ne_bytes` -/
def fromNe (ne : Endian) (bs : Bytes) : UInt64 :=
  UInt64.ofNat (leNat (match ne with | .little => bs | .big => bs.reverse))

/-- `u64::to_ne_bytes` -/
def toNe (ne : Endian) (w : UInt64) : Bytes :=
  match ne with
  | .little => leBytes 8 w.toNat
  | .big => (leBytes 8 w.toNat).reverse

/-- `u8::count_ones` -/
def ones8 (b : UInt8) : Nat := (List.range 8).countP fun i => b.toNat.testBit i

/-- `u64::count_ones` -/
def ones64 (w : UInt64) : Nat := (List.range 64).countP fun i => w.toNat.testBit i

/-- The sum over `as_chunks::<8>`, and the remainder byte by byte. -/
def countOnesLoop (ne : Endian) : Nat → Bytes → Nat
  | 0, remainder => (remainder.map ones8).sum
  | n + 1, bytes =>
    if 8 ≤ bytes.length then ones64 (fromNe ne (bytes.take 8)) + countOnesLoop ne n (bytes.drop 8)
    else (bytes.map ones8).sum

/-- `count_ones`: of the slice cut to a multiple of four. -/
def countOnes (ne : Endian) (bytes : Bytes) : Nat :=
  let slice := bytes.take (bytes.length / 4 * 4)
  countOnesLoop ne (slice.length / 8) slice

/-- `MASK` -/
def swapMask (ne : Endian) : UInt64 := fromNe ne [0xff, 0, 0xff, 0, 0xff, 0, 0xff, 0]

/-- One word of each slice. -/
def swapWord (ne : Endian) (p c : Bytes) : Bytes × Bytes :=
  let a := fromNe ne p
  let b := fromNe ne c
  let diff := (a ^^^ b) &&& swapMask ne
  (toNe ne (a ^^^ diff), toNe ne (b ^^^ diff))

/-- The tails: every other byte, from the first. -/
def swapTail : Bytes → Bytes → Bytes × Bytes
  | p₀ :: p₁ :: ps, c₀ :: c₁ :: cs =>
    let r := swapTail ps cs
    (c₀ :: p₁ :: r.1, p₀ :: c₁ :: r.2)
  | [p], [c] => ([c], [p])
  | ps, cs => (ps, cs)

/-- The loop over `n` words of two slices of one length, then the tails. -/
def swapWords (ne : Endian) : Nat → Bytes → Bytes → Bytes × Bytes
  | 0, p, c => swapTail p c
  | n + 1, p, c =>
    let w := swapWord ne (p.take 8) (c.take 8)
    let r := swapWords ne n (p.drop 8) (c.drop 8)
    (w.1 ++ r.1, w.2 ++ r.2)

def swapEvenIndices (ne : Endian) (padding cipher : Bytes) : Bytes × Bytes :=
  let limit := min padding.length cipher.length
  let r := swapWords ne (limit / 8) (padding.take limit) (cipher.take limit)
  (r.1 ++ padding.drop limit, r.2 ++ cipher.drop limit)

/-! ## Filling -/

def bitRngWords : Nat := 512

/-- `BitRng`: `random` is 512 words of 8 bytes, `next` the first unused. -/
structure BitRng (ε : Type) where
  entropy : ε
  random : Bytes
  next : Nat

variable {ε : Type} [Entropy ε]

/-- An entropy failure as the caller's `?` passes it on. -/
def fillBytes (entropy : ε) (n : Nat) : Res Bytes × ε :=
  match Entropy.fill entropy n with
  | (.ok bytes, entropy) => (.ok bytes.1, entropy)
  | (.error e, entropy) => (.error (.err e), entropy)

/-- `BitRng::pick`: an index in `0..=max`, by rejection sampling. -/
def BitRng.pick : Nat → BitRng ε → Nat → Res Nat × BitRng ε
  | 0, rng, _ => (.error .diverged, rng)
  | fuel + 1, rng, max =>
    let span := max + 1
    let zone := (2 ^ 64 - 1) - (2 ^ 64 - 1) % span
    let refilled : Res Unit × BitRng ε :=
      if rng.next = bitRngWords then
        match fillBytes rng.entropy (8 * bitRngWords) with
        | (.ok bytes, entropy) => (.ok (), ⟨entropy, bytes, 0⟩)
        | (.error f, entropy) => (.error f, { rng with entropy })
      else (.ok (), rng)
    match refilled with
    | (.error f, rng) => (.error f, rng)
    | (.ok (), rng) =>
      let value := leNat ((rng.random.drop (8 * rng.next)).take 8)
      let rng := { rng with next := rng.next + 1 }
      if value < zone then (.ok (value % span), rng) else pick fuel rng max

/-- `padding[index >> 3] & (1 << (index & 7)) != 0` -/
def bitAt (padding : Bytes) (index : Nat) : Res Bool :=
  match padding[index / 8]? with
  | some b => .ok (b.toNat.testBit (index % 8))
  | none => .error .panic

/-- `padding[index >> 3] |= 1 << (index & 7)`, or `&= !(..)`. -/
def putBit (padding : Bytes) (index : Nat) (bit : Bool) : Res Bytes :=
  match padding[index / 8]? with
  | some b =>
    let mask := (1 : UInt8) <<< UInt8.ofNat (index % 8)
    .ok (padding.set (index / 8) (if bit then b ||| mask else b &&& ~~~mask))
  | none => .error .panic

/-- The loop of either branch: set (or clear) one bit for each `j` in
`j..bits`. -/
def fillBitsLoop (fuel : Nat) (bit : Bool) : Nat → Nat → BitRng ε → Bytes → Res Bytes × ε
  | 0, _, rng, padding => (.ok padding, rng.entropy)
  | n + 1, j, rng, padding =>
    match rng.pick fuel j with
    | (.error f, rng) => (.error f, rng.entropy)
    | (.ok candidate, rng) =>
      match (do
        let taken ← bitAt padding candidate
        putBit padding (if taken = bit then j else candidate) bit) with
      | .error f => (.error f, rng.entropy)
      | .ok padding => fillBitsLoop fuel bit n (j + 1) rng padding

/-- `fill_padding_bits` of a slice of `len` bytes. -/
def fillPaddingBits (fuel len targetOnes : Nat) (entropy : ε) : Res Bytes × ε :=
  let bits := len * 8
  let rng : BitRng ε := ⟨entropy, List.replicate (8 * bitRngWords) 0, bitRngWords⟩
  if bits < targetOnes then (.error .panic, entropy)
  else if targetOnes ≤ bits - targetOnes then
    fillBitsLoop fuel true targetOnes (bits - targetOnes) rng (List.replicate len 0)
  else
    fillBitsLoop fuel false (bits - targetOnes) targetOnes rng (List.replicate len 0xff)

/-- How many one-bits `fill_v4_padding` aims for, from the body's ones and
zeros, the bits of padding and body together, and eight random bytes. Every
`f64` here is a rational that binary64 can hold. -/
def paddingTarget (ones zeros totalBits : Nat) (rnd : Bytes) : ℚ :=
  let jitter := Binary64.mul
    (Binary64.div (Binary64.round (leNat rnd)) (Binary64.round (2 ^ 64 - 1))) (Binary64.round 0.1)
  let targetRatio := Binary64.add (Binary64.round (if zeros < ones then 0.4 else 1.6)) jitter
  Binary64.sub
    (Binary64.mul (Binary64.round totalBits) (Binary64.div targetRatio (Binary64.add targetRatio 1)))
    (Binary64.round ones)

/-- `fill_v4_padding` of a slice of `len` bytes before `cipher`. -/
def fillV4Padding (ne : Endian) (fuel len : Nat) (cipher : Bytes) (entropy : ε) : Res Bytes × ε :=
  if len = 0 then (.ok [], entropy)
  else
    -- Ones are counted on the slice cut to a multiple of four, zeros against
    -- its full length: the mismatch is the source's.
    let ones := countOnes ne cipher
    let zeros := cipher.length * 8 - ones
    if zeros = 0 then fillBytes entropy len
    else
      let ratio := Binary64.div (Binary64.round ones) (Binary64.round zeros)
      if ¬ (0.5 ≤ ratio ∧ ratio ≤ Binary64.round 1.6) then fillBytes entropy len
      else match fillBytes entropy 8 with
        | (.error f, entropy) => (.error f, entropy)
        | (.ok rnd, entropy) =>
          let target := paddingTarget ones zeros ((len + cipher.length) * 8) rnd
          -- `is_finite` holds of every rational
          if target < 0 ∨ target > Binary64.round (len * 8 : Nat) then fillBytes entropy len
          else fillPaddingBits fuel len ⌊target⌋.toNat entropy

end Snell.V4
