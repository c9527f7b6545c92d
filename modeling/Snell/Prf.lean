/-
`codec/v6/prf.rs`: SplitMix64, the 32-bit PRF and the keystream that the v6
profile is drawn from.
-/
import Snell.Base
import Snell.LittleEndian

namespace Snell

open LittleEndian

def goldenGamma : UInt64 := 0x9e3779b97f4a7c15
def splitmixMul1 : UInt64 := 0xbf58476d1ce4e5b9
def splitmixMul2 : UInt64 := 0x94d049bb133111eb
def prfCoefB : UInt64 := 0x589965cc75374cc3
def prfAddB : UInt64 := 0x33a213ec50ffe2e9
def prfCoefA : UInt64 := 0xe7037ed1a0b428db
def prfAddA : UInt64 := 0x8f3907f7b2b80c35
def expandStateInit : UInt64 := 0xb57de1f3f82cb33f
def expandCoefSeq : UInt64 := 0xd6e8feb86659fd93
def expandCoefLabel : UInt64 := 0xa24baed4963ee407
def expandCoefLen : UInt64 := 0x165667b19e3779f9
def expandAddLen : UInt64 := 0x0d4cd3e7b14a36d7

def splitmix64 (x : UInt64) : UInt64 :=
  let x := x ^^^ (x >>> 30)
  let x := x * splitmixMul1
  let x := x ^^^ (x >>> 27)
  let x := x * splitmixMul2
  x ^^^ (x >>> 31)

/-- `(y ^ (y >> 32)) as u32` -/
def fold32 (y : UInt64) : UInt32 := (y ^^^ (y >>> 32)).toUInt32

/-- `prf32` in a namespace `ns`. -/
def prf32 (ns : UInt64) (label : UInt32) (a b : UInt64) : UInt32 :=
  fold32 (splitmix64 (ns ^^^ (b * prfCoefB + prfAddB) ^^^ (label.toUInt64 * goldenGamma) ^^^
    (a * prfCoefA + prfAddA)))

/-- The loop of `expand_stream`: blocks of eight bytes. -/
def expandBlocks (state : UInt64) : Nat → Bytes
  | 0 => []
  | n + 1 =>
    let state := state + goldenGamma
    leBytes 8 (splitmix64 state).toNat ++ expandBlocks state n

/-- `expand_stream` into `len` bytes; the last block is cut. -/
def expandStream (ns : UInt64) (label : UInt32) (seq : UInt64) (len : Nat) : Bytes :=
  let state := expandStateInit
  let state := state + seq * expandCoefSeq
  let state := state ^^^ (label.toUInt64 * expandCoefLabel)
  let state := state ^^^ (UInt64.ofNat len * expandCoefLen + expandAddLen)
  let state := state ^^^ ns
  (expandBlocks state ((len + 7) / 8)).take len

theorem length_expandBlocks (state : UInt64) (n : Nat) : (expandBlocks state n).length = 8 * n := by
  induction n generalizing state with
  | zero => rfl
  | succ n ih => simp only [expandBlocks, List.length_append, length_leBytes, ih]; omega

@[simp] theorem length_expandStream (ns : UInt64) (label : UInt32) (seq : UInt64) (len : Nat) :
    (expandStream ns label seq len).length = len := by
  simp only [expandStream, List.length_take, length_expandBlocks]; omega

example : splitmix64 goldenGamma = 0xe220a8397b1dcdaf ∧ splitmix64 (goldenGamma * 3) = 0x06c45d188009454f := by
  decide

end Snell
