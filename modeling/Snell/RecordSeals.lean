/-
The AEAD seals one record takes: of its header and of its payload, or of its
header alone when it has no payload.
-/
import Snell.Header
import Snell.Record

namespace Snell

/-- What is sealed for one record: the header, against what stands in front
of it, and the payload, against the padding. -/
structure SealedRecord where
  payload : Bytes
  /-- The padding the header announces. -/
  padding : Nat
  headerAad : Bytes
  bodyAad : Bytes

/-- The seals a record takes. -/
def sealCount (payload : Bytes) : Nat := if payload = [] then 1 else 2

theorem sealCount_pos (payload : Bytes) : 0 < sealCount payload := by
  unfold sealCount
  split <;> decide

namespace SealedRecord

variable (C : Crypto) (key : C.Key) (nonce : Nonce) (r : SealedRecord)

def header : AeadSeal :=
  ⟨nonce, r.headerAad, C.sealed key nonce r.headerAad (plainHeader r.padding r.payload.length)⟩

def body : AeadSeal := ⟨nonce, r.bodyAad, C.sealed key nonce r.bodyAad r.payload⟩

/-- The record's seals, from `nonce` on. -/
def seals : List AeadSeal :=
  r.header C key nonce :: if r.payload = [] then [] else [r.body C key nonce.increment]

/-- Those that succeed in `env`. -/
def sealsIn (env : SealEnv) : List AeadSeal :=
  if env.headerRefused then []
  else r.header C key nonce :: if r.payload = [] ∨ env.bodyRefused then [] else [r.body C key nonce.increment]

theorem length_seals : (r.seals C key nonce).length = sealCount r.payload := by
  unfold seals sealCount
  split <;> rfl

theorem sealsIn_allowed {env : SealEnv} (hh : env.headerRefused = false)
    (hb : r.payload ≠ [] → env.bodyRefused = false) : r.sealsIn C key nonce env = r.seals C key nonce := by
  unfold sealsIn seals
  by_cases hnil : r.payload = []
  · simp only [hh, hnil, true_or, ↓reduceIte, Bool.false_eq_true]
  · simp only [hh, hb hnil, hnil, or_self, ↓reduceIte, Bool.false_eq_true]

theorem sealsIn_whole {env : SealEnv} (h : r.sealsIn C key nonce env = r.seals C key nonce) :
    env.headerRefused = false ∧ (r.payload ≠ [] → env.bodyRefused = false) := by
  unfold sealsIn seals at h
  cases hh : env.headerRefused with
  | true =>
    rw [hh, if_pos rfl] at h
    cases h
  | false =>
    refine ⟨rfl, fun hne => ?_⟩
    cases hb : env.bodyRefused with
    | false => rfl
    | true =>
      rw [hh, hb, if_neg Bool.false_ne_true, if_pos (.inr rfl), if_neg hne] at h
      cases h

/-- The seals are none of the record's, its header's alone, or all. -/
theorem sealsIn_cases (env : SealEnv) :
    r.sealsIn C key nonce env = [] ∨
      (r.payload ≠ [] ∧ r.sealsIn C key nonce env = [r.header C key nonce]) ∨
      r.sealsIn C key nonce env = r.seals C key nonce := by
  cases hh : env.headerRefused with
  | true => exact .inl (by simp only [sealsIn, hh, ↓reduceIte])
  | false =>
    by_cases hb : r.payload ≠ [] ∧ env.bodyRefused = true
    · refine .inr (.inl ⟨hb.1, ?_⟩)
      simp only [sealsIn, hh, hb.2, or_true, ↓reduceIte, Bool.false_eq_true]
    · refine .inr (.inr (r.sealsIn_allowed C key nonce hh fun hne => ?_))
      simpa only [hne, ne_eq, not_false_eq_true, true_and, Bool.not_eq_true] using hb

end SealedRecord

end Snell
