/-
`codec/v6/salt.rs`: the 16 salt bytes, masked, at shuffled positions of a
longer block.

The shuffle is a permutation of the block's positions, so the salt's are in
the block and differ from each other: what was written is extracted again,
and nothing else in the block has changed (`extract_write_at`).
-/
import Snell.Prf
import Snell.Record
import Mathlib.Data.List.Nodup
import Mathlib.Data.List.Range

namespace Snell

namespace SaltHide

/-- `MIX_HANDSHAKE_DOMAIN` -/
def mixHandshakeDomain : UInt32 := 0x51a7

/-- `SALT_NS_XOR` -/
def saltNsXor : UInt64 := 0xdaa66d2c7ddf743f

def saltShufflePrf (nsSalt : UInt64) (domain i : UInt32) : UInt32 :=
  let rdx := i.toUInt64 * prfCoefB + prfAddB
  let rdi := nsSalt ^^^ saltNsXor
  let rdx := rdx ^^^ rdi
  let rsi := domain.toUInt64 * prfCoefA + prfAddA
  fold32 (splitmix64 (rdx ^^^ rsi))

/-- One round over positions `0..len`. -/
def shuffleRound (nsSalt : UInt64) (len : Nat) (out : Array UInt8) (round : Nat) : Array UInt8 :=
  let domain := mixHandshakeDomain + UInt32.ofNat round
  (List.range len).foldl (fun out i =>
    let raw := (saltShufflePrf nsSalt domain (UInt32.ofNat i)).toNat
    out.swapIfInBounds i (i + raw % (len - i))) out

/-- `shuffle_perm` of a slice of `len` bytes; the indices swapped are always
inside it. -/
def shufflePerm (nsSalt : UInt64) (rounds : UInt8) (len : Nat) : Array UInt8 :=
  (List.range (max rounds.toNat 1)).foldl (shuffleRound nsSalt len) ((List.range len).map UInt8.ofNat).toArray

def mask (nsSalt : UInt64) (mixStride : UInt8) (i : UInt32) : UInt8 :=
  let prf := prf32 nsSalt 2 mixHandshakeDomain.toUInt64 i.toUInt64
  i.toUInt8 * mixStride ^^^ prf.toUInt8

/-- `salt_positions`: the first of `[0; 256]` with its first `len` shuffled. -/
def saltPositions (nsSalt : UInt64) (rounds : UInt8) (len : Nat) : Res (List Nat) :=
  if maxSaltBlockLen < len then .error .panic
  else
    let perm := (shufflePerm nsSalt rounds len).toList ++ List.replicate (maxSaltBlockLen - len) 0
    .ok ((perm.take saltLen).map UInt8.toNat)

/-- The masks of salt bytes `0..SALT_LEN`. -/
def masks (nsSalt : UInt64) (mixStride : UInt8) : Bytes :=
  (List.range saltLen).map fun i => mask nsSalt mixStride (UInt32.ofNat i)

/-- The items of `l` at `ps`, if all are there. -/
def gather {α : Type} (ps : List Nat) (l : List α) : Option (List α) := ps.mapM (l[·]?)

/-- `l` with `vs` written at `ps`, if all are inside. -/
def scatter {α : Type} : List Nat → List α → List α → Option (List α)
  | p :: ps, v :: vs, l => if p < l.length then scatter ps vs (l.set p v) else none
  | _, _, l => some l

def extract (nsSalt : UInt64) (mixStride rounds : UInt8) (block : Bytes) : Res Salt := do
  let positions ← saltPositions nsSalt rounds block.length
  match gather positions block with
  | none => .error .panic
  | some hidden =>
    let salt := List.zipWith (· ^^^ ·) (masks nsSalt mixStride) hidden
    if h : salt.length = saltLen then .ok ⟨salt, h⟩ else .error .panic

def write (nsSalt : UInt64) (mixStride rounds : UInt8) (block : Bytes) (salt : Salt) : Res Bytes := do
  let positions ← saltPositions nsSalt rounds block.length
  match scatter positions (List.zipWith (· ^^^ ·) (masks nsSalt mixStride) salt.1) block with
  | none => .error .panic
  | some block => .ok block

/-! ## Scattering and gathering -/

section Scatter

variable {α : Type}

theorem length_scatter {ps : List Nat} {vs l l' : List α} (h : scatter ps vs l = some l') : l'.length = l.length := by
  induction ps generalizing vs l with
  | nil => cases vs <;> cases h <;> rfl
  | cons p ps ih =>
    cases vs with
    | nil => cases h; rfl
    | cons v vs =>
      simp only [scatter] at h
      split at h
      · rw [ih h, List.length_set]
      · cases h

theorem scatter_some {ps : List Nat} (vs : List α) {l : List α} (h : ∀ p ∈ ps, p < l.length) :
    ∃ l', scatter ps vs l = some l' := by
  induction ps generalizing vs l with
  | nil => cases vs <;> exact ⟨_, rfl⟩
  | cons p ps ih =>
    cases vs with
    | nil => exact ⟨_, rfl⟩
    | cons v vs =>
      simp only [scatter, if_pos (h p List.mem_cons_self)]
      exact ih vs fun q hq => by rw [List.length_set]; exact h q (List.mem_cons_of_mem _ hq)

theorem getElem?_scatter_of_notMem {ps : List Nat} {vs l l' : List α} {q : Nat} (hq : q ∉ ps)
    (h : scatter ps vs l = some l') : l'[q]? = l[q]? := by
  induction ps generalizing vs l with
  | nil => cases vs <;> cases h <;> rfl
  | cons p ps ih =>
    obtain ⟨hne, hq⟩ : q ≠ p ∧ q ∉ ps := by simpa using hq
    cases vs with
    | nil => cases h; rfl
    | cons v vs =>
      simp only [scatter] at h
      split at h
      · rw [ih hq h, List.getElem?_set_ne (Ne.symm hne)]
      · cases h

/-- What was written at different places is read there. -/
theorem gather_scatter {ps : List Nat} {vs l l' : List α} (hn : ps.Nodup) (hl : vs.length = ps.length)
    (h : scatter ps vs l = some l') : gather ps l' = some vs := by
  induction ps generalizing vs l with
  | nil => obtain rfl := List.eq_nil_of_length_eq_zero hl; rfl
  | cons p ps ih =>
    obtain ⟨hp, hn⟩ := List.nodup_cons.mp hn
    cases vs with
    | nil => cases hl
    | cons v vs =>
      simp only [scatter] at h
      split at h
      · next hlt =>
        have hv : l'[p]? = some v := by
          rw [getElem?_scatter_of_notMem hp h, List.getElem?_set_self hlt]
        have hvs : gather ps l' = some vs := ih hn (by simpa using hl) h
        simp only [gather, List.mapM_cons, hv, Option.bind_eq_bind, Option.bind_some] at hvs ⊢
        rw [hvs]; rfl
      · cases h

theorem gather_some {ps : List Nat} {l : List α} (h : ∀ p ∈ ps, p < l.length) :
    ∃ vs, gather ps l = some vs ∧ vs.length = ps.length := by
  induction ps with
  | nil => exact ⟨[], rfl, rfl⟩
  | cons p ps ih =>
    obtain ⟨vs, hvs, hl⟩ := ih fun q hq => h q (List.mem_cons_of_mem _ hq)
    obtain ⟨v, hv⟩ : ∃ v, l[p]? = some v := ⟨_, List.getElem?_eq_getElem (h p List.mem_cons_self)⟩
    refine ⟨v :: vs, ?_, by rw [List.length_cons, List.length_cons, hl]⟩
    simp only [gather, List.mapM_cons, hv, Option.bind_eq_bind, Option.bind_some] at hvs ⊢
    rw [hvs]; rfl

end Scatter

/-! ## The shuffle -/

theorem swapIfInBounds_perm (a : Array UInt8) (i j : Nat) : (a.swapIfInBounds i j).toList.Perm a.toList := by
  unfold Array.swapIfInBounds
  split
  · split
    · exact (Array.swap_perm _ _).toList
    · exact .refl _
  · exact .refl _

theorem shuffleRound_perm (nsSalt : UInt64) (len : Nat) (out : Array UInt8) (round : Nat) :
    (shuffleRound nsSalt len out round).toList.Perm out.toList := by
  simp only [shuffleRound]
  generalize List.range len = is
  induction is generalizing out with
  | nil => exact .refl _
  | cons i is ih => exact (ih _).trans (swapIfInBounds_perm _ _ _)

/-- `shuffle_perm` gives a permutation. -/
theorem shufflePerm_perm (nsSalt : UInt64) (rounds : UInt8) (len : Nat) :
    (shufflePerm nsSalt rounds len).toList.Perm ((List.range len).map UInt8.ofNat) := by
  simp only [shufflePerm]
  have : ∀ (rs : List Nat) (out : Array UInt8),
      (rs.foldl (shuffleRound nsSalt len) out).toList.Perm out.toList := by
    intro rs
    induction rs with
    | nil => exact fun _ => .refl _
    | cons r rs ih => exact fun out => (ih _).trans (shuffleRound_perm _ _ _ _)
  exact this _ _

/-- As numbers, the shuffled bytes are `0..len`: up to 256 of them fit. -/
theorem shufflePerm_range (nsSalt : UInt64) (rounds : UInt8) {len : Nat} (hu : len ≤ maxSaltBlockLen) :
    ((shufflePerm nsSalt rounds len).toList.map UInt8.toNat).Perm (List.range len) := by
  refine ((shufflePerm_perm nsSalt rounds len).map _).trans (.of_eq ?_)
  rw [List.map_map]
  conv_rhs => rw [← List.map_id (List.range len)]
  refine List.map_congr_left fun i hi => ?_
  have hi := List.mem_range.mp hi
  simp only [maxSaltBlockLen] at hu
  rw [Function.comp_apply, UInt8.toNat_ofNat', Nat.mod_eq_of_lt (by omega), id]

/-- The salt's positions are in the block, and no two are the same. -/
theorem saltPositions_ok (nsSalt : UInt64) (rounds : UInt8) {len : Nat} (hl : saltLen ≤ len) (hu : len ≤ maxSaltBlockLen) :
    ∃ ps, saltPositions nsSalt rounds len = .ok ps ∧ ps.length = saltLen ∧ ps.Nodup ∧ ∀ p ∈ ps, p < len := by
  have hlen : (shufflePerm nsSalt rounds len).toList.length = len := by
    rw [(shufflePerm_perm nsSalt rounds len).length_eq, List.length_map, List.length_range]
  have hnat := shufflePerm_range nsSalt rounds hu
  refine ⟨((shufflePerm nsSalt rounds len).toList.take saltLen).map UInt8.toNat, ?_, ?_, ?_, ?_⟩
  · simp only [saltPositions, if_neg (Nat.not_lt.mpr hu)]
    rw [List.take_append_of_le_length (by omega)]
  · rw [List.length_map, List.length_take]; omega
  · rw [List.map_take]
    exact (hnat.nodup_iff.mpr List.nodup_range).sublist (List.take_sublist _ _)
  · intro p hp
    rw [List.map_take] at hp
    exact List.mem_range.mp (hnat.mem_iff.mp (List.mem_of_mem_take hp))

theorem zipWith_xor_cancel : ∀ (ms vs : Bytes), ms.length = vs.length →
    List.zipWith (· ^^^ ·) ms (List.zipWith (· ^^^ ·) ms vs) = vs
  | [], [], _ => rfl
  | m :: ms, v :: vs, h => by
    simp only [List.zipWith_cons_cons, List.cons.injEq]
    exact ⟨by rw [← UInt8.xor_assoc, UInt8.xor_self, UInt8.zero_xor], zipWith_xor_cancel ms vs (by simpa using h)⟩

theorem length_masks (nsSalt : UInt64) (mixStride : UInt8) : (masks nsSalt mixStride).length = saltLen := by
  rw [masks, List.length_map, List.length_range]

/-- **The salt survives its block**: writing succeeds, changes nothing away
from the salt's positions, and is undone by extracting. -/
theorem extract_write_at (nsSalt : UInt64) (mixStride rounds : UInt8) (block : Bytes) (salt : Salt)
    (hl : saltLen ≤ block.length) (hu : block.length ≤ maxSaltBlockLen) {ps : List Nat}
    (hps : saltPositions nsSalt rounds block.length = .ok ps) :
    ∃ block', write nsSalt mixStride rounds block salt = .ok block' ∧ block'.length = block.length ∧
      (∀ i ∉ ps, block'[i]? = block[i]?) ∧ extract nsSalt mixStride rounds block' = .ok salt := by
  obtain ⟨ps', hps', hlen, hnodup, hlt⟩ := saltPositions_ok nsSalt rounds hl hu
  obtain rfl : ps = ps' := Except.ok.inj (hps.symm.trans hps')
  have hmasks : (masks nsSalt mixStride).length = salt.1.length := (length_masks _ _).trans salt.2.symm
  have hvs : (List.zipWith (· ^^^ ·) (masks nsSalt mixStride) salt.1).length = ps.length := by
    rw [List.length_zipWith, hmasks, salt.2, hlen, Nat.min_self]
  obtain ⟨block', hw⟩ := scatter_some (List.zipWith (· ^^^ ·) (masks nsSalt mixStride) salt.1) hlt
  have hlen' := length_scatter hw
  refine ⟨block', by simp only [write, hps, hw, bind, Except.bind], hlen', ?_, ?_⟩
  · intro i hi
    exact getElem?_scatter_of_notMem hi hw
  · simp only [extract, hlen', hps, bind, Except.bind, gather_scatter hnodup hvs hw, zipWith_xor_cancel _ _ hmasks]
    rw [dif_pos salt.2]
    rfl

theorem extract_write (nsSalt : UInt64) (mixStride rounds : UInt8) (block : Bytes) (salt : Salt)
    (hl : saltLen ≤ block.length) (hu : block.length ≤ maxSaltBlockLen) :
    ∃ block', write nsSalt mixStride rounds block salt = .ok block' ∧ block'.length = block.length ∧
      extract nsSalt mixStride rounds block' = .ok salt := by
  obtain ⟨ps, hps, _⟩ := saltPositions_ok nsSalt rounds hl hu
  obtain ⟨block', hw, hlen, _, he⟩ := extract_write_at nsSalt mixStride rounds block salt hl hu hps
  exact ⟨block', hw, hlen, he⟩

/-- Extracting never fails on a block that can hold a salt. -/
theorem extract_ok (nsSalt : UInt64) (mixStride rounds : UInt8) {block : Bytes} (hl : saltLen ≤ block.length)
    (hu : block.length ≤ maxSaltBlockLen) : ∃ salt, extract nsSalt mixStride rounds block = .ok salt := by
  obtain ⟨ps, hps, hlen, _, hlt⟩ := saltPositions_ok nsSalt rounds hl hu
  obtain ⟨vs, hvs, hvl⟩ := gather_some hlt
  simp only [extract, hps, bind, Except.bind, hvs]
  rw [dif_pos (by rw [List.length_zipWith, length_masks, hvl, hlen, Nat.min_self])]
  exact ⟨_, rfl⟩

end SaltHide

end Snell
