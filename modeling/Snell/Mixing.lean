/-
`mix_padding_payload` of `codec/v6/profile/mod.rs`. Every round, strided or by
blocks, exchanges padding and ciphertext at a set of indices fixed by the
profile, the sequence number and the length (`mixRound_eq`), so all rounds
together do too, and mixing twice is no mixing (`mixing_is_self_inverse`).
-/
import Mathlib.Data.Finset.Basic
import Mathlib.Data.Finset.Range
import Mathlib.Data.List.Zip
import Snell.Exchange
import Snell.Profile

namespace Snell

namespace Profile

open Exchange

/-! ## The indices of one round -/

/-- The indices `swap_strided` visits. -/
def strided (offset stride i : Nat) : Bool := offset ≤ i && (i - offset) % stride == 0

/-- The indices of every other block of `chunks_exact`, from block `first`. -/
def everyOtherBlock (block n first i : Nat) : Bool :=
  i < n / block * block && first ≤ i / block && (i / block - first) % 2 == 0

theorem swapStrided_eq {offset stride : Nat} (hs : 0 < stride) {ps cs : Bytes} (hl : ps.length = cs.length) :
    swapStrided offset stride (ps, cs) = swapWhere (strided offset stride) 0 ps cs := by
  have hsel : ∀ j, strided offset stride j = true ↔ offset ≤ j ∧ (j - offset) % stride = 0 := by
    intro j
    rw [strided, Bool.and_eq_true, decide_eq_true_iff, beq_iff_eq]
  have hget : ∀ j, (Chunks.visit stride Prod.swap offset (ps.zip cs))[j]? =
      if strided offset stride j then (cs.zip ps)[j]? else (ps.zip cs)[j]? := by
    intro j
    rw [Chunks.getElem?_visit hs, ← List.getElem?_map, List.zip_swap]
    simp only [hsel]
  refine eq_swapWhere hl (fun j => ?_) (fun j => ?_)
  · simp only [swapStrided, List.getElem?_map, hget]
    split
    · rw [← List.getElem?_map, List.map_fst_zip (by omega)]
    · rw [← List.getElem?_map, List.map_fst_zip (by omega)]
  · simp only [swapStrided, List.getElem?_map, hget]
    split
    · rw [← List.getElem?_map, List.map_snd_zip (by omega)]
    · rw [← List.getElem?_map, List.map_snd_zip (by omega)]

/-- The pairs of blocks after every other one is exchanged. -/
theorem getElem?_swapped {block : Nat} (first : Nat) {ps cs : Bytes} (hl : ps.length = cs.length) {k : Nat}
    (hk : k < ps.length / block) :
    (Chunks.visit 2 Prod.swap first ((Chunks.asChunks block ps).1.zip (Chunks.asChunks block cs).1))[k]? =
      some (if first ≤ k ∧ (k - first) % 2 = 0 then
          ((cs.drop (k * block)).take block, (ps.drop (k * block)).take block)
        else ((ps.drop (k * block)).take block, (cs.drop (k * block)).take block)) := by
  have hzip : ((Chunks.asChunks block ps).1.zip (Chunks.asChunks block cs).1)[k]? =
      some ((ps.drop (k * block)).take block, (cs.drop (k * block)).take block) := by
    rw [List.getElem?_zip_eq_some]
    exact ⟨Chunks.getElem?_asChunks hk, Chunks.getElem?_asChunks (hl ▸ hk)⟩
  rw [Chunks.getElem?_visit (by decide), hzip]
  split <;> rfl

theorem swapBlocks_eq {block first : Nat} (hb : 0 < block) {ps cs : Bytes} (hl : ps.length = cs.length) :
    swapBlocks block first (ps, cs) = swapWhere (everyOtherBlock block ps.length first) 0 ps cs := by
  let blocks := Chunks.visit 2 Prod.swap first ((Chunks.asChunks block ps).1.zip (Chunks.asChunks block cs).1)
  have hcount : blocks.length = ps.length / block := by
    rw [Chunks.length_visit, List.length_zip, Chunks.length_asChunks, Chunks.length_asChunks, hl, Nat.min_self]
  have hfit : ∀ k < ps.length / block, k * block + block ≤ ps.length := by
    intro k hk
    calc k * block + block = (k + 1) * block := (Nat.succ_mul _ _).symm
      _ ≤ ps.length / block * block := Nat.mul_le_mul_right _ hk
      _ ≤ ps.length := Nat.div_mul_le_self _ _
  have hsize : ∀ pair ∈ blocks, pair.1.length = block ∧ pair.2.length = block := by
    intro pair hpair
    obtain ⟨k, hk, rfl⟩ := List.getElem_of_mem hpair
    have hk' : k < ps.length / block := hcount ▸ hk
    have hfit := hfit k hk'
    have hget := getElem?_swapped first hl hk'
    rw [List.getElem?_eq_getElem hk, Option.some.injEq] at hget
    rw [hget]
    split <;> simp only [List.length_take, List.length_drop] <;> omega
  -- the item at an index below the last full block, and behind it
  have hitem : ∀ (side : Bytes × Bytes → Bytes) (mine other : Bytes), mine.length = ps.length →
      (∀ pair ∈ blocks, (side pair).length = block) →
      (∀ k < ps.length / block, (blocks[k]?).map side =
        some (if first ≤ k ∧ (k - first) % 2 = 0 then (other.drop (k * block)).take block
          else (mine.drop (k * block)).take block)) →
      ∀ j, ((blocks.map side).flatten ++ (Chunks.asChunks block mine).2)[j]? =
        if everyOtherBlock block ps.length first j then other[j]? else mine[j]? := by
    intro side mine other hmine hside hget j
    rw [Chunks.getElem?_rebuild hb (by rw [List.length_map, hcount, hmine])
      (by intro b hmem; obtain ⟨pair, hp, rfl⟩ := List.mem_map.mp hmem; exact hside pair hp), hmine]
    split
    · next hj =>
      have hk : j / block < ps.length / block := Nat.div_lt_of_lt_mul (by rwa [Nat.mul_comm] at hj)
      have hsel : everyOtherBlock block ps.length first j = true ↔
          first ≤ j / block ∧ (j / block - first) % 2 = 0 := by
        simp only [everyOtherBlock, Bool.and_eq_true, decide_eq_true_iff, beq_iff_eq, hj, true_and]
      rw [List.getElem?_map, hget _ hk]
      simp only [hsel, Option.bind_some]
      split
      · exact Chunks.getElem?_piece hb other j
      · exact Chunks.getElem?_piece hb mine j
    · next hj =>
      have hsel : everyOtherBlock block ps.length first j = false := by
        simp only [everyOtherBlock, hj, decide_false, Bool.false_and]
      rw [hsel]
      rfl
  refine eq_swapWhere hl ?_ ?_
  · refine hitem Prod.fst ps cs rfl (fun pair hp => (hsize pair hp).1) fun k hk => ?_
    rw [getElem?_swapped first hl hk]
    split <;> rfl
  · refine hitem Prod.snd cs ps hl.symm (fun pair hp => (hsize pair hp).2) fun k hk => ?_
    rw [getElem?_swapped first hl hk]
    split <;> rfl

/-! ## All rounds -/

variable (p : Profile)

/-- The indices a round of mixing exchanges, of slices of `n` bytes. -/
def mixSelect (seq : UInt32) (n round : Nat) : Nat → Bool :=
  let stride := p.mixStride + round % 3
  if p.mixMode = 1 then everyOtherBlock p.mixBlock n (round % 2)
  else if p.mixMode = 2 then
    strided (((p.prf32 Labels.mixOffset seq (UInt32.ofNat round)).toNat + p.mixOffsetBase) % stride) stride
  else strided (p.mixOffsetBase % stride) stride

theorem mixRound_eq (seq : UInt32) (round : Nat) {ps cs : Bytes} (hl : ps.length = cs.length) :
    p.mixRound seq (ps, cs) round = swapWhere (p.mixSelect seq ps.length round) 0 ps cs := by
  have hstride := p.mixStride_ge
  have hblock := p.mixBlock_ge
  simp only [mixRound, mixSelect]
  split
  · exact swapBlocks_eq (by omega) hl
  split
  · exact swapStrided_eq (by omega) hl
  · exact swapStrided_eq (by omega) hl

/-- The indices that all rounds together exchange: those an odd number of
rounds picks. -/
def mixedIndices (seq : UInt32) (n : Nat) : Finset Nat :=
  (Finset.range n).filter fun i =>
    ((List.range p.mixRounds).map (p.mixSelect seq n)).foldl (fun b sel => b ^^ sel i) false = true

theorem mixRounds_eq (seq : UInt32) (rounds : List Nat) {ps cs : Bytes} (hl : ps.length = cs.length) :
    rounds.foldl (p.mixRound seq) (ps, cs) =
      (rounds.map (p.mixSelect seq ps.length)).foldl (fun r sel => swapWhere sel 0 r.1 r.2) (ps, cs) := by
  induction rounds generalizing ps cs with
  | nil => rfl
  | cons round rounds ih =>
    obtain ⟨h₁, h₂⟩ := swapWhere_length (p.mixSelect seq ps.length round) 0 ps cs
    have hrest := ih (by rw [h₁, h₂, hl] :
      (swapWhere (p.mixSelect seq ps.length round) 0 ps cs).1.length =
        (swapWhere (p.mixSelect seq ps.length round) 0 ps cs).2.length)
    rw [h₁] at hrest
    rw [List.foldl_cons, p.mixRound_eq seq round hl, List.map_cons, List.foldl_cons]
    exact hrest

/-- One profile's mixing of slices of given lengths is one exchange. -/
theorem mix_eq (seq : UInt32) (padding cipher : Bytes) :
    p.mixPaddingPayload seq padding cipher =
      swapWhere (fun i => ((List.range p.mixRounds).map
          (p.mixSelect seq (min padding.length cipher.length))).foldl (fun b sel => b ^^ sel i) false)
        0 padding cipher := by
  have hp : (padding.take (min padding.length cipher.length)).length = min padding.length cipher.length := by
    rw [List.length_take]; omega
  have hc : (cipher.take (min padding.length cipher.length)).length = min padding.length cipher.length := by
    rw [List.length_take]; omega
  have hrounds := p.mixRounds_eq seq (List.range p.mixRounds) (hp.trans hc.symm)
  rw [hp, foldl_swapWhere] at hrounds
  simp only [mixPaddingPayload, hrounds]
  rw [swapWhere_take _ 0 padding cipher]

theorem mix_length (seq : UInt32) (padding cipher : Bytes) :
    (p.mixPaddingPayload seq padding cipher).1.length = padding.length ∧
      (p.mixPaddingPayload seq padding cipher).2.length = cipher.length := by
  rw [p.mix_eq seq padding cipher]
  exact swapWhere_length _ _ _ _

theorem mix_mix (seq : UInt32) (padding cipher : Bytes) :
    p.mixPaddingPayload seq (p.mixPaddingPayload seq padding cipher).1 (p.mixPaddingPayload seq padding cipher).2 =
      (padding, cipher) := by
  obtain ⟨h₁, h₂⟩ := p.mix_length seq padding cipher
  rw [p.mix_eq seq (p.mixPaddingPayload seq padding cipher).1, h₁, h₂, p.mix_eq seq padding cipher]
  exact swapWhere_self _ _ _ _

/-- **Mixing is an index-wise involution**: padding and ciphertext are
exchanged at indices that depend on the profile, the sequence number and the
shorter length alone, nothing else changes, and mixing again restores both. -/
theorem mixing_is_self_inverse (seq : UInt32) :
    (∀ n, ∀ i ∈ p.mixedIndices seq n, i < n) ∧
    ∀ padding cipher : Bytes,
      let n := min padding.length cipher.length
      let mixed := p.mixPaddingPayload seq padding cipher
      mixed.1.length = padding.length ∧ mixed.2.length = cipher.length ∧
      (∀ i, mixed.1[i]? = if i ∈ p.mixedIndices seq n then cipher[i]? else padding[i]?) ∧
      (∀ i, mixed.2[i]? = if i ∈ p.mixedIndices seq n then padding[i]? else cipher[i]?) ∧
      p.mixPaddingPayload seq mixed.1 mixed.2 = (padding, cipher) := by
  refine ⟨fun n i hi => Finset.mem_range.mp (Finset.mem_filter.mp hi).1, ?_⟩
  intro padding cipher n mixed
  obtain ⟨h₁, h₂⟩ := p.mix_length seq padding cipher
  have hmem : ∀ i, i ∈ p.mixedIndices seq n ↔ i < n ∧
      ((List.range p.mixRounds).map (p.mixSelect seq n)).foldl (fun b sel => b ^^ sel (0 + i)) false = true := by
    intro i
    rw [mixedIndices, Finset.mem_filter, Finset.mem_range, Nat.zero_add]
  refine ⟨h₁, h₂, fun i => ?_, fun i => ?_, p.mix_mix seq padding cipher⟩
  · simp only [mixed, p.mix_eq seq padding cipher, (getElem?_swapWhere _ 0 padding cipher i).1, hmem, n]
  · simp only [mixed, p.mix_eq seq padding cipher, (getElem?_swapWhere _ 0 padding cipher i).2, hmem, n]

end Profile

end Snell
