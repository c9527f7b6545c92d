/-
The padding generators of `codec/v6/profile/mod.rs` byte by byte: what table
rows, reciprocals and a repeated motif compute is, at every index, the value
its per-byte definition gives (`generators_per_byte`).
-/
import Mathlib.Tactic.Linarith
import Snell.Profile

namespace Snell

namespace Profile

/-! ## A remainder by multiplication -/

/-- The quotient of a byte by a multiplication and a shift of 24 bits. -/
theorem mul_reciprocal {b d : Nat} (hb : b < 256) (hd : 0 < d) (hd' : d < 2 ^ 16) :
    b * (2 ^ 24 / d + 1) / 2 ^ 24 = b / d := by
  have hm : d * (2 ^ 24 / d) + 2 ^ 24 % d = 2 ^ 24 := Nat.div_add_mod _ _
  have hr : 2 ^ 24 % d < d := Nat.mod_lt _ hd
  have hq : d * (b / d) + b % d = b := Nat.div_add_mod _ _
  have hs : b % d < d := Nat.mod_lt _ hd
  generalize 2 ^ 24 / d = m at *
  generalize 2 ^ 24 % d = r at *
  generalize b / d = q at *
  generalize b % d = s at *
  -- the error of the reciprocal, `b * (d - r)` over `d`, stays below one unit
  have herr : b * (d - r) < 2 ^ 24 := by
    calc b * (d - r) ≤ 255 * d := Nat.mul_le_mul (by omega) (by omega)
      _ < 2 ^ 24 := by omega
  have hbm : d * (b * (m + 1)) = b * 2 ^ 24 + b * (d - r) := by
    have hdm : d * (m + 1) = 2 ^ 24 + (d - r) := by rw [Nat.mul_succ]; omega
    calc d * (b * (m + 1)) = b * (d * (m + 1)) := by ring
      _ = b * 2 ^ 24 + b * (d - r) := by rw [hdm, Nat.mul_add]
  refine Nat.div_eq_of_lt_le ?_ ?_
  · refine Nat.le_of_mul_le_mul_left (c := d) ?_ hd
    have : d * (q * 2 ^ 24) ≤ b * 2 ^ 24 := by
      calc d * (q * 2 ^ 24) = d * q * 2 ^ 24 := by ring
        _ ≤ b * 2 ^ 24 := Nat.mul_le_mul_right _ (by omega)
    omega
  · refine Nat.lt_of_mul_lt_mul_left (a := d) ?_
    have : b * 2 ^ 24 + 2 ^ 24 ≤ d * ((q + 1) * 2 ^ 24) := by
      calc b * 2 ^ 24 + 2 ^ 24 = (b + 1) * 2 ^ 24 := by ring
        _ ≤ (d * q + d) * 2 ^ 24 := Nat.mul_le_mul_right _ (by omega)
        _ = d * ((q + 1) * 2 ^ 24) := by ring
    omega

/-- `ByteRemainder` is the remainder, and no step of it overflows. -/
theorem ByteRemainder.of_new {d : Nat} (hd : 0 < d) (hd' : d < 2 ^ 16) (b : UInt8) :
    ((ByteRemainder.new d).of b).toNat = b.toNat % d := by
  have hb := b.toNat_lt
  have hdiv : (UInt32.ofNat d).toNat = d := by
    rw [UInt32.toNat_ofNat']; exact Nat.mod_eq_of_lt (by omega)
  have hm : 2 ^ 24 / d ≤ 2 ^ 24 := Nat.div_le_self _ _
  have hmagic : (ByteRemainder.new d).magic.toNat = 2 ^ 24 / d + 1 := by
    simp only [ByteRemainder.new, UInt32.toNat_add, UInt32.toNat_div, hdiv]
    exact Nat.mod_eq_of_lt (show 2 ^ 24 / d + 1 < 2 ^ 32 by omega)
  have hprod : b.toNat * (2 ^ 24 / d + 1) < 2 ^ 32 := by
    calc b.toNat * (2 ^ 24 / d + 1) ≤ 255 * (2 ^ 24 + 1) := Nat.mul_le_mul (by omega) (by omega)
      _ < 2 ^ 32 := by decide
  have hquot : ((b.toUInt32 * (ByteRemainder.new d).magic) >>> 24).toNat = b.toNat / d := by
    rw [UInt32.toNat_shiftRight, UInt32.toNat_mul, UInt8.toNat_toUInt32, hmagic, Nat.mod_eq_of_lt hprod,
      ← mul_reciprocal hb hd hd']
    exact Nat.shiftRight_eq_div_pow _ 24
  have hback : b.toNat / d * d ≤ b.toNat := Nat.div_mul_le_self _ _
  have hsub : (((b.toUInt32 * (ByteRemainder.new d).magic) >>> 24) * (ByteRemainder.new d).divisor).toNat =
      b.toNat / d * d := by
    rw [UInt32.toNat_mul, hquot]
    change b.toNat / d * (UInt32.ofNat d).toNat % 2 ^ 32 = _
    rw [hdiv]
    exact Nat.mod_eq_of_lt (by omega)
  have hle : ((b.toUInt32 * (ByteRemainder.new d).magic) >>> 24) * (ByteRemainder.new d).divisor ≤ b.toUInt32 := by
    rw [UInt32.le_iff_toNat_le, hsub, UInt8.toNat_toUInt32]; exact hback
  rw [ByteRemainder.of, UInt32.toNat_sub_of_le _ _ hle, hsub, UInt8.toNat_toUInt32]
  have := Nat.div_add_mod b.toNat d
  rw [Nat.mul_comm] at this
  omega

/-! ## The per-byte definitions -/

variable (p : Profile)

/-- A byte of generator 1: its class by the remainder of `b`. -/
def generator1Byte (i : Nat) (b : UInt8) : UInt8 :=
  let r := b.toNat % (p.g1 + p.g2 + p.g3)
  if r < p.g1 then 0x20 + (b + UInt8.ofNat i) % 0x5f
  else if r < p.g1 + p.g2 then 0x80 + (b ^^^ UInt8.ofNat i) % 0x40
  else 0xc0 + (b + UInt8.ofNat i * 7) % 0x40

/-- A byte of generator 2. -/
def generator2Byte (i : Nat) (b : UInt8) : UInt8 :=
  (((b >>> 4) + (UInt8.ofNat i &&& 3) + 3) <<< 4) |||
    (((b &&& 0x0f) + UInt8.ofNat p.g4 + (UInt8.ofNat i &&& 1)) % 10)

/-- A byte of generator 3: of every period `g6 - 3` bytes of pattern, two
decimal digits and one byte kept. -/
def generator3Byte (seq : UInt32) (i : Nat) (b : UInt8) : UInt8 :=
  let motif := p.namespaces.expand Labels.motif seq 32
  if i % p.g6 < p.g6 - 3 then UInt8.ofNat (p.g5 + 3) * UInt8.ofNat i ^^^ motif.getD (i % (4 * p.g5)) 0
  else if i % p.g6 < p.g6 - 1 then 0x30 + b % 10
  else b

/-! ## Generator 0 -/

/-- `target_bits` picks a row of the table. -/
theorem targetBits_mem (seq : UInt32) : 1 ≤ p.targetBits seq ∧ p.targetBits seq ≤ 7 := by
  simp only [targetBits]
  generalize p.pick Labels.bitPercent seq 0 p.bitMin p.bitMax * 8 = scaled
  split
  · omega
  · split <;> omega

theorem generator0Table_targetBits (seq : UInt32) (index : Fin 8) (byte : UInt8) :
    generator0Table (Fin.ofNat 7 (p.targetBits seq - 1)) index byte =
      generator0Transform byte index (p.targetBits seq) := by
  have := p.targetBits_mem seq
  have hrow : (Fin.ofNat 7 (p.targetBits seq - 1)).val + 1 = p.targetBits seq := by
    rw [Fin.val_ofNat, Nat.mod_eq_of_lt (by omega)]; omega
  rw [generator0Table, hrow]

theorem lookUpRows_eq (rows : Fin 8 → UInt8 → UInt8) {bytes : Bytes} (h : bytes.length ≤ 8) :
    lookUpRows rows bytes = bytes.mapIdx fun i b => rows (Fin.ofNat 8 i) b := by
  have hnil : bytes.drop 8 = [] := List.drop_eq_nil_of_le h
  rw [lookUpRows, hnil, List.append_nil]
  refine List.ext_getElem? fun i => ?_
  rw [List.getElem?_mapIdx, List.getElem?_zipWith]
  rcases Nat.lt_or_ge i bytes.length with hi | hi
  · have hfin : Fin.ofNat 8 i = ⟨i, by omega⟩ := Fin.ext (Nat.mod_eq_of_lt (by omega))
    rw [List.getElem?_eq_getElem hi, List.getElem?_ofFn, dif_pos (by omega), hfin]
    rfl
  · rw [List.getElem?_eq_none hi]
    rfl

theorem applyGenerator0_eq (seq : UInt32) (out : Bytes) :
    p.applyGenerator0 seq out = out.mapIdx fun i b => generator0Transform b (i % 8) (p.targetBits seq) := by
  have hblock : ∀ bytes : Bytes, bytes.length ≤ 8 →
      lookUpRows (generator0Table (Fin.ofNat 7 (p.targetBits seq - 1))) bytes =
        bytes.mapIdx fun i b => generator0Transform b (i % 8) (p.targetBits seq) := by
    intro bytes h
    simp only [lookUpRows_eq _ h, generator0Table_targetBits, Fin.val_ofNat]
  have hblocks : ∀ block ∈ (Chunks.asChunks 8 out).1, block.length ≤ 8 := by
    intro block hb
    obtain ⟨k, hk, rfl⟩ := List.getElem_of_mem hb
    have hk' := Chunks.getElem?_asChunks (l := out) (by rwa [Chunks.length_asChunks] at hk)
    rw [List.getElem?_eq_getElem hk, Option.some.injEq] at hk'
    rw [hk', List.length_take]
    omega
  have htail : (Chunks.asChunks 8 out).2.length ≤ 8 := by
    rw [Chunks.asChunks_tail, List.length_drop]; omega
  have hall := Chunks.asChunks_mapIdx (by decide : 0 < 8)
    (fun i b => generator0Transform b (i % 8) (p.targetBits seq)) out
  simp only [Nat.mod_mod] at hall
  rw [← hall]
  simp only [applyGenerator0]
  rw [hblock _ htail, List.map_congr_left fun block hb => hblock block (hblocks block hb)]

/-! ## Generators 1 and 2 -/

theorem applyGenerator1_eq (out : Bytes) : p.applyGenerator1 out = out.mapIdx p.generator1Byte := by
  obtain ⟨h₁, h₁'⟩ := p.g1_mem
  obtain ⟨-, h₂'⟩ := p.g2_mem
  obtain ⟨-, h₃'⟩ := p.g3_mem
  have hbyte : ∀ b : UInt8, ∀ g, g ≤ 0x200 →
      ((ByteRemainder.new (p.g1 + p.g2 + p.g3)).of b < UInt32.ofNat g ↔ b.toNat % (p.g1 + p.g2 + p.g3) < g) := by
    intro b g hg
    have hg' : (UInt32.ofNat g).toNat = g := by
      rw [UInt32.toNat_ofNat']; exact Nat.mod_eq_of_lt (by omega)
    rw [UInt32.lt_iff_toNat_lt, ByteRemainder.of_new (by omega) (by omega), hg']
  simp only [applyGenerator1]
  congr 1
  funext i b
  simp only [generator1Byte, hbyte b p.g1 (by omega), hbyte b (p.g1 + p.g2) (by omega)]

theorem applyGenerator2_eq (out : Bytes) : p.applyGenerator2 out = out.mapIdx p.generator2Byte := rfl

/-! ## Generator 3 -/

/-- The 64 bytes of motif that the periods read. -/
theorem getElem?_repeated {motif : Bytes} {motifLen : Nat} (hm : 0 < motifLen) (hl : motifLen ≤ motif.length) {i : Nat}
    (hi : i < 64) :
    ((Chunks.chunks motifLen (List.replicate 64 (0 : UInt8))).map fun chunk =>
      motif.take chunk.length).flatten[i]? = motif[i % motifLen]? :=
  Chunks.getElem?_chunks_overwrite hm hl _ (by rwa [List.length_replicate])

/-- One chunk of the loop: a period, or what is left of one. -/
theorem generator3_chunk {motif repeated : Bytes} {motifLen : Nat} (stride : UInt8) {period start : Nat} {chunk : Bytes}
    (hp : 3 ≤ period) (hc : chunk.length ≤ period) (hstart : start % period = 0)
    (hrep : ∀ i < period - 3, repeated[start % motifLen + i]? = some (motif.getD ((start + i) % motifLen) 0)) :
    List.zipWith (fun i m => stride * UInt8.ofNat i ^^^ m) (List.range' start (chunk.take (period - 3)).length)
          (repeated.drop (start % motifLen)) ++
        (chunk.take (period - 3)).drop (repeated.drop (start % motifLen)).length ++
        (((chunk.drop (period - 3)).take 2).map (fun b => 0x30 + b % 10) ++ (chunk.drop (period - 3)).drop 2) =
      chunk.mapIdx fun j b =>
        if (start + j) % period < period - 3 then
          stride * UInt8.ofNat (start + j) ^^^ motif.getD ((start + j) % motifLen) 0
        else if (start + j) % period < period - 1 then 0x30 + b % 10
        else b := by
  have hmod : ∀ j < period, (start + j) % period = j := by
    intro j hj
    rw [Nat.add_mod, hstart, Nat.zero_add, Nat.mod_mod, Nat.mod_eq_of_lt hj]
  -- the pattern reads the repeated motif at `start % motifLen + j`
  have hpat : List.zipWith (fun i m => stride * UInt8.ofNat i ^^^ m)
        (List.range' start (chunk.take (period - 3)).length) (repeated.drop (start % motifLen)) ++
        (chunk.take (period - 3)).drop (repeated.drop (start % motifLen)).length =
      (chunk.take (period - 3)).mapIdx fun j _ =>
        stride * UInt8.ofNat (start + j) ^^^ motif.getD ((start + j) % motifLen) 0 := by
    have hlong : ∀ j < (chunk.take (period - 3)).length, j < (repeated.drop (start % motifLen)).length := by
      intro j hj
      have hr := hrep j (by rw [List.length_take] at hj; omega)
      rw [List.length_drop]
      obtain ⟨hlt, -⟩ := List.getElem?_eq_some_iff.mp hr
      omega
    have hdrop : (chunk.take (period - 3)).drop (repeated.drop (start % motifLen)).length = [] := by
      refine List.drop_eq_nil_of_le ?_
      by_contra hlt
      exact Nat.lt_irrefl _ (hlong _ (Nat.lt_of_not_le hlt))
    rw [hdrop, List.append_nil]
    refine List.ext_getElem? fun j => ?_
    rw [List.getElem?_zipWith, List.getElem?_mapIdx]
    rcases Nat.lt_or_ge j (chunk.take (period - 3)).length with hj | hj
    · have hr := hrep j (by rw [List.length_take] at hj; omega)
      rw [List.getElem?_range' hj, List.getElem?_drop, hr, List.getElem?_eq_getElem hj, Nat.one_mul]
      rfl
    · rw [List.getElem?_eq_none (l := List.range' _ _) (by rwa [List.length_range']), List.getElem?_eq_none hj]
      rfl
  rw [hpat]
  conv_rhs => rw [← List.take_append_drop (period - 3) chunk, List.mapIdx_append]
  congr 1
  · refine List.ext_getElem? fun j => ?_
    rw [List.getElem?_mapIdx, List.getElem?_mapIdx]
    rcases Nat.lt_or_ge j (period - 3) with hj | hj
    · simp only [hmod j (by omega), if_pos hj]
    · rw [List.getElem?_eq_none (by rw [List.length_take]; omega)]
      rfl
  · refine List.ext_getElem? fun j => ?_
    rw [List.getElem?_mapIdx, List.getElem?_append]
    rcases Nat.lt_or_ge j (chunk.drop (period - 3)).length with hj | hj
    · rw [List.length_drop] at hj
      have htake : (chunk.take (period - 3)).length = period - 3 := by rw [List.length_take]; omega
      have hidx : (start + (j + (chunk.take (period - 3)).length)) % period = j + (period - 3) := by
        rw [htake]; exact hmod _ (by omega)
      have hnot : ¬ j + (period - 3) < period - 3 := by omega
      simp only [hidx, if_neg hnot]
      rw [List.length_map, List.length_take, List.length_drop]
      split
      · next h2 =>
        have hdigit : j + (period - 3) < period - 1 := by omega
        simp only [if_pos hdigit]
        rw [List.getElem?_map, List.getElem?_take_of_lt (by omega)]
      · next h2 =>
        have hkept : ¬ j + (period - 3) < period - 1 := by omega
        simp only [if_neg hkept]
        rw [List.getElem?_drop, Nat.min_eq_left (by omega), Nat.add_sub_cancel' (by omega)]
        exact Option.map_id'.symm
    · rw [List.getElem?_eq_none hj, if_neg (by rw [List.length_map, List.length_take]; omega),
        List.getElem?_eq_none (by rw [List.length_drop, List.length_map, List.length_take]; omega)]
      rfl

theorem generator3Chunks_eq (motif repeated : Bytes) (motifLen : Nat) (stride : UInt8) {period : Nat} (hp : 3 ≤ period)
    (hrep : ∀ start i, i < period - 3 →
      repeated[start % motifLen + i]? = some (motif.getD ((start + i) % motifLen) 0))
    (n start : Nat) (out : Bytes) (hn : out.length ≤ n) (hstart : start % period = 0) :
    generator3Chunks repeated stride period motifLen n start (start % motifLen) out =
      out.mapIdx fun j b =>
        if (start + j) % period < period - 3 then
          stride * UInt8.ofNat (start + j) ^^^ motif.getD ((start + j) % motifLen) 0
        else if (start + j) % period < period - 1 then 0x30 + b % 10
        else b := by
  induction n generalizing start out with
  | zero =>
    obtain rfl := List.eq_nil_of_length_eq_zero (Nat.le_zero.mp hn)
    rfl
  | succ n ih =>
    -- the phase of the motif at the next period
    have hphase : (if motifLen ≤ start % motifLen + period % motifLen then
          start % motifLen + period % motifLen - motifLen else start % motifLen + period % motifLen) =
        (start + period) % motifLen := (Nat.add_mod_eq_ite ..).symm
    have hrest := ih (start + period) (out.drop period) (by rw [List.length_drop]; omega)
      (by rw [Nat.add_mod_right]; exact hstart)
    simp only [generator3Chunks, hphase, hrest]
    rw [generator3_chunk stride hp (by rw [List.length_take]; omega) hstart (hrep start)]
    conv_rhs => rw [← List.take_append_drop period out, List.mapIdx_append]
    congr 1
    rcases Nat.lt_or_ge out.length period with hshort | hlong
    · rw [List.drop_eq_nil_of_le (by omega)]; rfl
    · have htake : (out.take period).length = period := by rw [List.length_take]; omega
      rw [htake]
      simp only [Nat.add_assoc, Nat.add_comm period]

theorem applyGenerator3_eq (seq : UInt32) (out : Bytes) :
    p.applyGenerator3 seq out = out.mapIdx (p.generator3Byte seq) := by
  obtain ⟨h₅, h₅'⟩ := p.g5_mem
  obtain ⟨h₆, h₆'⟩ := p.g6_mem
  have hlen : (p.namespaces.expand Labels.motif seq 32).length = 32 := length_expandStream _ _ _ _
  have hm : 0 < p.g5 * 4 := by omega
  have hall := generator3Chunks_eq (p.namespaces.expand Labels.motif seq 32)
    ((Chunks.chunks (p.g5 * 4) (List.replicate 64 (0 : UInt8))).map fun chunk =>
      (p.namespaces.expand Labels.motif seq 32).take chunk.length).flatten
    (p.g5 * 4) (UInt8.ofNat (p.g5 + 3)) (by omega : 3 ≤ p.g6) ?_ out.length 0 out (Nat.le_refl _) (Nat.zero_mod _)
  · simp only [Nat.zero_mod, Nat.zero_add] at hall
    simp only [applyGenerator3, hall]
    congr 1
    funext i b
    simp only [generator3Byte, Nat.mul_comm 4]
  · intro start i hi
    have hs : start % (p.g5 * 4) < p.g5 * 4 := Nat.mod_lt _ hm
    have hin : (start % (p.g5 * 4) + i) % (p.g5 * 4) = (start + i) % (p.g5 * 4) := by
      rw [Nat.add_mod, Nat.mod_mod, ← Nat.add_mod]
    have hlt : (start + i) % (p.g5 * 4) < p.g5 * 4 := Nat.mod_lt _ hm
    rw [getElem?_repeated hm (by omega) (by omega), hin, List.getD_eq_getElem?_getD,
      List.getElem?_eq_getElem (by omega)]
    rfl

/-! ## All of them -/

@[simp] theorem length_fillOfficial (seq : UInt32) (len : Nat) : (p.fillOfficial seq len).length = len := by
  have hlen : (p.namespaces.expand Labels.padding seq len).length = len := length_expandStream _ _ _ _
  unfold fillOfficial
  simp only [applyGenerator0_eq, applyGenerator1_eq, applyGenerator2_eq, applyGenerator3_eq]
  split
  · rw [List.length_mapIdx, hlen]
  split
  · rw [List.length_mapIdx, hlen]
  split
  · rw [List.length_mapIdx, hlen]
  · rw [List.length_mapIdx, hlen]

/-- **The optimised generators are their per-byte definitions**, for every
length: with `b` the key stream, every byte of the output is a function of
its index and of the byte of `b` there. -/
theorem generators_per_byte (seq : UInt32) (len : Nat) :
    let b := expandStream (p.namespaces.forLabel Labels.padding) Labels.padding seq.toUInt64 len
    p.applyGenerator0 seq b = b.mapIdx (fun i x => generator0Transform x (i % 8) (p.targetBits seq)) ∧
    p.applyGenerator1 b = b.mapIdx (fun i x =>
      if x.toNat % (p.g1 + p.g2 + p.g3) < p.g1 then 0x20 + (x + UInt8.ofNat i) % 0x5f
      else if x.toNat % (p.g1 + p.g2 + p.g3) < p.g1 + p.g2 then 0x80 + (x ^^^ UInt8.ofNat i) % 0x40
      else 0xc0 + (x + UInt8.ofNat i * 7) % 0x40) ∧
    p.applyGenerator3 seq b = b.mapIdx (fun i x =>
      if i % p.g6 < p.g6 - 3 then
        UInt8.ofNat (p.g5 + 3) * UInt8.ofNat i ^^^
          (expandStream (p.namespaces.forLabel Labels.motif) Labels.motif seq.toUInt64 32).getD (i % (4 * p.g5)) 0
      else if i % p.g6 < p.g6 - 1 then 0x30 + x % 10
      else x) ∧
    p.fillOfficial seq len =
      if p.generator = 1 then p.applyGenerator1 b
      else if p.generator = 2 then b.mapIdx p.generator2Byte
      else if p.generator = 3 then p.applyGenerator3 seq b
      else p.applyGenerator0 seq b := by
  intro b
  exact ⟨p.applyGenerator0_eq seq b, p.applyGenerator1_eq b, p.applyGenerator3_eq seq b, rfl⟩

end Profile

end Snell
