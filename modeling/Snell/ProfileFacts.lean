/-
What the codec relies on in a profile: every length it draws is in range, and
the salt survives its block.
-/
import Snell.Generators
import Snell.Mixing

namespace Snell

namespace Profile

variable (p : Profile)

/-! ## Lengths -/

theorem recordPrefixLen_le (seq : UInt32) : p.recordPrefixLen seq ≤ v6MaxPrefixLen :=
  Nat.le_trans (pickUsize_le _ p.prefix_le.1) p.prefix_le.2

theorem maxPaddingLen_le : p.maxPaddingLen ≤ v6MaxPaddingReserve := by
  have := p.padMax_le
  unfold maxPaddingLen v6MaxPaddingReserve maxExtraTargetPadding at *
  omega

theorem basePad_le (seq : UInt32) (payloadLen : Nat) : p.basePad seq payloadLen ≤ p.padMax := by
  unfold basePad
  split
  · exact pickUsize_le _ p.padMin_le
  · exact Nat.zero_le _

/-- The padding fits what `reserve` keeps for it. -/
theorem finalPaddingLen_le (seq : UInt32) (prefixLen payloadLen : Nat) (firstFrame : Bool) :
    p.finalPaddingLen seq prefixLen payloadLen firstFrame ≤ p.maxPaddingLen := by
  have := p.basePad_le seq payloadLen
  simp only [finalPaddingLen, maxPaddingLen]
  generalize prefixLen + headerCipherLen + p.basePad seq payloadLen + _ + _ = currentLen
  split <;> omega

/-- The loop of `write_target_len` is over when it returns. -/
theorem raiseTarget_done (seq : UInt32) (currentLen : Nat) (hc : currentLen ≤ 65535) (n target : Nat)
    (h : currentLen ≤ n + target) : currentLen ≤ p.raiseTarget seq currentLen n target := by
  induction n generalizing target with
  | zero => simpa [raiseTarget] using h
  | succ n ih =>
    have hpos := p.padMax_pos
    simp only [raiseTarget]
    split
    · assumption
    · split
      · exact ih _ (by omega)
      · split
        · omega
        · exact ih _ (by omega)

theorem chunkLimit_le (seq : UInt32) (cur : Nat) : p.chunkLimit seq cur ≤ p.chunkMax := by
  have := p.chunkMax_ge
  simp only [chunkLimit]; omega

/-! ## The salt block -/

theorem saltBlockLen_le_max : p.saltBlockLen ≤ maxSaltBlockLen :=
  Nat.le_trans p.saltBlockLen_le (by decide)

/-- The block of a salt gives the salt back. -/
theorem writeSaltBlock_ok (salt : Salt) :
    ∃ block, p.writeSaltBlock salt p.saltBlockLen = .ok block ∧ block.length = p.saltBlockLen ∧
      p.extractSalt block = .ok salt := by
  have hlen := p.length_fillOfficial 0xffffffff p.saltBlockLen
  obtain ⟨block, hw, hl, he⟩ := SaltHide.extract_write p.namespaces.salt p.mixStrideHandshake p.mixRoundsHandshake
    (p.fillOfficial 0xffffffff p.saltBlockLen) salt (by rw [hlen]; exact p.saltBlockLen_ge)
    (by rw [hlen]; exact p.saltBlockLen_le_max)
  exact ⟨block, hw, hl.trans hlen, he⟩

theorem extractSalt_ok {block : Bytes} (h : block.length = p.saltBlockLen) : ∃ salt, p.extractSalt block = .ok salt :=
  SaltHide.extract_ok _ _ _ (by rw [h]; exact p.saltBlockLen_ge) (by rw [h]; exact p.saltBlockLen_le_max)

/-- **Salt hiding is invertible and local**: the shuffle permutes the block's
positions, so the salt's sixteen are in the block and differ; writing there
changes nothing else, and extracting gives the salt back. In particular the
salt block of every pre-shared key's profile does. -/
theorem salt_hiding_invertible :
    (∀ (nsSalt : UInt64) (mixStride rounds : UInt8) (block : Bytes) (salt : Salt),
      16 ≤ block.length → block.length ≤ 256 →
      ((SaltHide.shufflePerm nsSalt rounds block.length).toList.map UInt8.toNat).Perm (List.range block.length) ∧
      ∃ ps, SaltHide.saltPositions nsSalt rounds block.length = .ok ps ∧
        ps.length = 16 ∧ ps.Nodup ∧ (∀ i ∈ ps, i < block.length) ∧
        ∃ block', SaltHide.write nsSalt mixStride rounds block salt = .ok block' ∧
          block'.length = block.length ∧ (∀ i ∉ ps, block'[i]? = block[i]?) ∧
          SaltHide.extract nsSalt mixStride rounds block' = .ok salt) ∧
    ∀ (C : Crypto) (psk : ProfiledPsk C) (salt : Salt),
      ∃ block, psk.profile.writeSaltBlock salt psk.profile.saltBlockLen = .ok block ∧
        block.length = psk.profile.saltBlockLen ∧ psk.profile.extractSalt block = .ok salt := by
  refine ⟨?_, fun C psk salt => psk.profile.writeSaltBlock_ok salt⟩
  intro nsSalt mixStride rounds block salt hl hu
  obtain ⟨ps, hps, hlen, hnodup, hlt⟩ := SaltHide.saltPositions_ok nsSalt rounds hl hu
  exact ⟨SaltHide.shufflePerm_range nsSalt rounds hu, ps, hps, hlen, hnodup, hlt,
    SaltHide.extract_write_at nsSalt mixStride rounds block salt hl hu hps⟩

/-- A block of every length the theorem allows, the shortest and the longest. -/
theorem salt_hiding_invertible_ends :
    ∃ short long, SaltHide.write 7 3 2 (List.replicate 16 0) ⟨List.replicate 16 0xff, rfl⟩ = .ok short ∧
      SaltHide.extract 7 3 2 short = .ok ⟨List.replicate 16 0xff, rfl⟩ ∧
      SaltHide.write 7 3 2 (List.replicate 256 0) ⟨List.replicate 16 0xff, rfl⟩ = .ok long ∧
      SaltHide.extract 7 3 2 long = .ok ⟨List.replicate 16 0xff, rfl⟩ := by
  obtain ⟨-, _, -, -, -, -, short, hw₁, -, -, he₁⟩ := salt_hiding_invertible.1 7 3 2 (List.replicate 16 0)
    ⟨List.replicate 16 0xff, rfl⟩ (by rw [List.length_replicate]) (by rw [List.length_replicate]; decide)
  obtain ⟨-, _, -, -, -, -, long, hw₂, -, -, he₂⟩ := salt_hiding_invertible.1 7 3 2 (List.replicate 256 0)
    ⟨List.replicate 16 0xff, rfl⟩ (by rw [List.length_replicate]; decide) (by rw [List.length_replicate])
  exact ⟨short, long, hw₁, he₁, hw₂, he₂⟩

end Profile

end Snell
