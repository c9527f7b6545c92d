/-
`snell-protocol/src/crypto`: the nonce counter, AES-128-GCM as `ring` offers
it, key derivation, entropy and the pre-shared key.

The cryptography itself (`ring`, `argon2`, `blake2`) is a parameter of the
model, `Crypto`: functions with the shapes those libraries document. What a
result assumes about them beyond their shape is a hypothesis of that result.
-/
import Snell.Base
import Snell.LittleEndian

namespace Snell

open LittleEndian

/-! ## Nonce -/

abbrev Nonce := ByteArr nonceLen

namespace Nonce

def new : Nonce := ⟨List.replicate nonceLen 0, by simp⟩

def increment (n : Nonce) : Nonce := ⟨leIncrement n.1, by simp [n.2]⟩

/-- The nonce after `k` increments of a new one. -/
def nth (k : Nat) : Nonce := ⟨leBytes nonceLen k, by simp⟩

theorem nth_zero : nth 0 = new := by decide

theorem nth_increment (k : Nat) : (nth k).increment = nth (k + 1) :=
  Subtype.ext (leIncrement_leBytes nonceLen k)

theorem nth_inj {i j : Nat} (hi : i < 2 ^ 96) (hj : j < 2 ^ 96) (h : nth i = nth j) : i = j :=
  leBytes_inj (n := nonceLen) hi hj (congrArg Subtype.val h)

/-- Consecutive nonces differ, wrapping or not. -/
theorem nth_ne_add {k d : Nat} (hd : 0 < d) (hd' : d < 2 ^ 96) : nth (k + d) ≠ nth k := by
  intro h
  have := congrArg leNat (congrArg Subtype.val h)
  simp only [nth, leNat_leBytes, nonceLen] at this
  have hpow : (256 : Nat) ^ 12 = 2 ^ 96 := by norm_num
  omega

end Nonce

/-! ## The cryptographic libraries -/

/-- The primitives. `open` may scramble the bytes it fails on, so it always
returns them. -/
structure Crypto where
  /-- `LessSafeKey` -/
  Key : Type
  /-- `UnboundKey::new(&AES_128_GCM, key)` -/
  newKey : ByteArr aes128KeyLen → Option Key
  /-- `seal_in_place_separate_tag`, when it does not fail -/
  sealInPlace : Key → Nonce → (aad plain : Bytes) → Bytes × ByteArr tagLen
  /-- `open_in_place_separate_tag`: whether the tag matched, and `in_out` after -/
  openInPlace : Key → Nonce → (aad cipher : Bytes) → ByteArr tagLen → Bool × Bytes
  /-- `aead_key`: Argon2id of the pre-shared key and a salt -/
  aeadKey : Bytes → ByteArr saltLen → Option (ByteArr aes128KeyLen)
  /-- `profile_secret`: BLAKE2b-256 of the seed and the pre-shared key -/
  profileSecret : Bytes → ByteArr 32
  sealInPlace_length : ∀ k n aad p, (sealInPlace k n aad p).1.length = p.length
  openInPlace_length : ∀ k n aad c t, (openInPlace k n aad c t).2.length = c.length

/-- Opening what was sealed under the same key, nonce and associated data
gives it back. -/
def Crypto.Inverts (C : Crypto) : Prop :=
  ∀ k n aad p, C.openInPlace k n aad (C.sealInPlace k n aad p).1 (C.sealInPlace k n aad p).2 = (true, p)

/-- The last `TAG_LEN` bytes (`split_last_chunk`), when there are so many. -/
def splitTag (l : Bytes) : Option (Bytes × ByteArr tagLen) :=
  if h : tagLen ≤ l.length then
    some (l.take (l.length - tagLen), ⟨l.drop (l.length - tagLen), by simp; omega⟩)
  else none

theorem splitTag_append (l : Bytes) (t : ByteArr tagLen) : splitTag (l ++ t.1) = some (l, t) := by
  have ht := t.2
  unfold splitTag
  rw [dif_pos (by simp [ht])]
  congr 2
  · simp [ht]
  · exact Subtype.ext (by simp [ht])

namespace Crypto

variable (C : Crypto)

/-- `Aes128Gcm::seal`; `refused` says that `ring` fails this call. -/
def aesSeal (refused : Bool) (key : C.Key) (nonce : Nonce) (aad inOut : Bytes) : Res Bytes × Nonce :=
  match splitTag inOut with
  | none => (.error (.err .truncated), nonce)
  | some (plain, _) =>
    if refused then (.error (.err .aead), nonce)
    else
      let out := C.sealInPlace key nonce aad plain
      (.ok (out.1 ++ out.2.1), nonce.increment)

/-- `Aes128Gcm::open`: the outcome, `in_out` after, and the nonce after. -/
def aesOpen (key : C.Key) (nonce : Nonce) (aad inOut : Bytes) : Res Unit × Bytes × Nonce :=
  match splitTag inOut with
  | none => (.error (.err .truncated), inOut, nonce)
  | some (cipher, tag) =>
    match C.openInPlace key nonce aad cipher tag with
    | (true, out) => (.ok (), out ++ tag.1, nonce.increment)
    | (false, out) => (.error (.err .aead), out ++ tag.1, nonce)

/-- Ciphertext followed by its tag. -/
def sealed (key : C.Key) (nonce : Nonce) (aad plain : Bytes) : Bytes :=
  (C.sealInPlace key nonce aad plain).1 ++ (C.sealInPlace key nonce aad plain).2.1

/-- `Aes128Gcm::new` -/
def aesNew (key : ByteArr aes128KeyLen) : Res C.Key :=
  match C.newKey key with
  | some k => .ok k
  | none => .error (.err .aead)

/-- `aead_key`, failing with `Error::Kdf`. -/
def aeadKeyRes (psk : Bytes) (salt : ByteArr saltLen) : Res (ByteArr aes128KeyLen) :=
  match C.aeadKey psk salt with
  | some k => .ok k
  | none => .error (.err .kdf)

/-- `Aes128Gcm::derive` -/
def derive (psk : Bytes) (salt : ByteArr saltLen) : Res C.Key := do
  let key ← C.aeadKeyRes psk salt
  C.aesNew key

@[simp] theorem length_sealed (key : C.Key) (nonce : Nonce) (aad plain : Bytes) :
    (C.sealed key nonce aad plain).length = plain.length + tagLen := by
  simp [sealed, C.sealInPlace_length, (C.sealInPlace key nonce aad plain).2.2]

/-- Sealing in place: the tag's slot may hold anything beforehand. -/
theorem aesSeal_append (key : C.Key) (nonce : Nonce) (aad plain slot : Bytes) (h : slot.length = tagLen) :
    C.aesSeal false key nonce aad (plain ++ slot) = (.ok (C.sealed key nonce aad plain), nonce.increment) := by
  rw [aesSeal, splitTag_append plain ⟨slot, h⟩]; rfl

theorem aesSeal_refused (key : C.Key) (nonce : Nonce) (aad plain slot : Bytes) (h : slot.length = tagLen) :
    C.aesSeal true key nonce aad (plain ++ slot) = (.error (.err .aead), nonce) := by
  rw [aesSeal, splitTag_append plain ⟨slot, h⟩]; rfl

/-- A seal fails and moves nothing, or succeeds and moves the nonce. -/
theorem aesSeal_cases (refused : Bool) (key : C.Key) (nonce : Nonce) (aad inOut : Bytes) :
    (∃ f, C.aesSeal refused key nonce aad inOut = (.error f, nonce)) ∨
      ∃ out, C.aesSeal refused key nonce aad inOut = (.ok out, nonce.increment) := by
  unfold aesSeal
  split
  · exact .inl ⟨_, rfl⟩
  · split
    · exact .inl ⟨_, rfl⟩
    · exact .inr ⟨_, rfl⟩

theorem aesOpen_sealed {C : Crypto} (h : C.Inverts) (key : C.Key) (nonce : Nonce) (aad plain : Bytes) :
    C.aesOpen key nonce aad (C.sealed key nonce aad plain) =
      (.ok (), plain ++ (C.sealInPlace key nonce aad plain).2.1, nonce.increment) := by
  rw [aesOpen, sealed, splitTag_append]
  simp only [h key nonce aad plain]

theorem aesOpen_length (key : C.Key) (nonce : Nonce) (aad l : Bytes) :
    (C.aesOpen key nonce aad l).2.1.length = l.length := by
  unfold aesOpen splitTag
  split
  · rfl
  · next cipher tag hs =>
    split at hs
    · next hl =>
      cases hs
      split <;> next heq =>
        have := C.openInPlace_length key nonce aad (l.take (l.length - tagLen))
          ⟨l.drop (l.length - tagLen), by simp; omega⟩
        rw [heq] at this
        simp at this
        simp [this]
    · cases hs

end Crypto

/-! ## Code that seals -/

/-- One AEAD seal that succeeded. -/
structure AeadSeal where
  nonce : Nonce
  aad : Bytes
  output : Bytes
  deriving DecidableEq

/-- Code that calls `Aes128Gcm::seal`, cut at its calls: what it returns, or
the arguments of its next call and how it goes on from the answer. -/
inductive Sealing (C : Crypto) (α : Type) where
  | done (x : α)
  | call (refused : Bool) (key : C.Key) (nonce : Nonce) (aad inOut : Bytes) (k : Res Bytes × Nonce → Sealing C α)

namespace Sealing

variable {C : Crypto} {α : Type}

def run : Sealing C α → α
  | .done x => x
  | .call refused key nonce aad inOut k => (k (C.aesSeal refused key nonce aad inOut)).run

/-- The seals that succeed, in order. -/
def log : Sealing C α → List AeadSeal
  | .done _ => []
  | .call refused key nonce aad inOut k =>
    let rest := (k (C.aesSeal refused key nonce aad inOut)).log
    match (C.aesSeal refused key nonce aad inOut).1 with
    | .error _ => rest
    | .ok output => ⟨nonce, aad, output⟩ :: rest

variable {key : C.Key} {nonce : Nonce} {aad plain slot : Bytes} {k : Res Bytes × Nonce → Sealing C α}

@[simp] theorem run_done (x : α) : (done x : Sealing C α).run = x := rfl

@[simp] theorem log_done (x : α) : (done x : Sealing C α).log = [] := rfl

theorem run_sealed (h : slot.length = tagLen) :
    (call false key nonce aad (plain ++ slot) k).run = (k (.ok (C.sealed key nonce aad plain), nonce.increment)).run := by
  rw [run, C.aesSeal_append key nonce aad plain slot h]

theorem log_sealed (h : slot.length = tagLen) :
    (call false key nonce aad (plain ++ slot) k).log = ⟨nonce, aad, C.sealed key nonce aad plain⟩ ::
      (k (.ok (C.sealed key nonce aad plain), nonce.increment)).log := by
  simp only [log, C.aesSeal_append key nonce aad plain slot h]

theorem run_refused (h : slot.length = tagLen) :
    (call true key nonce aad (plain ++ slot) k).run = (k (.error (.err .aead), nonce)).run := by
  rw [run, C.aesSeal_refused key nonce aad plain slot h]

theorem log_refused (h : slot.length = tagLen) :
    (call true key nonce aad (plain ++ slot) k).log = (k (.error (.err .aead), nonce)).log := by
  simp only [log, C.aesSeal_refused key nonce aad plain slot h]

end Sealing

/-- Libraries that hide nothing, on which the model can be run. -/
def Crypto.transparent : Crypto where
  Key := Unit
  newKey _ := some ()
  sealInPlace _ _ _ plain := (plain, ⟨List.replicate tagLen 0, by simp⟩)
  openInPlace _ _ _ cipher _ := (true, cipher)
  aeadKey _ salt := some salt
  profileSecret _ := ⟨List.replicate 32 0, by simp⟩
  sealInPlace_length _ _ _ _ := rfl
  openInPlace_length _ _ _ _ _ := rfl

theorem Crypto.transparent_inverts : Crypto.transparent.Inverts := fun _ _ _ _ => rfl

/-! ## Entropy -/

/-- `Entropy`: fill a buffer of `n` bytes, or fail. -/
class Entropy (ε : Type) where
  fill : ε → (n : Nat) → Except Error (ByteArr n) × ε

/-- `RepeatEntropy` -/
structure RepeatEntropy where
  byte : UInt8

instance : Entropy RepeatEntropy where
  fill e n := (.ok ⟨List.replicate n e.byte, by simp⟩, e)

/-! ## Pre-shared key -/

/-- `Psk`, without the profile that only the shaped codec reads (`ProfiledPsk`). -/
structure Psk where
  bytes : Bytes
  length : pskMinLen ≤ bytes.length ∧ bytes.length ≤ pskMaxLen

def Psk.new (bytes : Bytes) : Res Psk :=
  if h : pskMinLen ≤ bytes.length ∧ bytes.length ≤ pskMaxLen then .ok ⟨bytes, h⟩
  else .error (.err (.invalidPskLen bytes.length))

end Snell
