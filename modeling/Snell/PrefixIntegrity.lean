/-
What an attacker on the wire can do to a receiver.

AES-GCM is taken as ideal (`Crypto.IdealFor`). Whatever bytes arrive, a
receiver that opened the sender's first seals opens the next one or fails:
its nonce counts the sender's seals, and what each seal says fixes the record
it belongs to (`Awaits`). So up to its first error it hands out the records
the sender sealed, in order.
-/
import Snell.SealedCodecs
import Snell.SessionReading

namespace Snell

open RecordEncoder RecordDecoder

/-! ## Ideal AES-GCM -/

/-- Under the key of the sender's salt only the sender's seals open, under
that of any other salt nothing does, and what opens gives back what was
sealed. -/
structure Crypto.IdealFor (C : Crypto) (psk : Bytes) (salt : Salt) (log : List AeadSeal) : Prop where
  opens : ∀ {key}, C.derive psk salt = .ok key → ∀ n aad cipher tag,
    (C.openInPlace key n aad cipher tag).1 = true → ⟨n, aad, cipher ++ tag.1⟩ ∈ log
  others : ∀ {salt' key}, salt' ≠ salt → C.derive psk salt' = .ok key → ∀ n aad cipher tag,
    (C.openInPlace key n aad cipher tag).1 = false
  inverts : ∀ key n aad plain,
    (C.openInPlace key n aad (C.sealInPlace key n aad plain).1 (C.sealInPlace key n aad plain).2).1 = true →
      (C.openInPlace key n aad (C.sealInPlace key n aad plain).1 (C.sealInPlace key n aad plain).2).2 = plain

theorem splitTag_some {l cipher : Bytes} {tag : ByteArr tagLen} (h : splitTag l = some (cipher, tag)) :
    l = cipher ++ tag.1 := by
  unfold splitTag at h
  split at h
  · cases h; exact (List.take_append_drop _ _).symm
  · cases h

namespace Crypto.IdealFor

variable {C : Crypto} {psk : Bytes} {salt salt' : Salt} {key : C.Key} {log : List AeadSeal} {nonce nonce' : Nonce}
  {aad l out : Bytes}

/-- An open that succeeds, under a key of this pre-shared key, is of a seal of
the sender's, under the sender's key. -/
theorem aesOpen (h : C.IdealFor psk salt log) (hkey : C.derive psk salt' = .ok key)
    (ho : C.aesOpen key nonce aad l = (.ok (), out, nonce')) :
    C.derive psk salt = .ok key ∧ ⟨nonce, aad, l⟩ ∈ log ∧ nonce' = nonce.increment ∧
      ∀ plain, l = C.sealed key nonce aad plain → ∃ tag, tag.length = tagLen ∧ out = plain ++ tag := by
  unfold Crypto.aesOpen at ho
  split at ho
  · cases ho
  next cipher tag hsplit =>
  obtain rfl := splitTag_some hsplit
  split at ho
  · next plain hopen =>
    cases ho
    have hsalt : salt' = salt := by
      by_contra hne
      have := h.others hne hkey nonce aad cipher tag
      rw [hopen] at this
      cases this
    subst hsalt
    refine ⟨hkey, h.opens hkey _ _ _ _ (by rw [hopen]), rfl, fun plain' hsealed => ⟨tag.1, tag.2, ?_⟩⟩
    rw [Crypto.sealed] at hsealed
    obtain ⟨rfl, htag⟩ := List.append_inj' hsealed (by rw [tag.2, (C.sealInPlace key nonce aad plain').2.2])
    obtain rfl := Subtype.ext htag
    have := h.inverts key nonce aad plain' (by rw [hopen])
    rw [hopen] at this
    rw [show plain = plain' from this]
  · cases ho

end Crypto.IdealFor

/-! ## The sender's seals, seen by the receiver -/

section Receiver

variable {C : Crypto} {psk : Bytes} {salt salt' : Salt} {key key' : C.Key} {all : List AeadSeal}
  {Head : Nat → SealedRecord → Prop} {Whole : (i k : Nat) → SealedRecord → Option Bytes → Prop} {i k : Nat}
  {rs : List (SealedRecord × Option Bytes)} {r : SealedRecord} {nonce' : Nonce} {aad l out : Bytes}

theorem Sent.consecutive {log : List AeadSeal} (h : Sent C key Head Whole i k rs log) :
    Consecutive (.nth k) log (.nth (k + log.length)) := by
  induction h with
  | nil => exact .nil
  | torn => exact .cons rfl (by rw [Nonce.nth_increment]; exact .nil)
  | @cons i k r _ rs log _ _ _ ih =>
    rw [List.length_append, r.length_seals, ← Nat.add_assoc]
    refine Consecutive.append ?_ ih
    unfold SealedRecord.seals sealCount
    split
    · exact .cons rfl (by rw [Nonce.nth_increment]; exact .nil)
    · refine .cons rfl (.cons rfl ?_)
      rw [Nonce.nth_increment, Nonce.nth_increment]
      exact .nil

/-- Fewer seals than nonces: a seal is known by its nonce. -/
theorem Consecutive.getElem?_of_mem {log : List AeadSeal} {n : Nonce} (h : Consecutive .new log n)
    (hlen : log.length < 2 ^ 96) {s : AeadSeal} (hs : s ∈ log) {k : Nat} (hk : k ≤ log.length) (hn : s.nonce = .nth k) :
    log[k]? = some s := by
  obtain ⟨j, hj⟩ := List.mem_iff_getElem?.mp hs
  have hlt := (List.getElem?_eq_some_iff.mp hj).1
  rw [← Nonce.nth_zero] at h
  have hnonce := h.getElem? hj
  rw [Nat.zero_add, hn] at hnonce
  rw [Nonce.nth_inj (by omega) (by omega) hnonce]
  exact hj

/-- What is known of a sender: AES-GCM is ideal for its seals, which are fewer
than there are nonces. -/
structure Sender (C : Crypto) (psk : Bytes) (salt : Salt) (key : C.Key) (all : List AeadSeal) : Prop where
  ideal : C.IdealFor psk salt all
  derived : C.derive psk salt = .ok key
  length_lt : all.length < 2 ^ 96
  consecutive : Consecutive .new all (.nth all.length)

/-- From nonce `k` on, the sender's seals are of the records `rs` from record
`i` on. -/
def Awaits (C : Crypto) (key : C.Key) (Head : Nat → SealedRecord → Prop)
    (Whole : (i k : Nat) → SealedRecord → Option Bytes → Prop) (all : List AeadSeal) (i k : Nat)
    (rs : List (SealedRecord × Option Bytes)) : Prop :=
  ∃ before log, all = before ++ log ∧ before.length = k ∧ Sent C key Head Whole i k rs log

/-- The header of `r` was the seal at nonce `k`; its body, if it was sealed, is
the next one. -/
def Begun (C : Crypto) (key : C.Key) (Head : Nat → SealedRecord → Prop)
    (Whole : (i k : Nat) → SealedRecord → Option Bytes → Prop) (all : List AeadSeal) (i k : Nat)
    (rs : List (SealedRecord × Option Bytes)) (r : SealedRecord) : Prop :=
  (∃ wire rs', rs = (r, wire) :: rs' ∧ Whole i k r wire ∧ all[k + 1]? = some (r.body C key (.nth (k + 1))) ∧
      Awaits C key Head Whole all (i + 1) (k + 2) rs') ∨
    all.length = k + 1

theorem Awaits.le (h : Awaits C key Head Whole all i k rs) : k ≤ all.length := by
  obtain ⟨before, log, rfl, rfl, -⟩ := h
  rw [List.length_append]
  omega

/-- The seal at the nonce the receiver is at is the next record's header. -/
theorem Awaits.header (h : Awaits C key Head Whole all i k rs) {s : AeadSeal} (hs : all[k]? = some s) :
    ∃ r, Head i r ∧ s = r.header C key (.nth k) ∧
      (r.payload = [] → ∃ wire rs', rs = (r, wire) :: rs' ∧ Awaits C key Head Whole all (i + 1) (k + 1) rs') ∧
      (r.payload ≠ [] → Begun C key Head Whole all i k rs r) := by
  obtain ⟨before, log, rfl, rfl, hsent⟩ := h
  have hget : ∀ j, (before ++ log)[before.length + j]? = log[j]? := by
    intro j
    rw [List.getElem?_append_right (by omega), Nat.add_sub_cancel_left]
  have h₀ := hget 0
  rw [Nat.add_zero, hs] at h₀
  cases hsent with
  | nil => cases h₀
  | torn hhead hne =>
    refine ⟨_, hhead, Option.some.inj h₀, fun hnil => absurd hnil hne, fun _ => .inr ?_⟩
    rw [List.length_append]
    rfl
  | @cons _ _ r wire rs log hhead hwhole hsent =>
    have hnext : Awaits C key Head Whole (before ++ (r.seals C key (.nth before.length) ++ log)) (i + 1)
        (before.length + sealCount r.payload) rs :=
      ⟨before ++ r.seals C key (.nth before.length), log, (List.append_assoc _ _ _).symm,
        by rw [List.length_append, SealedRecord.length_seals], hsent⟩
    refine ⟨r, hhead, Option.some.inj h₀, fun hnil => ⟨wire, rs, rfl, ?_⟩, fun hne => .inl ⟨wire, rs, rfl, hwhole, ?_, ?_⟩⟩
    · rwa [sealCount, if_pos hnil] at hnext
    · rw [hget, SealedRecord.seals, if_neg hne, ← Nonce.nth_increment]
      rfl
    · rwa [sealCount, if_neg hne] at hnext

namespace Sender

/-- What a receiver opens as a header is the header of the next record. -/
theorem open_header (hS : Sender C psk salt key all) (h : Awaits C key Head Whole all i k rs)
    (hkey : C.derive psk salt' = .ok key') (ho : C.aesOpen key' (.nth k) aad l = (.ok (), out, nonce')) :
    ∃ r, Head i r ∧ aad = r.headerAad ∧
      l = C.sealed key (.nth k) r.headerAad (plainHeader r.padding r.payload.length) ∧
      openedHeader out = plainHeader r.padding r.payload.length ∧ nonce' = .nth (k + 1) ∧
      (r.payload = [] → ∃ wire rs', rs = (r, wire) :: rs' ∧ Awaits C key Head Whole all (i + 1) (k + 1) rs') ∧
      (r.payload ≠ [] → Begun C key Head Whole all i k rs r) := by
  obtain ⟨hk, hmem, hn, hplain⟩ := hS.ideal.aesOpen hkey ho
  obtain rfl : key = key' := Except.ok.inj (hS.derived.symm.trans hk)
  have hat := hS.consecutive.getElem?_of_mem hS.length_lt hmem h.le rfl
  obtain ⟨r, hhead, hseal, hzero, hbody⟩ := h.header hat
  obtain ⟨-, rfl, rfl⟩ := (AeadSeal.mk.injEq ..).mp hseal
  obtain ⟨tag, -, rfl⟩ := hplain _ rfl
  refine ⟨r, hhead, rfl, rfl, ?_, by rw [hn, Nonce.nth_increment], hzero, hbody⟩
  exact List.take_left' (length_plainHeader _ _)

/-- What it then opens as a body is the body of that record. -/
theorem open_body (hS : Sender C psk salt key all) (h : Begun C key Head Whole all i k rs r)
    (hkey : C.derive psk salt' = .ok key') (ho : C.aesOpen key' (.nth (k + 1)) aad l = (.ok (), out, nonce')) :
    aad = r.bodyAad ∧ l = C.sealed key (.nth (k + 1)) r.bodyAad r.payload ∧ nonce' = .nth (k + 2) ∧
      (∃ tag, tag.length = tagLen ∧ out = r.payload ++ tag) ∧
      ∃ wire rs', rs = (r, wire) :: rs' ∧ Whole i k r wire ∧ Awaits C key Head Whole all (i + 1) (k + 2) rs' := by
  obtain ⟨hk, hmem, hn, hplain⟩ := hS.ideal.aesOpen hkey ho
  obtain rfl : key = key' := Except.ok.inj (hS.derived.symm.trans hk)
  rcases h with ⟨wire, rs', rfl, hwhole, hbody, hnext⟩ | hlen
  · have hle := (List.getElem?_eq_some_iff.mp hbody).1
    have hat := hS.consecutive.getElem?_of_mem hS.length_lt hmem (Nat.le_of_lt hle) rfl
    rw [hbody] at hat
    obtain ⟨-, rfl, rfl⟩ := (AeadSeal.mk.injEq ..).mp (Option.some.inj hat)
    exact ⟨rfl, rfl, by rw [hn, Nonce.nth_increment], hplain _ rfl, wire, rs', rfl, hwhole, hnext⟩
  · have hat := hS.consecutive.getElem?_of_mem hS.length_lt hmem (Nat.le_of_eq hlen.symm) rfl
    rw [List.getElem?_eq_none (Nat.le_of_eq hlen)] at hat
    cases hat

end Sender

end Receiver

/-! ## Reading a hostile stream -/

/-- Items read one by one are the records awaited, if each is the next one:
`S i rs d` says that the decoder `d` awaits `rs` from record `i` on, and
`P i r raw x` what an item `x` made of the bytes `raw` has to do with `r`. -/
theorem parses_awaited {D ρ : Type} {M : Staged.Machine D Item Fault UInt8} {S : Nat → List ρ → D → Prop}
    {P : Nat → ρ → Bytes → Item × Bytes → Prop}
    (hstep : ∀ {i rs d l n x l' d'}, S i rs d → Staged.run M d l = .emit n x l' d' →
      ∃ r rs', rs = r :: rs' ∧ P i r (l.take n) (x, l'.take n) ∧ S (i + 1) rs' d') {d d' : D} {l l' : Bytes}
    {xs : List (Item × Bytes)} (h : Staged.Parses M d l xs d' l') {i : Nat} {rs : List ρ} (hd : S i rs d) :
    xs.length ≤ rs.length ∧ ∀ (j : Nat) x r, xs[j]? = some x → rs[j]? = some r →
      P (i + j) r ((l.drop ((xs.take j).map fun x => x.2.length).sum).take x.2.length) x := by
  induction h generalizing i rs with
  | refl => exact ⟨Nat.zero_le _, nofun⟩
  | @emit d l n x l' d₁ xs d' l'' hrun _ ih =>
    obtain ⟨r, rs, rfl, hP, hd₁⟩ := hstep hd hrun
    obtain ⟨-, hn, -, hlen, hdrop⟩ := Staged.run_emit_bounds hrun
    obtain ⟨hle, hall⟩ := ih hd₁
    have htake : (l'.take n).length = n := by rw [List.length_take]; omega
    refine ⟨Nat.succ_le_succ hle, fun j x' r' hx hr => ?_⟩
    cases j with
    | zero =>
      cases hx
      cases hr
      simpa only [List.take_zero, List.map_nil, List.sum_nil, List.drop_zero, htake, Nat.add_zero] using hP
    | succ j =>
      have := hall j x' r' hx hr
      rw [hdrop, List.drop_drop] at this
      simpa only [List.take_succ_cons, List.map_cons, List.sum_cons, htake, Nat.add_right_comm, Nat.add_assoc] using this

theorem payloadBodyLen_eq_zero {payload : Bytes} {padding : Nat}
    (h : RecordHeader.payloadBodyLen ⟨padding, payload.length⟩ = 0) : payload = [] := by
  unfold RecordHeader.payloadBodyLen at h
  split at h
  · next hnil => exact List.eq_nil_of_length_eq_zero hnil
  · cases h

/-- A payload opened behind `pre` is what its record shows. -/
theorem shows_opened {pre tag payload front : Bytes} {off : Nat} (hne : payload ≠ []) (hoff : pre.length = off)
    (hfront : front = pre ++ (payload ++ tag)) : Item.Shows (.data off (off + payload.length)) front payload := by
  refine ⟨hne, Nat.le_add_right _ _, ?_, ?_⟩
  · rw [hfront, List.length_append, hoff, List.length_append]
    omega
  · rw [hfront, List.drop_left' hoff, Nat.add_sub_cancel_left, List.take_left]

theorem drop_take_split {α : Type} {l : List α} {a b n : Nat} (hab : a ≤ b) (hbn : b ≤ n) :
    (l.take n).drop a = (l.take b).drop a ++ (l.take n).drop b := by
  have hfront : ((l.take n).drop a).take (b - a) = (l.take b).drop a := by
    rw [List.take_drop, Nat.add_sub_cancel' hab, List.take_take, Nat.min_eq_left hbn]
  rw [← List.take_append_drop (b - a) ((l.take n).drop a), hfront, List.drop_drop, Nat.add_sub_cancel' hab]

/-! ## A decoder along the sender's seals -/

/-- A decoder's stages, with its key and its nonce, and what else it knows of
the record it is in. -/
structure SealStages (C : Crypto) (D β : Type) [RecordDecoder D] extends Stages C D β where
  nonce : D → Nonce
  key : D → Option C.Key
  In : Nat → D → Prop
  nonce_setKey : ∀ d salt key, nonce (setKey d salt key) = nonce d
  nonce_toHeader : ∀ d, nonce (toHeader d) = nonce d
  key_setKey : ∀ d salt k, key (setKey d salt k) = some k
  key_toHeader : ∀ d, key (toHeader d) = key d
  in_setKey : ∀ {i d} salt key, In i d → In i (setKey d salt key)
  in_toHeader : ∀ {i d}, In i d → In i (toHeader d)

namespace SealStages

variable {C : Crypto} {D β : Type} [RecordDecoder D] {S : SealStages C D β} {psk : Psk} {salt : Salt} {key : C.Key}
  {all : List AeadSeal} {Head : Nat → SealedRecord → Prop} {Whole : (i k : Nat) → SealedRecord → Option Bytes → Prop}
  {P : Nat → SealedRecord × Option Bytes → Bytes → Item × Bytes → Prop} {i k : Nat}
  {rs : List (SealedRecord × Option Bytes)} {d d' : D}

/-- In record `i`, at nonce `k`, with a key of this pre-shared key if any. -/
structure Keyed (S : SealStages C D β) (psk : Psk) (i k : Nat) (d : D) : Prop where
  nonce_eq : S.nonce d = .nth k
  psk_eq : S.psk d = psk
  key_eq : ∀ key, S.key d = some key → ∃ salt, C.derive psk.bytes salt = .ok key
  within : S.In i d

theorem Keyed.toHeader (h : S.Keyed psk i k d) : S.Keyed psk i k (S.toHeader d) where
  nonce_eq := (S.nonce_toHeader d).trans h.nonce_eq
  psk_eq := (S.psk_toHeader d).trans h.psk_eq
  key_eq key hkey := h.key_eq key ((S.key_toHeader d).symm.trans hkey)
  within := S.in_toHeader h.within

theorem Keyed.setKey (h : S.Keyed psk i k d) (hkey : C.derive psk.bytes salt = .ok key) :
    S.Keyed psk i k (S.setKey d salt key) where
  nonce_eq := (S.nonce_setKey d salt key).trans h.nonce_eq
  psk_eq := (S.psk_setKey d salt key).trans h.psk_eq
  key_eq key' hkey' := by
    obtain rfl := Option.some.inj ((S.key_setKey d salt key).symm.trans hkey')
    exact ⟨salt, hkey⟩
  within := S.in_setKey salt key h.within

theorem Keyed.readSalt (h : S.Keyed psk i k d) {l : Bytes} (hr : S.readSalt d l = .ok d') :
    S.Keyed psk i k d' ∧ S.stage d' = .header := by
  refine ⟨?_, (Stages.readSalt_ok hr).2.1⟩
  unfold Stages.readSalt at hr
  split at hr
  · cases hr
    exact h.toHeader
  · cases hd : S.derived d l with
    | error f => rw [hd] at hr; cases hr
    | ok e =>
      rw [hd] at hr
      cases hr
      obtain ⟨salt, key, -, hkey, rfl⟩ := Stages.derived_ok hd
      rw [h.psk_eq] at hkey
      exact (h.setKey hkey).toHeader

/-- Keyed and in front of record `i`, with the sender's records `rs` still to
come. -/
def Follows (S : SealStages C D β) (psk : Psk) (key : C.Key) (Head : Nat → SealedRecord → Prop)
    (Whole : (i k : Nat) → SealedRecord → Option Bytes → Prop) (all : List AeadSeal) (i : Nat)
    (rs : List (SealedRecord × Option Bytes)) (d : D) : Prop :=
  ∃ k, Awaits C key Head Whole all i k rs ∧ S.Keyed psk i k d ∧ (S.stage d = .header ∨ S.stage d = .salt)

theorem follows_salt (h : Awaits C key Head Whole all i k rs) (hd : S.Keyed psk i k d) (hs : S.stage d = .salt) :
    S.Follows psk key Head Whole all i rs d :=
  ⟨k, h, hd, .inr hs⟩

/-- The item `x`, made of the bytes `raw`, is of the next record, and the
decoder goes on to the one behind it. -/
def Hands (S : SealStages C D β) (psk : Psk) (key : C.Key) (Head : Nat → SealedRecord → Prop)
    (Whole : (i k : Nat) → SealedRecord → Option Bytes → Prop) (all : List AeadSeal)
    (P : Nat → SealedRecord × Option Bytes → Bytes → Item × Bytes → Prop) (i : Nat)
    (rs : List (SealedRecord × Option Bytes)) (raw : Bytes) (x : Item × Bytes) (d' : D) : Prop :=
  ∃ r rs', rs = r :: rs' ∧ P i r raw x ∧ S.Follows psk key Head Whole all (i + 1) rs' d'

/-- What a decoder opens in its header stage is the next record: a header that
is all of it, or a header with the body behind it. -/
structure Opens (S : SealStages C D β) (psk : Psk) (key : C.Key) (Head : Nat → SealedRecord → Prop)
    (Whole : (i k : Nat) → SealedRecord → Option Bytes → Prop) (all : List AeadSeal)
    (P : Nat → SealedRecord × Option Bytes → Bytes → Item × Bytes → Prop) : Prop where
  header : ∀ {i k rs d d'} {l : Bytes}, Awaits C key Head Whole all i k rs → S.Keyed psk i k d → S.stage d = .header →
    S.readHeader d l = (.ok none, d') → S.Hands psk key Head Whole all P i rs l (.zeroChunk, l) d'
  body : ∀ {i k rs d e d' b} {l front : Bytes} {x}, Awaits C key Head Whole all i k rs → S.Keyed psk i k d →
    S.stage d = .header →
    S.readHeader d (l.take (S.headerEnd d)) = (.ok (some b), e) → S.bodyEnd e b ≤ l.length →
    S.readBody e b (l.take (S.bodyEnd e b)) = (.ok x, d', front) →
      S.Hands psk key Head Whole all P i rs (l.take (S.bodyEnd e b)) (x, front) d'

/-- What a decoder hands out is the next record the sender sealed. -/
theorem Opens.run (hopens : S.Opens psk key Head Whole all P) {max n : Nat} {l l' : Bytes} {x : Item}
    (h : S.Follows psk key Head Whole all i rs d) (hrun : Staged.run (S.machine max) d l = .emit n x l' d') :
    S.Hands psk key Head Whole all P i rs (l.take n) (x, l'.take n) d' := by
  obtain ⟨k, hawaits, hd, hstage⟩ := h
  obtain ⟨d, hd, hs, hrun⟩ : ∃ e, S.Keyed psk i k e ∧ S.stage e = .header ∧
      Staged.run (S.machine max) e l = .emit n x l' d' := by
    rcases hstage with hs | hs
    · exact ⟨d, hd, hs, hrun⟩
    · obtain ⟨e, -, hr, hrun⟩ := Stages.run_salt_cases hs hrun
      obtain ⟨he, hse⟩ := hd.readSalt hr
      exact ⟨e, he, hse, hrun⟩
  rcases Stages.run_header_cases hs hrun with ⟨-, -, rfl, rfl, hr⟩ | ⟨b, e, front, -, hr, rfl, hn, hb, rfl⟩
  · exact hopens.header hawaits hd hs hr
  · have hfront := (S.readBody_keeps hb).2.2
    rw [List.take_left' (hfront.trans (List.length_take_of_le hn))]
    exact hopens.body hawaits hd hs hr hn hb

end SealStages

/-! ## Unshaped -/

namespace V6UnshapedDecoder

variable {C : Crypto} {psk : Psk} {salt : Salt} {key : C.Key} {all : List AeadSeal} {i k : Nat}
  {rs : List (SealedRecord × Option Bytes)} {d d' : V6UnshapedDecoder C}

def sealStages (C : Crypto) : SealStages C (V6UnshapedDecoder C) (Nat × Nat) where
  toStages := stages C
  nonce := nonce
  key d := d.key.map Prod.fst
  In _ _ := True
  nonce_setKey _ _ _ := rfl
  nonce_toHeader _ := rfl
  key_setKey _ _ _ := rfl
  key_toHeader _ := rfl
  in_setKey _ _ h := h
  in_toHeader h := h

/-- What a key was derived from does not change with the records. -/
theorem keyed_at (h : (sealStages C).Keyed psk i k d) (j m : Nat) (includeSalt : Bool)
    (step : V6Unshaped.ReadStep) :
    (sealStages C).Keyed psk j m { d with nonce := .nth m, includeSalt, step } :=
  ⟨rfl, h.psk_eq, h.key_eq, trivial⟩

/-- The sender's records that are still to come. -/
abbrev Awaiting (key : C.Key) (all : List AeadSeal) (i k : Nat) (rs : List (SealedRecord × Option Bytes)) : Prop :=
  Awaits C key (fun _ => V6UnshapedEncoder.Head) (fun _ _ _ _ => True) all i k rs

theorem readHeader_awaited (hS : Sender C psk.bytes salt key all) (h : Awaiting key all i k rs)
    (hd : (sealStages C).Keyed psk i k d) {hdr : Bytes} {header : RecordHeader} {len : Nat}
    (hr : readHeader d hdr = (.ok (header, len), d')) :
    ∃ r, V6UnshapedEncoder.Head r ∧ header = ⟨r.padding, r.payload.length⟩ ∧ len = header.payloadBodyLen ∧
      d' = { d with nonce := .nth (k + 1) } ∧
      (r.payload = [] → ∃ wire rs', rs = (r, wire) :: rs' ∧ Awaiting key all (i + 1) (k + 1) rs') ∧
      (r.payload ≠ [] → Begun C key (fun _ => V6UnshapedEncoder.Head) (fun _ _ _ _ => True) all i k rs r) := by
  unfold readHeader at hr
  split at hr
  · cases hr
  next key' salt' hkey =>
  rw [show d.nonce = .nth k from hd.nonce_eq] at hr
  split at hr
  · cases hr
  next out nonce ho =>
  obtain ⟨_, hderived⟩ := hd.key_eq key' (congrArg (Option.map Prod.fst) hkey)
  obtain ⟨r, hhead, -, -, hopened, rfl, hzero, hbody⟩ := hS.open_header h hderived ho
  have hlen := hhead.length_le
  rw [hopened, parseV6PlainHeader_plainHeader (by rw [hhead.padding]; decide)
    (Nat.lt_of_le_of_lt hlen (by decide))] at hr
  simp only [bind, Except.bind, RecordHeader.bodyLenV6Unshaped, hhead.padding, ne_eq, not_true_eq_false, ↓reduceIte,
    pure, Except.pure, Prod.mk.injEq, Except.ok.injEq] at hr
  obtain ⟨⟨rfl, rfl⟩, rfl⟩ := hr
  exact ⟨r, hhead, by rw [hhead.padding], rfl, rfl, hzero, hbody⟩

theorem readBody_awaited (hS : Sender C psk.bytes salt key all) {r : SealedRecord}
    (h : Begun C key (fun _ => V6UnshapedEncoder.Head) (fun _ _ _ _ => True) all i k rs r)
    (hd : (sealStages C).Keyed psk i (k + 1) d) {body body' : Bytes} (hr : readBody d body = (.ok (), d', body')) :
    (∃ tag, body' = r.payload ++ tag) ∧ ((sealStages C).Keyed psk (i + 1) (k + 2) d' ∧ d'.step = .header) ∧
      ∃ wire rs', rs = (r, wire) :: rs' ∧ Awaiting key all (i + 1) (k + 2) rs' := by
  unfold readBody at hr
  split at hr
  · cases hr
  next key' salt' hkey =>
  rw [show d.nonce = .nth (k + 1) from hd.nonce_eq] at hr
  split at hr
  · cases hr
  next out nonce ho =>
  cases hr
  obtain ⟨_, hderived⟩ := hd.key_eq key' (congrArg (Option.map Prod.fst) hkey)
  obtain ⟨-, -, rfl, ⟨tag, -, hout⟩, wire, rs', hrs, -, hnext⟩ := hS.open_body h hderived ho
  exact ⟨⟨tag, hout⟩, ⟨keyed_at hd (i + 1) (k + 2) false .header, rfl⟩, wire, rs', hrs, hnext⟩

theorem opens (hS : Sender C psk.bytes salt key all) :
    (sealStages C).Opens psk key (fun _ => V6UnshapedEncoder.Head) (fun _ _ _ _ => True) all
      fun _ r _ x => x.1.Shows x.2 r.1.payload where
  header {i k rs d d' l} h hd hs hr := by
    simp only [sealStages, stages, stageHeader] at hr
    split at hr
    · cases hr
    next header len d₁ hread =>
    obtain ⟨r, -, rfl, rfl, rfl, hzero, -⟩ := readHeader_awaited hS h hd hread
    split at hr
    · next hlen =>
      cases hr
      have hnil := payloadBodyLen_eq_zero hlen
      obtain ⟨wire, rs', rfl, hnext⟩ := hzero hnil
      exact ⟨_, rs', rfl, hnil, k + 1, hnext, keyed_at hd (i + 1) (k + 1) false d.step, .inl hs⟩
    · cases hr
  body {i k rs d e d' b l front x} h hd _ hr hn hb := by
    simp only [sealStages, stages, stageHeader] at hr
    split at hr
    · cases hr
    next header len d₁ hread =>
    obtain ⟨r, -, rfl, rfl, rfl, -, hbegun⟩ := readHeader_awaited hS h hd hread
    split at hr
    · cases hr
    next hlen =>
    cases hr
    have hne : r.payload ≠ [] := fun hnil => hlen (by rw [RecordHeader.payloadBodyLen, hnil]; rfl)
    simp only [sealStages, stages, stageBody] at hb hn ⊢
    split at hb
    · cases hb
    next d₂ body hread₂ =>
    cases hb
    obtain ⟨⟨tag, rfl⟩, ⟨hd₂, hs₂⟩, wire, rs', rfl, hnext⟩ :=
      readBody_awaited hS (hbegun hne) (keyed_at hd i (k + 1) _ _) hread₂
    refine ⟨_, rs', rfl, ?_, k + 2, hnext, hd₂, .inl (stage_eq_header.2 hs₂)⟩
    exact shows_opened hne (by rw [List.length_take, List.length_take_of_le hn]; omega) rfl

end V6UnshapedDecoder

/-! ## v4 -/

namespace V4Decoder

variable {C : Crypto} {psk : Psk} {salt : Salt} {key : C.Key} {all : List AeadSeal} {i k : Nat}
  {rs : List (SealedRecord × Option Bytes)} {d d' : V4Decoder C}

def sealStages (C : Crypto) : SealStages C (V4Decoder C) (RecordHeader × Nat) where
  toStages := stages C
  nonce := nonce
  key := aead
  In _ _ := True
  nonce_setKey _ _ _ := rfl
  nonce_toHeader _ := rfl
  key_setKey _ _ _ := rfl
  key_toHeader _ := rfl
  in_setKey _ _ h := h
  in_toHeader h := h

/-- What a key was derived from does not change with the records. -/
theorem keyed_at (h : (sealStages C).Keyed psk i k d) (j m : Nat) (includeSalt : Bool)
    (step : V4.ReadStep) :
    (sealStages C).Keyed psk j m { d with nonce := .nth m, includeSalt, step } :=
  ⟨rfl, h.psk_eq, h.key_eq, trivial⟩

/-- The sender's records that are still to come. -/
abbrev Awaiting (key : C.Key) (all : List AeadSeal) (i k : Nat) (rs : List (SealedRecord × Option Bytes)) : Prop :=
  Awaits C key (fun _ => V4Encoder.Head) (fun _ _ _ _ => True) all i k rs

theorem readHeader_awaited (hS : Sender C psk.bytes salt key all) (h : Awaiting key all i k rs)
    (hd : (sealStages C).Keyed psk i k d) {hdr : Bytes} {header : RecordHeader} {len : Nat}
    (hr : readHeader d hdr = (.ok (header, len), d')) :
    ∃ r, V4Encoder.Head r ∧ header = ⟨r.padding, r.payload.length⟩ ∧ len = r.padding + header.payloadBodyLen ∧
      d' = { d with nonce := .nth (k + 1) } ∧
      (r.payload = [] → ∃ wire rs', rs = (r, wire) :: rs' ∧ Awaiting key all (i + 1) (k + 1) rs') ∧
      (r.payload ≠ [] → Begun C key (fun _ => V4Encoder.Head) (fun _ _ _ _ => True) all i k rs r) := by
  unfold readHeader at hr
  split at hr
  · cases hr
  next key' hkey =>
  rw [show d.nonce = .nth k from hd.nonce_eq] at hr
  split at hr
  · cases hr
  next out nonce ho =>
  obtain ⟨_, hderived⟩ := hd.key_eq key' hkey
  obtain ⟨r, hhead, -, -, hopened, rfl, hzero, hbody⟩ := hS.open_header h hderived ho
  have hplain : ¬(r.payload.length = 0 ∧ r.padding ≠ 0) := fun ⟨hnil, hpad⟩ =>
    hpad (hhead.unpadded (List.eq_nil_of_length_eq_zero hnil))
  rw [hopened, parseV4PlainHeader_plainHeader hhead.padding_le hhead.length_le] at hr
  simp only [bind, Except.bind, RecordHeader.bodyLenV4, if_neg hplain, pure, Except.pure, Prod.mk.injEq,
    Except.ok.injEq] at hr
  obtain ⟨⟨rfl, rfl⟩, rfl⟩ := hr
  exact ⟨r, hhead, rfl, rfl, rfl, hzero, hbody⟩

theorem readBody_awaited (hS : Sender C psk.bytes salt key all) {r : SealedRecord}
    (h : Begun C key (fun _ => V4Encoder.Head) (fun _ _ _ _ => True) all i k rs r)
    (hd : (sealStages C).Keyed psk i (k + 1) d) {len : Nat} {body body' : Bytes}
    (hr : readBody d ⟨r.padding, len⟩ body = (.ok (), d', body')) :
    (∃ padding tag, padding.length = r.padding ∧ body' = padding ++ (r.payload ++ tag)) ∧
      ((sealStages C).Keyed psk (i + 1) (k + 2) d' ∧ d'.step = .header) ∧
      ∃ wire rs', rs = (r, wire) :: rs' ∧ Awaiting key all (i + 1) (k + 2) rs' := by
  unfold readBody at hr
  split at hr
  · cases hr
  next hlen =>
  have hpad := (V4.swapEvenIndices_length d.ne (body.take r.padding) (body.drop r.padding)).1
  rw [List.length_take_of_le (Nat.le_of_not_lt hlen)] at hpad
  simp only at hr
  split at hr
  · cases hr
  next key' hkey =>
  rw [show d.nonce = .nth (k + 1) from hd.nonce_eq] at hr
  split at hr
  · cases hr
  next out nonce ho =>
  cases hr
  obtain ⟨_, hderived⟩ := hd.key_eq key' hkey
  obtain ⟨-, -, rfl, ⟨tag, -, rfl⟩, wire, rs', hrs, -, hnext⟩ := hS.open_body h hderived ho
  exact ⟨⟨_, tag, hpad, rfl⟩, ⟨keyed_at hd (i + 1) (k + 2) false .header, rfl⟩, wire, rs', hrs, hnext⟩

theorem opens (hS : Sender C psk.bytes salt key all) :
    (sealStages C).Opens psk key (fun _ => V4Encoder.Head) (fun _ _ _ _ => True) all
      fun _ r _ x => x.1.Shows x.2 r.1.payload where
  header {i k rs d d' l} h hd hs hr := by
    simp only [sealStages, stages, stageHeader] at hr
    split at hr
    · cases hr
    next header len d₁ hread =>
    obtain ⟨r, -, rfl, rfl, rfl, hzero, -⟩ := readHeader_awaited hS h hd hread
    split at hr
    · next hlen =>
      cases hr
      have hnil := payloadBodyLen_eq_zero (Nat.eq_zero_of_add_eq_zero_left hlen)
      obtain ⟨wire, rs', rfl, hnext⟩ := hzero hnil
      exact ⟨_, rs', rfl, hnil, k + 1, hnext, keyed_at hd (i + 1) (k + 1) false d.step, .inl hs⟩
    · cases hr
  body {i k rs d e d' b l front x} h hd _ hr hn hb := by
    simp only [sealStages, stages, stageHeader] at hr
    split at hr
    · cases hr
    next header len d₁ hread =>
    obtain ⟨r, hhead, rfl, rfl, rfl, -, hbegun⟩ := readHeader_awaited hS h hd hread
    split at hr
    · cases hr
    next hlen =>
    cases hr
    have hne : r.payload ≠ [] := by
      intro hnil
      exact hlen (by rw [RecordHeader.payloadBodyLen, hhead.unpadded hnil, hnil]; rfl)
    simp only [sealStages, stages, stageBody] at hb hn ⊢
    split at hb
    · cases hb
    next d₂ body hread₂ =>
    cases hb
    obtain ⟨⟨padding, tag, hpad, rfl⟩, ⟨hd₂, hs₂⟩, wire, rs', rfl, hnext⟩ :=
      readBody_awaited hS (hbegun hne) (keyed_at hd i (k + 1) _ _) hread₂
    refine ⟨_, rs', rfl, ?_, k + 2, hnext, hd₂, .inl (stage_eq_header.2 hs₂)⟩
    refine shows_opened hne ?_ (List.append_assoc _ _ _).symm
    rw [List.length_append, hpad, List.length_take, List.length_take_of_le hn]
    omega

end V4Decoder

/-! ## Shaped -/

namespace V6ShapedDecoder

open V6Shaped (recordPrefix)

variable {C : Crypto} {psk : ProfiledPsk C} {salt : Salt} {key : C.Key} {all : List AeadSeal} {i k : Nat}
  {rs : List (SealedRecord × Option Bytes)} {d d' : V6ShapedDecoder C}

/-- In record `i`; in its header stage, behind the prefix of that record. -/
structure In (psk : ProfiledPsk C) (i : Nat) (d : V6ShapedDecoder C) : Prop where
  psk_eq : d.psk = psk
  seq_eq : d.seq = .ofNat i
  first : d.includeSalt = (i == 0)
  header : d.stage = .header → d.step = d.headerStep

def sealStages (psk : ProfiledPsk C) : SealStages C (V6ShapedDecoder C) (RecordHeader × Nat) where
  toStages := stages C
  nonce := nonce
  key d := d.key.map Prod.fst
  In := In psk
  nonce_setKey _ _ _ := rfl
  nonce_toHeader _ := rfl
  key_setKey _ _ _ := rfl
  key_toHeader _ := rfl
  in_setKey _ _ h := ⟨h.psk_eq, h.seq_eq, h.first, h.header⟩
  in_toHeader h := ⟨h.psk_eq, h.seq_eq, h.first, fun _ => rfl⟩

/-- Bytes of record `i` in front of its prefix. -/
def blockSpan (psk : ProfiledPsk C) (i : Nat) : Nat := if i == 0 then psk.profile.saltBlockLen else 0

theorem In.saltSpan (h : In psk i d) : d.saltSpan = blockSpan psk i := by
  rw [V6ShapedDecoder.saltSpan, h.first, V6ShapedDecoder.profile, h.psk_eq]
  rfl

theorem In.nextRecord (h : In psk i d) : In psk (i + 1) d.nextRecord := by
  refine ⟨h.psk_eq, ?_, rfl, fun _ => rfl⟩
  change d.seq + 1 = _
  rw [h.seq_eq, UInt32.ofNat_add]
  rfl

/-- A record is over. -/
theorem nextRecord_keyed (h : (sealStages psk).Keyed psk.toPsk i k d) (k' : Nat) (step : V6Shaped.ReadStep) :
    (sealStages psk).Keyed psk.toPsk (i + 1) k' (nextRecord { d with nonce := .nth k', step }) := by
  have hin : In psk i { d with nonce := .nth k', step := .salt } :=
    ⟨h.within.psk_eq, h.within.seq_eq, h.within.first, fun hs => by cases hs⟩
  exact ⟨rfl, h.psk_eq, h.key_eq, hin.nextRecord⟩

/-- The sender's records that are still to come. -/
abbrev Awaiting (psk : ProfiledPsk C) (salt : Salt) (key : C.Key) (all : List AeadSeal) (i k : Nat)
    (rs : List (SealedRecord × Option Bytes)) : Prop :=
  Awaits C key (V6ShapedEncoder.Head psk.profile) (V6ShapedEncoder.Whole psk.profile key salt) all i k rs

theorem readHeader_awaited (hS : Sender C psk.bytes salt key all) (h : Awaiting psk salt key all i k rs)
    (hd : (sealStages psk).Keyed psk.toPsk i k d) {pfx hdr : Bytes} {header : RecordHeader}
    (hr : readHeader d pfx hdr = (.ok header, d')) :
    ∃ r, V6ShapedEncoder.Head psk.profile i r ∧ header = ⟨r.padding, r.payload.length⟩ ∧
      d' = { d with nonce := .nth (k + 1) } ∧ pfx = recordPrefix psk.profile (.ofNat i) ∧
      hdr = C.sealed key (.nth k) pfx (plainHeader r.padding r.payload.length) ∧
      (r.payload = [] → ∃ wire rs', rs = (r, wire) :: rs' ∧ Awaiting psk salt key all (i + 1) (k + 1) rs') ∧
      (r.payload ≠ [] →
        Begun C key (V6ShapedEncoder.Head psk.profile) (V6ShapedEncoder.Whole psk.profile key salt) all i k rs r) := by
  unfold readHeader at hr
  split at hr
  · cases hr
  next key' salt' hkey =>
  rw [show d.nonce = .nth k from hd.nonce_eq] at hr
  split at hr
  · cases hr
  next out nonce ho =>
  obtain ⟨_, hderived⟩ := hd.key_eq key' (congrArg (Option.map Prod.fst) hkey)
  obtain ⟨r, hhead, rfl, hhdr, hopened, rfl, hzero, hbody⟩ := hS.open_header h hderived ho
  rw [hopened, parseV6PlainHeader_plainHeader
    (Nat.lt_of_le_of_lt (Nat.le_trans hhead.padding_le psk.profile.maxPaddingLen_le) (by decide))
    (Nat.lt_of_le_of_lt hhead.length_le (by decide))] at hr
  cases hr
  exact ⟨r, hhead, rfl, rfl, hhead.headerAad, hhdr, hzero, hbody⟩

theorem readBody_awaited (hS : Sender C psk.bytes salt key all) {r : SealedRecord}
    (hhead : V6ShapedEncoder.Head psk.profile i r)
    (h : Begun C key (V6ShapedEncoder.Head psk.profile) (V6ShapedEncoder.Whole psk.profile key salt) all i k rs r)
    (hd : (sealStages psk).Keyed psk.toPsk i (k + 1) d) {len : Nat} {body body' : Bytes}
    (hr : readBody d ⟨r.padding, len⟩ body = (.ok (), d', body')) :
    body = V6Shaped.body C psk.profile key (.nth (k + 1)) (.ofNat i) r.padding r.payload ∧
      (∃ padding tag, padding.length = r.padding ∧ body' = padding ++ (r.payload ++ tag)) ∧
      ((sealStages psk).Keyed psk.toPsk (i + 1) (k + 2) d' ∧ d'.stage = .header) ∧ ∃ wire rs', rs = (r, wire) :: rs' ∧
        V6ShapedEncoder.Whole psk.profile key salt i k r wire ∧ Awaiting psk salt key all (i + 1) (k + 2) rs' := by
  unfold readBody at hr
  split at hr
  · cases hr
  next hlen =>
  have hprofile : d.profile = psk.profile := congrArg ProfiledPsk.profile hd.within.psk_eq
  have hpad := (d.profile.mix_length d.seq (body.take r.padding) (body.drop r.padding)).1
  rw [List.length_take_of_le (Nat.le_of_not_lt hlen)] at hpad
  have hmix := d.profile.mix_mix d.seq (body.take r.padding) (body.drop r.padding)
  revert hr hpad hmix
  simp only
  rcases d.profile.mixPaddingPayload d.seq (body.take r.padding) (body.drop r.padding) with ⟨padding, cipher⟩
  intro hr hpad hmix
  dsimp only at hr hpad hmix
  unfold openBody at hr
  split at hr
  · cases hr
  next key' salt' hkey =>
  rw [show d.nonce = .nth (k + 1) from hd.nonce_eq] at hr
  split at hr
  · cases hr
  next out nonce ho =>
  cases hr
  obtain ⟨_, hderived⟩ := hd.key_eq key' (congrArg (Option.map Prod.fst) hkey)
  obtain ⟨haad, hcipher, rfl, ⟨tag, -, rfl⟩, wire, rs', hrs, hwhole, hnext⟩ := hS.open_body h hderived ho
  rw [hhead.bodyAad] at haad hcipher
  refine ⟨?_, ⟨_, tag, hpad, rfl⟩, ⟨nextRecord_keyed hd (k + 2) d.step, rfl⟩, wire, rs', hrs, hwhole, hnext⟩
  -- mixing is its own inverse, so what was mixed back fixes what arrived
  have hbody : body = (psk.profile.mixPaddingPayload (.ofNat i) padding cipher).1 ++
      (psk.profile.mixPaddingPayload (.ofNat i) padding cipher).2 := by
    rw [← hprofile, ← hd.within.seq_eq]
    simp only [hmix, List.take_append_drop]
  rw [hbody, haad, hcipher]
  rfl

theorem bodyLen_eq_zero {payload : Bytes} {padding : Nat}
    (h : RecordHeader.bodyLenV6Shaped ⟨padding, payload.length⟩ = 0) : payload = [] :=
  payloadBodyLen_eq_zero (Nat.eq_zero_of_add_eq_zero_left h)

/-- What an item has to do with its record: it shows its payload, and a data
record is its bytes, the salt block of the first one apart. -/
def Takes (psk : ProfiledPsk C) (i : Nat) (r : SealedRecord × Option Bytes) (raw : Bytes) (x : Item × Bytes) : Prop :=
  x.1.Shows x.2 r.1.payload ∧
    (r.1.payload ≠ [] → ∃ wire, r.2 = some wire ∧ raw.drop (blockSpan psk i) = wire.drop (blockSpan psk i))

theorem Takes.zeroChunk {r : SealedRecord × Option Bytes} (hnil : r.1.payload = []) (raw wire : Bytes) :
    Takes psk i r raw (.zeroChunk, wire) :=
  ⟨hnil, fun hne => absurd hnil hne⟩

theorem opens (hS : Sender C psk.bytes salt key all) :
    (sealStages psk).Opens psk.toPsk key (V6ShapedEncoder.Head psk.profile) (V6ShapedEncoder.Whole psk.profile key salt)
      all (Takes psk) where
  header {i k rs d d' l} h hd _ hr := by
    simp only [sealStages, stages, stageHeader] at hr
    split at hr
    · cases hr
    next header d₁ hread =>
    obtain ⟨r, -, rfl, rfl, -, -, hzero, -⟩ := readHeader_awaited hS h hd hread
    split at hr
    · next hlen =>
      cases hr
      obtain ⟨wire, rs', rfl, hnext⟩ := hzero (bodyLen_eq_zero hlen)
      exact ⟨_, rs', rfl, .zeroChunk (bodyLen_eq_zero hlen) _ _, k + 1, hnext,
        nextRecord_keyed hd (k + 1) d.step, .inl rfl⟩
    · cases hr
  body {i k rs d e d' b l front x} h hd hs hr hn hb := by
    have hstep : d.step = d.headerStep := hd.within.header hs
    simp only [sealStages, stages, stageHeader] at hr
    split at hr
    · cases hr
    next header d₁ hread =>
    obtain ⟨r, hhead, rfl, rfl, hpfx, hhdr, hzero, hbegun⟩ := readHeader_awaited hS h hd hread
    split at hr
    · cases hr
    cases hr
    simp only [sealStages, stages, stageBody] at hb hn hpfx hhdr ⊢
    split at hb
    · -- padding alone
      next hlen =>
      cases hb
      have hnil := List.eq_nil_of_length_eq_zero hlen
      obtain ⟨wire, rs', rfl, hnext⟩ := hzero hnil
      exact ⟨_, rs', rfl, .zeroChunk hnil _ _, k + 1, hnext, nextRecord_keyed hd (k + 1) _, .inl rfl⟩
    next hlen =>
    have hne : r.payload ≠ [] := fun hnil => hlen (by rw [hnil]; rfl)
    split at hb
    · cases hb
    next d₂ body hread₂ =>
    cases hb
    have hbody : (sealStages psk).Keyed psk.toPsk i (k + 1)
        { d with nonce := .nth (k + 1), step := .body ⟨r.padding, r.payload.length⟩ d.prefixSpan } :=
      ⟨rfl, hd.psk_eq, hd.key_eq, hd.within.psk_eq, hd.within.seq_eq, hd.within.first, fun hs => by cases hs⟩
    obtain ⟨hbody, ⟨padding, tag, hpad, rfl⟩, ⟨hd₂, hs₂⟩, wire, rs', rfl, hwhole, hnext⟩ :=
      readBody_awaited hS hhead (hbegun hne) hbody hread₂
    refine ⟨_, rs', rfl, ⟨?_, fun _ => ?_⟩, k + 2, hnext, hd₂, .inl hs₂⟩
    · refine shows_opened hne ?_ (List.append_assoc _ _ _).symm
      rw [List.length_append, hpad, List.length_take, List.length_take_of_le hn]
      omega
    · obtain ⟨block, hblock, rfl⟩ := hwhole hne
      refine ⟨_, rfl, ?_⟩
      have hhead : (l.take (d.saltSpan + d.prefixSpan + headerCipherLen)).drop d.saltSpan =
          V6Shaped.head C psk.profile key (.nth k) (.ofNat i) r.padding r.payload.length := by
        rw [← List.take_append_drop d.prefixSpan (List.drop _ _), List.drop_drop, hhdr, hpfx]
        rfl
      rw [List.drop_left' (show block.length = blockSpan psk i from hblock.length), ← hd.within.saltSpan]
      exact (drop_take_split (by omega) (Nat.le_add_right (d.saltSpan + d.prefixSpan + headerCipherLen) _)).trans
        (congrArg₂ (· ++ ·) hhead hbody)

end V6ShapedDecoder

/-! ## Sessions -/

section Sessions

open EncoderSpec LawfulEncoder StagedDecoder Staged

variable {C : Crypto} {D : Type} [RecordDecoder D] [StagedDecoder D] [KdfDecoder C D]
  {E : Type} [RecordEncoder E] [EncoderSpec E] [LawfulEncoder E] [AeadLog E] [SealLog C E]

/-- What the seals of a run are to a receiver. -/
theorem sealRun_awaits {psk : Bytes} {salt : Salt} {key : C.Key} {posAt : Nat → Nat → Pos E}
    {Head : Nat → SealedRecord → Prop} {Whole : (i k : Nat) → SealedRecord → Option Bytes → Prop} {enc : E}
    (hC : SealsInOrder C E key posAt Head Whole) (hv : Valid enc) (hp : pos enc = posAt 0 0)
    (hkey : C.derive psk salt = .ok key) (ops : List RecordOp) (hlen : (sealRun ⟨enc, []⟩ ops).2.length < 2 ^ 96)
    (hideal : C.IdealFor psk salt (sealRun ⟨enc, []⟩ ops).2) :
    ∃ rs : List (SealedRecord × Option Bytes), (sealRun ⟨enc, []⟩ ops).1 = rs.map (fun r => (r.1.payload, r.2)) ∧
      Sender C psk salt key (sealRun ⟨enc, []⟩ ops).2 ∧ Awaits C key Head Whole (sealRun ⟨enc, []⟩ ops).2 0 0 rs := by
  obtain ⟨rs, log, hrs, hlog, hsent⟩ := sealRun_sent hC (l := ⟨enc, []⟩) hv hp ops
  rw [hlog, List.nil_append] at hlen hideal ⊢
  have hcons := hsent.consecutive
  rw [Nat.zero_add, Nonce.nth_zero] at hcons
  exact ⟨rs, hrs, ⟨hideal, hkey, hlen, hcons⟩, [], log, rfl, rfl, hsent⟩

/-- What a session hands out is awaited, if each item is the next one. -/
theorem Session.run_awaited {ρ : Type} {S : Nat → List ρ → D → Prop} {P : Nat → ρ → Bytes → Item × Bytes → Prop}
    {max : Nat} {rs : List ρ} {d₀ : D}
    (hstep : ∀ {i rs d l n x l' d'}, S i rs d → Staged.run (machine max) d l = .emit n x l' d' →
      ∃ r rs', rs = r :: rs' ∧ P i r (l.take n) (x, l'.take n) ∧ S (i + 1) rs' d')
    (hd₀ : S 0 rs d₀) (hpending : pending d₀ = 0) (wire : Bytes) (ops : List SessionOp) :
    ∃ xs, Tracks C max d₀ wire xs (run C (KdfDecoder.psk C d₀) (new d₀ max wire) ops) ∧ xs.length ≤ rs.length ∧
      ∀ (j : Nat) x r, xs[j]? = some x → rs[j]? = some r →
        P j r ((wire.drop ((xs.take j).map fun x => x.2.length).sum).take x.2.length) x := by
  obtain ⟨xs, htracks⟩ := run_tracks C max wire hpending ops
  obtain ⟨d₁, rest, hparses⟩ := htracks.parses
  obtain ⟨hle, hall⟩ := parses_awaited hstep hparses hd₀
  refine ⟨xs, htracks, hle, fun j x r hx hr => ?_⟩
  have := hall j x r hx hr
  rwa [Nat.zero_add] at this

/-- A session that hands out what shows the sealed payloads is intact. -/
theorem Session.Tracks.intact_of_shows {max : Nat} {d₀ : D} {wire : Bytes} {xs : List (Item × Bytes)} {s : Session D}
    {rs : List (SealedRecord × Option Bytes)} {sealed : List (Bytes × Option Bytes)} (h : Tracks C max d₀ wire xs s)
    (hrs : sealed = rs.map fun r => (r.1.payload, r.2)) (hle : xs.length ≤ rs.length)
    (hshow : ∀ (j : Nat) x r, xs[j]? = some x → rs[j]? = some r → x.1.Shows x.2 r.1.payload) :
    s.Intact (sealed.map Prod.fst) := by
  refine h.intact ?_
  subst hrs
  rw [List.forall₂_iff_get]
  refine ⟨?_, fun j hj hj' => ?_⟩
  · simp only [List.length_take, List.length_map]
    omega
  · simp only [List.get_eq_getElem, List.getElem_take, List.getElem_map]
    exact hshow j _ _ (List.getElem?_eq_getElem hj) (List.getElem?_eq_getElem (by omega))

theorem Item.Shows.ne_nil {item : Item} {wire payload : Bytes} (h : item.Shows wire payload) {off n : Nat}
    (hkind : (item.record off n).kind = .data) : payload ≠ [] := by
  cases item with
  | data => exact h.1
  | zeroChunk => cases hkind

theorem Session.Tracks.consumed_eq {max : Nat} {d₀ : D} {wire : Bytes} {xs : List (Item × Bytes)} {s : Session D}
    (h : Tracks C max d₀ wire xs s) : s.returned.map DecodedRecord.consumed = xs.map fun x => x.2.length := by
  have heq : List.Forall₂ Eq (s.returned.map DecodedRecord.consumed) (xs.map fun x => x.2.length) := by
    rw [List.forall₂_map_left_iff, List.forall₂_map_right_iff]
    refine h.told.imp ?_
    rintro _ ⟨item, bytes⟩ ⟨off, rfl⟩
    cases item <;> rfl
  exact List.forall₂_eq_eq_eq ▸ heq

/-- Whatever arrives instead of what the sender sent, in whatever pieces, and
however the receiver decodes and consumes it: `Safe` of what was sealed, what
arrived and the session. -/
def Withstands (C : Crypto) [KdfDecoder C D] (psk : Bytes) (salt : Salt) (enc : E) (d₀ : D)
    (Safe : List (Bytes × Option Bytes) → Bytes → Session D → Prop) : Prop :=
  ∀ (ops : List RecordOp) (max : Nat) (wire : Bytes) (received : List SessionOp),
    (sealRun ⟨enc, []⟩ ops).2.length < 2 ^ 96 → C.IdealFor psk salt (sealRun ⟨enc, []⟩ ops).2 →
      Safe (sealRun ⟨enc, []⟩ ops).1 wire
        (Session.run C (KdfDecoder.psk C d₀) (Session.new d₀ max wire) received)

end Sessions

/-- Every data record handed out is made of the bytes that were sealed, those of
the salt block apart. -/
def V6ShapedDecoder.Genuine {C : Crypto} (psk : ProfiledPsk C) (sealed : List (Bytes × Option Bytes)) (wire : Bytes)
    (s : Session (V6ShapedDecoder C)) : Prop :=
  ∀ (i : Nat) r, s.returned[i]? = some r → r.kind = .data →
    ∃ payload bytes, sealed[i]? = some (payload, some bytes) ∧
      ((wire.drop ((s.returned.take i).map DecodedRecord.consumed).sum).take r.consumed).drop (blockSpan psk i) =
        bytes.drop (blockSpan psk i)

theorem V4Decoder.withstands {C : Crypto} {ε : Type} [Entropy ε] {psk : Psk} {salt : Salt} {n : Nat} {entropy : ε}
    {ne : V4.Endian} {enc : V4Encoder C ε} (henc : V4Encoder.withSalt psk salt n entropy ne = .ok enc) (ne' : V4.Endian) :
    Withstands C psk.bytes salt enc (V4Decoder.new C psk ne') fun sealed _ s => s.Intact (sealed.map Prod.fst) := by
  intro ops max wire received hlen hideal
  obtain ⟨hv, -, hsalt, hnonce, hchunk, hkey⟩ := V4Encoder.withSalt_valid henc
  have hpos : enc.pos = ⟨enc.aead, salt, true, .nth 0⟩ := by
    rw [V4Encoder.pos, hsalt, hnonce, hchunk, Nonce.nth_zero]
    rfl
  obtain ⟨rs, hrs, hS, hawaits⟩ := sealRun_awaits (V4Encoder.sealsInOrder enc.aead salt) hv hpos hkey ops hlen hideal
  have hnew : (sealStages C).Keyed psk 0 0 (V4Decoder.new C psk ne') :=
    ⟨Nonce.nth_zero.symm, rfl, (fun _ h => by cases h), trivial⟩
  have hfollows := SealStages.follows_salt hawaits hnew rfl
  obtain ⟨xs, htracks, hle, hall⟩ := Session.run_awaited (C := C)
    (P := fun _ r _ x => x.1.Shows x.2 r.1.payload) (opens hS).run hfollows
    (rfl : (V4Decoder.new C psk ne').pending = 0) wire received
  exact htracks.intact_of_shows hrs hle hall

theorem V6UnshapedDecoder.withstands {C : Crypto} {psk : Psk} {salt : Salt} {enc : V6UnshapedEncoder C}
    (henc : V6UnshapedEncoder.withSalt psk salt = .ok enc) :
    Withstands C psk.bytes salt enc (V6UnshapedDecoder.new C psk) fun sealed _ s => s.Intact (sealed.map Prod.fst) := by
  intro ops max wire received hlen hideal
  obtain ⟨-, hpos, hkey⟩ := V6UnshapedEncoder.withSalt_ok henc
  rw [← Nonce.nth_zero] at hpos
  obtain ⟨rs, hrs, hS, hawaits⟩ :=
    sealRun_awaits (V6UnshapedEncoder.sealsInOrder enc.aead salt) trivial hpos hkey ops hlen hideal
  have hnew : (sealStages C).Keyed psk 0 0 (V6UnshapedDecoder.new C psk) :=
    ⟨Nonce.nth_zero.symm, rfl, (fun _ h => by cases h), trivial⟩
  have hfollows := SealStages.follows_salt hawaits hnew rfl
  obtain ⟨xs, htracks, hle, hall⟩ := Session.run_awaited (C := C)
    (P := fun _ r _ x => x.1.Shows x.2 r.1.payload) (opens hS).run hfollows
    (rfl : (V6UnshapedDecoder.new C psk).pending = 0) wire received
  exact htracks.intact_of_shows hrs hle hall

theorem V6ShapedDecoder.withstands {C : Crypto} {psk : ProfiledPsk C} {salt : Salt} {enc : V6ShapedEncoder C}
    (henc : V6ShapedEncoder.withSalt psk salt = .ok enc) :
    Withstands C psk.bytes salt enc (V6ShapedDecoder.new psk) fun sealed wire s =>
      s.Intact (sealed.map Prod.fst) ∧ Genuine psk sealed wire s := by
  intro ops max wire received hlen hideal
  generalize hs : Session.run C _ (Session.new (V6ShapedDecoder.new psk) max wire) received = s
  obtain ⟨-, hpos, hkey⟩ := V6ShapedEncoder.withSalt_ok henc
  rw [← Nonce.nth_zero] at hpos
  obtain ⟨rs, hrs, hS, hawaits⟩ :=
    sealRun_awaits (V6ShapedEncoder.sealsInOrder psk.profile enc.aead salt) trivial hpos hkey ops hlen hideal
  have hnew : (sealStages psk).Keyed psk.toPsk 0 0 (V6ShapedDecoder.new psk) :=
    ⟨Nonce.nth_zero.symm, rfl, (fun _ h => by cases h), rfl, rfl, rfl, fun h => by cases h⟩
  have hfollows := SealStages.follows_salt hawaits hnew rfl
  obtain ⟨xs, htracks, hle, hall⟩ := Session.run_awaited (C := C) (P := Takes psk) (opens hS).run hfollows
    (rfl : (V6ShapedDecoder.new psk).pending = 0) wire received
  rw [hs] at htracks
  refine ⟨htracks.intact_of_shows hrs hle fun j x r hx hr => (hall j x r hx hr).1, ?_⟩
  intro i r hr hkind
  obtain ⟨hi, rfl⟩ := List.getElem?_eq_some_iff.mp hr
  have hlen := htracks.told.length_eq
  have hx : xs[i]? = some xs[i] := List.getElem?_eq_getElem (by omega)
  have hrec : ∃ off, s.returned[i] = (xs[i]).1.record off (xs[i]).2.length := htracks.told.get hi (by omega)
  obtain ⟨off, hrec⟩ := hrec
  obtain ⟨hshow, hbytes⟩ := hall i _ _ hx (List.getElem?_eq_getElem (show i < rs.length by omega))
  rw [hrec] at hkind
  obtain ⟨bytes, hsome, heq⟩ := hbytes (hshow.ne_nil hkind)
  refine ⟨(rs[i]).1.payload, bytes, ?_, ?_⟩
  · rw [hrs, List.getElem?_map, List.getElem?_eq_getElem (by omega), Option.map_some, hsome]
  · have hconsumed := congrArg (·[i]?) htracks.consumed_eq
    simp only [List.getElem?_map, hr, hx, Option.map_some, Option.some.injEq] at hconsumed
    rw [List.map_take, htracks.consumed_eq, ← List.map_take, hconsumed]
    exact heq

/-- **An attacker can only cut the stream short.** With AES-GCM ideal, whatever
bytes arrive in place of the sender's, and however they are cut up, decoded and
consumed: up to the receiver's first error the records it hands out are the
first ones the sender sealed, in order and unaltered. Of the shaped codec the
bytes of every data record, from its prefix on, are those that were sealed. -/
theorem hostile_wire_yields_prefix (C : Crypto) (ε : Type) [Entropy ε] :
    (∀ psk salt n entropy ne ne' (enc : V4Encoder C ε), V4Encoder.withSalt psk salt n entropy ne = .ok enc →
      Withstands C psk.bytes salt enc (V4Decoder.new C psk ne') fun sealed _ s => s.Intact (sealed.map Prod.fst)) ∧
    (∀ psk salt (enc : V6UnshapedEncoder C), V6UnshapedEncoder.withSalt psk salt = .ok enc →
      Withstands C psk.bytes salt enc (V6UnshapedDecoder.new C psk) fun sealed _ s =>
        s.Intact (sealed.map Prod.fst)) ∧
    ∀ psk salt (enc : V6ShapedEncoder C), V6ShapedEncoder.withSalt psk salt = .ok enc →
      Withstands C psk.bytes salt enc (V6ShapedDecoder.new psk) fun sealed wire s =>
        s.Intact (sealed.map Prod.fst) ∧ V6ShapedDecoder.Genuine psk sealed wire s :=
  ⟨fun _ _ _ _ _ ne' _ henc => V4Decoder.withstands henc ne', fun _ _ _ henc => V6UnshapedDecoder.withstands henc,
    fun _ _ _ henc => V6ShapedDecoder.withstands henc⟩

/-- Libraries that hide nothing and open the seals of `log` alone, under the key
of `salt` alone. -/
def Crypto.opening (salt : Salt) (log : List AeadSeal) : Crypto where
  Key := Salt
  newKey key := some key
  sealInPlace _ _ _ plain := (plain, .replicate tagLen 0)
  openInPlace key n aad cipher tag := (decide (key = salt ∧ ⟨n, aad, cipher ++ tag.1⟩ ∈ log), cipher)
  aeadKey _ salt := some salt
  profileSecret _ := .replicate 32 0
  sealInPlace_length _ _ _ _ := rfl
  openInPlace_length _ _ _ _ _ := rfl

theorem Crypto.opening_ideal (psk : Bytes) (salt : Salt) (log : List AeadSeal) :
    (Crypto.opening salt log).IdealFor psk salt log where
  opens _ _ _ _ _ h := by
    simp only [Crypto.opening, decide_eq_true_eq] at h
    exact h.2
  others hne hkey _ _ _ _ := by
    cases hkey
    exact decide_eq_false fun h => hne h.1
  inverts _ _ _ _ _ := rfl

/-- The first of two records, replayed: it is handed out once, and then the
receiver fails. -/
theorem hostile_wire_yields_prefix_replayed :
    let psk : Psk := ⟨List.replicate 16 7, by decide⟩
    let salt : Salt := .replicate saltLen 1
    let made (k : Nat) (plain : Bytes) : AeadSeal := ⟨.nth k, [], plain ++ List.replicate tagLen 0⟩
    let C := Crypto.opening salt [made 0 (plainHeader 0 3), made 1 [1, 2, 3], made 2 (plainHeader 0 0)]
    let enc : V6UnshapedEncoder C := ⟨salt, Nonce.new, salt, false, .ready⟩
    let sealing (pfx data : Bytes) : RecordOp :=
      ⟨Buffer.new 128, Buffer.new_wf 128, pfx, .datagram data.length, 0, [.payloadMut data],
        .sealMut data.length ⟨0, false, false, 0⟩⟩
    let run := sealRun ⟨enc, []⟩ [sealing [1] [2, 3], sealing [] []]
    let record := (made 0 (plainHeader 0 3)).output ++ (made 1 [1, 2, 3]).output
    let s := Session.run C psk (Session.new (V6UnshapedDecoder.new C psk) 256 (salt.1 ++ record ++ record))
      [.append 200, .decode, .decode, .decode]
    run.1.map Prod.fst = [[1, 2, 3], []] ∧ s.returned.map DecodedRecord.kind = [.data] ∧
      s.fault = some (.err .aead) ∧ s.Intact (run.1.map Prod.fst) := by
  intro psk salt made C enc sealing run record s
  have hlog : run.2 = [made 0 (plainHeader 0 3), made 1 [1, 2, 3], made 2 (plainHeader 0 0)] := by decide +kernel
  have hideal : C.IdealFor psk.bytes salt run.2 := by
    rw [hlog]
    exact Crypto.opening_ideal psk.bytes salt _
  have hlen : run.2.length < 2 ^ 96 := by rw [hlog]; decide
  refine ⟨by decide +kernel, by decide +kernel, by decide +kernel, ?_⟩
  obtain ⟨-, hunshaped, -⟩ := hostile_wire_yields_prefix C RepeatEntropy
  exact hunshaped psk salt enc rfl [sealing [1] [2, 3], sealing [] []] 256 (salt.1 ++ record ++ record)
    [.append 200, .decode, .decode, .decode] hlen hideal

end Snell
