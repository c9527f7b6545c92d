/-
The three stages every record decoder goes through: the salt, in front of the
first record only, the header, and the body whose length the header fixes.

`Stages` is what differs between the decoders, with what their reading
functions keep. The staged parser, and what deriving the key outside the
decoder comes to, follow once for all.
-/
import Snell.StagedDecoder

namespace Snell

open RecordDecoder

/-- Where a decoder is in a record; `β` is what it keeps of the header. -/
inductive Stage (β : Type) where
  | salt
  | header
  | body (b : β)

def Stage.rank {β : Type} : Stage β → Nat
  | .salt => 2
  | .header => 1
  | .body _ => 0

/-- A decoder's stages. All lengths count from the record's own first byte,
and every reading function is given the record's bytes up to the stage's end. -/
structure Stages (C : Crypto) (D β : Type) [RecordDecoder D] where
  stage : D → Stage β
  psk : D → Psk
  hasKey : D → Bool
  setKey : D → Salt → C.Key → D
  toHeader : D → D
  saltEnd : D → Nat
  headerEnd : D → Nat
  bodyEnd : D → β → Nat
  /-- Open the header; no body behind it makes the record a zero chunk. -/
  readHeader : D → Bytes → Res (Option β) × D
  /-- Open the body: where the payload is, and the record's bytes after. -/
  readBody : D → β → Bytes → Res Item × D × Bytes
  saltEnd_pos : ∀ d, 0 < saltEnd d
  headerEnd_pos : ∀ d, 0 < headerEnd d
  bodyEnd_pos : ∀ d b, 0 < bodyEnd d b
  pending_set : ∀ (d : D) p, pending (setPending d p) = p
  set_set : ∀ (d : D) p q, setPending (setPending d p) q = setPending d q
  set_pending : ∀ d : D, setPending d (pending d) = d
  stage_set : ∀ (d : D) p, stage (setPending d p) = stage d
  psk_set : ∀ (d : D) p, psk (setPending d p) = psk d
  pending_setKey : ∀ (d : D) salt key, pending (setKey d salt key) = pending d
  stage_setKey : ∀ (d : D) salt key, stage (setKey d salt key) = stage d
  psk_setKey : ∀ (d : D) salt key, psk (setKey d salt key) = psk d
  hasKey_setKey : ∀ (d : D) salt key, hasKey (setKey d salt key) = true
  saltEnd_setKey : ∀ (d : D) salt key, saltEnd (setKey d salt key) = saltEnd d
  pending_toHeader : ∀ d : D, pending (toHeader d) = pending d
  stage_toHeader : ∀ d : D, stage (toHeader d) = .header
  psk_toHeader : ∀ d : D, psk (toHeader d) = psk d
  readHeader_keeps : ∀ {d d' : D} {l r}, readHeader d l = (r, d') → pending d' = pending d ∧ psk d' = psk d
  readHeader_none : ∀ {d d' : D} {l}, stage d = .header → readHeader d l = (.ok none, d') → stage d' = .header
  readHeader_some : ∀ {d d' : D} {l b}, readHeader d l = (.ok (some b), d') → stage d' = .body b
  readBody_keeps : ∀ {d d' : D} {b l l' r}, readBody d b l = (r, d', l') →
    pending d' = pending d ∧ psk d' = psk d ∧ l'.length = l.length
  readBody_ok : ∀ {d d' : D} {b l l' r}, readBody d b l = (.ok r, d', l') → stage d' = .header
  kdfSalt_take : ∀ (d : D) {l : Bytes}, saltEnd d ≤ l.length → kdfSalt d (l.take (saltEnd d)) = kdfSalt d l
  kdfNeed_eq : ∀ d : D, kdfNeed d = match stage d, hasKey d with | .salt, false => saltEnd d | _, _ => 0
  installAead_eq : ∀ (d : D) salt key, installAead d salt key = (C.aesNew key).map (setKey d salt)

namespace Stages

variable {C : Crypto} {D β : Type} [RecordDecoder D] (S : Stages C D β)

/-- The decoder with the key it derives from the salt. -/
def derived (d : D) (l : Bytes) : Res D := do
  let salt ← kdfSalt d l
  let key ← C.derive (S.psk d).bytes salt
  return S.setKey d salt key

def readSalt (d : D) (l : Bytes) : Res D :=
  if S.hasKey d then .ok (S.toHeader d) else (S.derived d l).map S.toHeader

def needed (d : D) : Nat :=
  match S.stage d with
  | .salt => S.saltEnd d
  | .header => S.headerEnd d
  | .body b => S.bodyEnd d b

theorem needed_pos (d : D) : 0 < S.needed d := by
  unfold needed
  split
  · exact S.saltEnd_pos d
  · exact S.headerEnd_pos d
  · exact S.bodyEnd_pos d _

def act (d : D) (front : Bytes) : Staged.Act D Item Fault UInt8 :=
  match S.stage d with
  | .salt =>
    match S.readSalt d front with
    | .error f => .fail f front d
    | .ok d' => .next d'
  | .header =>
    match S.readHeader d front with
    | (.error f, d') => .fail f front d'
    | (.ok none, d') => .emit .zeroChunk front d'
    | (.ok (some _), d') => .next d'
  | .body b =>
    match S.readBody d b front with
    | (.error f, d', front) => .fail f front d'
    | (.ok item, d', front) => .emit item front d'

/-! ## The staged parser -/

section

variable {S}

theorem act_salt {d : D} (h : S.stage d = .salt) (front : Bytes) :
    S.act d front = match S.readSalt d front with
      | .error f => .fail f front d
      | .ok d' => .next d' := by
  simp only [act, h]

theorem act_header {d : D} (h : S.stage d = .header) (front : Bytes) :
    S.act d front = match S.readHeader d front with
      | (.error f, d') => .fail f front d'
      | (.ok none, d') => .emit .zeroChunk front d'
      | (.ok (some _), d') => .next d' := by
  simp only [act, h]

theorem act_body {d : D} {b : β} (h : S.stage d = .body b) (front : Bytes) :
    S.act d front = match S.readBody d b front with
      | (.error f, d', front) => .fail f front d'
      | (.ok item, d', front) => .emit item front d' := by
  simp only [act, h]

theorem derived_ok {d d' : D} {l : Bytes} (h : S.derived d l = .ok d') :
    ∃ salt key, kdfSalt d l = .ok salt ∧ C.derive (S.psk d).bytes salt = .ok key ∧ d' = S.setKey d salt key := by
  simp only [derived, bind, Except.bind] at h
  split at h
  · cases h
  · next salt hs =>
    split at h
    · cases h
    · next key hk => cases h; exact ⟨salt, key, hs, hk, rfl⟩

theorem derived_eq {d : D} {l : Bytes} {salt : Salt} {key : C.Key} (hs : kdfSalt d l = .ok salt)
    (hk : C.derive (S.psk d).bytes salt = .ok key) : S.derived d l = .ok (S.setKey d salt key) := by
  simp only [derived, hs, hk, bind, Except.bind]; rfl

theorem readSalt_ok {d d' : D} {l : Bytes} (h : S.readSalt d l = .ok d') :
    pending d' = pending d ∧ S.stage d' = .header ∧ S.psk d' = S.psk d := by
  unfold readSalt at h
  split at h
  · cases h; exact ⟨S.pending_toHeader d, S.stage_toHeader d, S.psk_toHeader d⟩
  · cases hd : S.derived d l with
    | error f => rw [hd] at h; cases h
    | ok d₁ =>
      rw [hd] at h
      cases h
      obtain ⟨salt, key, _, _, rfl⟩ := derived_ok hd
      exact ⟨(S.pending_toHeader _).trans (S.pending_setKey _ _ _), S.stage_toHeader _,
        (S.psk_toHeader _).trans (S.psk_setKey _ _ _)⟩

theorem act_next {d d' : D} {l : Bytes} (h : S.act d l = .next d') :
    pending d' = pending d ∧ S.stage d' ≠ .salt ∧ (S.stage d').rank < (S.stage d).rank := by
  cases hs : S.stage d with
  | salt =>
    rw [act_salt hs] at h
    split at h <;> cases h
    next hr =>
    obtain ⟨hp, hst, _⟩ := readSalt_ok hr
    exact ⟨hp, by rw [hst]; nofun, by rw [hst]; exact Nat.one_lt_two⟩
  | header =>
    rw [act_header hs] at h
    split at h <;> cases h
    next hr =>
    rw [S.readHeader_some hr]
    exact ⟨(S.readHeader_keeps hr).1, nofun, Nat.zero_lt_one⟩
  | body b =>
    rw [act_body hs] at h
    split at h <;> cases h

theorem act_emit {d d' : D} {l f : Bytes} {x : Item} (h : S.act d l = .emit x f d') :
    pending d' = pending d ∧ S.stage d' = .header ∧ f.length = l.length := by
  cases hs : S.stage d with
  | salt =>
    rw [act_salt hs] at h
    split at h <;> cases h
  | header =>
    rw [act_header hs] at h
    split at h <;> cases h
    next hr =>
    exact ⟨(S.readHeader_keeps hr).1, S.readHeader_none hs hr, rfl⟩
  | body b =>
    rw [act_body hs] at h
    split at h <;> cases h
    next hr =>
    exact ⟨(S.readBody_keeps hr).1, S.readBody_ok hr, (S.readBody_keeps hr).2.2⟩

theorem act_fail {d d' : D} {l f : Bytes} {e : Fault} (h : S.act d l = .fail e f d') :
    pending d' = pending d ∧ f.length = l.length := by
  cases hs : S.stage d with
  | salt =>
    rw [act_salt hs] at h
    split at h <;> cases h
    exact ⟨rfl, rfl⟩
  | header =>
    rw [act_header hs] at h
    split at h <;> cases h
    next hr => exact ⟨(S.readHeader_keeps hr).1, rfl⟩
  | body b =>
    rw [act_body hs] at h
    split at h <;> cases h
    next hr => exact ⟨(S.readBody_keeps hr).1, (S.readBody_keeps hr).2.2⟩

theorem act_psk (d : D) (l : Bytes) : S.psk (S.act d l).state = S.psk d := by
  cases hs : S.stage d with
  | salt =>
    rw [act_salt hs]
    split
    · rfl
    · next hr => exact (readSalt_ok hr).2.2
  | header =>
    rw [act_header hs]
    split <;> next hr => exact (S.readHeader_keeps hr).2
  | body b =>
    rw [act_body hs]
    split <;> next hr => exact (S.readBody_keeps hr).2.1

end

def machine (max : Nat) : Staged.Machine D Item Fault UInt8 where
  needed := S.needed
  max := max
  tooLarge := .err .payloadTooLarge
  act := S.act
  rank d := (S.stage d).rank
  rank_next h := (act_next h).2.2
  needed_pos _ := S.needed_pos _
  length_emit h := (act_emit h).2.2
  length_fail h := (act_fail h).2

/-! ## Each arm of a decoder's loop is its stage -/

section Arms

variable {S} {max : Nat} {d s : D} {P A : Bytes} {X : Res DecodeStatus × D × Bytes}

theorem header_arm (hs : S.stage s = .header) (hd : setPending s P.length = d)
    (hX : S.headerEnd s ≤ A.length → X = match S.readHeader s (A.take (S.headerEnd s)) with
      | (.error f, s') => (.error f, setPending s' P.length, P ++ A)
      | (.ok none, s') =>
        (.ok (.record ⟨S.headerEnd s, 0, 0, .zeroChunk⟩), setPending s' (P.length + S.headerEnd s), P ++ A)
      | (.ok (some _), s') => answer P A (Staged.run (S.machine max) s' A)) :
    (match Pending.need P.length max (P ++ A).length (P.length + S.headerEnd s) with
      | .error f => (.error f, d, P ++ A)
      | .ok (some need) => (.ok need, d, P ++ A)
      | .ok none => X) = answer P A (Staged.run (S.machine max) s A) := by
  have hn : (S.machine max).needed s = S.headerEnd s := by simp only [machine, needed, hs]
  refine gate_eq (M := S.machine max) hn rfl hd fun hm hl => ?_
  rw [hX hl]
  have hact : (S.machine max).act s (A.take (S.headerEnd s)) = _ := act_header hs _
  rcases hr : S.readHeader s (A.take (S.headerEnd s)) with ⟨r, s'⟩
  rw [hr] at hact
  cases r with
  | error f => rw [answer_fail hn hm hl hact, List.take_append_drop]
  | ok r =>
    cases r with
    | none => rw [answer_emit hn hm hl hact, List.take_append_drop]; rfl
    | some b => rw [answer_next hn hm hl hact]

theorem body_arm {b : β} (hs : S.stage s = .body b) (hd : setPending s P.length = d)
    (hX : S.bodyEnd s b ≤ A.length → X = match S.readBody s b (A.take (S.bodyEnd s b)) with
      | (.error f, s', front) => (.error f, setPending s' P.length, P ++ (front ++ A.drop (S.bodyEnd s b)))
      | (.ok item, s', front) =>
        (.ok (.record (item.record P.length (S.bodyEnd s b))), setPending s' (P.length + S.bodyEnd s b),
          P ++ (front ++ A.drop (S.bodyEnd s b)))) :
    (match Pending.need P.length max (P ++ A).length (P.length + S.bodyEnd s b) with
      | .error f => (.error f, d, P ++ A)
      | .ok (some need) => (.ok need, d, P ++ A)
      | .ok none => X) = answer P A (Staged.run (S.machine max) s A) := by
  have hn : (S.machine max).needed s = S.bodyEnd s b := by simp only [machine, needed, hs]
  refine gate_eq (M := S.machine max) hn rfl hd fun hm hl => ?_
  rw [hX hl]
  have hact : (S.machine max).act s (A.take (S.bodyEnd s b)) = _ := act_body hs _
  rcases hr : S.readBody s b (A.take (S.bodyEnd s b)) with ⟨r, s', front⟩
  rw [hr] at hact
  cases r with
  | error f => rw [answer_fail hn hm hl hact]
  | ok item => rw [answer_emit hn hm hl hact]

theorem readSalt_take (d : D) {l : Bytes} (h : S.saltEnd d ≤ l.length) :
    S.readSalt d (l.take (S.saltEnd d)) = S.readSalt d l := by
  simp only [readSalt, derived, S.kdfSalt_take d h]

theorem salt_arm (hs : S.stage d = .salt) (hp : pending d = 0)
    (hX : S.saltEnd d ≤ A.length → X = match S.readSalt d A with
      | .error f => (.error f, d, A)
      | .ok s' => answer [] A (Staged.run (S.machine max) s' A)) :
    (match Pending.need 0 max A.length (S.saltEnd d) with
      | .error f => (.error f, d, A)
      | .ok (some need) => (.ok need, d, A)
      | .ok none => X) = answer [] A (Staged.run (S.machine max) d A) := by
  have hn : (S.machine max).needed d = S.saltEnd d := by simp only [machine, needed, hs]
  have hd : setPending d 0 = d := by rw [← hp, S.set_pending]
  refine gate_eq_start (M := S.machine max) hn rfl hd fun hm hl => ?_
  rw [hX hl]
  have hact : (S.machine max).act d (A.take (S.saltEnd d)) = _ := act_salt hs _
  rw [readSalt_take d hl] at hact
  cases hr : S.readSalt d A with
  | error f =>
    rw [hr] at hact
    rw [answer_fail hn hm hl hact, List.take_append_drop]
    exact congrArg (fun d => (_, d, A)) hd.symm
  | ok s' => rw [hr] at hact; rw [answer_next hn hm hl hact]

end Arms

/-! ## Reading one record -/

section Record

variable {S} {max : Nat} {d e e' : D}

theorem run_keyed {l : Bytes} (hs : S.stage d = .salt) (hk : S.hasKey d = true) (hm : S.saltEnd d ≤ max)
    (hl : S.saltEnd d ≤ l.length) : Staged.run (S.machine max) d l = Staged.run (S.machine max) (S.toHeader d) l := by
  have hn : (S.machine max).needed d = S.saltEnd d := by simp only [machine, needed, hs]
  refine Staged.run_next (M := S.machine max) (by rw [hn]; exact hm) (by rw [hn]; exact hl) ?_
  change S.act d _ = _
  simp only [act_salt hs, readSalt, hk, ↓reduceIte]

theorem run_derived {l : Bytes} (hs : S.stage d = .salt) (hk : S.hasKey d = false) (hm : S.saltEnd d ≤ max)
    (hl : S.saltEnd d ≤ l.length) (hd : S.derived d l = .ok e) :
    Staged.run (S.machine max) d l = Staged.run (S.machine max) (S.toHeader e) l := by
  have hn : (S.machine max).needed d = S.saltEnd d := by simp only [machine, needed, hs]
  refine Staged.run_next (M := S.machine max) (by rw [hn]; exact hm) (by rw [hn]; exact hl) ?_
  change S.act d (l.take ((S.machine max).needed d)) = _
  rw [hn, act_salt hs, readSalt_take d hl]
  simp only [readSalt, hk, hd, Except.map, Bool.false_eq_true, ↓reduceIte]

/-- Before the first byte of a stage, the decoder waits. -/
theorem run_nil (hm : S.needed d ≤ max) : ∃ k d', Staged.run (S.machine max) d [] = .need k d' :=
  ⟨_, _, Staged.run_short (M := S.machine max) hm (S.needed_pos d)⟩

/-- A record that is only a header. -/
theorem run_zeroChunk {wire : Bytes} (hs : S.stage d = .header) (hn : S.headerEnd d = wire.length)
    (hm : wire.length ≤ max) (hr : S.readHeader d wire = (.ok none, e)) :
    Staged.run (S.machine max) d wire = .emit wire.length .zeroChunk wire e := by
  refine Staged.run_emit_all (M := S.machine max) (by simp only [machine, needed, hs, hn]) hm ?_
  change S.act d wire = _
  simp only [act_header hs, hr]

/-- A record with a body. -/
theorem run_body {head body front : Bytes} {b : β} {item : Item} (hs : S.stage d = .header)
    (hn : S.headerEnd d = head.length) (hm : (head ++ body).length ≤ max)
    (hr : S.readHeader d head = (.ok (some b), e)) (hn₁ : S.bodyEnd e b = (head ++ body).length)
    (hr₁ : S.readBody e b (head ++ body) = (.ok item, e', front)) :
    Staged.run (S.machine max) d (head ++ body) = .emit (head ++ body).length item front e' := by
  have hs₁ := S.readHeader_some hr
  have hhead : head.length ≤ max := by simp only [List.length_append] at hm; omega
  have hact : (S.machine max).act d head = .next e := by
    change S.act d head = _
    simp only [act_header hs, hr]
  rw [Staged.run_next_front (M := S.machine max) (by simp only [machine, needed, hs, hn]) hhead hact]
  refine Staged.run_emit_all (M := S.machine max) (by simp only [machine, needed, hs₁, hn₁]) hm ?_
  change S.act e _ = _
  simp only [act_body hs₁, hr₁]

/-- A record read from the salt stage on is read from the header stage on. -/
theorem run_salt_cases {l l' : Bytes} {n : Nat} {x : Item} (hs : S.stage d = .salt)
    (h : Staged.run (S.machine max) d l = .emit n x l' e') :
    ∃ e, S.saltEnd d ≤ l.length ∧ S.readSalt d l = .ok e ∧ Staged.run (S.machine max) e l = .emit n x l' e' := by
  have hn : (S.machine max).needed d = S.saltEnd d := by simp only [machine, needed, hs]
  obtain ⟨hl, hact⟩ := Staged.run_emit_cases h
  have hread : (S.machine max).act d (l.take (S.saltEnd d)) = _ := act_salt hs _
  rw [hn] at hl hact
  rw [readSalt_take d hl] at hread
  rw [hread] at hact
  cases hr : S.readSalt d l with
  | error f =>
    rw [hr] at hact
    rcases hact with ⟨_, hact, -⟩ | ⟨_, hact, -⟩ <;> cases hact
  | ok e =>
    rw [hr] at hact
    rcases hact with ⟨_, hact, hrun⟩ | ⟨_, hact, -⟩
    · cases hact; exact ⟨e, hl, rfl, hrun⟩
    · cases hact

/-- How a record is read from the header stage on: it is a header alone, or a
header and a body. -/
theorem run_header_cases {l l' : Bytes} {n : Nat} {x : Item} (hs : S.stage d = .header)
    (h : Staged.run (S.machine max) d l = .emit n x l' e') :
    (n = S.headerEnd d ∧ n ≤ l.length ∧ x = .zeroChunk ∧ l' = l ∧ S.readHeader d (l.take n) = (.ok none, e')) ∨
      ∃ b e front, S.headerEnd d ≤ l.length ∧ S.readHeader d (l.take (S.headerEnd d)) = (.ok (some b), e) ∧
        n = S.bodyEnd e b ∧ n ≤ l.length ∧ S.readBody e b (l.take n) = (.ok x, e', front) ∧ l' = front ++ l.drop n := by
  have hn : (S.machine max).needed d = S.headerEnd d := by simp only [machine, needed, hs]
  obtain ⟨hl, hact⟩ := Staged.run_emit_cases h
  have hread : (S.machine max).act d (l.take (S.headerEnd d)) = _ := act_header hs _
  rw [hn] at hl hact
  rw [hread] at hact
  rcases hr : S.readHeader d (l.take (S.headerEnd d)) with ⟨r, e⟩
  rw [hr] at hact
  rcases r with f | _ | b
  · rcases hact with ⟨_, hact, -⟩ | ⟨_, hact, -⟩ <;> cases hact
  · rcases hact with ⟨_, hact, -⟩ | ⟨_, hact, rfl, rfl⟩
    · cases hact
    · cases hact
      exact .inl ⟨rfl, hl, rfl, List.take_append_drop _ _, hr⟩
  · rcases hact with ⟨_, hact, hrun⟩ | ⟨_, hact, -⟩
    · cases hact
      have hs₁ := S.readHeader_some hr
      have hn₁ : (S.machine max).needed e = S.bodyEnd e b := by simp only [machine, needed, hs₁]
      obtain ⟨hl₁, hact₁⟩ := Staged.run_emit_cases hrun
      have hread₁ : (S.machine max).act e (l.take (S.bodyEnd e b)) = _ := act_body hs₁ _
      rw [hn₁] at hl₁ hact₁
      rw [hread₁] at hact₁
      rcases hb : S.readBody e b (l.take (S.bodyEnd e b)) with ⟨r, e₂, front⟩
      rw [hb] at hact₁
      rcases r with f | y
      · rcases hact₁ with ⟨_, hact₁, -⟩ | ⟨_, hact₁, -⟩ <;> cases hact₁
      · rcases hact₁ with ⟨_, hact₁, -⟩ | ⟨_, hact₁, rfl, rfl⟩
        · cases hact₁
        · cases hact₁
          exact .inr ⟨b, e, front, hl, rfl, rfl, hl₁, hb, rfl⟩
    · cases hact

end Record

/-- A decoder whose `decode` goes through the stages. -/
abbrev stagedDecoder (hdecode : ∀ (d : D) max (P A : Bytes), (S.stage d = .salt → pending d = 0) →
    P.length = pending d → decode d max (P ++ A) = answer P A (Staged.run (S.machine max) (setPending d 0) A)) :
    StagedDecoder D where
  machine := S.machine
  machine_max _ := rfl
  AtStart d := S.stage d = .salt
  pending_set := S.pending_set
  set_set := S.set_set
  set_pending := S.set_pending
  atStart_set d p := by rw [S.stage_set]
  act_next h := ⟨(act_next h).1, (act_next h).2.1⟩
  act_emit h := ⟨(act_emit h).1, by rw [(act_emit h).2.1]; nofun⟩
  act_fail h := (act_fail h).1
  decode_eq := hdecode

/-! ## Deriving the key outside -/

section Kdf

variable {S}

/-- `maybe_install_kdf` does nothing, or what the salt stage would. -/
theorem installKdf_cases (d : D) (A : Bytes) :
    installKdf C (S.psk d) d A = .ok d ∨
      (S.stage d = .salt ∧ S.hasKey d = false ∧ S.saltEnd d ≤ A.length ∧
        installKdf C (S.psk d) d A = S.derived d A) := by
  have hneed := S.kdfNeed_eq d
  have hpos := S.saltEnd_pos d
  cases hs : S.stage d with
  | header | body => left; simp only [installKdf, hneed, hs, true_or, ↓reduceIte]
  | salt =>
    cases hk : S.hasKey d with
    | true => left; simp only [installKdf, hneed, hs, hk, true_or, ↓reduceIte]
    | false =>
      rw [hs, hk] at hneed
      by_cases hl : A.length < S.saltEnd d
      · left
        simp only [installKdf, hneed]
        rw [if_pos (.inr hl)]
      · refine .inr ⟨rfl, rfl, by omega, ?_⟩
        simp only [installKdf, hneed]
        rw [if_neg (by omega)]
        simp only [derived, Crypto.derive, bind, Except.bind]
        cases kdfSalt d A with
        | error f => rfl
        | ok salt =>
          simp only
          cases C.aeadKeyRes (S.psk d).bytes salt with
          | error f => rfl
          | ok key =>
            simp only [S.installAead_eq]
            cases C.aesNew key <;> rfl

theorem derived_take (d : D) {A : Bytes} (hl : S.saltEnd d ≤ A.length) :
    S.derived d (A.take (S.saltEnd d)) = S.derived d A := by
  simp only [derived, S.kdfSalt_take d hl]

/-- The salt stage of a decoder without a key. -/
theorem act_keyless {d : D} {A : Bytes} (m : Bytes) (hs : S.stage d = .salt) (hk : S.hasKey d = false)
    (hl : S.saltEnd d ≤ A.length) :
    S.act d ((A ++ m).take (S.saltEnd d)) = match S.derived d A with
      | .error f => .fail f (A.take (S.saltEnd d)) d
      | .ok d' => .next (S.toHeader d') := by
  rw [List.take_append_of_le_length hl, act_salt hs, readSalt, hk, derived_take d hl]
  cases S.derived d A <;> rfl

theorem run_installed {d d' : D} {A : Bytes} (max : Nat) (m : Bytes) (hs : S.stage d = .salt) (hk : S.hasKey d = false)
    (hl : S.saltEnd d ≤ A.length) (hm : S.saltEnd d ≤ max) (hd : S.derived d A = .ok d') :
    Staged.run (S.machine max) d' (A ++ m) = Staged.run (S.machine max) d (A ++ m) := by
  have hn : (S.machine max).needed d = S.saltEnd d := by simp only [machine, needed, hs]
  have hlen : S.saltEnd d ≤ (A ++ m).length := by simp only [List.length_append]; omega
  have hact := act_keyless m hs hk hl
  rw [hd] at hact
  rw [Staged.run_next (M := S.machine max) (s := d) (by rw [hn]; exact hm) (by rw [hn]; exact hlen)
    (by rw [hn]; exact hact)]
  obtain ⟨salt, key, _, _, rfl⟩ := derived_ok hd
  have hs' : S.stage (S.setKey d salt key) = .salt := (S.stage_setKey d salt key).trans hs
  have hn' : (S.machine max).needed (S.setKey d salt key) = S.saltEnd d := by
    simp only [machine, needed, hs', S.saltEnd_setKey]
  refine Staged.run_next (M := S.machine max) (by rw [hn']; exact hm) (by rw [hn']; exact hlen) ?_
  change S.act _ _ = _
  simp only [act_salt hs', readSalt, S.hasKey_setKey, ↓reduceIte]

variable (S)

/-- Its key may be derived outside. -/
abbrev kdfDecoder [T : StagedDecoder D] (hmachine : T.machine = S.machine)
    (hstart : T.AtStart = fun d => S.stage d = .salt) : KdfDecoder C D where
  psk := S.psk
  psk_set := S.psk_set
  act_psk d l := by rw [hmachine]; exact act_psk d l
  install_ok {d d' A} _ h := by
    rw [hmachine, hstart]
    rcases installKdf_cases (S := S) d A with hi | ⟨hs, hk, hl, hi⟩
    · rw [hi] at h; cases h; exact ⟨rfl, rfl, id, .inl rfl⟩
    · rw [hi] at h
      have hrun := fun max m hm => run_installed max m hs hk hl hm h
      obtain ⟨salt, key, _, _, rfl⟩ := derived_ok h
      refine ⟨S.pending_setKey _ _ _, S.psk_setKey _ _ _, fun h => (S.stage_setKey d salt key).symm.trans h,
        .inr ⟨hs, fun max m hm => hrun max m ?_⟩⟩
      simpa only [machine, needed, hs] using hm
  install_error {d A f} _ h := by
    rw [hmachine, hstart]
    rcases installKdf_cases (S := S) d A with hi | ⟨hs, hk, hl, hi⟩
    · rw [hi] at h; cases h
    · rw [hi] at h
      refine ⟨hs, fun max m hm => ?_⟩
      have hn : (S.machine max).needed d = S.saltEnd d := by simp only [machine, needed, hs]
      have hact := act_keyless m hs hk hl
      rw [h] at hact
      exact ⟨_, _, Staged.run_fail (M := S.machine max) hm (by rw [hn]; simp only [List.length_append]; omega)
        (by rw [hn]; exact hact)⟩
  install_late d A := by
    rw [hmachine]
    rcases installKdf_cases (S := S) d A with hi | ⟨hs, -, hl, -⟩
    · exact .inl hi
    · refine .inr fun max => ?_
      simpa only [machine, needed, hs] using hl

end Kdf

end Stages

end Snell
