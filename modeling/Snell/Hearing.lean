/-
What an end of a connection has heard.

`Receiving` starts where a future starts to read. A connection outlives its
futures: the records read since its beginning are those read before a future
and those the future reads (`Heard.andThen`), and on the wire of a sender it is
in step with they are a front of what the sender sealed (`Reads.heard`).
-/
import Snell.Receiving
import Snell.RoundTrip
import Snell.Segments

namespace Snell

open RecordDecoder StagedDecoder Staged Segments

/-! ## Messages -/

/-- A record as the protocol sees it: payload, or the end of a stream. -/
def Item.msg (x : Item × Bytes) : Msg UInt8 :=
  match x.1 with
  | .data _ _ => .item (Item.plain x)
  | .zeroChunk => .stop

/-- The record sealed from `payload`. -/
def sealedMsg (payload : Bytes) : Msg UInt8 := if payload = [] then .stop else .item payload

def heardMsgs (xs : List (Item × Bytes)) : List (Msg UInt8) := xs.map Item.msg

def sealedMsgs (records : List (Bytes × Bytes)) : List (Msg UInt8) := records.map fun r => sealedMsg r.1

@[simp] theorem heardMsgs_append (xs ys : List (Item × Bytes)) : heardMsgs (xs ++ ys) = heardMsgs xs ++ heardMsgs ys :=
  List.map_append

@[simp] theorem sealedMsgs_append (rs rs' : List (Bytes × Bytes)) :
    sealedMsgs (rs ++ rs') = sealedMsgs rs ++ sealedMsgs rs' :=
  List.map_append

theorem Item.Shows.msg {item : Item} {wire payload : Bytes} (h : item.Shows wire payload) :
    Item.msg (item, wire) = sealedMsg payload := by
  cases item with
  | data i j =>
    obtain ⟨hne, -, -, hpayload⟩ := h
    rw [sealedMsg, if_neg hne, ← hpayload]
    rfl
  | zeroChunk =>
    rw [sealedMsg, if_pos (show payload = [] from h)]
    rfl

/-- Data goes to the open segment. -/
theorem cutFrom_heard (s : Cut UInt8) {xs : List (Item × Bytes)} (hdata : ∀ x ∈ xs, Item.isData x = true) :
    cutFrom s (heardMsgs xs) = s.grown (Item.plainOf xs) false := by
  induction xs generalizing s with
  | nil => exact (Cut.grown_nil s).symm
  | cons x xs ih =>
    obtain ⟨hx, hxs⟩ := List.forall_mem_cons.mp hdata
    have hmsg : Item.msg x = .item (Item.plain x) := by
      obtain ⟨item, w⟩ := x
      cases item with
      | data i j => rfl
      | zeroChunk => cases hx
    rw [heardMsgs, List.map_cons, cutFrom_cons, hmsg]
    refine (ih _ hxs).trans ?_
    simp [Cut.grown, Cut.step]

/-- A zero chunk behind it closes the segment. -/
theorem cutFrom_heard_zero (s : Cut UInt8) {xs : List (Item × Bytes)} (hdata : ∀ x ∈ xs, Item.isData x = true)
    {z : Item × Bytes} (hz : Item.isData z = false) :
    cutFrom s (heardMsgs (xs ++ [z])) = s.grown (Item.plainOf (xs ++ [z])) true := by
  obtain ⟨item, w⟩ := z
  cases item with
  | data i j => cases hz
  | zeroChunk =>
    rw [heardMsgs_append, cutFrom_append, cutFrom_heard s hdata, Item.plainOf_append]
    simp [heardMsgs, Item.msg, Cut.grown, Cut.step, Item.plainOf, Item.plain]

theorem cutFrom_sealed (s : Cut UInt8) {records : List (Bytes × Bytes)} (hdata : ∀ r ∈ records, r.1 ≠ []) :
    cutFrom s (sealedMsgs records) = s.grown (records.map Prod.fst).flatten false := by
  induction records generalizing s with
  | nil => exact (Cut.grown_nil s).symm
  | cons r records ih =>
    obtain ⟨hr, hrecords⟩ := List.forall_mem_cons.mp hdata
    rw [sealedMsgs, List.map_cons, cutFrom_cons, sealedMsg, if_neg hr]
    refine (ih _ hrecords).trans ?_
    simp [Cut.grown, Cut.step]

theorem cutFrom_sealed_zero (s : Cut UInt8) {records : List (Bytes × Bytes)} (hdata : ∀ r ∈ records, r.1 ≠ [])
    (zero : Bytes) :
    cutFrom s (sealedMsgs (records ++ [([], zero)])) = s.grown ((records ++ [([], zero)]).map Prod.fst).flatten true := by
  rw [sealedMsgs_append, cutFrom_append, cutFrom_sealed s hdata]
  simp [sealedMsgs, sealedMsg, Cut.grown, Cut.step]

/-! ## Since the beginning -/

variable {C : Crypto} {D : Type} [RecordDecoder D] [StagedDecoder D] {max taken : Nat}
  {d₀ d d' : D} {stream rest : Bytes} {xs ys : List (Item × Bytes)} {b : Buffer}

/-- Of `stream` the records `xs` were read, from `d₀` on. -/
def Hears (max : Nat) (d₀ : D) (stream : Bytes) (xs : List (Item × Bytes)) : Prop :=
  ∃ d₁ rest, Parses (machine max) d₀ stream xs d₁ rest

/-- And `d` goes on behind them, with `rest` in front of what comes. -/
def Heard (max : Nat) (d₀ : D) (stream : Bytes) (xs : List (Item × Bytes)) (d : D) (rest : Bytes) : Prop :=
  ∃ d₁, Parses (machine max) d₀ stream xs d₁ rest ∧
    ∀ m, run (machine max) (setPending d 0) (rest ++ m) = run (machine max) d₁ (rest ++ m)

theorem Heard.hears (h : Heard max d₀ stream xs d rest) : Hears max d₀ stream xs := by
  obtain ⟨d₁, hparses, -⟩ := h
  exact ⟨d₁, rest, hparses⟩

theorem Reading.heard [KdfDecoder C D] (h : Reading C max d₀ stream xs taken rest d) : Heard max d₀ stream xs d rest := by
  obtain ⟨d₁, -, hparses, hrun⟩ := h.reads
  exact ⟨d₁, hparses, hrun⟩

/-- What is read from `d` on is read behind what was heard. -/
theorem Heard.parses (h : Heard max d₀ stream xs d rest) (hp : pending d = 0) {m rest' : Bytes}
    (hparses : Parses (machine max) d (rest ++ m) ys d' rest') :
    ∃ d₁, Parses (machine max) d₀ (stream ++ m) (xs ++ ys) d₁ rest' ∧
      ((ys = [] ∧ d' = d ∧ rest' = rest ++ m ∧ ∀ m',
      run (machine max) d (rest' ++ m') = run (machine max) d₁ (rest' ++ m')) ∨
        d₁ = d') := by
  obtain ⟨d₁, hfirst, hrun⟩ := h
  rw [set_zero hp] at hrun
  cases hparses with
  | refl =>
    refine ⟨d₁, ?_, .inl ⟨rfl, rfl, rfl, fun m' => ?_⟩⟩
    · rw [List.append_nil]
      exact hfirst.append m
    · rw [List.append_assoc]
      exact hrun _
  | emit hr hrest =>
    rw [hrun m] at hr
    exact ⟨d', (hfirst.append m).trans (.emit hr hrest), .inr rfl⟩

/-- A future read `ys`, where `xs` were heard before it. -/
theorem Heard.andThen [KdfDecoder C D] [SafeDecoder D] (h : Heard max d₀ stream xs d rest) (hp : pending d = 0)
    {m rest' : Bytes} (h' : Receiving C max d (rest ++ m) ys taken rest' d' b) :
    Heard max d₀ (stream ++ m) (xs ++ ys) d' rest' := by
  obtain ⟨d₂, -, hparses, hrun⟩ := h'.reading.reads
  obtain ⟨d₁, hall, ⟨-, rfl, rfl, hsame⟩ | rfl⟩ := h.parses hp hparses
  · exact ⟨d₁, hall, fun m' => (hrun m').trans (hsame m')⟩
  · exact ⟨d₁, hall, hrun⟩

/-- The same where the future came to a record it could not read. -/
theorem Heard.andEnds (h : Heard max d₀ stream xs d rest) (hp : pending d = 0) {m : Bytes} {f : Fault}
    (h' : Ends max d (rest ++ m) ys f) : Ends max d₀ (stream ++ m) (xs ++ ys) f := by
  obtain ⟨d₂, rest', l, d₃, hparses, hfail⟩ := h'
  obtain ⟨d₁, hall, ⟨-, rfl, rfl, hsame⟩ | rfl⟩ := h.parses hp hparses
  · have := hsame []
    rw [List.append_nil] at this
    exact ⟨d₁, _, l, d₃, hall, this ▸ hfail⟩
  · exact ⟨d₁, rest', l, d₃, hall, hfail⟩

theorem Ends.hears {f : Fault} (h : Ends max d₀ stream xs f) : Hears max d₀ stream xs := by
  obtain ⟨d₁, rest, l, d₂, hparses, -⟩ := h
  exact ⟨d₁, rest, hparses⟩

/-! ## On the wire of a sender -/

section Wire

variable {M : Staged.Machine D Item Fault UInt8} {records : List (Bytes × Bytes)}

omit [StagedDecoder D] in
/-- What is read of a front of a readable wire is a front of its records. -/
theorem Reads.parsed {A rest' unread : Bytes} (h : Reads M d records) (hA : A ++ unread = wireOf records)
    (hparses : Parses M d A xs d' rest') : heardMsgs xs <+: sealedMsgs records := by
  induction hparses generalizing records with
  | refl => exact List.nil_prefix
  | emit hr _ ih =>
    rcases h.answer hA with ⟨k, d'', hneed, -⟩ | ⟨payload, wire, later, item, wire', d'', A', rfl, rfl, hemit,
      hlen, hshow, hrest⟩
    · rw [hneed] at hr
      cases hr
    · rw [hemit] at hr
      cases hr
      have htake : (wire' ++ A').take wire.length = wire' := by rw [← hlen, List.take_left]
      have hdrop : (wire' ++ A').drop wire.length = A' := by rw [← hlen, List.drop_left]
      rw [hdrop] at ih
      rw [wireOf_cons, List.append_assoc] at hA
      have htail := ih hrest (List.append_cancel_left hA)
      rw [heardMsgs, List.map_cons, htake, hshow.msg]
      exact (List.prefix_cons_inj _).mpr htail

end Wire

section InStep

open LawfulEncoder

variable {E : Type} [RecordEncoder E] [EncoderSpec E] [LawfulEncoder E]

/-- `d` reads every chain of frames from `p`. -/
def InStep (E : Type) [RecordEncoder E] [EncoderSpec E] [LawfulEncoder E] (max : Nat) (p : Pos E) (d : D) : Prop :=
  ∀ records p', Chain Frame p records p' → Reads (machine max) d records

/-- The messages heard of what a sender wrote are a front of those it sealed. -/
theorem InStep.heard {p p' : Pos E} {records : List (Bytes × Bytes)} (h : InStep E max p d₀)
    (hchain : Chain Frame p records p') {unread : Bytes} (hwire : stream ++ unread <+: wireOf records)
    (hears : Hears max d₀ stream xs) : heardMsgs xs <+: sealedMsgs records := by
  obtain ⟨d₁, rest, hparses⟩ := hears
  obtain ⟨m, hm⟩ := hwire
  exact (h _ _ hchain).parsed (by rw [← hm, List.append_assoc]) hparses

end InStep

end Snell
