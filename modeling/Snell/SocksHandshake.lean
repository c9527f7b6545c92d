/-
The SOCKS5 handshakes of the runtime: the front end's (`client/socks.rs`,
`accept_socks5`) and the one towards a SOCKS5 outbound (`server/outbound.rs`,
`socks5_request`).

Both read a message by asking its parser how much is missing and reading
exactly that. Such a loop gives what the parser says of the whole stream, and
on success leaves what is behind the message (`readMessage_answer`).
-/
import Snell.Streaming
import Snell.SessionWrite

namespace Snell

/-- What a socket is to deliver: bytes, and then the error `read_exact` ends
in (`UnexpectedEof` where the peer closes). -/
structure Incoming where
  bytes : Bytes
  ending : IoErrorKind

/-- `read_exact` of `n` bytes. What was read before a failure is gone. -/
def Incoming.readExact (s : Incoming) (n : Nat) : SessionRes Bytes × Incoming :=
  if n ≤ s.bytes.length then (.ok (s.bytes.take n), { s with bytes := s.bytes.drop n })
  else (.error (.err (.io s.ending)), { s with bytes := [] })

/-- `write_all` -/
def writeAll {W : Type} [AsyncWrite W] (w : W) (bytes : Bytes) : SessionRes Unit × W := writeAllBuf bytes.length w bytes

namespace Socks5

/-- The reading loop around a parser, over a buffer of `cap` bytes: `filled` is
`buf[..filled]`, and `oversized` what is reported where the buffer is too
short. `fuel` counts the turns. -/
def readMessage {α : Type} (need : Bytes → Res (ParseState α)) (cap : Nat) (oversized : String) :
    (fuel : Nat) → Incoming → (filled : Bytes) → SessionRes α × Incoming
  | 0, s, _ => (.error .diverged, s)
  | fuel + 1, s, filled =>
    match need filled with
    | .error f => (.error f.inSession, s)
    | .ok (.done a) => (.ok a, s)
    | .ok (.need total) =>
      if total < filled.length ∨ cap < total then (.error (.err (.ofProtocol (.malformed oversized))), s)
      else
        match s.readExact (total - filled.length) with
        | (.error f, s) => (.error f, s)
        | (.ok missing, s) => readMessage need cap oversized fuel s (filled ++ missing)

/-! ## The front end -/

inductive Socks5Command where
  | connect (destination : Address)
  | udpAssociate
  deriving DecidableEq

def GreetingRef.supports (g : GreetingRef) (method : UInt8) : Bool := g.methods.contains method

/-- `SocketAddr::from((Ipv4Addr::UNSPECIFIED, 0))` -/
def unspecified : SocketAddr := .v4 (.replicate 4 0) 0

def readGreeting (s : Incoming) : SessionRes GreetingRef × Incoming :=
  readMessage greetingNeed maxGreetingLen "oversized socks5 greeting" (maxGreetingLen + 1) s []

def readRequest (s : Incoming) : SessionRes RequestRef × Incoming :=
  readMessage requestNeed maxRequestLen "oversized socks5 request" (maxRequestLen + 1) s []

def readReply (s : Incoming) : SessionRes ReplyRef × Incoming :=
  readMessage replyNeed maxRequestLen "oversized socks5 reply" (maxRequestLen + 1) s []

section Handshakes

variable {W : Type} [AsyncWrite W]

/-- What an encoder wrote into a buffer is sent. -/
def writeEncoded (w : W) (encoded : Res (Nat × Bytes)) : SessionRes Unit × W :=
  match encoded with
  | .error f => (.error f.inSession, w)
  | .ok (n, buf) => writeAll w (buf.take n)

def writeMethod (w : W) (method : UInt8) : SessionRes Unit × W :=
  writeEncoded w (encodeMethodSelection (List.replicate 2 0) method)

def writeSocks5ReplyBind (w : W) (reply : Reply) (bind : SocketAddr) : SessionRes Unit × W :=
  writeEncoded w (encodeReply (List.replicate maxRequestLen 0) reply (.ip bind))

def writeSocks5Reply (w : W) (reply : Reply) : SessionRes Unit × W := writeSocks5ReplyBind w reply unspecified

/-- What a request asks for; the rest is refused. -/
def acceptRequest (request : RequestRef) (s : Incoming) (w : W) : SessionRes Socks5Command × Incoming × W :=
  match request.command with
  | .connect => (.ok (.connect request.destination), s, w)
  | .udpAssociate => (.ok .udpAssociate, s, w)
  | _ =>
    match writeSocks5Reply w .commandNotSupported with
    | (.error f, w) => (.error f, s, w)
    | (.ok (), w) => (.error (.err .commandNotSupported), s, w)

def acceptSocks5 (s : Incoming) (w : W) : SessionRes Socks5Command × Incoming × W :=
  match readGreeting s with
  | (.error f, s) => (.error f, s, w)
  | (.ok greeting, s) =>
    if greeting.supports methodNoAuth then
      match writeMethod w methodNoAuth with
      | (.error f, w) => (.error f, s, w)
      | (.ok (), w) =>
        match readRequest s with
        | (.error f, s) => (.error f, s, w)
        | (.ok request, s) => acceptRequest request s w
    else
      match writeMethod w methodNoAcceptable with
      | (.error f, w) => (.error f, s, w)
      | (.ok (), w) => (.error (.err .noAcceptableMethod), s, w)

/-! ## Towards an outbound -/

/-- The method selection that answers the greeting. -/
def readMethod (s : Incoming) : SessionRes Unit × Incoming :=
  match s.readExact 2 with
  | (.error f, s) => (.error f, s)
  | (.ok buf, s) =>
    match methodSelectionNeed buf with
    | .error f => (.error f.inSession, s)
    | .ok (.need _) => (.error (.err (.io .unexpectedEof)), s)
    | .ok (.done method) =>
      if method = methodNoAuth then (.ok (), s) else (.error (.err .noAcceptableMethod), s)

def socks5Request (s : Incoming) (w : W) (command : Command) (destination : Address) :
    SessionRes Address × Incoming × W :=
  match writeEncoded w (encodeGreeting (List.replicate maxRequestLen 0) [methodNoAuth]) with
  | (.error f, w) => (.error f, s, w)
  | (.ok (), w) =>
    match readMethod s with
    | (.error f, s) => (.error f, s, w)
    | (.ok (), s) =>
      match writeEncoded w (encodeRequest (List.replicate maxRequestLen 0) command destination) with
      | (.error f, w) => (.error f, s, w)
      | (.ok (), w) =>
        match readReply s with
        | (.error f, s) => (.error f, s, w)
        | (.ok reply, s) =>
          if reply.reply = .succeeded then (.ok reply.bind, s, w) else (.error (.err (.io .other)), s, w)

end Handshakes

/-! ## Reading a message -/

section Reading

variable {α : Type} {need : Bytes → Res (ParseState α)} {consumed : α → Nat} {cap : Nat}

/-- What a loop returns around a parser, having read `filled` of a message
before: what the parser says of all that is to come. -/
inductive Answer (need : Bytes → Res (ParseState α)) (consumed : α → Nat) (filled : Bytes) (s : Incoming) :
    SessionRes α × Incoming → Prop
  | done {a message rest} : need (filled ++ message) = .ok (.done a) → s.bytes = message ++ rest →
      consumed a = (filled ++ message).length →
      Answer need consumed filled s (.ok a, { s with bytes := rest })
  | error {err read rest} : need (filled ++ s.bytes) = .error (.err err) → s.bytes = read ++ rest →
      Answer need consumed filled s (.error (.err (.ofProtocol err)), { s with bytes := rest })
  | ended : (∀ a, need (filled ++ s.bytes) ≠ .ok (.done a)) →
      Answer need consumed filled s (.error (.err (.io s.ending)), { s with bytes := [] })

/-- A turn that reads some of it. -/
theorem Answer.of_read {s : Incoming} {filled got rest : Bytes} {r : SessionRes α × Incoming} (hs : s.bytes = got ++ rest)
    (h : Answer need consumed (filled ++ got) { s with bytes := rest } r) : Answer need consumed filled s r := by
  have hall : filled ++ got ++ rest = filled ++ s.bytes := by rw [hs, List.append_assoc]
  cases h with
  | @done a message left hneed hrest hlen =>
    simp only at hrest
    rw [List.append_assoc] at hneed hlen
    exact .done hneed (by rw [hs, hrest, List.append_assoc]) hlen
  | @error err read left hneed hrest =>
    simp only at hrest
    rw [hall] at hneed
    exact .error hneed (by rw [hs, hrest, List.append_assoc])
  | ended hneed =>
    rw [hall] at hneed
    exact .ended hneed

theorem readMessage_from (h : Streams need consumed) (hcap : ∀ {s n}, need s = .ok (.need n) → n ≤ cap)
    (oversized : String) {fuel : Nat} (s : Incoming) (filled : Bytes) (hfuel : cap - filled.length < fuel)
    (hfilled : ∀ t a, need (filled ++ t) = .ok (.done a) → filled.length ≤ consumed a) :
    Answer need consumed filled s (readMessage need cap oversized fuel s filled) := by
  -- each turn reads at least a byte, and no more than the message has
  induction fuel generalizing s filled with
  | zero => omega
  | succ fuel ih =>
    cases hneed : need filled with
    | error f =>
      obtain ⟨⟨err, rfl⟩, hstable⟩ := h.error_append hneed
      simp only [readMessage, hneed]
      exact .error (hstable _) (List.nil_append _).symm
    | ok state =>
      cases state with
      | done a =>
        obtain ⟨hle, -⟩ := h.done_append hneed
        have hge := hfilled [] a (by rw [List.append_nil]; exact hneed)
        simp only [readMessage, hneed]
        have hall : filled ++ [] = filled := List.append_nil _
        exact .done (by rw [hall]; exact hneed) (List.nil_append _).symm (by rw [hall]; omega)
      | need total =>
        obtain ⟨hlt, hbound⟩ := h.need_bound hneed
        have htotal := hcap hneed
        simp only [readMessage, hneed, Incoming.readExact]
        rw [if_neg (by omega)]
        by_cases hmissing : total - filled.length ≤ s.bytes.length
        · rw [if_pos hmissing]
          have hlen : (filled ++ s.bytes.take (total - filled.length)).length = total := by
            rw [List.length_append, List.length_take]; omega
          refine .of_read (List.take_append_drop (total - filled.length) s.bytes).symm (ih _ _ (by omega) ?_)
          intro t a ht
          rw [hlen]
          rw [List.append_assoc] at ht
          exact hbound _ a ht
        · rw [if_neg hmissing]
          refine .ended fun a ha => ?_
          have hlong := hbound _ a ha
          have hshort := (h.done_append ha).1
          rw [List.length_append] at hshort
          omega

/-- **Reading a message** gives what the parser says of the stream, and a
message that is accepted is all that was read. -/
theorem readMessage_answer (h : Streams need consumed) (hcap : ∀ {s n}, need s = .ok (.need n) → n ≤ cap)
    (oversized : String) (s : Incoming) :
    Answer need consumed [] s (readMessage need cap oversized (cap + 1) s []) :=
  readMessage_from h hcap oversized s [] (by simp) fun _ _ _ => Nat.zero_le _

theorem readGreeting_answer (s : Incoming) : Answer greetingNeed GreetingRef.consumedLen [] s (readGreeting s) :=
  readMessage_answer greetingNeed_streams greetingNeed_le _ s

theorem readRequest_answer (s : Incoming) : Answer requestNeed RequestRef.headerLen [] s (readRequest s) :=
  readMessage_answer requestNeed_streams requestNeed_le _ s

theorem readReply_answer (s : Incoming) : Answer replyNeed ReplyRef.headerLen [] s (readReply s) :=
  readMessage_answer replyNeed_streams replyNeed_le _ s

end Reading

/-! ## How a handshake ends -/

/-- What a loop reports where its buffer is too short for the message. -/
def Oversized (f : SessionFault) : Prop :=
  ∃ what ∈ ["oversized socks5 greeting", "oversized socks5 request", "oversized socks5 reply"],
    f = .err (.protocol (.malformed what))

theorem not_oversized_io (kind : IoErrorKind) : ¬ Oversized (.err (.io kind)) := by
  rintro ⟨what, -, h⟩
  cases h

/-- A protocol error that is no complaint about a buffer. -/
theorem not_oversized_protocol {err : Error} (h : ∀ what, err = .malformed what → what = "empty method list") :
    ¬ Oversized (.err (.ofProtocol err)) := by
  rintro ⟨what, hmem, hf⟩
  cases err with
  | malformed what' =>
    cases hf
    rw [h what rfl] at hmem
    exact absurd hmem (by decide)
  | _ => cases hf

theorem greetingNeed_malformed {s : Bytes} {err : Error} (h : greetingNeed s = .error (.err err)) (what : String)
    (herr : err = .malformed what) : what = "empty method list" := by
  subst herr
  unfold greetingNeed at h
  split at h
  · split at h
    · cases h
    · split at h
      · cases h; rfl
      · dsimp only at h
        split at h <;> cases h
  · cases h

theorem splitHostPort_malformed {src : Bytes} {what : String} : splitHostPort src ≠ .error (.err (.malformed what)) := by
  intro h
  unfold splitHostPort at h
  repeat' split at h
  all_goals cases h

theorem parseTail_malformed {atyp : UInt8} {tail : Bytes} {what : String} :
    parseTail atyp tail ≠ .error (.err (.malformed what)) := by
  have hip : ∀ o : Option SocketAddr,
      (do let addr ← okOr o .truncated; return .ip addr : Res Address) ≠ .error (.err (.malformed what)) := by
    intro o
    cases o <;> nofun
  intro h
  unfold parseTail at h
  split at h
  · exact hip _ h
  · split at h
    · exact hip _ h
    · simp only [bind, Except.bind] at h
      split at h
      · next hsplit => cases h; exact splitHostPort_malformed hsplit
      · cases h

theorem parseAddr_malformed {buf : Bytes} {what : String} : parseAddr buf ≠ .error (.err (.malformed what)) := by
  intro h
  unfold parseAddr at h
  split at h
  · next hlen =>
    cases h
    unfold addrLen at hlen
    repeat' split at hlen
    all_goals cases hlen
  · cases h
  · split at h
    · cases h
    · split at h
      · cases h
      · simp only [bind, Except.bind] at h
        split at h
        · next htail => cases h; exact parseTail_malformed htail
        · cases h

theorem parseCmdAddr_malformed {α : Type} {build : UInt8 → Address → Nat → α} {buf : Bytes} {what : String} :
    parseCmdAddr buf build ≠ .error (.err (.malformed what)) := by
  intro h
  unfold parseCmdAddr at h
  split at h
  · split at h
    · cases h
    · split at h
      · cases h
      · simp only [bind, Except.bind] at h
        split at h
        · next haddr => cases h; exact parseAddr_malformed haddr
        · split at h <;> cases h
  · cases h

section Ends

variable {W : Type} [AsyncWrite W] {α : Type}

/-- The writer claims to have taken more than it was offered. -/
def Overreports (W : Type) [AsyncWrite W] : Prop :=
  ∃ (w : W) (bytes : Bytes) (n : Nat) (w' : W), AsyncWrite.write w bytes = (.ok n, w') ∧ bytes.length < n

/-- A call that came to an end: it did not run on, no message was too long for
its buffer, and no index was out of range, unless the writer lies. -/
def Ended (W : Type) [AsyncWrite W] (r : SessionRes α) : Prop :=
  ∀ f, r = .error f → f ≠ .diverged ∧ ¬ Oversized f ∧ (f = .panic → Overreports W)

theorem Ended.ok (a : α) : Ended W (.ok a) := nofun

theorem Ended.io (kind : IoErrorKind) : Ended W (.error (.err (.io kind)) : SessionRes α) := by
  rintro _ ⟨⟩
  exact ⟨nofun, not_oversized_io kind, nofun⟩

theorem Ended.protocol {err : Error} (h : ∀ what, err = .malformed what → what = "empty method list") :
    Ended W (.error (.err (.ofProtocol err)) : SessionRes α) := by
  rintro _ ⟨⟩
  exact ⟨nofun, not_oversized_protocol h, nofun⟩

theorem Ended.error {β : Type} {f : SessionFault} (h : Ended W (.error f : SessionRes α)) :
    Ended W (.error f : SessionRes β) := by
  rintro _ ⟨⟩
  exact h f rfl

/-- An accepted message is what was read. -/
theorem Answer.ok {need : Bytes → Res (ParseState α)} {consumed : α → Nat} {s s' : Incoming} {a : α}
    (h : Answer need consumed [] s (.ok a, s')) :
    ∃ message, s.bytes = message ++ s'.bytes ∧ need message = .ok (.done a) ∧ consumed a = message.length := by
  cases h with
  | done hneed hbytes hlen => exact ⟨_, hbytes, hneed, hlen⟩

theorem Ended.of_answer {need : Bytes → Res (ParseState α)} {consumed : α → Nat} {s : Incoming}
    {r : SessionRes α × Incoming} (h : Answer need consumed [] s r)
    (hneed : ∀ {s err}, need s = .error (.err err) → ∀ what, err = .malformed what → what = "empty method list") :
    Ended W r.1 := by
  cases h with
  | done _ _ _ => exact .ok _
  | error herr _ => exact .protocol (hneed herr)
  | ended _ => exact .io _

theorem writeAllBuf_ended {fuel : Nat} (w : W) (bytes : Bytes) (h : bytes.length ≤ fuel) :
    Ended W (writeAllBuf fuel w bytes).1 := by
  induction fuel generalizing w bytes with
  | zero =>
    cases List.eq_nil_of_length_eq_zero (Nat.le_zero.mp h)
    exact .ok _
  | succ fuel ih =>
    cases bytes with
    | nil => exact .ok _
    | cons b bytes =>
      simp only [writeAllBuf]
      rcases hwrite : AsyncWrite.write w (b :: bytes) with ⟨kind | n, w'⟩
      · exact .io kind
      · simp only
        split
        · exact .io _
        · split
          · next hlong =>
            rintro _ ⟨⟩
            exact ⟨nofun, nofun, fun _ => ⟨w, b :: bytes, n, w', hwrite, hlong⟩⟩
          · refine ih w' _ ?_
            rw [List.length_drop]
            omega

theorem writeEncoded_ended (w : W) {encoded : Res (Nat × Bytes)}
    (h : ∀ f, encoded = .error f → ∃ err, f = .err err ∧ ∀ what, err ≠ .malformed what) :
    Ended W (writeEncoded w encoded).1 := by
  cases encoded with
  | error f =>
    obtain ⟨err, rfl, hne⟩ := h f rfl
    exact .protocol fun what hwhat => absurd hwhat (hne what)
  | ok r => exact writeAllBuf_ended w _ (Nat.le_refl _)

theorem fillPrefix_error {dst image : Bytes} {needed : Nat} {f : Fault} (himage : image.length = needed)
    (h : fillPrefix dst needed image = .error f) : ∃ err, f = .err err ∧ ∀ what, err ≠ .malformed what := by
  unfold fillPrefix at h
  split at h
  · cases h; exact ⟨_, rfl, nofun⟩
  · rw [if_neg (not_not.mpr himage)] at h
    cases h

theorem encodeThreeAddr_error {dst : Bytes} {b₀ b₁ b₂ : UInt8} {address : Address} {f : Fault}
    (h : encodeThreeAddr dst b₀ b₁ b₂ address = .error f) : ∃ err, f = .err err ∧ ∀ what, err ≠ .malformed what := by
  unfold encodeThreeAddr at h
  rcases encodedAddrLen_cases address with hlen | hlen | hlen
  · simp only [hlen, bind, Except.bind] at h
    exact fillPrefix_error (by rw [List.length_append]; rfl) h
  · rw [hlen] at h
    cases h
    exact ⟨_, rfl, nofun⟩
  · rw [hlen] at h
    cases h
    exact ⟨_, rfl, nofun⟩

theorem encodeRequest_error {dst : Bytes} {command : Command} {destination : Address} {f : Fault}
    (h : encodeRequest dst command destination = .error f) : ∃ err, f = .err err ∧ ∀ what, err ≠ .malformed what :=
  encodeThreeAddr_error h

theorem encodeGreeting_error {dst : Bytes} {method : UInt8} {f : Fault} (h : encodeGreeting dst [method] = .error f) :
    ∃ err, f = .err err ∧ ∀ what, err ≠ .malformed what := by
  rw [encodeGreeting, if_neg (List.cons_ne_nil _ _)] at h
  exact fillPrefix_error (by rfl) h

theorem writeMethod_ended (w : W) (method : UInt8) : Ended W (writeMethod w method).1 :=
  writeEncoded_ended w fun _ => fillPrefix_error rfl

theorem writeSocks5Reply_ended (w : W) (reply : Reply) : Ended W (writeSocks5Reply w reply).1 := by
  unfold writeSocks5Reply writeSocks5ReplyBind encodeReply
  exact writeEncoded_ended w fun _ => encodeThreeAddr_error

/-! ## The front end's handshake -/

/-- The command a request stands for. -/
def Asks (request : RequestRef) (command : Socks5Command) : Prop :=
  (request.command = .connect ∧ command = .connect request.destination) ∨
    (request.command = .udpAssociate ∧ command = .udpAssociate)

/-- What was read where `accept_socks5` returned a command: a greeting and a
request, and nothing behind them. -/
def Accepted (s : Incoming) (command : Socks5Command) (s' : Incoming) : Prop :=
  ∃ greeting request greetingBytes requestBytes,
    s.bytes = greetingBytes ++ requestBytes ++ s'.bytes ∧
    greetingNeed greetingBytes = .ok (.done greeting) ∧ greeting.consumedLen = greetingBytes.length ∧
    requestNeed requestBytes = .ok (.done request) ∧ request.headerLen = requestBytes.length ∧ Asks request command

theorem acceptRequest_ended (request : RequestRef) (s : Incoming) (w : W) :
    Ended W (acceptRequest request s w).1 ∧
      ∀ command s' w', acceptRequest request s w = (.ok command, s', w') → Asks request command ∧ s' = s := by
  unfold acceptRequest
  split
  · next hc =>
    refine ⟨.ok _, ?_⟩
    rintro _ _ _ ⟨⟩
    exact ⟨.inl ⟨hc, rfl⟩, rfl⟩
  · next hc =>
    refine ⟨.ok _, ?_⟩
    rintro _ _ _ ⟨⟩
    exact ⟨.inr ⟨hc, rfl⟩, rfl⟩
  · have hwrite := writeSocks5Reply_ended w .commandNotSupported
    split
    · next f w' hw =>
      rw [hw] at hwrite
      exact ⟨hwrite.error, nofun⟩
    · refine ⟨?_, nofun⟩
      rintro _ ⟨⟩
      exact ⟨nofun, nofun, nofun⟩

theorem acceptSocks5_reads (s : Incoming) (w : W) :
    Ended W (acceptSocks5 s w).1 ∧
      ∀ command s' w', acceptSocks5 s w = (.ok command, s', w') → Accepted s command s' := by
  have hgreeting := readGreeting_answer s
  have hgreetingEnded := Ended.of_answer (W := W) hgreeting greetingNeed_malformed
  unfold acceptSocks5
  rcases hread : readGreeting s with ⟨f | greeting, s₁⟩
  · rw [hread] at hgreetingEnded
    exact ⟨hgreetingEnded.error, nofun⟩
  rw [hread] at hgreeting
  obtain ⟨g, hbytes, hneed, hlen⟩ := hgreeting.ok
  simp only
  split
  · have hmethod := writeMethod_ended w methodNoAuth
    rcases hw : writeMethod w methodNoAuth with ⟨f | _, w₁⟩
    · rw [hw] at hmethod
      exact ⟨hmethod.error, nofun⟩
    have hrequest := readRequest_answer s₁
    have hrequestEnded := Ended.of_answer (W := W) hrequest fun h what hwhat => by
      subst hwhat; exact absurd h parseCmdAddr_malformed
    simp only
    rcases hread₁ : readRequest s₁ with ⟨f | request, s₂⟩
    · rw [hread₁] at hrequestEnded
      exact ⟨hrequestEnded.error, nofun⟩
    rw [hread₁] at hrequest
    obtain ⟨q, hbytes₁, hneed₁, hlen₁⟩ := hrequest.ok
    obtain ⟨hended, hasks⟩ := acceptRequest_ended request s₂ w₁
    refine ⟨hended, fun command s' w' h => ?_⟩
    obtain ⟨hask, rfl⟩ := hasks command s' w' h
    refine ⟨greeting, request, g, q, ?_, hneed, hlen, hneed₁, hlen₁, hask⟩
    rw [hbytes, hbytes₁, List.append_assoc]
  · have hmethod := writeMethod_ended w methodNoAcceptable
    rcases hw : writeMethod w methodNoAcceptable with ⟨f | _, w₁⟩
    · rw [hw] at hmethod
      exact ⟨hmethod.error, nofun⟩
    · refine ⟨?_, nofun⟩
      rintro _ ⟨⟩
      exact ⟨nofun, nofun, nofun⟩

/-! ## The handshake towards an outbound -/

/-- What was read where `socks5_request` returned an address: a method
selection and a reply, and nothing behind them. -/
def Answered (s : Incoming) (bind : Address) (s' : Incoming) : Prop :=
  ∃ reply methodBytes replyBytes,
    s.bytes = methodBytes ++ replyBytes ++ s'.bytes ∧
    methodSelectionNeed methodBytes = .ok (.done methodNoAuth) ∧ methodBytes.length = 2 ∧
    replyNeed replyBytes = .ok (.done reply) ∧ reply.headerLen = replyBytes.length ∧
    reply.reply = .succeeded ∧ bind = reply.bind

theorem readMethod_ended (s : Incoming) :
    Ended W (readMethod s).1 ∧ ∀ s', readMethod s = (.ok (), s') →
      ∃ m, s.bytes = m ++ s'.bytes ∧ methodSelectionNeed m = .ok (.done methodNoAuth) ∧ m.length = 2 := by
  unfold readMethod Incoming.readExact
  by_cases hlen : 2 ≤ s.bytes.length
  · have htwo : (s.bytes.take 2).length = 2 := by rw [List.length_take]; omega
    rw [if_pos hlen]
    simp only
    rcases hneed : methodSelectionNeed (s.bytes.take 2) with f | (n | method)
    · obtain ⟨⟨err, rfl⟩, -⟩ := methodSelectionNeed_streams.error_append hneed
      refine ⟨.protocol fun what hwhat => ?_, nofun⟩
      subst hwhat
      unfold methodSelectionNeed at hneed
      split at hneed
      · split at hneed <;> cases hneed
      · cases hneed
    · exact ⟨.io _, nofun⟩
    · simp only
      split
      · next hm =>
        refine ⟨.ok _, ?_⟩
        rintro _ ⟨⟩
        exact ⟨_, (List.take_append_drop 2 s.bytes).symm, hm ▸ hneed, htwo⟩
      · refine ⟨?_, nofun⟩
        rintro _ ⟨⟩
        exact ⟨nofun, nofun, nofun⟩
  · rw [if_neg hlen]
    exact ⟨.io _, nofun⟩

theorem socks5Request_reads (s : Incoming) (w : W) (command : Command) (destination : Address) :
    Ended W (socks5Request s w command destination).1 ∧
      ∀ bind s' w', socks5Request s w command destination = (.ok bind, s', w') → Answered s bind s' := by
  have hgreeting : Ended W (writeEncoded w (encodeGreeting (List.replicate maxRequestLen 0) [methodNoAuth])).1 :=
    writeEncoded_ended w fun f hf => encodeGreeting_error hf
  unfold socks5Request
  rcases hw : writeEncoded w (encodeGreeting (List.replicate maxRequestLen 0) [methodNoAuth]) with ⟨f | _, w₁⟩
  · rw [hw] at hgreeting
    exact ⟨hgreeting.error, nofun⟩
  obtain ⟨hmethodEnded, hmethod⟩ := readMethod_ended (W := W) s
  simp only
  rcases hread : readMethod s with ⟨f | _, s₁⟩
  · rw [hread] at hmethodEnded
    exact ⟨hmethodEnded.error, nofun⟩
  obtain ⟨m, hbytes, hselect, hlen⟩ := hmethod s₁ hread
  have hrequest : Ended W (writeEncoded w₁ (encodeRequest (List.replicate maxRequestLen 0) command destination)).1 :=
    writeEncoded_ended w₁ fun f hf => encodeRequest_error hf
  simp only
  rcases hw₁ : writeEncoded w₁ (encodeRequest (List.replicate maxRequestLen 0) command destination) with ⟨f | _, w₂⟩
  · rw [hw₁] at hrequest
    exact ⟨hrequest.error, nofun⟩
  have hreply := readReply_answer s₁
  have hreplyEnded := Ended.of_answer (W := W) hreply fun h what hwhat => by
    subst hwhat; exact absurd h parseCmdAddr_malformed
  simp only
  rcases hread₁ : readReply s₁ with ⟨f | reply, s₂⟩
  · rw [hread₁] at hreplyEnded
    exact ⟨hreplyEnded.error, nofun⟩
  rw [hread₁] at hreply
  obtain ⟨q, hbytes₁, hneed, hlen₁⟩ := hreply.ok
  simp only
  split
  · next hok =>
    refine ⟨.ok _, ?_⟩
    rintro _ _ _ ⟨⟩
    refine ⟨reply, m, q, ?_, hselect, hlen, hneed, hlen₁, hok, rfl⟩
    rw [hbytes, hbytes₁, List.append_assoc]
  · exact ⟨.io _, nofun⟩

end Ends

/-- **Streaming parsers never over-ask**: each answer is final and each
request for more stays inside the message, so the handshakes that read what
they are asked for end, stay inside their buffers, and on success have read
their messages and nothing else. -/
theorem streaming_parsers_exact :
    Streams greetingNeed GreetingRef.consumedLen ∧ Streams methodSelectionNeed (fun _ => 2) ∧
    Streams requestNeed RequestRef.headerLen ∧ Streams replyNeed ReplyRef.headerLen ∧
    Streams decodeServerReply Prod.snd ∧
    (∀ (W : Type) [AsyncWrite W] (s : Incoming) (w : W), Ended W (acceptSocks5 s w).1 ∧
      ∀ command s' w', acceptSocks5 s w = (.ok command, s', w') → Accepted s command s') ∧
    (∀ (W : Type) [AsyncWrite W] (s : Incoming) (w : W) (command : Command) (destination : Address),
      Ended W (socks5Request s w command destination).1 ∧
      ∀ bind s' w', socks5Request s w command destination = (.ok bind, s', w') → Answered s bind s') :=
  ⟨greetingNeed_streams, methodSelectionNeed_streams, requestNeed_streams, replyNeed_streams,
    decodeServerReply_streams, fun _ _ => acceptSocks5_reads, fun _ _ => socks5Request_reads⟩

end Socks5

end Snell
