/-
The first request of a connection (`control/stream.rs`, `session.rs`,
`server/auto.rs`): record plaintext is assembled until it starts with a whole
request, and what follows a CONNECT is early payload.

A CONNECT is read by what it waits for (`connectReader`), so how the plaintext
was cut into records does not show, the plaintext that was not enough is
shorter than a request, and one record more always fits
(`first_request_assembly`).
-/
import Snell.Streaming
import Snell.BufferFacts
import Snell.SessionError

namespace Snell

/-! ## The assembler -/

structure PlainStream where
  buf : Buffer

namespace PlainStream

def new (max : Nat) : PlainStream := ⟨.new max⟩

/-- Every caller ends with an error, so the stream is only returned without one. -/
def push (plain : PlainStream) (bytes : Bytes) : Res PlainStream :=
  match plain.buf.extendFromSlice bytes with
  | (.error f, _) => .error f
  | (.ok (), buf) => .ok ⟨buf⟩

def filled (plain : PlainStream) : Bytes := plain.buf.filled

/-- Control prefixes are variable length: a truncated parse needs one more byte. -/
def needMoreOnTruncated {α : Type} (plain : PlainStream) (parsed : Res α) : Res (ParseState α) :=
  match parsed with
  | .error (.err .truncated) => .ok (.need (plain.buf.len + 1))
  | .error f => .error f
  | .ok a => .ok (.done a)

def connect (T : IpText) (plain : PlainStream) : Res (ParseState (ConnectRequest × Nat)) :=
  plain.needMoreOnTruncated (decodeConnectRequestPrefix T plain.filled)

def udpSetup (plain : PlainStream) : Res (ParseState Nat) :=
  plain.needMoreOnTruncated (decodeUdpSetupPrefix plain.filled)

end PlainStream

/-- A complete first request in handshake plaintext. `connect` carries the
length of the CONNECT header. -/
inductive FirstRequest where
  | connect (request : ConnectRequest) (headerLen : Nat)
  | udp
  deriving DecidableEq

/-- An authenticated first request. `leftover` is early payload after CONNECT. -/
inductive ServerFirst where
  | connect (request : ConnectRequest) (leftover : Bytes)
  | udp
  deriving DecidableEq

def handshakePlainMax : Nat := maxConnectRequestLen + maxPacketSizeV6

def parseFirstRequest (T : IpText) (plain : PlainStream) : SessionRes (ParseState FirstRequest) :=
  match plain.connect T with
  | .ok (.need n) => .ok (.need n)
  | .ok (.done (request, n)) => .ok (.done (.connect request n))
  | .error f =>
    if f = .err (.unknownCommand commandUdp) then
      match plain.udpSetup with
      | .error f => .error f.inSession
      | .ok (.need n) => .ok (.need n)
      | .ok (.done n) =>
        if plain.filled.length = n then .ok (.done .udp)
        else .error (.err (.ofProtocol (.malformed "udp setup must occupy the whole record")))
    else .error f.inSession

/-! ## The loops around it -/

/-- How far assembling came: all records were not enough, a record did not fit,
or the plaintext parsed one way or the other with records left. -/
inductive Assembled where
  | waiting (plain : PlainStream)
  | refused (f : Fault)
  | ended (outcome : SessionRes FirstRequest) (plain : PlainStream) (later : List Bytes)

/-- Push record after record, parsing after each, until it is enough. -/
def assemble (T : IpText) (plain : PlainStream) : List Bytes → Assembled
  | [] => .waiting plain
  | bytes :: later =>
    match plain.push bytes with
    | .error f => .refused f
    | .ok plain =>
      match parseFirstRequest T plain with
      | .ok (.need _) => assemble T plain later
      | .ok (.done first) => .ended (.ok first) plain later
      | .error f => .ended (.error f) plain later

/-- A candidate of auto-detection, as far as its plaintext goes. -/
inductive Cand where
  | needMore
  | matched (first : ServerFirst)
  | invalid
  deriving DecidableEq

/-- What `Candidate::decode` does with the plaintext of a data record. -/
def Cand.takeRecord (T : IpText) (plain : PlainStream) (bytes : Bytes) : SessionRes Cand × PlainStream :=
  match plain.push bytes with
  | .error _ => (.ok .invalid, plain)
  | .ok plain =>
    match parseFirstRequest T plain with
    | .ok (.need _) => (.ok .needMore, plain)
    | .ok (.done (.connect request n)) =>
      match sliceFrom plain.filled n with
      | .error f => (.error f.inSession, plain)
      | .ok leftover =>
        if serverEarlyPayloadMax < leftover.length then (.error (.err .earlyPayloadTooLarge), plain)
        else (.ok (.matched (.connect request leftover)), plain)
    | .ok (.done .udp) => (.ok (.matched .udp), plain)
    | .error _ => (.ok .invalid, plain)

/-- A candidate over the records it decodes. -/
def Cand.run (T : IpText) (plain : PlainStream) : List Bytes → SessionRes Cand
  | [] => .ok .needMore
  | bytes :: later =>
    match Cand.takeRecord T plain bytes with
    | (.ok .needMore, plain) => Cand.run T plain later
    | (r, _) => r

/-- What `read_server_connect` does with the plaintext of a data record;
nothing while more is needed. -/
def readServerConnectRecord (T : IpText) (plain : PlainStream) (bytes : Bytes) :
    SessionRes (Option ServerFirst) × PlainStream :=
  match plain.push bytes with
  | .error f => (.error f.inSession, plain)
  | .ok plain =>
    match parseFirstRequest T plain with
    | .error f => (.error f, plain)
    | .ok (.need _) => (.ok none, plain)
    | .ok (.done (.connect request n)) =>
      match sliceFrom plain.filled n with
      | .error f => (.error f.inSession, plain)
      | .ok leftover => (.ok (some (.connect request leftover)), plain)
    | .ok (.done .udp) => (.ok (some .udp), plain)

/-- One data record in `drain_early_payload`; the subtraction is on `usize`. -/
def drainRecord (leftover bytes : Bytes) : SessionRes Bytes :=
  match sub serverEarlyPayloadMax leftover.length with
  | .error f => .error f.inSession
  | .ok room => if room < bytes.length then .error (.err .earlyPayloadTooLarge) else .ok (leftover ++ bytes)

/-- `drain_early_payload` over the data records that are ready. -/
def drainRecords (leftover : Bytes) (records : List Bytes) : SessionRes Bytes :=
  if serverEarlyPayloadMax < leftover.length then .error (.err .earlyPayloadTooLarge)
  else records.foldlM drainRecord leftover

/-- `read_server_connect` over the data records of a connection, of which
`ready` are ready behind the one that completes the request; returns the
request and the records left. -/
def readServerConnectRun (T : IpText) (plain : PlainStream) (ready : Nat) :
    List Bytes → SessionRes (Option (ServerFirst × List Bytes))
  | [] => .ok none
  | bytes :: later =>
    match readServerConnectRecord T plain bytes with
    | (.error f, _) => .error f
    | (.ok none, plain) => readServerConnectRun T plain ready later
    | (.ok (some .udp), _) => .ok (some (.udp, later))
    | (.ok (some (.connect request leftover)), _) =>
      match drainRecords leftover (later.take ready) with
      | .error f => .error f
      | .ok leftover => .ok (some (.connect request leftover, later.drop ready))

/-! ## Reading a CONNECT -/

/-- What follows the client id: the host's length, then the host and the port. -/
def hostReader (T : IpText) (skip : Nat) (reuse : Bool) : Reader (ConnectRequest × Nat) :=
  .need (skip + 1) fun w =>
    match w.drop skip with
    | [hostLen] =>
      if hostLen = 0 then .fail (.err .emptyHost)
      else
        .need (skip + (1 + hostLen.toNat + 2)) fun w =>
          .ofRes (do
            let (host, port, _) ← splitHostPort (w.drop skip)
            let destination ← connectDestination T host port
            return (⟨destination, reuse⟩, skip + (1 + hostLen.toNat + 2)))
    | _ => .fail .panic

/-- A CONNECT by what it waits for. -/
def connectReader (T : IpText) : Reader (ConnectRequest × Nat) :=
  .need controlHeadLen fun w =>
    match w with
    | [version, command, clientIdLen] =>
      if version ≠ protocolVersion then .fail (.err (.invalidVersion version))
      else
        match connectReuse command with
        | .error f => .fail f
        | .ok reuse => hostReader T (controlHeadLen + clientIdLen.toNat) reuse
    | _ => .fail .panic

theorem connectReuse_error {command : UInt8} {f : Fault} (h : connectReuse command = .error f) :
    f = .err (.unknownCommand command) := by
  unfold connectReuse at h
  split at h
  · cases h
  · split at h
    · cases h
    · cases h; rfl

theorem connectDestination_error {T : IpText} {host : Str} {port : UInt16} {f : Fault}
    (h : connectDestination T host port = .error f) :
    ∃ err, f = .err err ∧ err ≠ .truncated ∧ err ≠ .unknownCommand commandUdp := by
  unfold connectDestination at h
  split at h
  · cases h
  · simp only [Address.ofDomain, bind, Except.bind] at h
    split at h
    · next hv =>
      cases h
      unfold validateDomain at hv
      repeat' split at hv
      all_goals first
        | cases hv; exact ⟨_, rfl, nofun, nofun⟩
        | cases hv
    · cases h

theorem hostReader_ordered (T : IpText) {skip seen : Nat} (reuse : Bool) (hseen : seen ≤ skip + 1)
    (hskip : skip + (1 + 255 + 2) ≤ maxConnectRequestLen) :
    (hostReader T skip reuse).Ordered Prod.snd maxConnectRequestLen seen := by
  refine ⟨hseen, by omega, fun w hw => ?_⟩
  have hlen : (w.drop skip).length = 1 := by rw [List.length_drop]; omega
  match hd : w.drop skip, hlen with
  | [hostLen], _ =>
    have hhost := hostLen.toNat_lt
    simp only [hd]
    split
    · exact ⟨_, rfl⟩
    · refine ⟨by omega, by omega, fun w hw => Reader.ordered_ofRes (fun a ha => ?_) fun f hf => ?_⟩
      · simp only [bind, Except.bind] at ha
        split at ha
        · cases ha
        · split at ha
          · cases ha
          · cases ha; rfl
      · simp only [bind, Except.bind] at hf
        split at hf
        · next hsplit => cases hf; exact splitHostPort_error hsplit
        · split at hf
          · next hdest =>
            cases hf
            obtain ⟨err, rfl, -, -⟩ := connectDestination_error hdest
            exact ⟨err, rfl⟩
          · cases hf

theorem connectReader_ordered (T : IpText) : (connectReader T).Ordered Prod.snd maxConnectRequestLen 0 := by
  refine ⟨Nat.zero_le _, by decide, fun w hw => ?_⟩
  match w, hw with
  | [version, command, clientIdLen], _ =>
    have hid := clientIdLen.toNat_lt
    show Reader.Ordered _ _ _ (ite _ _ _)
    split
    · exact ⟨_, rfl⟩
    · cases hreuse : connectReuse command with
      | error f =>
        obtain rfl := connectReuse_error hreuse
        exact ⟨_, rfl⟩
      | ok reuse =>
        exact hostReader_ordered T reuse (by omega) (by simp only [controlHeadLen, maxConnectRequestLen]; omega)

/-- What a decoder says, by what its reader says: it is truncated exactly while
the reader waits, and only `command` can be unknown. -/
inductive ConnectAnswer (command : Option UInt8) (decoded : Res (ConnectRequest × Nat)) :
    Res (ParseState (ConnectRequest × Nat)) → Prop
  | need {k} : decoded = .error (.err .truncated) → ConnectAnswer command decoded (.ok (.need k))
  | done {a} : decoded = .ok a → ConnectAnswer command decoded (.ok (.done a))
  | error {err} : decoded = .error (.err err) → err ≠ .truncated →
      (err = .unknownCommand commandUdp → command = some commandUdp) → ConnectAnswer command decoded (.error (.err err))

/-- The host and the port, all there. -/
theorem hostEnd_answer (T : IpText) {command : Option UInt8} {hostLen : UInt8} {rest : Bytes} (skip : Nat) (reuse : Bool)
    (hrest : hostLen.toNat + 2 ≤ rest.length) :
    ConnectAnswer command
      (do
        let (host, port, hostPortLen) ← splitHostPort (hostLen :: rest)
        let destination ← connectDestination T host port
        return (⟨destination, reuse⟩, skip + hostPortLen))
      ((do
        let (host, port, _) ← splitHostPort (hostLen :: rest)
        let destination ← connectDestination T host port
        return (⟨destination, reuse⟩, skip + (1 + hostLen.toNat + 2)) : Res (ConnectRequest × Nat)).map .done) := by
  cases hr : splitHostPort (hostLen :: rest) with
  | error f =>
    obtain rfl := splitHostPort_complete hrest hr
    exact .error rfl nofun nofun
  | ok r =>
    obtain ⟨host, port, n⟩ := r
    obtain ⟨hhost, rfl, after, hafter⟩ := splitHostPort_some hr
    have hbyte : hostLen.toNat = host.len := by
      rw [(List.cons.inj hafter).1, UInt8.toNat_ofNat', Nat.mod_eq_of_lt (by omega)]
    simp only [bind, Except.bind, length_hostPort, ← hbyte]
    cases hdest : connectDestination T host port with
    | error f =>
      obtain ⟨err, rfl, hne, hudp⟩ := connectDestination_error hdest
      exact .error rfl hne fun h => absurd h hudp
    | ok destination => exact .done rfl

/-- What is behind the client id, as `connectHostField` has it. -/
theorem hostReader_answer (T : IpText) {command : Option UInt8} {src after : Bytes} {skip idLen : Nat} (reuse : Bool)
    (hsrc : src.drop skip = after.drop idLen) (hlen : src.length + idLen = skip + after.length) :
    ConnectAnswer command
      (do
        let field ← connectHostField after idLen
        let (host, port, hostPortLen) ← splitHostPort field
        let destination ← connectDestination T host port
        return (⟨destination, reuse⟩, skip + hostPortLen))
      ((hostReader T skip reuse).run src) := by
  cases hfield : after.drop idLen with
  | nil =>
    have hle := List.drop_eq_nil_iff.mp hfield
    rw [hostReader, Reader.run, if_pos (by omega)]
    refine .need ?_
    simp only [connectHostField, hfield]
    split <;> rfl
  | cons hostLen rest =>
    have hafter : after.length = idLen + (rest.length + 1) := by
      have := congrArg List.length hfield
      rw [List.length_drop, List.length_cons] at this
      omega
    have hhead : (src.take (skip + 1)).drop skip = [hostLen] := by
      rw [List.drop_take, hsrc, hfield, Nat.add_sub_cancel_left, List.take_succ_cons, List.take_zero]
    rw [hostReader, Reader.run_need (by omega)]
    simp only [hhead, connectHostField, hfield, if_neg (show ¬ after.length < idLen by omega)]
    by_cases h0 : hostLen = 0
    · simp only [if_pos h0]
      exact .error rfl (fun h => by cases h) fun h => by cases h
    simp only [if_neg h0]
    by_cases hrest : rest.length < hostLen.toNat + 2
    · rw [Reader.run, if_pos (by omega)]
      refine .need ?_
      simp only [bind, Except.bind, splitHostPort_truncated hrest]
    · have hfront : (src.take (skip + (1 + hostLen.toNat + 2))).drop skip = hostLen :: rest.take (hostLen.toNat + 2) := by
        rw [List.drop_take, hsrc, hfield, Nat.add_sub_cancel_left,
          show 1 + hostLen.toNat + 2 = hostLen.toNat + 2 + 1 by omega, List.take_succ_cons]
      have hsplit : splitHostPort (hostLen :: rest.take (hostLen.toNat + 2)) = splitHostPort (hostLen :: rest) := by
        rw [← splitHostPort_append (by rw [List.length_take]; omega) (rest.drop (hostLen.toNat + 2)),
          List.cons_append, List.take_append_drop]
      rw [Reader.run_need (by omega), Reader.run_ofRes, hfront, hsplit]
      exact hostEnd_answer T skip reuse (Nat.not_lt.mp hrest)

theorem connectReader_answer (T : IpText) (src : Bytes) :
    ConnectAnswer src[1]? (decodeConnectRequestPrefix T src) ((connectReader T).run src) := by
  match src with
  | [] => exact .need rfl
  | [_] => exact .need rfl
  | [_, _] => exact .need rfl
  | version :: command :: clientIdLen :: after =>
    rw [connectReader, Reader.run_need (by simp [controlHeadLen])]
    simp only [controlHeadLen, List.take_succ_cons, List.take_zero, decodeConnectRequestPrefix]
    by_cases hv : version ≠ protocolVersion
    · simp only [if_pos hv]
      exact .error rfl nofun nofun
    simp only [if_neg hv]
    cases hreuse : connectReuse command with
    | error f =>
      obtain rfl := connectReuse_error hreuse
      exact .error rfl nofun fun h => by cases h; rfl
    | ok reuse =>
      refine hostReader_answer T reuse ?_ ?_
      · rw [Nat.add_comm]; rfl
      · simp only [List.length_cons]; omega

/-! ## Parsing what was assembled -/

section Parsing

variable {T : IpText} {plain : PlainStream}

theorem parseFirstRequest_waits {k : Nat} (h : (connectReader T).run plain.filled = .ok (.need k)) :
    ∃ n, parseFirstRequest T plain = .ok (.need n) := by
  have ha := connectReader_answer T plain.filled
  rw [h] at ha
  cases ha with
  | need hdecoded =>
    refine ⟨plain.buf.len + 1, ?_⟩
    simp only [parseFirstRequest, PlainStream.connect, hdecoded, PlainStream.needMoreOnTruncated]

theorem parseFirstRequest_done {request : ConnectRequest} {n : Nat}
    (h : (connectReader T).run plain.filled = .ok (.done (request, n))) :
    parseFirstRequest T plain = .ok (.done (.connect request n)) := by
  have ha := connectReader_answer T plain.filled
  rw [h] at ha
  cases ha with
  | done hdecoded => simp only [parseFirstRequest, PlainStream.connect, hdecoded, PlainStream.needMoreOnTruncated]

theorem parseFirstRequest_fails {f : Fault} (h : (connectReader T).run plain.filled = .error f)
    (hudp : f ≠ .err (.unknownCommand commandUdp)) : parseFirstRequest T plain = .error f.inSession := by
  have ha := connectReader_answer T plain.filled
  rw [h] at ha
  cases ha with
  | @error err hdecoded hne _ =>
    have hconnect : plain.connect T = .error (.err err) := by
      simp only [PlainStream.connect, hdecoded]
      cases err with
      | truncated => exact absurd rfl hne
      | _ => rfl
    simp only [parseFirstRequest, hconnect, if_neg hudp]

/-- A UDP setup is longer than its client id, or it waits. -/
theorem decodeUdpSetupPrefix_truncated {src : Bytes} (h : decodeUdpSetupPrefix src = .error (.err .truncated)) :
    src.length < maxConnectRequestLen := by
  unfold decodeUdpSetupPrefix at h
  split at h
  · next version command clientIdLen after =>
    have := clientIdLen.toNat_lt
    split at h
    · cases h
    · split at h
      · cases h
      · split at h
        · simp only [List.length_cons, maxConnectRequestLen]; omega
        · cases h
  · next hne =>
    match src, hne with
    | [], _ | [_], _ | [_, _], _ => simp [maxConnectRequestLen]
    | a :: b :: c :: l, hne => exact absurd rfl (hne a b c l)

/-- Where more is needed, a CONNECT is not complete or it is not a CONNECT. -/
theorem parseFirstRequest_need {n : Nat} (h : parseFirstRequest T plain = .ok (.need n)) :
    plain.filled.length < maxConnectRequestLen ∧
      ((∃ k, (connectReader T).run plain.filled = .ok (.need k)) ∨
        (connectReader T).run plain.filled = .error (.err (.unknownCommand commandUdp))) := by
  rcases hrun : (connectReader T).run plain.filled with f | (k | ⟨request, m⟩)
  · by_cases hudp : f = .err (.unknownCommand commandUdp)
    · subst hudp
      refine ⟨?_, .inr rfl⟩
      have ha := connectReader_answer T plain.filled
      rw [hrun] at ha
      cases ha with
      | error hdecoded _ _ =>
        simp only [parseFirstRequest, PlainStream.connect, hdecoded, PlainStream.needMoreOnTruncated, ↓reduceIte,
          PlainStream.udpSetup] at h
        cases hsetup : decodeUdpSetupPrefix plain.filled with
        | ok m =>
          rw [hsetup] at h
          simp only at h
          split at h <;> cases h
        | error f =>
          rw [hsetup] at h
          by_cases hf : f = .err .truncated
          · subst hf
            exact decodeUdpSetupPrefix_truncated hsetup
          · simp only [reduceCtorEq] at h
    · rw [parseFirstRequest_fails hrun hudp] at h
      cases h
  · have hcap := (Reader.run_needs (connectReader_ordered T) hrun).1
    have hlt := (Reader.run_needs (connectReader_ordered T) hrun).2.1
    exact ⟨by omega, .inl ⟨k, rfl⟩⟩
  · rw [parseFirstRequest_done hrun] at h
    cases h

theorem parseFirstRequest_connect {request : ConnectRequest} {n : Nat}
    (h : parseFirstRequest T plain = .ok (.done (.connect request n))) :
    (connectReader T).run plain.filled = .ok (.done (request, n)) := by
  rcases hrun : (connectReader T).run plain.filled with f | (k | ⟨request', n'⟩)
  · by_cases hudp : f = .err (.unknownCommand commandUdp)
    · subst hudp
      have ha := connectReader_answer T plain.filled
      rw [hrun] at ha
      cases ha with
      | error hdecoded _ _ =>
        simp only [parseFirstRequest, PlainStream.connect, hdecoded, PlainStream.needMoreOnTruncated, ↓reduceIte] at h
        split at h
        · cases h
        · cases h
        · split at h <;> cases h
    · rw [parseFirstRequest_fails hrun hudp] at h
      cases h
  · obtain ⟨m, hm⟩ := parseFirstRequest_waits hrun
    rw [hm] at h
    cases h
  · rw [parseFirstRequest_done hrun] at h
    cases h
    rfl

theorem decodeUdpSetupPrefix_error {src : Bytes} {f : Fault} (h : decodeUdpSetupPrefix src = .error f) :
    ∃ err, f = .err err := by
  unfold decodeUdpSetupPrefix at h
  repeat' split at h
  all_goals first
    | cases h; exact ⟨_, rfl⟩
    | cases h

/-- Parsing returns. -/
theorem parseFirstRequest_error {f : SessionFault} (h : parseFirstRequest T plain = .error f) : ∃ e, f = .err e := by
  rcases hrun : (connectReader T).run plain.filled with g | (k | ⟨request, n⟩)
  · obtain ⟨⟨err, rfl⟩, -⟩ := Reader.run_error (connectReader_ordered T) hrun
    by_cases hudp : Fault.err err = .err (.unknownCommand commandUdp)
    · have ha := connectReader_answer T plain.filled
      rw [hrun, hudp] at ha
      cases ha with
      | error hdecoded _ _ =>
        simp only [parseFirstRequest, PlainStream.connect, hdecoded, PlainStream.needMoreOnTruncated, ↓reduceIte,
          PlainStream.udpSetup] at h
        cases hsetup : decodeUdpSetupPrefix plain.filled with
        | ok m =>
          rw [hsetup] at h
          simp only at h
          split at h
          · cases h
          · cases h; exact ⟨_, rfl⟩
        | error g =>
          obtain ⟨err', rfl⟩ := decodeUdpSetupPrefix_error hsetup
          rw [hsetup] at h
          cases err' <;> cases h <;> exact ⟨_, rfl⟩
    · rw [parseFirstRequest_fails hrun hudp] at h
      cases h
      exact ⟨_, rfl⟩
  · obtain ⟨m, hm⟩ := parseFirstRequest_waits hrun
    rw [hm] at h
    cases h
  · rw [parseFirstRequest_done hrun] at h
    cases h

/-- Once there is an outcome, more plaintext does not change it. -/
theorem parseFirstRequest_stable {plain' : PlainStream} {outcome outcome' : SessionRes FirstRequest} {t : Bytes}
    (h : parseFirstRequest T plain = outcome.map .done) (h' : parseFirstRequest T plain' = outcome'.map .done)
    (ht : plain'.filled = plain.filled ++ t) (hcommand : plain.filled[1]? ≠ some commandUdp) : outcome = outcome' := by
  have hsame : parseFirstRequest T plain' = parseFirstRequest T plain := by
    have hordered := connectReader_ordered T
    rcases hrun : (connectReader T).run plain.filled with f | (k | ⟨request, n⟩)
    · have hrun' := (Reader.run_error hordered hrun).2 t
      rw [← ht] at hrun'
      have hudp : f ≠ .err (.unknownCommand commandUdp) := by
        have ha := connectReader_answer T plain.filled
        rw [hrun] at ha
        cases ha with
        | error _ _ hunknown =>
          intro hf
          exact hcommand (hunknown (Fault.err.inj hf))
      rw [parseFirstRequest_fails hrun hudp, parseFirstRequest_fails hrun' hudp]
    · obtain ⟨m, hm⟩ := parseFirstRequest_waits hrun
      rw [hm] at h
      cases outcome <;> cases h
    · have hrun' := (Reader.run_done hordered (Nat.zero_le _) hrun).2.2 t
      rw [← ht] at hrun'
      rw [parseFirstRequest_done hrun, parseFirstRequest_done hrun']
  rw [hsame, h] at h'
  cases outcome <;> cases outcome' <;> cases h' <;> rfl

end Parsing

/-! ## Assembling -/

/-- Plaintext that was not enough, in a stream that one more record fits. -/
structure Waits (T : IpText) (plain : PlainStream) : Prop where
  wf : plain.buf.Wf
  max : plain.buf.max = handshakePlainMax
  capacity : plain.buf.capacity = handshakePlainMax
  need : ∃ n, parseFirstRequest T plain = .ok (.need n)

/-- What became of a stream after `pushed`: a request or an error, and no more
than one record's worth behind a CONNECT. -/
structure Concluded (T : IpText) (plain plain' : PlainStream) (pushed : List Bytes) (outcome : SessionRes FirstRequest) :
    Prop where
  filled : plain'.filled = plain.filled ++ pushed.flatten
  outcome_eq : parseFirstRequest T plain' = outcome.map .done
  connect : ∀ request n, outcome = .ok (.connect request n) →
    (connectReader T).run plain'.filled = .ok (.done (request, n)) ∧ n ≤ plain'.filled.length ∧
      plain'.filled.length ≤ n + 65534

theorem Waits.new (T : IpText) : Waits T (.new handshakePlainMax) where
  wf := Buffer.new_wf _
  max := rfl
  capacity := by simp [PlainStream.new, Buffer.new, Buffer.capacity]
  need := parseFirstRequest_waits (k := controlHeadLen) rfl

section Assembling

variable {T : IpText} {plain : PlainStream}

theorem Waits.push (h : Waits T plain) {bytes : Bytes} (hlen : bytes.length ≤ maxPacketSizeV6) :
    ∃ plain', plain.push bytes = .ok plain' ∧ plain'.filled = plain.filled ++ bytes ∧ plain'.buf.Wf ∧
      plain'.buf.max = handshakePlainMax ∧ plain'.buf.capacity = handshakePlainMax := by
  obtain ⟨n, hneed⟩ := h.need
  have hshort := (parseFirstRequest_need hneed).1
  have hroom : (plain.buf.queue h.wf).refusal bytes.length = none := by
    rw [Buffer.refusal_none, h.max, h.capacity, ← Buffer.filled_length]
    simp only [PlainStream.filled] at hshort
    simp only [handshakePlainMax]
    omega
  obtain ⟨buf, hbuf, hfilled, hkept⟩ := Buffer.extendFromSlice_made bytes h.wf hroom
  refine ⟨⟨buf⟩, ?_, hfilled, hkept.wf, hkept.max.trans h.max, hkept.capacity.trans h.capacity⟩
  simp only [PlainStream.push, hbuf]

/-- A CONNECT that the last record completed started before that record ended. -/
theorem Waits.connect (h : Waits T plain) {bytes : Bytes} (hlen : bytes.length ≤ maxPacketSizeV6)
    {request : ConnectRequest} {n : Nat}
    (hrun : (connectReader T).run (plain.filled ++ bytes) = .ok (.done (request, n))) :
    n ≤ (plain.filled ++ bytes).length ∧ (plain.filled ++ bytes).length ≤ n + 65534 := by
  have hordered := connectReader_ordered T
  obtain ⟨-, hle, -⟩ := Reader.run_done hordered (Nat.zero_le _) hrun
  obtain ⟨m, hneed⟩ := h.need
  obtain ⟨-, ⟨k, hk⟩ | hudp⟩ := parseFirstRequest_need hneed
  · obtain ⟨-, hlt, hbound⟩ := Reader.run_needs hordered hk
    have hkn := hbound bytes _ hrun
    simp only [maxPacketSizeV6] at hlen
    simp only [List.length_append] at hle hkn ⊢
    omega
  · rw [(Reader.run_error hordered hudp).2 bytes] at hrun
    cases hrun

/-- **What assembling comes to**: it waits, or it ends; no record is refused. -/
theorem assemble_ends (h : Waits T plain) (records : List Bytes) (hrecords : ∀ r ∈ records, r.length ≤ maxPacketSizeV6) :
    (∃ plain', assemble T plain records = .waiting plain') ∨
      ∃ outcome plain' pushed later, assemble T plain records = .ended outcome plain' later ∧
        records = pushed ++ later ∧ Concluded T plain plain' pushed outcome := by
  induction records generalizing plain with
  | nil => exact .inl ⟨plain, rfl⟩
  | cons bytes records ih =>
    have hbytes := hrecords bytes List.mem_cons_self
    obtain ⟨plain₁, hpush, hfilled, hwf, hmax, hcapacity⟩ := h.push hbytes
    simp only [assemble, hpush]
    rcases hparse : parseFirstRequest T plain₁ with f | (n | first)
    · refine .inr ⟨.error f, plain₁, [bytes], records, rfl, rfl, ?_, hparse, nofun⟩
      rw [hfilled, List.flatten_cons, List.flatten_nil, List.append_nil]
    · have hwaits : Waits T plain₁ := ⟨hwf, hmax, hcapacity, n, hparse⟩
      obtain hwait | ⟨outcome, plain', pushed, later, hends, hsplit, hconcluded⟩ :=
        ih hwaits fun r hr => hrecords r (List.mem_cons_of_mem _ hr)
      · exact .inl hwait
      · refine .inr ⟨outcome, plain', bytes :: pushed, later, hends, by rw [hsplit]; rfl, ?_, hconcluded.outcome_eq,
          hconcluded.connect⟩
        rw [hconcluded.filled, hfilled, List.append_assoc, List.flatten_cons]
    · refine .inr ⟨.ok first, plain₁, [bytes], records, rfl, rfl, ?_, hparse, ?_⟩
      · rw [hfilled, List.flatten_cons, List.flatten_nil, List.append_nil]
      · rintro request n ⟨⟩
        have hrun := parseFirstRequest_connect hparse
        rw [hfilled] at hrun ⊢
        exact ⟨hrun, h.connect hbytes hrun⟩

end Assembling

/-! ## The loops -/

section Loops

variable (T : IpText)

/-- A candidate comes to what assembling comes to. -/
theorem Cand.run_assemble (plain : PlainStream) (records : List Bytes) :
    Cand.run T plain records =
      match assemble T plain records with
      | .waiting _ => .ok .needMore
      | .refused _ => .ok .invalid
      | .ended (.error _) _ _ => .ok .invalid
      | .ended (.ok .udp) _ _ => .ok (.matched .udp)
      | .ended (.ok (.connect request n)) plain' _ =>
        match sliceFrom plain'.filled n with
        | .error f => .error f.inSession
        | .ok leftover =>
          if serverEarlyPayloadMax < leftover.length then .error (.err .earlyPayloadTooLarge)
          else .ok (.matched (.connect request leftover)) := by
  induction records generalizing plain with
  | nil => rfl
  | cons bytes records ih =>
    simp only [Cand.run, Cand.takeRecord, assemble]
    cases plain.push bytes with
    | error f => rfl
    | ok plain₁ =>
      rcases hparse : parseFirstRequest T plain₁ with f | (n | (⟨request, n⟩ | _))
      · simp only [hparse]
      · simp only [hparse]
        exact ih plain₁
      · simp only [hparse]
        cases sliceFrom plain₁.filled n with
        | error f => rfl
        | ok leftover =>
          by_cases hlong : serverEarlyPayloadMax < leftover.length
          · simp only [if_pos hlong]
          · simp only [if_neg hlong]
      · simp only [hparse]

/-- The server's first read comes to what assembling comes to, and then drains
what is ready. -/
theorem readServerConnectRun_assemble (plain : PlainStream) (ready : Nat) (records : List Bytes) :
    readServerConnectRun T plain ready records =
      match assemble T plain records with
      | .waiting _ => .ok none
      | .refused f => .error f.inSession
      | .ended (.error f) _ _ => .error f
      | .ended (.ok .udp) _ later => .ok (some (.udp, later))
      | .ended (.ok (.connect request n)) plain' later =>
        match sliceFrom plain'.filled n with
        | .error f => .error f.inSession
        | .ok leftover =>
          match drainRecords leftover (later.take ready) with
          | .error f => .error f
          | .ok leftover => .ok (some (.connect request leftover, later.drop ready)) := by
  induction records generalizing plain with
  | nil => rfl
  | cons bytes records ih =>
    simp only [readServerConnectRun, readServerConnectRecord, assemble]
    cases plain.push bytes with
    | error f => rfl
    | ok plain₁ =>
      rcases hparse : parseFirstRequest T plain₁ with f | (n | (⟨request, n⟩ | _))
      · simp only [hparse]
      · simp only [hparse]
        exact ih plain₁
      · simp only [hparse]
        cases sliceFrom plain₁.filled n with
        | error f => rfl
        | ok leftover => rfl
      · simp only [hparse]

/-- Draining appends records or refuses one; what was drained stays below the
limit, so there is always something to subtract from. -/
theorem foldlM_drainRecord {leftover : Bytes} (h : leftover.length ≤ serverEarlyPayloadMax) (records : List Bytes) :
    records.foldlM drainRecord leftover = .ok (leftover ++ records.flatten) ∨
      records.foldlM drainRecord leftover = .error (.err .earlyPayloadTooLarge) := by
  induction records generalizing leftover with
  | nil =>
    left
    rw [List.flatten_nil, List.append_nil]
    rfl
  | cons bytes records ih =>
    rw [List.foldlM_cons, drainRecord, sub_ok h]
    simp only
    split
    · exact .inr rfl
    · next hfits =>
      rw [List.flatten_cons, ← List.append_assoc]
      exact ih (by rw [List.length_append]; omega)

end Loops

/-! ## The first request -/

/-- What the first request of a connection with these records comes to. -/
structure FirstRequestSound (T : IpText) (records : List Bytes) : Prop where
  /-- No push fails. -/
  pushes : ∀ f, assemble T (.new handshakePlainMax) records ≠ .refused f
  /-- However the plaintext is cut, an outcome is the same. -/
  cuts : ∀ records' : List Bytes, (∀ r ∈ records', r.length ≤ maxPacketSizeV6) → records'.flatten = records.flatten →
    records.flatten[1]? ≠ some commandUdp → ∀ outcome plain later outcome' plain' later',
    assemble T (.new handshakePlainMax) records = .ended outcome plain later →
    assemble T (.new handshakePlainMax) records' = .ended outcome' plain' later' → outcome = outcome'
  /-- What follows a CONNECT is short, and nothing is lost of it. -/
  leftover : ∀ request n plain later,
    assemble T (.new handshakePlainMax) records = .ended (.ok (.connect request n)) plain later →
    (plain.filled.drop n).length ≤ 65534 ∧ plain.filled.drop n ++ later.flatten = records.flatten.drop n
  /-- Auto-detection never finds too much of it, and cuts inside it. -/
  candidate : ∀ f, Cand.run T (.new handshakePlainMax) records ≠ .error f
  /-- Draining never subtracts below zero. -/
  drain : ∀ ready, readServerConnectRun T (.new handshakePlainMax) ready records ≠ .error .panic
  /-- What is handed on, followed by the records left, is what follows the request. -/
  handed : ∀ ready request leftover later,
    readServerConnectRun T (.new handshakePlainMax) ready records = .ok (some (.connect request leftover, later)) →
    ∃ n plain rest, assemble T (.new handshakePlainMax) records = .ended (.ok (.connect request n)) plain rest ∧
      leftover ++ later.flatten = records.flatten.drop n

section Sound

variable {T : IpText} {records : List Bytes} (hrecords : ∀ r ∈ records, r.length ≤ maxPacketSizeV6)

include hrecords

/-- The ways the first request of a connection ends. -/
theorem assemble_new : (∃ plain', assemble T (.new handshakePlainMax) records = .waiting plain') ∨
    ∃ outcome plain' pushed later, assemble T (.new handshakePlainMax) records = .ended outcome plain' later ∧
      records = pushed ++ later ∧ plain'.filled = pushed.flatten ∧
      Concluded T (.new handshakePlainMax) plain' pushed outcome := by
  obtain hwait | ⟨outcome, plain', pushed, later, hends, hsplit, hconcluded⟩ :=
    assemble_ends (Waits.new T) records hrecords
  · exact .inl hwait
  · exact .inr ⟨outcome, plain', pushed, later, hends, hsplit, hconcluded.filled, hconcluded⟩

theorem assemble_cuts {records' : List Bytes} (hrecords' : ∀ r ∈ records', r.length ≤ maxPacketSizeV6)
    (hsame : records'.flatten = records.flatten) (hcommand : records.flatten[1]? ≠ some commandUdp)
    {outcome outcome' : SessionRes FirstRequest} {plain plain' : PlainStream} {later later' : List Bytes}
    (h : assemble T (.new handshakePlainMax) records = .ended outcome plain later)
    (h' : assemble T (.new handshakePlainMax) records' = .ended outcome' plain' later') : outcome = outcome' := by
  obtain ⟨w, hw⟩ | ⟨_, _, pushed, _, hends, hsplit, hfilled, hc⟩ := assemble_new (T := T) hrecords
  · rw [hw] at h; cases h
  obtain ⟨w, hw⟩ | ⟨_, _, pushed', _, hends', hsplit', hfilled', hc'⟩ := assemble_new (T := T) hrecords'
  · rw [hw] at h'; cases h'
  rw [h] at hends
  rw [h'] at hends'
  cases hends
  cases hends'
  have hfront : plain.filled <+: records.flatten := ⟨later.flatten, by rw [hfilled, hsplit, List.flatten_append]⟩
  have hfront' : plain'.filled <+: records.flatten :=
    ⟨later'.flatten, by rw [hfilled', ← hsame, hsplit', List.flatten_append]⟩
  -- a command byte that is there is the second byte of the whole plaintext
  have hbyte : ∀ {p : Bytes}, p <+: records.flatten → p[1]? ≠ some commandUdp := by
    rintro p ⟨t, ht⟩ hp
    obtain ⟨hlt, _⟩ := List.getElem?_eq_some_iff.mp hp
    rw [← ht, List.getElem?_append_left hlt] at hcommand
    exact hcommand hp
  rcases Nat.le_total plain.filled.length plain'.filled.length with hle | hle
  · obtain ⟨t, ht⟩ := List.prefix_of_prefix_length_le hfront hfront' hle
    exact parseFirstRequest_stable hc.outcome_eq hc'.outcome_eq ht.symm (hbyte hfront)
  · obtain ⟨t, ht⟩ := List.prefix_of_prefix_length_le hfront' hfront hle
    exact (parseFirstRequest_stable hc'.outcome_eq hc.outcome_eq ht.symm (hbyte hfront')).symm

theorem assemble_leftover {request : ConnectRequest} {n : Nat} {plain : PlainStream} {later : List Bytes}
    (h : assemble T (.new handshakePlainMax) records = .ended (.ok (.connect request n)) plain later) :
    n ≤ plain.filled.length ∧ (plain.filled.drop n).length ≤ 65534 ∧
      plain.filled.drop n ++ later.flatten = records.flatten.drop n := by
  obtain ⟨w, hw⟩ | ⟨_, _, pushed, _, hends, hsplit, hfilled, hc⟩ := assemble_new (T := T) hrecords
  · rw [hw] at h; cases h
  rw [h] at hends
  cases hends
  obtain ⟨-, hle, hlong⟩ := hc.connect request n rfl
  refine ⟨hle, by rw [List.length_drop]; omega, ?_⟩
  rw [← List.drop_append_of_le_length hle, hfilled, hsplit, List.flatten_append]

/-- **The first request.** Assembling it never overflows, does not depend on
how the plaintext was cut into records, and loses nothing of what follows a
CONNECT, of which there is less than a record. -/
theorem first_request_assembly : FirstRequestSound T records where
  pushes f h := by
    obtain ⟨w, hw⟩ | ⟨_, _, _, _, hends, -⟩ := assemble_new (T := T) hrecords
    · rw [hw] at h; cases h
    · rw [hends] at h; cases h
  cuts _ hrecords' hsame hcommand _ _ _ _ _ _ h h' := assemble_cuts hrecords hrecords' hsame hcommand h h'
  leftover _ _ _ _ h := (assemble_leftover hrecords h).2
  candidate f h := by
    rw [Cand.run_assemble] at h
    obtain ⟨w, hw⟩ | ⟨outcome, plain, _, _, hends, -⟩ := assemble_new (T := T) hrecords
    · rw [hw] at h; cases h
    rw [hends] at h
    rcases outcome with f | (⟨request, n⟩ | _)
    · cases h
    · obtain ⟨hle, hlen, -⟩ := assemble_leftover hrecords hends
      simp only [sliceFrom, if_pos hle] at h
      rw [if_neg (by simp only [serverEarlyPayloadMax]; omega)] at h
      cases h
    · cases h
  drain ready h := by
    rw [readServerConnectRun_assemble] at h
    obtain ⟨w, hw⟩ | ⟨outcome, plain, _, later, hends, -, -, hc⟩ := assemble_new (T := T) hrecords
    · rw [hw] at h; cases h
    rw [hends] at h
    rcases outcome with f | (⟨request, n⟩ | _)
    · obtain ⟨e, rfl⟩ := parseFirstRequest_error hc.outcome_eq
      cases h
    · obtain ⟨hle, hlen, -⟩ := assemble_leftover hrecords hends
      have hroom : (plain.filled.drop n).length ≤ serverEarlyPayloadMax := by
        simp only [serverEarlyPayloadMax]; omega
      simp only [sliceFrom, if_pos hle, drainRecords, if_neg (Nat.not_lt.mpr hroom)] at h
      obtain hd | hd := foldlM_drainRecord hroom (later.take ready) <;> rw [hd] at h <;> cases h
    · cases h
  handed ready request leftover later h := by
    rw [readServerConnectRun_assemble] at h
    obtain ⟨w, hw⟩ | ⟨outcome, plain, _, rest, hends, -⟩ := assemble_new (T := T) hrecords
    · rw [hw] at h; cases h
    rw [hends] at h
    rcases outcome with f | (⟨request', n⟩ | _)
    · cases h
    · obtain ⟨hle, hlen, hall⟩ := assemble_leftover hrecords hends
      have hroom : (plain.filled.drop n).length ≤ serverEarlyPayloadMax := by
        simp only [serverEarlyPayloadMax]; omega
      simp only [sliceFrom, if_pos hle, drainRecords, if_neg (Nat.not_lt.mpr hroom)] at h
      obtain hd | hd := foldlM_drainRecord hroom (rest.take ready)
      · rw [hd] at h
        cases h
        refine ⟨n, plain, rest, hends, ?_⟩
        rw [← hall, List.append_assoc, ← List.flatten_append, List.take_append_drop]
      · rw [hd] at h; cases h
    · cases h

end Sound

/-- A CONNECT cut behind its head, with early payload in the second record. -/
theorem first_request_assembly_two_records :
    let records : List Bytes := [[1, 1, 0], [1, 0x61, 0, 80, 0x68, 0x69]]
    let request : ConnectRequest := ⟨.domain ⟨[0x61], by decide⟩ 80, false⟩
    FirstRequestSound .lettered records ∧
      ∃ plain, assemble .lettered (.new handshakePlainMax) records = .ended (.ok (.connect request 7)) plain [] := by
  intro records request
  have hrecords : ∀ r ∈ records, r.length ≤ maxPacketSizeV6 := by decide
  refine ⟨first_request_assembly hrecords, ?_⟩
  obtain ⟨plain₁, hpush₁, hfilled₁, hwf, hmax, hcapacity⟩ := (Waits.new .lettered).push (hrecords [1, 1, 0] (by decide))
  have hneed : ∃ n, parseFirstRequest .lettered plain₁ = .ok (.need n) :=
    parseFirstRequest_waits (k := 4) (by rw [hfilled₁]; decide)
  obtain ⟨n, hn⟩ := hneed
  obtain ⟨plain₂, hpush₂, hfilled₂, -⟩ :=
    Waits.push ⟨hwf, hmax, hcapacity, n, hn⟩ (hrecords [1, 0x61, 0, 80, 0x68, 0x69] (by decide))
  have hdone : parseFirstRequest .lettered plain₂ = .ok (.done (.connect request 7)) :=
    parseFirstRequest_done (by rw [hfilled₂, hfilled₁]; decide)
  exact ⟨plain₂, by simp only [records, assemble, hpush₁, hn, hpush₂, hdone]⟩

end Snell
