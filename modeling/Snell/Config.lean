/-
Configuration (`snell-config/src/lib.rs`): INI text to a validated client or
server configuration. Reading the file is left out.

What the standard library parses, a socket address and a `u32`, is an
argument (`FromStr`).
-/
import Snell.Address
import Snell.Crypto
import Snell.Text

namespace Snell

open Text

inductive ProtocolFlavor where
  | v4
  | v5
  | v6Shaped
  | v6Unshaped
  deriving DecidableEq, Repr

inductive ProtocolSelection where
  | exactly (flavor : ProtocolFlavor)
  | auto
  deriving DecidableEq, Repr

inductive Outbound where
  | direct
  | socks5 (server : SocketAddr)
  deriving DecidableEq

structure TcpBrutal where
  sendMbps : UInt32
  cwndGain : UInt32
  deriving DecidableEq, Repr

inductive ConfigError where
  | ini (msg : String)
  | missingSection (name : String)
  | missingKey (name key : String)
  | invalid (name key msg : String)
  | unsupported (msg : String)
  deriving DecidableEq, Repr

structure ClientConfig where
  listen : SocketAddr
  server : SocketAddr
  psk : Psk
  version : ProtocolFlavor
  reuse : Bool

structure ServerConfig where
  listen : SocketAddr
  psk : Psk
  selection : ProtocolSelection
  outbound : Outbound
  tcpBrutal : Option TcpBrutal

def clientSection : String := "snell-client"
def serverSection : String := "snell-server"
def tcpBrutalCwndGainMin : UInt32 := 5
def tcpBrutalCwndGainMax : UInt32 := 80
def tcpBrutalSendMbpsMax : UInt32 := 100000
def unsafeRawDisabled : ConfigError := .unsupported "v6-unsafe-raw is not enabled in this phase"

/-! ## INI -/

structure Section where
  pairs : List (Text × Text)
  deriving DecidableEq

def Section.get (s : Section) (key : Text) : Option Text :=
  (s.pairs.find? fun pair => eqIgnoreAsciiCase pair.1 key).map Prod.snd

structure IniFile where
  sections : List (Text × Section)
  deriving DecidableEq

namespace IniFile

/-- `IniFile::section` -/
def sectionNamed (file : IniFile) (name : Text) : Option Section :=
  (file.sections.find? fun s => eqIgnoreAsciiCase s.1 name).map Prod.snd

/-- One turn of the loop of `parse`. -/
def parseLine (file : IniFile) (line : Text) : Except ConfigError IniFile :=
  let line := trim line
  if line = [] ∨ line.head? = some '#' ∨ line.head? = some ';' then .ok file
  else
    match stripPrefix '[' line with
    | some rest =>
      match stripSuffix ']' rest with
      | none => .error (.ini "unclosed section header")
      | some name =>
        let name := trim name
        if name = [] then .error (.ini "empty section name")
        else if (file.sectionNamed name).isSome then .error (.ini "duplicate section")
        else .ok ⟨file.sections ++ [(name, ⟨[]⟩)]⟩
    | none =>
      match splitOnce '=' line with
      | none => .error (.ini "expected key = value")
      | some (key, value) =>
        let key := trim key
        let value := trim value
        if key = [] then .error (.ini "empty key")
        else
          match file.sections.getLast? with
          | none => .error (.ini "key outside section")
          | some (name, s) =>
            if (s.get key).isSome then .error (.ini "duplicate key")
            else .ok ⟨file.sections.dropLast ++ [(name, ⟨s.pairs ++ [(key, value)]⟩)]⟩

def parse (raw : Text) : Except ConfigError IniFile := (lines raw).foldlM parseLine ⟨[]⟩

end IniFile

/-! ## Values -/

/-- `str::parse` of the standard library. -/
structure FromStr where
  socketAddr : Text → Option SocketAddr
  u32 : Text → Option UInt32

/-- The text of a value in a message. -/
def quoted (value : Text) : String := "`" ++ String.ofList value ++ "`"

def required (name : String) (keys : Section) (key : String) : Except ConfigError Text :=
  match keys.get key.toList with
  | none => .error (.missingKey name key)
  | some value => .ok value

def optionalBool (name : String) (keys : Section) (key : String) : Except ConfigError (Option Bool) :=
  match keys.get key.toList with
  | none => .ok none
  | some value =>
    match String.ofList (toAsciiLowercase value) with
    | "true" | "yes" | "1" | "on" => .ok (some true)
    | "false" | "no" | "0" | "off" => .ok (some false)
    | _ => .error (.invalid name key ("expected a boolean, got " ++ quoted value))

def parseU32 (std : FromStr) (name key : String) (value : Text) : Except ConfigError UInt32 :=
  match std.u32 value with
  | none => .error (.invalid name key ("expected a u32, got " ++ quoted value))
  | some n => .ok n

def parseSocket (std : FromStr) (name key : String) (value : Text) : Except ConfigError SocketAddr :=
  match std.socketAddr value with
  | none => .error (.invalid name key ("invalid socket address " ++ quoted value))
  | some address => .ok address

/-- `str::as_bytes` -/
def asBytes (value : Text) : Bytes := value.flatMap String.utf8EncodeChar

def parsePsk (name : String) (value : Text) : Except ConfigError Psk :=
  match Psk.new (asBytes value) with
  | .error _ =>
    .error (.invalid name "psk" ("psk length " ++ toString (asBytes value).length ++ " is out of range (" ++
      toString pskMinLen ++ "..=" ++ toString pskMaxLen ++ ")"))
  | .ok psk => .ok psk

def parseClientVersion (value : Text) : Except ConfigError ProtocolFlavor :=
  match String.ofList (toAsciiLowercase (trim value)) with
  | "v4" => .ok .v4
  | "v5" => .ok .v5
  | "v6-default" => .ok .v6Shaped
  | "v6-unshaped" => .ok .v6Unshaped
  | "v6-unsafe-raw" => .error unsafeRawDisabled
  | _ => .error (.invalid clientSection "version" ("unknown protocol version " ++ quoted value))

def modeRequiresV6 : ConfigError := .invalid serverSection "mode" "mode is only valid when version = 6"

def parseServerVersion (version : Text) (mode : Option Text) : Except ConfigError ProtocolFlavor :=
  let version := trim version
  let lowered := String.ofList (toAsciiLowercase version)
  match mode with
  | some mode =>
    if lowered ≠ "6" then .error modeRequiresV6
    else
      let rawMode := trim mode
      match String.ofList (toAsciiLowercase rawMode) with
      | "default" => .ok .v6Shaped
      | "unshaped" => .ok .v6Unshaped
      | "unsafe-raw" => .error unsafeRawDisabled
      | _ => .error (.invalid serverSection "mode" ("expected default or unshaped, got " ++ quoted rawMode))
  | none =>
    match lowered with
    | "4" | "v4" => .ok .v4
    | "5" | "v5" => .ok .v5
    | "6" | "v6-default" => .ok .v6Shaped
    | "v6-unshaped" => .ok .v6Unshaped
    | "v6-unsafe-raw" => .error unsafeRawDisabled
    | _ => .error (.invalid serverSection "version" ("expected 4, 5, or 6, got " ++ quoted version))

def parseServerSelection (version mode : Option Text) : Except ConfigError ProtocolSelection :=
  match version with
  | some version => (parseServerVersion version mode).map .exactly
  | none => if mode.isSome then .error modeRequiresV6 else .ok .auto

/-! ## Client and server -/

namespace ClientConfig

/-- `parse`, from its section. -/
def ofSection (std : FromStr) (keys : Section) : Except ConfigError ClientConfig := do
  let reuse := (← optionalBool clientSection keys "reuse").getD false
  let version ← parseClientVersion (← required clientSection keys "version")
  let listen ← parseSocket std clientSection "listen" (← required clientSection keys "listen")
  let server ← parseSocket std clientSection "server" (← required clientSection keys "server")
  let psk ← parsePsk clientSection (← required clientSection keys "psk")
  return { listen, server, psk, version, reuse }

def parse (std : FromStr) (raw : Text) : Except ConfigError ClientConfig := do
  let file ← IniFile.parse raw
  match file.sectionNamed clientSection.toList with
  | none => throw (.missingSection clientSection)
  | some keys => ofSection std keys

end ClientConfig

/-- The message for a number out of its range. -/
def outOfRange (lo hi got : UInt32) : String :=
  "expected " ++ toString lo ++ "..=" ++ toString hi ++ ", got `" ++ toString got ++ "`"

def parseTcpBrutal (std : FromStr) (keys : Section) : Except ConfigError (Option TcpBrutal) := do
  if !(← optionalBool serverSection keys "tcp_brutal").getD false then return none
  let sendMbps ← parseU32 std serverSection "tcp_brutal_send_mbps" (← required serverSection keys "tcp_brutal_send_mbps")
  if sendMbps = 0 ∨ tcpBrutalSendMbpsMax < sendMbps then
    throw (.invalid serverSection "tcp_brutal_send_mbps" (outOfRange 1 tcpBrutalSendMbpsMax sendMbps))
  let cwndGain ← parseU32 std serverSection "tcp_brutal_cwnd_gain" (← required serverSection keys "tcp_brutal_cwnd_gain")
  if ¬ (tcpBrutalCwndGainMin ≤ cwndGain ∧ cwndGain ≤ tcpBrutalCwndGainMax) then
    throw (.invalid serverSection "tcp_brutal_cwnd_gain" (outOfRange tcpBrutalCwndGainMin tcpBrutalCwndGainMax cwndGain))
  return some { sendMbps, cwndGain }

namespace ServerConfig

/-- `parse`, from its section. -/
def ofSection (std : FromStr) (keys : Section) : Except ConfigError ServerConfig := do
  let tcpBrutal ← parseTcpBrutal std keys
  let selection ← parseServerSelection (keys.get "version".toList) (keys.get "mode".toList)
  let outbound ← match keys.get "upstream_socks5".toList with
    | none => pure Outbound.direct
    | some value => Outbound.socks5 <$> parseSocket std serverSection "upstream_socks5" value
  let listen ← parseSocket std serverSection "listen" (← required serverSection keys "listen")
  let psk ← parsePsk serverSection (← required serverSection keys "psk")
  return { listen, psk, selection, outbound, tcpBrutal }

def parse (std : FromStr) (raw : Text) : Except ConfigError ServerConfig := do
  let file ← IniFile.parse raw
  match file.sectionNamed serverSection.toList with
  | none => throw (.missingSection serverSection)
  | some keys => ofSection std keys

end ServerConfig

/-- The keys the program asks for. -/
def knownKeys : List String :=
  ["reuse", "version", "listen", "server", "psk", "tcp_brutal", "tcp_brutal_send_mbps", "tcp_brutal_cwnd_gain", "mode",
    "upstream_socks5"]

end Snell
