/-
The runtime's errors (`snell-runtime/src/error.rs`), and how a session call
that gives no value is reported: as `Fault`, with a session's own errors.
-/
import Snell.Base

namespace Snell

/-- `io::ErrorKind`, as far as the sessions raise or ask for one. `other` is
every kind that is not named. -/
inductive IoErrorKind where
  | unexpectedEof
  | brokenPipe
  | connectionAborted
  | connectionReset
  | connectionRefused
  | notConnected
  | timedOut
  | writeZero
  | other
  deriving DecidableEq, Repr

inductive SessionError where
  | handshakeTimeout
  | connectTimeout
  | cancelled
  | udpLimit
  | reuseIdleTimeout
  | earlyPayloadTooLarge
  | replayDuplicate
  | ambiguousProtocol
  | kdfQueueFull
  | unsupported (what : String)
  | aead
  | noAcceptableMethod
  | commandNotSupported
  | serverReject (code : UInt8)
  | protocol (e : Error)
  | io (kind : IoErrorKind)
  deriving DecidableEq, Repr

/-- `From<ProtocolError>` -/
def SessionError.ofProtocol : Error → SessionError
  | .aead => .aead
  | e => .protocol e

inductive SessionFault where
  | err (e : SessionError)
  | panic
  | diverged
  deriving DecidableEq, Repr

abbrev SessionRes (α : Type) := Except SessionFault α

/-- What `?` makes of a protocol call that failed. -/
def Fault.inSession : Fault → SessionFault
  | .err e => .err (.ofProtocol e)
  | .panic => .panic
  | .diverged => .diverged

def Res.inSession {α : Type} : Res α → SessionRes α
  | .ok a => .ok a
  | .error f => .error f.inSession

end Snell
