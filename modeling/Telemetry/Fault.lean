import Telemetry.Json.Error

/-!
# Faults

Everything that can go wrong with a connection, a frame, a message or a path into one.
-/

namespace Telemetry

/-! ## Connections -/

inductive IoKind where
  | interrupted | connectionReset | connectionAborted | connectionRefused | notConnected
  | brokenPipe | wouldBlock | timedOut | unexpectedEnd | permissionDenied | invalidData | other
  | writeZero | networkUnreachable
deriving DecidableEq, Repr

def IoKind.text : IoKind → String
  | .interrupted => "operation interrupted"
  | .connectionReset => "connection reset"
  | .connectionAborted => "connection aborted"
  | .connectionRefused => "connection refused"
  | .notConnected => "not connected"
  | .brokenPipe => "broken pipe"
  | .wouldBlock => "operation would block"
  | .timedOut => "timed out"
  | .unexpectedEnd => "unexpected end of file"
  | .permissionDenied => "permission denied"
  | .invalidData => "invalid data"
  | .other => "other error"
  | .writeZero => "failed to write whole buffer"
  | .networkUnreachable => "network unreachable"

/-- A failure of a connection, with words of its own when the kind's do not do. -/
structure IoError where
  kind : IoKind
  detail : Option String := none
deriving DecidableEq, Repr

def IoError.message (e : IoError) : String := e.detail.getD e.kind.text

/-! ## All faults -/

inductive Reason where
  | utf8 (fault : Utf8.Fault)
  | json (error : Json.Error)

def Reason.message : Reason → String
  | .utf8 fault => s!"invalid UTF-8: {fault.message}"
  | .json error => s!"invalid JSON: {error.message}"

inductive Fault where
  | io (error : IoError)
  /-- The connection was closed with `pending` bytes of a frame received. -/
  | closed (pending : Nat)
  | decoding (payload : Bytes) (reason : Reason)
  | encoding (cause : Json.Cause)
  | tooLarge (length : Nat)
  | pathIndex (path : String) (index length : Nat)
  | pathKind (path segment : String) (found : Json.Value.Kind)

namespace Fault

def message : Fault → String
  | .io error => s!"I/O error: {error.message}"
  | .closed pending =>
    s!"connection closed by peer with {pending} byte(s) of an incomplete frame buffered"
  | .decoding payload reason =>
    s!"failed to decode {payload.length}-byte frame payload: {reason.message}"
  | .encoding cause => s!"failed to encode message: {cause.message}"
  | .tooLarge length => s!"payload of {length} bytes exceeds the maximum frame length"
  | .pathIndex path index length =>
    s!"index {index} out of range for sequence of length {length} at `{path}`"
  | .pathKind path segment found =>
    s!"segment `{segment}` cannot be applied to {found.text} at `{path}`"

def isPath : Fault → Bool
  | .pathIndex .. => true
  | .pathKind .. => true
  | _ => false

end Fault

end Telemetry
