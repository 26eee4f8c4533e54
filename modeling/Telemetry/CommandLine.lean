import Telemetry.Monitor.Fields
import Telemetry.Monitor.Lines

/-!
# The command line

What the arguments ask for: one of the two monitors or a replay, and where to connect or listen.
-/

namespace Telemetry

structure Address where
  host : String := "127.0.0.1"
  tcp : UInt16 := 9165

inductive Command where
  | monitorFields (address : Address) (options : Monitor.FieldOptions)
  | monitorLines (address : Address) (fields : List Path)
  | replay (address : Address)

namespace Command

/-! ## Options -/

inductive Setting where
  | host | tcp | fields | average
deriving DecidableEq, Repr

def Setting.flags : Setting → List String
  | .host => ["-a", "--addr"]
  | .tcp => ["-p", "--port"]
  | .fields => ["-f", "--fields"]
  | .average => ["--average"]

/-- The values given, of each option the last one. -/
structure Settings where
  address : Address := {}
  fields : Option String := none
  average : Option String := none

def tcpNumber? (text : String) : Option UInt16 := do
  let n ← Path.numeral? text.toList
  if n < 0x10000 then some (UInt16.ofNat n) else none

def Settings.set? (s : Settings) (setting : Setting) (value : String) : Option Settings :=
  match setting with
  | .host => some { s with address := { s.address with host := value } }
  | .tcp => (tcpNumber? value).map fun tcp => { s with address := { s.address with tcp } }
  | .fields => some { s with fields := value }
  | .average => some { s with average := value }

/-- Reads options, each followed by its value. Which ones there are depends on the command. -/
def Settings.read? (allowed : List Setting) (s : Settings) : List String → Option Settings
  | [] => some s
  | [_] => none
  | flag :: value :: arguments => do
    let setting ← allowed.find? (flag ∈ ·.flags)
    let s ← s.set? setting value
    s.read? allowed arguments

/-! ## Commands -/

def ofArguments? : List String → Option Command
  | "fields" :: arguments => do
    let s ← Settings.read? [.host, .tcp, .fields, .average] {} arguments
    return .monitorFields s.address (.ofStrings s.fields s.average)
  | "lines" :: arguments => do
    let s ← Settings.read? [.host, .tcp, .fields] {} arguments
    return .monitorLines s.address (Path.listOfString (s.fields.getD ""))
  | "replay" :: arguments => do
    let s ← Settings.read? [.host, .tcp] {} arguments
    return .replay s.address
  | _ => none

def usage : String :=
  "usage: telemetry fields [--addr A] [--port P] [--fields LIST] [--average PATH]\n" ++
    "       telemetry lines [--addr A] [--port P] [--fields LIST]\n" ++
    "       telemetry replay [--addr A] [--port P] < capture"

end Command

end Telemetry
