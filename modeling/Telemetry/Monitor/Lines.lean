import Telemetry.Monitor.Basic
import Telemetry.Reader.Polling

/-!
# The line monitor

Writes one line for every message: its selected fields, or all of it when no fields are selected.
-/

namespace Telemetry.Monitor

def pair? : Selection.Item → Option String
  | .ok (key, value) => some s!"{key}={value.text}"
  | .error _ => none

/-- The line for a message. There is none when no selected field is present. -/
def messageLine (fields : List Path) (m : Message) : Report :=
  if fields.isEmpty then { out := [m.text] }
  else
    match (Selection.ofPaths m fields).items.filterMap pair? with
    | [] => {}
    | pairs => { out := [" ".intercalate pairs] }

def lineReport (fields : List Path) : List (Except Fault Message) → Report
  | [] => { err := ["Stream ended unexpectedly"] }
  | .error fault :: _ => stopped fault
  | .ok m :: items => messageLine fields m ++ lineReport fields items

def lineMonitor (fields : String) (source : Source) : Report :=
  lineReport (Path.listOfString fields) (Reader.ofSource source).settledItems.1

end Telemetry.Monitor
