import Telemetry.Sink.Send
import Telemetry.Text.Blank

/-!
# Replaying captures

A capture is a text with a message on every line. Replaying sends the messages to a client, one
after the other; blank lines are passed over, and lines that hold no message are counted.
-/

namespace Telemetry.Replay

def dropReturn (line : Bytes) : Bytes :=
  if line.getLast? = some 0x0D then line.dropLast else line

/-- The lines of a capture. What follows the last line end is a line unless it is empty, and keeps
a carriage return. -/
def lines (input : Bytes) : List Bytes :=
  let pieces := input.splitOn 0x0A
  pieces.dropLast.map dropReturn ++ pieces.getLast?.toList.filter (· ≠ [])

inductive Outcome where
  | finished
  | notText (fault : Utf8.Fault)
  | failed (fault : Fault)

/-- A replay's client, the number of lines that held no message, and its end. -/
structure Result where
  sink : Sink
  skipped : Nat
  outcome : Outcome

inductive Line where
  | blank
  | message (m : Message)
  | skipped (fault : Fault)

def Line.ofText (text : List Char) : Line :=
  if Text.trim text = [] then .blank
  else
    match Message.decode (String.ofList text) with
    | .ok m => .message m
    | .error fault => .skipped fault

/-- Replays lines to a client. A line that is not text ends the replay. -/
def run (sink : Sink) (skipped : Nat) : List Bytes → Result
  | [] => ⟨sink, skipped, .finished⟩
  | line :: lines =>
    match Utf8.decode line with
    | .error fault => ⟨sink, skipped, .notText fault⟩
    | .ok text =>
      match Line.ofText text with
      | .blank => run sink skipped lines
      | .skipped _ => run sink (skipped + 1) lines
      | .message m =>
        match sink.send (.message m) with
        | (.ok (), sink) => run sink skipped lines
        | (.error fault, sink) => ⟨sink, skipped, .failed fault⟩

def replay (sink : Sink) (input : Bytes) : Result := run sink 0 (lines input)

def Outcome.exitCode : Outcome → UInt8
  | .notText _ => 101
  | _ => 0

end Telemetry.Replay
