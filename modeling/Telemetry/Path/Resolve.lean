import Telemetry.Fault
import Telemetry.Message
import Telemetry.Path.Basic

/-!
# Following paths

A path is followed from a message segment by segment. A key that an object does not have makes it
absent; an index past the end of an array and a segment that does not apply are faults, which name
the whole path.
-/

namespace Telemetry.Path

open Json (Value)

/-- The number that digits write, if there are only digits and at least one. -/
def numeral? (text : List Char) : Option Nat :=
  match Decimal.takeDigits text with
  | ([], _) => none
  | (digits, []) => some (Decimal.ofDigits 0 digits)
  | _ => none

/-- A segment as an index: digits, a plus before them if need be, and a value within 64 bits. -/
def index? (segment : String) : Option Nat := do
  let n ← numeral? (match segment.toList with
    | '+' :: digits => digits
    | text => text)
  if n < 0x10000000000000000 then some n else none

def follow (path : Path) : Message → List String → Except Fault (Option Message)
  | m, [] => .ok (some m)
  | .object members, segment :: segments =>
    match Value.member? members segment with
    | some m => path.follow m segments
    | none => .ok none
  | .array items, segment :: segments =>
    match index? segment with
    | none => .error (.pathKind path.text segment .sequence)
    | some n =>
      match items[n]? with
      | some m => path.follow m segments
      | none => .error (.pathIndex path.text n items.length)
  | m, segment :: _ => .error (.pathKind path.text segment m.kind)

/-- What a path leads to in a message; `none` when an object lacks a key on the way. -/
def resolve (path : Path) (m : Message) : Except Fault (Option Message) :=
  path.follow m path.segments

end Telemetry.Path
