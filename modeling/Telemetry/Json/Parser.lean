import Telemetry.Json.Scan.Numbers
import Telemetry.Json.Scan.Sequences

/-!
# Reading values

`Value.scan` reads any value. Arrays and objects may be nested up to a limit.
-/

namespace Telemetry.Json

/-- A comma must be followed by an element or a member. -/
def strict : Dangling := ⟨.trailingComma, .trailingComma, .eofValue⟩

namespace Value

def scanScalar : Scan Value
  | [] => .error (.past .eofValue [])
  | 'n' :: rest => (word ['u', 'l', 'l'] rest).map fun (_, rest) => (.null, rest)
  | 't' :: rest => (word ['r', 'u', 'e'] rest).map fun (_, rest) => (.bool true, rest)
  | 'f' :: rest => (word ['a', 'l', 's', 'e'] rest).map fun (_, rest) => (.bool false, rest)
  | '"' :: rest => (Json.string rest).map fun (cs, rest) => (.string (String.ofList cs), rest)
  | c :: rest =>
    if startsNumber c then (Json.number (c :: rest)).map fun (n, rest) => (.number n, rest)
    else .error (.past .expectedValue (c :: rest))

def scanKey (text : List Char) : Except Stop (String × List Char) :=
  (Json.string text).map fun (cs, rest) => (String.ofList cs, rest)

/-- The members behind an opening brace, in their order and with repeated keys. -/
def scanMembers (nested : Scan Value) (text : List Char) : Except Stop (List (String × Value) × List Char) := do
  let (reversed, rest) ← members scanKey (fun read k text => do
    let (v, rest) ← nested (← colon text)
    return ((k, v) :: read, rest)) strict [] text
  return (reversed.reverse, rest)

/-- A value in which arrays and objects are nested at most `limit` deep. -/
def scanWithin : (limit : Nat) → Scan Value
  | 0, text =>
    match skipBlanks text with
    | '[' :: rest => .error (.past .tooDeep ('[' :: rest))
    | '\x7b' :: rest => .error (.past .tooDeep ('\x7b' :: rest))
    | text => scanScalar text
  | limit + 1, text =>
    match skipBlanks text with
    | '[' :: rest => do
      let (items, rest) ← elements (scanWithin limit) strict rest
      return (.array items, rest)
    | '\x7b' :: rest => do
      let (members, rest) ← scanMembers (scanWithin limit) rest
      return (ofMembers members, rest)
    | text => scanScalar text

def depthLimit : Nat := 127

def scan : Scan Value := scanWithin depthLimit

end Value

end Telemetry.Json
