import Telemetry.Json.Scan.Numbers
import Telemetry.Json.Scan.Sequences

/-!
# Skipping values

`skip` runs over a value of which nothing is kept. It may be nested to any depth, since no text is
nested more deeply than it is long, and its numbers may have any size.
-/

namespace Telemetry.Json

/-- A comma that nothing follows is found only where the next value or key should begin. -/
def lenient : Dangling := ⟨.expectedValue, .keyNotString, .eofObject⟩

def skipScalar : Scan Unit
  | [] => .error (.past .eofValue [])
  | 'n' :: rest => word ['u', 'l', 'l'] rest
  | 't' :: rest => word ['r', 'u', 'e'] rest
  | 'f' :: rest => word ['a', 'l', 's', 'e'] rest
  | '"' :: rest => skipString rest
  | c :: rest =>
    if startsNumber c then skipNumber (c :: rest) else .error (.past .expectedValue (c :: rest))

def skipWithin : (limit : Nat) → Scan Unit
  | 0, text => skipScalar (skipBlanks text)
  | limit + 1, text =>
    match skipBlanks text with
    | '[' :: rest => do
      let (_, rest) ← elements (skipWithin limit) lenient rest
      return ((), rest)
    | '\x7b' :: rest =>
      members skipString (fun _ _ text => do skipWithin limit (← colon text)) lenient () rest
    | text => skipScalar text

def skip (text : List Char) : Except Stop (Unit × List Char) := skipWithin text.length text

end Telemetry.Json
