import Telemetry.Json.Error

/-!
# Scans

A scan reads something off the front of a text and leaves the rest, or stops with a cause.
-/

namespace Telemetry.Json

abbrev Scan (α : Type) := List Char → Except Stop (α × List Char)

def isBlank (c : Char) : Bool := c = ' ' || c = '\n' || c = '\t' || c = '\r'

def skipBlanks (text : List Char) : List Char := text.dropWhile isBlank

/-- The letters that complete a word whose first letter has been read. -/
def word : List Char → Scan Unit
  | [], text => .ok ((), text)
  | _ :: _, [] => .error (.before .eofValue [])
  | expected :: letters, c :: text =>
    if c = expected then word letters text else .error (.past .expectedLiteral (c :: text))

/-- Reads a whole text: what the scan reads, and nothing but blanks after it. -/
def whole {α : Type} (scan : Scan α) (text : List Char) : Except Stop α := do
  let (a, rest) ← scan text
  match skipBlanks rest with
  | [] => .ok a
  | rest => .error (.past .trailingCharacters rest)

def decode {α : Type} (scan : Scan α) (text : List Char) : Except Error α :=
  (whole scan text).mapError (·.error text)

end Telemetry.Json
