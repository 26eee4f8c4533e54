import Telemetry.Json.Printer
import Telemetry.Text.Quoted
import Telemetry.Utf8

/-!
# What is wrong with a JSON text

A scan that fails stops with a cause and a place. While it runs the place is the number of bytes
that lie beyond it, which needs no knowledge of what came before; `Stop.error` turns that into a
line and a column of the whole text, both counted in bytes.
-/

namespace Telemetry.Json

inductive Found where
  | null
  | boolean (b : Bool)
  | integer (n : Int)
  | real (x : Float)
  | string (s : String)
  | sequence
  | mapping

def Found.text : Found → String
  | .null => "null"
  | .boolean true => "boolean `true`"
  | .boolean false => "boolean `false`"
  | .integer n => s!"integer `{String.ofList (Decimal.ofInt n)}`"
  | .real x => s!"floating point `{String.ofList (Number.real x).print}`"
  | .string s => s!"string {Text.quoted s}"
  | .sequence => "sequence"
  | .mapping => "map"

inductive Cause where
  | eofValue | eofList | eofObject | eofString
  | expectedLiteral | expectedValue | expectedColon | expectedListEnd | expectedObjectEnd
  | trailingComma | trailingCharacters | keyNotString
  | invalidNumber | numberOutOfRange
  | invalidEscape | loneSurrogate | missingSurrogate | controlCharacter
  | tooDeep
  | wrongType (found : Found) (expected : String)
  | outOfRange (found : Int) (expected : String)
  | tooShort (length : Nat) (expected : String)
  | missingField (name : String)
  | repeatedField (name : String)

def Cause.message : Cause → String
  | .eofValue => "EOF while parsing a value"
  | .eofList => "EOF while parsing a list"
  | .eofObject => "EOF while parsing an object"
  | .eofString => "EOF while parsing a string"
  | .expectedLiteral => "expected ident"
  | .expectedValue => "expected value"
  | .expectedColon => "expected `:`"
  | .expectedListEnd => "expected `,` or `]`"
  | .expectedObjectEnd => "expected `,` or `\x7d`"
  | .trailingComma => "trailing comma"
  | .trailingCharacters => "trailing characters"
  | .keyNotString => "key must be a string"
  | .invalidNumber => "invalid number"
  | .numberOutOfRange => "number out of range"
  | .invalidEscape => "invalid escape"
  | .loneSurrogate => "lone leading surrogate in hex escape"
  | .missingSurrogate => "unexpected end of hex escape"
  | .controlCharacter => "control character (\\u0000-\\u001F) found while parsing a string"
  | .tooDeep => "recursion limit exceeded"
  | .wrongType found expected => s!"invalid type: {found.text}, expected {expected}"
  | .outOfRange found expected =>
    s!"invalid value: integer `{String.ofList (Decimal.ofInt found)}`, expected {expected}"
  | .tooShort length expected => s!"invalid length {length}, expected {expected}"
  | .missingField name => s!"missing field `{name}`"
  | .repeatedField name => s!"duplicate field `{name}`"

/-! ## Places -/

/-- A failed scan: its cause, and how many bytes of the text lie beyond the reported place. -/
structure Stop where
  cause : Cause
  beyond : Nat

namespace Stop

/-- Reported in front of the text that is left. -/
def before (cause : Cause) (rest : List Char) : Stop := ⟨cause, Utf8.size rest⟩

/-- Reported just past the next byte, if there is one. -/
def past (cause : Cause) (rest : List Char) : Stop := ⟨cause, Utf8.size rest - 1⟩

end Stop

/-- A fault of a whole text. Lines count from one; a column is the number of bytes of its line up
to the place. -/
structure Error where
  cause : Cause
  line : Nat
  column : Nat

def Error.message (e : Error) : String := s!"{e.cause.message} at line {e.line} column {e.column}"

def place (bytes : Bytes) : Nat × Nat :=
  (1 + bytes.count 0x0A, (bytes.reverse.takeWhile (· != 0x0A)).length)

def Stop.error (stop : Stop) (text : List Char) : Error :=
  let bytes := Utf8.encode text
  let (line, column) := place (bytes.take (bytes.length - stop.beyond))
  ⟨stop.cause, line, column⟩

end Telemetry.Json
