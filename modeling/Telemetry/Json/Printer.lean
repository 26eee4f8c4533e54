import Telemetry.Json.Value
import Telemetry.Decimal.Layout

/-!
# Compact JSON text

Values as text without blanks: members in key order, doubles in the fewest digits that read back,
and in strings no more escapes than the grammar asks for.
-/

namespace Telemetry.Json

/-- Doubles are positional from 0.00001 up to sixteen digits before the point. -/
def realLayout : Decimal.Layout := ⟨-5, 15⟩

/-- The text of a number. Infinities and NaN have none of their own and are written `null`. -/
def Number.print : Number → List Char
  | .int n => Decimal.ofInt n
  | .real x => (realLayout.writeDouble? x).getD ['n', 'u', 'l', 'l']

/-! ## Strings -/

def hexChar (n : Nat) : Char := if n < 10 then Char.ofNat (48 + n) else Char.ofNat (87 + n)

/-- One character inside quotes: quotes, backslashes and control characters are escaped. -/
def escape (c : Char) : List Char :=
  match c with
  | '"' => ['\\', '"']
  | '\\' => ['\\', '\\']
  | '\x08' => ['\\', 'b']
  | '\x09' => ['\\', 't']
  | '\x0a' => ['\\', 'n']
  | '\x0c' => ['\\', 'f']
  | '\x0d' => ['\\', 'r']
  | c => if c < ' ' then ['\\', 'u', '0', '0', hexChar (c.toNat / 16), hexChar (c.toNat % 16)] else [c]

def printString (s : String) : List Char := '"' :: s.toList.flatMap escape ++ ['"']

/-! ## Values -/

namespace Value

mutual

def print : Value → List Char
  | .null => ['n', 'u', 'l', 'l']
  | .bool true => ['t', 'r', 'u', 'e']
  | .bool false => ['f', 'a', 'l', 's', 'e']
  | .number n => n.print
  | .string s => printString s
  | .array [] => ['[', ']']
  | .array (v :: items) => '[' :: print v ++ printItems items
  | .object [] => ['\x7b', '\x7d']
  | .object ((k, v) :: members) => '\x7b' :: printString k ++ ':' :: print v ++ printMembers members

def printItems : List Value → List Char
  | [] => [']']
  | v :: items => ',' :: print v ++ printItems items

def printMembers : List (String × Value) → List Char
  | [] => ['\x7d']
  | (k, v) :: members => ',' :: printString k ++ ':' :: print v ++ printMembers members

end

def text (v : Value) : String := String.ofList v.print

end Value

end Telemetry.Json
