import Telemetry.Json.Parser

/-!
# Reading into types

A text can be read into a type other than that of all values. A value of another kind is then a
fault of its own, reported behind the value, or in front of an array or object.
-/

namespace Telemetry.Json

def Value.found : Value → Found
  | .null => .null
  | .bool b => .boolean b
  | .number (.int n) => .integer n
  | .number (.real x) => .real x
  | .string s => .string s
  | .array _ => .sequence
  | .object _ => .mapping

/-- Reads a value that is neither an array nor an object and makes something of it. -/
def scalar {α : Type} (expected : String) (make : Value → Except Cause α) (text : List Char) :
    Except Stop (α × List Char) :=
  match skipBlanks text with
  | [] => .error (.past .eofValue [])
  | '[' :: rest => .error (.before (.wrongType .sequence expected) ('[' :: rest))
  | '\x7b' :: rest => .error (.before (.wrongType .mapping expected) ('\x7b' :: rest))
  | text => do
    let (v, rest) ← Value.scanScalar text
    match make v with
    | .ok a => return (a, rest)
    | .error cause => .error (.before cause rest)

/-- An integer from `least` to `greatest`. A double is none, whatever its value. -/
def asInt (expected : String) (least greatest : Int) : Value → Except Cause Int
  | .number (.int n) =>
    if least ≤ n ∧ n ≤ greatest then .ok n else .error (.outOfRange n expected)
  | v => .error (.wrongType v.found expected)

def scanUInt32 : Scan UInt32 :=
  scalar "u32" fun v => (asInt "u32" 0 0xFFFFFFFF v).map fun n => UInt32.ofNat n.toNat

def scanInt32 : Scan Int32 :=
  scalar "i32" fun v => (asInt "i32" (-0x80000000) 0x7FFFFFFF v).map Int32.ofInt

def scanString : Scan String :=
  scalar "a string" fun
    | .string s => .ok s
    | v => .error (.wrongType v.found "a string")

end Telemetry.Json
