import Telemetry.Json.Skip
import Telemetry.Json.Target

/-!
# Clock messages

A receiver's clock solution, read from an object with the fields `i_tow` and `bias` or from an
array of the two.
-/

namespace Telemetry

open Json

/-- The time of week of a clock solution and the bias of the receiver's clock. -/
structure Clock where
  tow : UInt32
  bias : Int32
deriving DecidableEq, Repr

namespace Clock

/-! ## From an array -/

def closeArray (text : List Char) : Except Stop (List Char) :=
  match skipBlanks text with
  | [] => .error (.past .eofList [])
  | ']' :: rest => .ok rest
  | ',' :: rest =>
    match skipBlanks rest with
    | ']' :: rest => .error (.past .trailingComma (']' :: rest))
    | rest => .error (.past .trailingCharacters rest)
  | rest => .error (.past .trailingCharacters rest)

/-- An array that ends after `length` elements. -/
def tooShort (length : Nat) (rest : List Char) : Stop :=
  .before (.tooShort length "struct Clock with 2 elements") rest

def ofArray (text : List Char) : Except Stop (Clock × List Char) :=
  match skipBlanks text with
  | [] => .error (.past .eofList [])
  | ']' :: rest => .error (tooShort 0 rest)
  | text => do
    let (tow, rest) ← scanUInt32 text
    match skipBlanks rest with
    | [] => .error (.past .eofList [])
    | ']' :: rest => .error (tooShort 1 rest)
    | ',' :: rest =>
      match skipBlanks rest with
      | [] => .error (.past .eofValue [])
      | ']' :: rest => .error (.past .trailingComma (']' :: rest))
      | rest => do
        let (bias, rest) ← scanInt32 rest
        return (⟨tow, bias⟩, ← closeArray rest)
    | rest => .error (.past .expectedListEnd rest)

/-! ## From an object -/

structure Fields where
  tow : Option UInt32 := none
  bias : Option Int32 := none

/-- A field that comes again. Blanks after its key count as read, and so does a closing brace. -/
def repeated (name : String) (text : List Char) : Stop :=
  match skipBlanks text with
  | '\x7d' :: rest => .before (.repeatedField name) rest
  | rest => .before (.repeatedField name) rest

/-- What follows a key. The values of other keys are skipped. -/
def field (fields : Fields) (key : String) (text : List Char) : Except Stop (Fields × List Char) :=
  if key = "i_tow" then
    if fields.tow.isSome then .error (repeated key text)
    else do
      let (n, rest) ← scanUInt32 (← colon text)
      return ({ fields with tow := n }, rest)
  else if key = "bias" then
    if fields.bias.isSome then .error (repeated key text)
    else do
      let (n, rest) ← scanInt32 (← colon text)
      return ({ fields with bias := n }, rest)
  else do
    let (_, rest) ← skip (← colon text)
    return (fields, rest)

def ofObject (text : List Char) : Except Stop (Clock × List Char) := do
  let (fields, rest) ← members Value.scanKey field strict {} text
  match fields.tow, fields.bias with
  | some tow, some bias => return (⟨tow, bias⟩, rest)
  | none, _ => .error (.before (.missingField "i_tow") rest)
  | some _, none => .error (.before (.missingField "bias") rest)

def scan (text : List Char) : Except Stop (Clock × List Char) :=
  match skipBlanks text with
  | '[' :: rest => ofArray rest
  | '\x7b' :: rest => ofObject rest
  | text => scalar "struct Clock" (fun v => .error (.wrongType v.found "struct Clock")) text

end Clock

end Telemetry
