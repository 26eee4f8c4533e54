import Telemetry.Frame.Basic
import Telemetry.Json.Parser

/-!
# Messages

A message is any JSON value, sent as the payload of one frame. A payload can also be read into a
type of its own.
-/

namespace Telemetry

abbrev Message := Json.Value

def Bytes.ofText (text : String) : Bytes := Utf8.encode text.toList

namespace Message

open Json

def decodeAs {α : Type} (scan : Scan α) (text : String) : Except Fault α :=
  match decode scan text.toList with
  | .ok a => .ok a
  | .error error => .error (.decoding (.ofText text) (.json error))

def decode (text : String) : Except Fault Message := decodeAs Value.scan text

/-- What can be sent: a message, or a table whose keys may be any values. -/
inductive Content where
  | message (m : Message)
  | table (entries : List (Message × Message))

/-- The text of a key. Only scalars other than null can be keys. -/
def keyText : Message → Except Cause (List Char)
  | .string s => .ok (printString s)
  | .bool true => .ok (printString "true")
  | .bool false => .ok (printString "false")
  | .number n => .ok ('"' :: n.print ++ ['"'])
  | _ => .error .keyNotString

def entriesText : List (Message × Message) → Except Cause (List Char)
  | [] => .ok []
  | [(k, v)] => do return (← keyText k) ++ ':' :: v.print
  | (k, v) :: entries => do
    return (← keyText k) ++ ':' :: v.print ++ ',' :: (← entriesText entries)

def Content.print : Content → Except Cause (List Char)
  | .message m => .ok m.print
  | .table entries => do return '\x7b' :: (← entriesText entries) ++ ['\x7d']

def payload (content : Content) : Except Fault Bytes :=
  match content.print with
  | .ok text => .ok (Utf8.encode text)
  | .error cause => .error (.encoding cause)

end Message

end Telemetry
