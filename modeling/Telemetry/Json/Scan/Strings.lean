import Telemetry.Json.Scan.Basic

/-!
# Strings

The part of a string after its opening quote. `string` gives the characters that the string stands
for; `skipString` only looks for its end.
-/

namespace Telemetry.Json

/-! ## Escapes -/

def shortEscape? : Char → Option Char
  | '"' => some '"'
  | '\\' => some '\\'
  | '/' => some '/'
  | 'b' => some '\x08'
  | 'f' => some '\x0c'
  | 'n' => some '\n'
  | 'r' => some '\r'
  | 't' => some '\t'
  | _ => none

def hexDigit? (c : Char) : Option Nat :=
  if '0' ≤ c ∧ c ≤ '9' then some (c.toNat - 48)
  else if 'a' ≤ c ∧ c ≤ 'f' then some (c.toNat - 87)
  else if 'A' ≤ c ∧ c ≤ 'F' then some (c.toNat - 55)
  else none

def hex4? (a b c d : Char) : Option Nat := do
  return (((← hexDigit? a) * 16 + (← hexDigit? b)) * 16 + (← hexDigit? c)) * 16 + (← hexDigit? d)

/-- Four bytes without four digits in them. They count as read when there are as many. -/
def badHex (rest : List Char) : Stop :=
  if Utf8.size rest < 4 then .before .eofString []
  else ⟨.invalidEscape, Utf8.size rest - 4⟩

def isLeading (n : Nat) : Bool := 0xD800 ≤ n && n < 0xDC00

def isTrailing (n : Nat) : Bool := 0xDC00 ≤ n && n < 0xE000

def ofSurrogates (lead trail : Nat) : Char :=
  Char.ofNat (0x10000 + (lead - 0xD800) * 0x400 + (trail - 0xDC00))

/-- A leading surrogate that no `\u` follows. -/
def noTrail : List Char → Stop
  | [] => .before .eofString []
  | '\\' :: [] => .before .eofString []
  | '\\' :: rest => .past .missingSurrogate rest
  | rest => .past .missingSurrogate rest

/-! ## Reading -/

def string : Scan (List Char)
  | [] => .error (.before .eofString [])
  | '"' :: rest => .ok ([], rest)
  | '\\' :: 'u' :: a :: b :: c :: d :: rest =>
    match hex4? a b c d with
    | none => .error (badHex (a :: b :: c :: d :: rest))
    | some n =>
      if isTrailing n then .error (.before .loneSurrogate rest)
      else if isLeading n then
        match rest with
        | '\\' :: 'u' :: e :: f :: g :: h :: rest =>
          match hex4? e f g h with
          | none => .error (badHex (e :: f :: g :: h :: rest))
          | some m =>
            if isTrailing m then (string rest).map fun (cs, rest) => (ofSurrogates n m :: cs, rest)
            else .error (.before .loneSurrogate rest)
        | '\\' :: 'u' :: rest => .error (badHex rest)
        | rest => .error (noTrail rest)
      else (string rest).map fun (cs, rest) => (Char.ofNat n :: cs, rest)
  | '\\' :: 'u' :: rest => .error (badHex rest)
  | '\\' :: [] => .error (.before .eofString [])
  | '\\' :: e :: rest =>
    match shortEscape? e with
    | some c => (string rest).map fun (cs, rest) => (c :: cs, rest)
    | none => .error (.past .invalidEscape (e :: rest))
  | c :: rest =>
    if c < ' ' then .error (.past .controlCharacter (c :: rest))
    else (string rest).map fun (cs, rest) => (c :: cs, rest)

/-! ## Skipping -/

/-- Finds the closing quote. Surrogates may stand alone, and a control character is reported in
front of it. -/
def skipString : Scan Unit
  | [] => .error (.before .eofString [])
  | '"' :: rest => .ok ((), rest)
  | '\\' :: 'u' :: a :: b :: c :: d :: rest =>
    match hex4? a b c d with
    | none => .error (badHex (a :: b :: c :: d :: rest))
    | some _ => skipString rest
  | '\\' :: 'u' :: rest => .error (badHex rest)
  | '\\' :: [] => .error (.before .eofString [])
  | '\\' :: e :: rest =>
    match shortEscape? e with
    | some _ => skipString rest
    | none => .error (.past .invalidEscape (e :: rest))
  | c :: rest => if c < ' ' then .error (.before .controlCharacter (c :: rest)) else skipString rest

end Telemetry.Json
