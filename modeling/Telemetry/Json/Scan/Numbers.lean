import Telemetry.Json.Scan.Basic

/-!
# Numbers

A number is read in two steps: `Literal.scan` takes its parts off the text, and `Literal.number?`
says what they stand for. Doubles come from a 64-bit significand that is scaled by a power of ten,
so they are not always the nearest ones.
-/

namespace Telemetry.Json

/-! ## Parts -/

structure Exponent where
  negative : Bool
  digits : List Nat

/-- The parts of a number. There is no fraction part when `fraction` is empty. -/
structure Literal where
  negative : Bool
  whole : List Nat
  fraction : List Nat
  exponent : Option Exponent

namespace Literal

/-- The digits before the point: a lone zero, or digits that begin with another. -/
def scanWhole (atEnd : Cause) : Scan (List Nat)
  | [] => .error (.before atEnd [])
  | '0' :: rest =>
    match Decimal.takeDigits rest with
    | ([], rest) => .ok ([0], rest)
    | _ => .error (.past .invalidNumber rest)
  | text =>
    match Decimal.takeDigits text with
    | ([], _) => .error (.past .invalidNumber text)
    | taken => .ok taken

def scanFraction (atEnd : Cause) : Scan (List Nat)
  | '.' :: rest =>
    match Decimal.takeDigits rest with
    | ([], []) => .error (.past atEnd [])
    | ([], rest) => .error (.past .invalidNumber rest)
    | taken => .ok taken
  | text => .ok ([], text)

def scanSign : List Char → Bool × List Char
  | '+' :: rest => (false, rest)
  | '-' :: rest => (true, rest)
  | rest => (false, rest)

def scanExponentDigits (atEnd : Cause) (rest : List Char) : Except Stop (Option Exponent × List Char) :=
  let (negative, rest) := scanSign rest
  match Decimal.takeDigits rest with
  | ([], []) => .error (.before atEnd [])
  | ([], rest) => .error (.past .invalidNumber rest)
  | (digits, rest) => .ok (some ⟨negative, digits⟩, rest)

def scanExponent (atEnd : Cause) : Scan (Option Exponent)
  | 'e' :: rest => scanExponentDigits atEnd rest
  | 'E' :: rest => scanExponentDigits atEnd rest
  | text => .ok (none, text)

def scan (atEnd : Cause) (text : List Char) : Except Stop (Literal × List Char) := do
  let (negative, text) := match text with
    | '-' :: rest => (true, rest)
    | text => (false, text)
  let (whole, text) ← scanWhole atEnd text
  let (fraction, text) ← scanFraction atEnd text
  let (exponent, text) ← scanExponent atEnd text
  return (⟨negative, whole, fraction, exponent⟩, text)

/-! ## Value -/

/-- Takes digits into a significand while it stays below `2 ^ 64`; the others are left. -/
def absorb (significand : Nat) : List Nat → Nat × List Nat
  | [] => (significand, [])
  | d :: ds =>
    if significand * 10 + d < 0x10000000000000000 then absorb (significand * 10 + d) ds
    else (significand, d :: ds)

/-- The exponent that digits write, or how many digits are unread when it reaches `2 ^ 31`. -/
def exponentValue (n : Nat) : List Nat → Except Nat Nat
  | [] => .ok n
  | d :: ds => if n * 10 + d < 0x80000000 then exponentValue (n * 10 + d) ds else .error ds.length

def powerOfTen (n : Nat) : Float := Float.ofScientific 1 false n

def divideByTens (x : Float) (n : Nat) : Float :=
  if h : n ≤ 308 then x / powerOfTen n
  else if x == 0 then x
  else divideByTens (x / powerOfTen 308) (n - 308)
termination_by n
decreasing_by exact Nat.sub_lt (by omega) (by omega)

/-- `x * 10 ^ exponent`, unless that is beyond all doubles. -/
def scale? (x : Float) : (exponent : Int) → Option Float
  | .ofNat n =>
    if n ≤ 308 then
      let y := x * powerOfTen n
      if y.isInf then none else some y
    else if x == 0 then some x
    else none
  | .negSucc n => some (divideByTens x (n + 1))

def signed (negative : Bool) (x : Float) : Float := if negative then -x else x

def integer (negative : Bool) (n : Nat) : Number :=
  if negative then
    if 0 < n ∧ n ≤ 0x8000000000000000 then .int (-n) else .real (-(UInt64.ofNat n).toFloat)
  else .int n

/-- What a literal stands for. One that is out of range comes with the number of its characters
that need not be looked at to see that. -/
def number (l : Literal) : Except Nat Number :=
  let (significand, left) := absorb 0 l.whole
  if left.isEmpty && l.fraction.isEmpty && l.exponent.isNone then
    .ok (integer l.negative significand)
  else
    let (significand, unread) := absorb significand l.fraction
    let shift : Int := left.length - (l.fraction.length - unread.length : Nat)
    let scaled (exponent : Int) : Except Nat Number :=
      match scale? (UInt64.ofNat significand).toFloat exponent with
      | some x => .ok (.real (signed l.negative x))
      | none => .error 0
    match l.exponent with
    | none => scaled shift
    | some e =>
      match exponentValue 0 e.digits with
      | .ok n => scaled (if e.negative then shift - n else shift + n)
      | .error unread =>
        if significand ≠ 0 ∧ !e.negative then .error unread
        else .ok (.real (signed l.negative 0))

end Literal

/-! ## Scans -/

def number (text : List Char) : Except Stop (Number × List Char) := do
  let (l, rest) ← Literal.scan .eofValue text
  match l.number with
  | .ok n => return (n, rest)
  | .error unread => .error ⟨.numberOutOfRange, Utf8.size rest + unread⟩

/-- Looks for the end of a number. Its range does not matter. -/
def skipNumber (text : List Char) : Except Stop (Unit × List Char) :=
  (Literal.scan .invalidNumber text).map fun (_, rest) => ((), rest)

def startsNumber (c : Char) : Bool := c = '-' || (Decimal.digit? c).isSome

end Telemetry.Json
