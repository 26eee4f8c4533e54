/-!
# Decimal digits

Numbers as lists of digits, the first the most significant, and digits as characters.
-/

namespace Telemetry.Decimal

/-- The digits of `n`, without leading zeros; zero has the one digit 0. -/
def digits (n : Nat) : List Nat :=
  if n < 10 then [n] else digits (n / 10) ++ [n % 10]

def ofDigits (n : Nat) (ds : List Nat) : Nat := ds.foldl (fun n d => n * 10 + d) n

def digitChar (d : Nat) : Char := Char.ofNat (48 + d)

def digit? (c : Char) : Option Nat := if '0' ≤ c ∧ c ≤ '9' then some (c.toNat - 48) else none

def takeDigits : List Char → List Nat × List Char
  | [] => ([], [])
  | c :: text => match digit? c with
    | some d => let (ds, rest) := takeDigits text; (d :: ds, rest)
    | none => ([], c :: text)

def ofNat (n : Nat) : List Char := (digits n).map digitChar

def ofInt : Int → List Char
  | .ofNat n => ofNat n
  | .negSucc n => '-' :: ofNat (n + 1)

end Telemetry.Decimal
