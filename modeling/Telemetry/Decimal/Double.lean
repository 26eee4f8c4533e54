/-!
# Doubles as exact numbers

What a double stands for: a significand times a power of two, both exact.
-/

namespace Telemetry.Decimal

/-- A double's magnitude. A finite one is `significand * 2 ^ exponent`; it is `narrow` below when
the next smaller double is only half as far away as the next greater one. -/
inductive Magnitude where
  | nan
  | infinite
  | finite (significand : Nat) (exponent : Int) (narrow : Bool)
deriving DecidableEq, Repr

/-- The bit above the 52 bits of a stored fraction, which is not stored itself. -/
def hidden : Nat := 0x10000000000000

def Magnitude.ofBits (bits : Nat) : Magnitude :=
  let fraction := bits % hidden
  match bits / hidden % 0x800 with
  | 0 => .finite fraction (-1074) false
  | 2047 => if fraction = 0 then .infinite else .nan
  | biased => .finite (hidden + fraction) (biased - 1075) (fraction = 0 ∧ 1 < biased)

def magnitude (x : Float) : Magnitude := .ofBits x.toBits.toNat

def negative (x : Float) : Bool := 0x8000000000000000 ≤ x.toBits.toNat

/-- The power of two as a fraction: one of the two parts is 1. -/
def powerOfTwo : Int → Nat × Nat
  | .ofNat n => (Nat.pow 2 n, 1)
  | .negSucc n => (1, Nat.pow 2 (n + 1))

end Telemetry.Decimal
