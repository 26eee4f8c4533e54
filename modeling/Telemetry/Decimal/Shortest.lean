import Telemetry.Decimal.Digits
import Telemetry.Decimal.Double

/-!
# The fewest digits that read back

A positive double owns the reals that round to it. `shortest` looks for a decimal among them with
as few digits as possible: on the grid of one-digit decimals, then of two digits, and so on, it
tries the two neighbours of the double's exact value, and of two hits takes the nearer.
-/

namespace Telemetry.Decimal

/-- The decimal `d.ddd… * 10 ^ exponent`, whose digits neither begin nor end in zero. -/
structure Scientific where
  digits : List Nat
  exponent : Int
deriving DecidableEq, Repr

/-- The greatest power of ten that is not above `num / den`. -/
def magnitudeOfTen (num den : Nat) : Int :=
  if den ≤ num then (digits (num / den)).length - 1
  else -((digits ((den + num - 1) / num - 1)).length : Int)

/-- The reals that round to a double, as multiples of `num / den`: from `low` over the double's own
value `mid` to `high`, with the ends when `closed`. -/
structure Owned where
  num : Nat
  den : Nat
  low : Nat
  mid : Nat
  high : Nat
  closed : Bool

def Owned.of (significand : Nat) (exponent : Int) (narrow : Bool) : Owned :=
  let (num, den) := powerOfTwo (exponent - 2)
  { num, den,
    low := 4 * significand - (if narrow then 1 else 2)
    mid := 4 * significand
    high := 4 * significand + 2
    closed := significand % 2 = 0 }

def Owned.onGrid (o : Owned) : Int → Owned
  | .ofNat n => { o with den := o.den * Nat.pow 10 n }
  | .negSucc n => { o with num := o.num * Nat.pow 10 (n + 1) }

def Owned.has (o : Owned) (c : Nat) : Bool :=
  if o.closed then o.low * o.num ≤ c * o.den ∧ c * o.den ≤ o.high * o.num
  else o.low * o.num < c * o.den ∧ c * o.den < o.high * o.num

def Owned.below (o : Owned) : Nat := o.mid * o.num / o.den

/-- The nearer of the double's two neighbours on the grid that belong to it; of two equally near
the even one. -/
def Owned.hit? (o : Owned) : Option Nat :=
  let c := o.below
  if o.has c then
    if o.has (c + 1) then
      let down := o.mid * o.num - c * o.den
      let up := (c + 1) * o.den - o.mid * o.num
      some (if down < up ∨ (down = up ∧ c % 2 = 0) then c else c + 1)
    else some c
  else if o.has (c + 1) then some (c + 1)
  else none

/-- The digits of the first hit on grids that grow finer from `10 ^ place` on. -/
def Owned.search (o : Owned) (place : Int) : Nat → Nat × Int
  | 0 => ((o.onGrid place).below, place)
  | tries + 1 => match (o.onGrid place).hit? with
    | some c => (c, place)
    | none => o.search (place - 1) tries

def Scientific.ofNat (c : Nat) (place : Int) : Scientific :=
  let ds := Decimal.digits c
  ⟨(ds.reverse.dropWhile (· == 0)).reverse, place + ds.length - 1⟩

/-- The shortest decimal that reads back as `significand * 2 ^ exponent`. Seventeen digits are
always enough, so sixteen tries come before the last grid. -/
def shortest (significand : Nat) (exponent : Int) (narrow : Bool) : Scientific :=
  let o := Owned.of significand exponent narrow
  let (c, place) := o.search (magnitudeOfTen (o.mid * o.num) o.den) 17
  .ofNat c place

end Telemetry.Decimal
