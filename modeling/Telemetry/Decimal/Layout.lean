import Telemetry.Decimal.Shortest

/-!
# Decimal layouts

How a decimal is laid out as text: positional or with an exponent, or with a fixed number of
places.
-/

namespace Telemetry.Decimal

/-! ## By magnitude -/

structure Layout where
  least : Int
  greatest : Int

def point (ds : List Nat) : (exponent : Int) → List Char
  | .ofNat n =>
    let whole := ds.take (n + 1)
    let fraction := ds.drop (n + 1)
    whole.map digitChar ++ List.replicate (n + 1 - whole.length) '0' ++
      '.' :: (if fraction.isEmpty then ['0'] else fraction.map digitChar)
  | .negSucc n => '0' :: '.' :: List.replicate n '0' ++ ds.map digitChar

/-- One digit, the others behind a point, and the exponent with its sign. -/
def scientific (ds : List Nat) (exponent : Int) : List Char :=
  let lead := ds.take 1
  let others := ds.drop 1
  lead.map digitChar ++ (if others.isEmpty then [] else '.' :: others.map digitChar) ++
    'e' :: (match exponent with
      | .ofNat n => '+' :: ofNat n
      | .negSucc n => '-' :: ofNat (n + 1))

def Layout.write (layout : Layout) (x : Scientific) : List Char :=
  if layout.least ≤ x.exponent ∧ x.exponent ≤ layout.greatest then point x.digits x.exponent
  else scientific x.digits x.exponent

/-- The text of a finite double in the fewest digits that read back; zero is `0.0`. A double that
is not finite has no such text. -/
def Layout.writeDouble? (layout : Layout) (x : Float) : Option (List Char) :=
  let sign := if negative x then ['-'] else []
  match magnitude x with
  | .finite 0 _ _ => some (sign ++ ['0', '.', '0'])
  | .finite m q narrow => some (sign ++ layout.write (shortest m q narrow))
  | _ => none

/-! ## With fixed places -/

/-- The integer nearest to `num / den`; a half goes to the even neighbour. -/
def roundHalfEven (num den : Nat) : Nat :=
  let below := num / den
  let twice := 2 * (num % den)
  if twice < den ∨ (twice = den ∧ below % 2 = 0) then below else below + 1

/-- A whole number of `10 ^ -places`, with exactly that many digits behind the point. -/
def withPlaces (places : Nat) (n : Nat) : List Char :=
  let one := Nat.pow 10 places
  let fraction := ofNat (n % one)
  ofNat (n / one) ++ '.' :: List.replicate (places - fraction.length) '0' ++ fraction

/-- A double's exact value rounded to `places` digits behind the point. -/
def fixed (places : Nat) (x : Float) : List Char :=
  let sign := if negative x then ['-'] else []
  match magnitude x with
  | .nan => ['N', 'a', 'N']
  | .infinite => sign ++ ['i', 'n', 'f']
  | .finite m q _ =>
    let (num, den) := powerOfTwo q
    sign ++ withPlaces places (roundHalfEven (m * num * Nat.pow 10 places) den)

end Telemetry.Decimal
