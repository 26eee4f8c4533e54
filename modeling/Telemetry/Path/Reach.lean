import Telemetry.Path.Resolve

/-!
# Reaching

The places of a message, as a relation: which value a list of segments leads to, told without
following them.
-/

namespace Telemetry.Path

open Json (Value)

/-- A segment that is an index: an optional plus, digits, and a value within 64 bits. -/
inductive Index : String → Nat → Prop where
  | mk {segment : String} {digits : List Nat} (sign : List Char)
      (signed : sign = [] ∨ sign = ['+'])
      (nonempty : digits ≠ []) (small : ∀ d ∈ digits, d < 10)
      (written : segment.toList = sign ++ digits.map Decimal.digitChar)
      (fits : Decimal.ofDigits 0 digits < 0x10000000000000000) :
      Index segment (Decimal.ofDigits 0 digits)

/-- One step: into an object by one of its keys, into an array by the index of an element. -/
inductive Step : Message → String → Message → Prop where
  | key {members : List (String × Value)} {key : String} {m : Message}
      (found : Value.member? members key = some m) : Step (.object members) key m
  | index {items : List Value} {segment : String} {n : Nat} {m : Message}
      (number : Index segment n) (found : items[n]? = some m) : Step (.array items) segment m

inductive Reach : Message → List String → Message → Prop where
  | here (m : Message) : Reach m [] m
  | step {m m' v : Message} {segment : String} {segments : List String}
      (first : Step m segment m') (rest : Reach m' segments v) : Reach m (segment :: segments) v

end Telemetry.Path
