/-!
# JSON values

A message is a JSON value. The members of an object stand in the order of their keys, each key
once; `Canonical` says so, and that integers fit the range that is kept exactly.
-/

namespace Telemetry.Json

/-- Integers within 64 bits, signed or unsigned, are kept exactly; every other number is a
double. -/
inductive Number where
  | int (n : Int)
  | real (x : Float)

inductive Value where
  | null
  | bool (b : Bool)
  | number (n : Number)
  | string (s : String)
  | array (items : List Value)
  | object (members : List (String × Value))
deriving Inhabited

namespace Value

/-! ## Objects -/

/-- Puts a member at its key's place; a member of the same key is replaced. -/
def insert (key : String) (value : Value) : List (String × Value) → List (String × Value)
  | [] => [(key, value)]
  | (k, v) :: members =>
    if key < k then (key, value) :: (k, v) :: members
    else if key = k then (key, value) :: members
    else (k, v) :: insert key value members

/-- The object with the given members, of which the last of each key counts. -/
def ofMembers (members : List (String × Value)) : Value :=
  .object (members.foldl (fun sorted (k, v) => insert k v sorted) [])

def member? (members : List (String × Value)) (key : String) : Option Value :=
  members.lookup key

/-! ## Shape -/

mutual

def depth : Value → Nat
  | .array items => depthItems items + 1
  | .object members => depthMembers members + 1
  | _ => 0

def depthItems : List Value → Nat
  | [] => 0
  | v :: items => max (depth v) (depthItems items)

def depthMembers : List (String × Value) → Nat
  | [] => 0
  | (_, v) :: members => max (depth v) (depthMembers members)

end

/-- The integers that are kept exactly, from `-2 ^ 63` to `2 ^ 64 - 1`. -/
def exactInt (n : Int) : Prop := -0x8000000000000000 ≤ n ∧ n < 0x10000000000000000

mutual

/-- Holds of values without doubles whose integers are exact and whose objects are in order. -/
def Canonical : Value → Prop
  | .number (.int n) => exactInt n
  | .number (.real _) => False
  | .array items => CanonicalItems items
  | .object members => members.Pairwise (·.1 < ·.1) ∧ CanonicalMembers members
  | _ => True

def CanonicalItems : List Value → Prop
  | [] => True
  | v :: items => Canonical v ∧ CanonicalItems items

def CanonicalMembers : List (String × Value) → Prop
  | [] => True
  | (_, v) :: members => Canonical v ∧ CanonicalMembers members

end

/-! ## Kinds -/

inductive Kind where
  | null | boolean | number | string | sequence | mapping
deriving DecidableEq, Repr

def kind : Value → Kind
  | .null => .null
  | .bool _ => .boolean
  | .number _ => .number
  | .string _ => .string
  | .array _ => .sequence
  | .object _ => .mapping

def Kind.text : Kind → String
  | .null => "null"
  | .boolean => "a boolean"
  | .number => "a number"
  | .string => "a string"
  | .sequence => "a sequence"
  | .mapping => "a mapping"

end Value

def Number.toFloat : Number → Float
  | .int (.ofNat n) => (UInt64.ofNat n).toFloat
  | .int (.negSucc n) => -(UInt64.ofNat (n + 1)).toFloat
  | .real x => x

end Telemetry.Json
