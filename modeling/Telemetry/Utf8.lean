import Telemetry.Bytes

/-!
# UTF-8

Characters as bytes and back. Decoding runs a machine that takes one byte at a time and knows,
inside a character, which bytes may come next; it stops at the first byte that no character
allows, or at an end inside a character.
-/

namespace Telemetry.Utf8

def encode (text : List Char) : Bytes := text.flatMap String.utf8EncodeChar

def size : List Char → Nat
  | [] => 0
  | c :: text => c.utf8Size + size text

/-- A run of bytes is well formed when it is the encoding of some characters. -/
def WellFormed (bytes : Bytes) : Prop := ∃ text, encode text = bytes

/-! ## The machine -/

/-- What a character that has begun still needs: the range of its next byte, and how many
further bytes follow that one. -/
structure Need where
  least : UInt8
  greatest : UInt8
  further : Nat
deriving DecidableEq, Repr

/-- What a leading byte asks for, with the bits of the character that it holds. The narrow ranges
shut out overlong forms, surrogates and values above the last character. -/
def lead? (b : UInt8) : Option (Need × Nat) :=
  if 0xC2 ≤ b ∧ b ≤ 0xDF then some (⟨0x80, 0xBF, 0⟩, b.toNat - 0xC0)
  else if b = 0xE0 then some (⟨0xA0, 0xBF, 1⟩, 0)
  else if b = 0xED then some (⟨0x80, 0x9F, 1⟩, 0xD)
  else if 0xE1 ≤ b ∧ b ≤ 0xEF then some (⟨0x80, 0xBF, 1⟩, b.toNat - 0xE0)
  else if b = 0xF0 then some (⟨0x90, 0xBF, 2⟩, 0)
  else if 0xF1 ≤ b ∧ b ≤ 0xF3 then some (⟨0x80, 0xBF, 2⟩, b.toNat - 0xF0)
  else if b = 0xF4 then some (⟨0x80, 0x8F, 2⟩, 4)
  else none

/-- Where the machine stands: between characters, or inside one of which `seen` bytes have come
and whose bits so far are `bits`. -/
inductive State where
  | between
  | inside (need : Need) (seen bits : Nat)
deriving DecidableEq, Repr

/-- What a byte does: it ends a character, leaves one open, or cannot stand here, after so many
bytes of the broken character. -/
inductive Step where
  | char (c : Char)
  | more (state : State)
  | refused (broken : Nat)

def step : State → UInt8 → Step
  | .between, b =>
    if b < 0x80 then .char (Char.ofNat b.toNat)
    else match lead? b with
      | some (need, bits) => .more (.inside need 1 bits)
      | none => .refused 1
  | .inside need seen bits, b =>
    if need.least ≤ b ∧ b ≤ need.greatest then
      let bits := bits * 64 + (b.toNat - 0x80)
      match need.further with
      | 0 => .char (Char.ofNat bits)
      | n + 1 => .more (.inside ⟨0x80, 0xBF, n⟩ (seen + 1) bits)
    else .refused seen

/-! ## Decoding -/

/-- Why bytes are not text. `index` counts the bytes of the longest well-formed part in front. -/
inductive Fault where
  | invalid (index broken : Nat)
  | incomplete (index : Nat)
deriving DecidableEq, Repr

def Fault.message : Fault → String
  | .invalid index broken => s!"invalid utf-8 sequence of {broken} bytes from index {index}"
  | .incomplete index => s!"incomplete utf-8 byte sequence from index {index}"

/-- Runs the machine. `index` is where the character at hand began. -/
def run : State → (index : Nat) → Bytes → Except Fault (List Char)
  | .between, _, [] => .ok []
  | .inside .., index, [] => .error (.incomplete index)
  | state, index, b :: bytes =>
    match step state b with
    | .char c => (run .between (index + c.utf8Size) bytes).map (c :: ·)
    | .more state => run state index bytes
    | .refused broken => .error (.invalid index broken)

def decode (bytes : Bytes) : Except Fault (List Char) := run .between 0 bytes

end Telemetry.Utf8
