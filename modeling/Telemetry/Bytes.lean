/-!
# Bytes

Runs of bytes, and 32-bit words written with the least significant byte first.
-/

namespace Telemetry

abbrev Bytes := List UInt8

namespace Bytes

/-- The low 32 bits of `n`, least significant byte first. -/
def ofWord (n : Nat) : Bytes :=
  [UInt8.ofNat n, UInt8.ofNat (n / 256), UInt8.ofNat (n / 65536), UInt8.ofNat (n / 16777216)]

def word? : Bytes → Option Nat
  | a :: b :: c :: d :: _ => some (a.toNat + 256 * (b.toNat + 256 * (c.toNat + 256 * d.toNat)))
  | _ => none

@[simp] theorem length_ofWord (n : Nat) : (ofWord n).length = 4 := rfl

theorem word?_ofWord {n : Nat} (h : n < 0x100000000) (rest : Bytes) : word? (ofWord n ++ rest) = some n := by
  simp only [ofWord, word?, List.cons_append, List.nil_append, UInt8.toNat_ofNat', Option.some.injEq]
  omega

theorem word?_eq_none_iff (bytes : Bytes) : word? bytes = none ↔ bytes.length < 4 := by
  rcases bytes with _ | ⟨_, _ | ⟨_, _ | ⟨_, _ | ⟨_, _⟩⟩⟩⟩ <;> simp [word?]

theorem word?_lt {bytes : Bytes} {n : Nat} (h : word? bytes = some n) : n < 0x100000000 := by
  rcases bytes with _ | ⟨a, _ | ⟨b, _ | ⟨c, _ | ⟨d, _⟩⟩⟩⟩ <;> simp [word?] at h
  have := a.toNat_lt; have := b.toNat_lt; have := c.toNat_lt; have := d.toNat_lt
  omega

theorem eq_ofWord_of_word? {bytes : Bytes} {n : Nat} (h : word? bytes = some n) :
    bytes = ofWord n ++ bytes.drop 4 := by
  rcases bytes with _ | ⟨a, _ | ⟨b, _ | ⟨c, _ | ⟨d, rest⟩⟩⟩⟩ <;> simp [word?] at h
  have := a.toNat_lt; have := b.toNat_lt; have := c.toNat_lt; have := d.toNat_lt
  subst h
  simp only [ofWord, List.cons_append, List.nil_append, List.drop_succ_cons, List.drop_zero,
    List.cons.injEq, and_true, ← UInt8.toNat_inj, UInt8.toNat_ofNat']
  omega

end Bytes

end Telemetry
