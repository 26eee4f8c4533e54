import Telemetry.Decimal.Digits

/-!
# Decimal digits and back

The digits of a number are digits, they write that number, and they begin with a zero
only when it is the number zero.
-/

namespace Telemetry.Decimal

theorem digit?_digitChar {d : Nat} (h : d < 10) : digit? (digitChar d) = some d :=
  (by decide : ∀ d < 10, digit? (digitChar d) = some d) d h

theorem digit?_eq_some_iff {c : Char} {d : Nat} : digit? c = some d ↔ d < 10 ∧ c = digitChar d := by
  constructor
  · intro h
    unfold digit? at h
    split at h
    · rename_i hc
      have hl : 48 ≤ c.toNat := hc.1
      have hu : c.toNat ≤ 57 := hc.2
      cases h
      refine ⟨by omega, ?_⟩
      rw [digitChar, Nat.add_sub_cancel' hl, Char.ofNat_toNat]
    · cases h
  · rintro ⟨hd, rfl⟩
    exact digit?_digitChar hd

theorem digits_lt (n : Nat) : ∀ d ∈ digits n, d < 10 := by
  fun_induction digits n with
  | case1 n h =>
    intro d hd
    rwa [List.mem_singleton.1 hd]
  | case2 n h ih =>
    intro d hd
    rcases List.mem_append.1 hd with hd | hd
    · exact ih d hd
    · rw [List.mem_singleton.1 hd]
      exact Nat.mod_lt n (by decide)

theorem ofDigits_digits (n : Nat) : ofDigits 0 (digits n) = n := by
  unfold ofDigits
  fun_induction digits n with
  | case1 n h => simp
  | case2 n h ih =>
    rw [List.foldl_append, ih]
    simp only [List.foldl_cons, List.foldl_nil]
    omega

theorem digits_eq_cons (n : Nat) : ∃ d ds, digits n = d :: ds ∧ (d = 0 → ds = []) := by
  fun_induction digits n with
  | case1 n h => exact ⟨n, [], rfl, fun _ => rfl⟩
  | case2 n h ih =>
    obtain ⟨d, ds, hd, hz⟩ := ih
    refine ⟨d, ds ++ [n % 10], by rw [hd]; rfl, ?_⟩
    intro h0
    have hn := ofDigits_digits (n / 10)
    rw [hd, hz h0, h0] at hn
    simp only [ofDigits, List.foldl_cons, List.foldl_nil] at hn
    omega

theorem takeDigits_digits {ds : List Nat} {rest : List Char} (hd : ∀ d ∈ ds, d < 10)
    (hr : takeDigits rest = ([], rest)) : takeDigits (ds.map digitChar ++ rest) = (ds, rest) := by
  induction ds with
  | nil => exact hr
  | cons d ds ih =>
    obtain ⟨hd, hds⟩ := List.forall_mem_cons.1 hd
    simp only [List.map_cons, List.cons_append, takeDigits, digit?_digitChar hd, ih hds]

theorem eq_of_takeDigits {text rest : List Char} {ds : List Nat} (h : takeDigits text = (ds, rest)) :
    text = ds.map digitChar ++ rest ∧ ∀ d ∈ ds, d < 10 := by
  induction text generalizing ds with
  | nil =>
    cases h
    simp
  | cons c text ih =>
    rw [takeDigits] at h
    cases hc : digit? c with
    | none =>
      rw [hc] at h
      cases h
      simp
    | some d =>
      rw [hc] at h
      cases h
      obtain ⟨hd, rfl⟩ := digit?_eq_some_iff.1 hc
      obtain ⟨ht, hds⟩ := ih rfl
      exact ⟨congrArg (digitChar d :: ·) ht, List.forall_mem_cons.2 ⟨hd, hds⟩⟩

theorem le_ofDigits (n : Nat) (ds : List Nat) : n ≤ ofDigits n ds := by
  unfold ofDigits
  induction ds generalizing n with
  | nil => exact Nat.le_refl n
  | cons d ds ih =>
    have := ih (n * 10 + d)
    rw [List.foldl_cons]
    omega

end Telemetry.Decimal
