import Telemetry.Json.Parser
import Telemetry.Proofs.Decimal

/-!
# Printed scalars read back

A printed scalar is read back to the value it was printed from, whatever follows it
among the texts in front of which a value ends.
-/

namespace Telemetry.Json

/-- A text in front of which any value ends: none, or one that begins with a comma or
a closing bracket. -/
def Ends : List Char → Prop
  | [] => True
  | c :: _ => c = ',' ∨ c = ']' ∨ c = '\x7d'

/-! ## Numbers -/

section
variable {rest : List Char}

theorem takeDigits_of_ends (h : Ends rest) : Decimal.takeDigits rest = ([], rest) := by
  cases rest with
  | nil => rfl
  | cons c rest => rcases h with rfl | rfl | rfl <;> rfl

theorem scanFraction_of_ends (atEnd : Cause) (h : Ends rest) : Literal.scanFraction atEnd rest = .ok ([], rest) := by
  cases rest with
  | nil => rfl
  | cons c rest => rcases h with rfl | rfl | rfl <;> rfl

theorem scanExponent_of_ends (atEnd : Cause) (h : Ends rest) : Literal.scanExponent atEnd rest = .ok (none, rest) := by
  cases rest with
  | nil => rfl
  | cons c rest => rcases h with rfl | rfl | rfl <;> rfl

theorem scanWhole_of_ne (atEnd : Cause) {c : Char} (hc : c ≠ '0') (text : List Char) :
    Literal.scanWhole atEnd (c :: text) = match Decimal.takeDigits (c :: text) with
      | ([], _) => .error (.past .invalidNumber (c :: text))
      | taken => .ok taken := by
  unfold Literal.scanWhole
  split
  · rename_i h
    cases h
  · rename_i h
    cases h
    exact absurd rfl hc
  · rfl

theorem digitChar_ne {d : Nat} (h : d < 10) : Decimal.digitChar d ≠ '-' ∧ (d ≠ 0 → Decimal.digitChar d ≠ '0') :=
  (by decide : ∀ d < 10, Decimal.digitChar d ≠ '-' ∧ (d ≠ 0 → Decimal.digitChar d ≠ '0')) d h

theorem scanWhole_ofNat (atEnd : Cause) (n : Nat) (h : Ends rest) :
    Literal.scanWhole atEnd (Decimal.ofNat n ++ rest) = .ok (Decimal.digits n, rest) := by
  have ht := Decimal.takeDigits_digits (Decimal.digits_lt n) (takeDigits_of_ends h)
  unfold Decimal.ofNat
  obtain ⟨d, ds, hd, hz⟩ := Decimal.digits_eq_cons n
  have hlt := Decimal.digits_lt n d (by rw [hd]; exact List.mem_cons_self ..)
  rw [hd] at ht ⊢
  rw [List.map_cons, List.cons_append] at ht ⊢
  by_cases h0 : d = 0
  · rw [hz h0, h0]
    show Literal.scanWhole atEnd ('0' :: rest) = _
    unfold Literal.scanWhole
    simp only [takeDigits_of_ends h]
  · rw [scanWhole_of_ne atEnd ((digitChar_ne hlt).2 h0), ht]

theorem absorb_ofDigits (n : Nat) (ds : List Nat) (h : Decimal.ofDigits n ds < 0x10000000000000000) :
    Literal.absorb n ds = (Decimal.ofDigits n ds, []) := by
  induction ds generalizing n with
  | nil => rfl
  | cons d ds ih =>
    have hn : n * 10 + d < 0x10000000000000000 := Nat.lt_of_le_of_lt (Decimal.le_ofDigits (n * 10 + d) ds) h
    unfold Literal.absorb
    rw [if_pos hn]
    exact ih (n * 10 + d) h

theorem literalNumber_digits (negative : Bool) {n : Nat} (h : n < 0x10000000000000000) :
    Literal.number ⟨negative, Decimal.digits n, [], none⟩ = .ok (Literal.integer negative n) := by
  have ha := absorb_ofDigits 0 (Decimal.digits n)
  rw [Decimal.ofDigits_digits] at ha
  unfold Literal.number
  rw [ha h]
  rfl

theorem literalScan_ofNat (atEnd : Cause) (n : Nat) (h : Ends rest) :
    Literal.scan atEnd (Decimal.ofNat n ++ rest) = .ok (⟨false, Decimal.digits n, [], none⟩, rest) ∧
      Literal.scan atEnd ('-' :: Decimal.ofNat n ++ rest) = .ok (⟨true, Decimal.digits n, [], none⟩, rest) := by
  have hw := scanWhole_ofNat atEnd n h
  constructor
  · unfold Literal.scan
    split
    rename_i negative text he
    split at he
    · rename_i hc
      obtain ⟨d, ds, hd, _⟩ := Decimal.digits_eq_cons n
      have hlt := Decimal.digits_lt n d (by rw [hd]; exact List.mem_cons_self ..)
      rw [Decimal.ofNat, hd, List.map_cons, List.cons_append] at hc
      exact absurd (List.cons.inj hc).1 (digitChar_ne hlt).1
    · cases he
      simp only [bind, Except.bind, hw, scanFraction_of_ends atEnd h, scanExponent_of_ends atEnd h]
      rfl
  · unfold Literal.scan
    simp only [List.cons_append, bind, Except.bind, hw, scanFraction_of_ends atEnd h, scanExponent_of_ends atEnd h]
    rfl

theorem number_ofInt {n : Int} (hn : Value.exactInt n) (h : Ends rest) :
    number (Decimal.ofInt n ++ rest) = .ok (.int n, rest) := by
  obtain ⟨hl, hu⟩ := hn
  unfold number Decimal.ofInt
  cases n with
  | ofNat n =>
    have hn : n < 0x10000000000000000 := Int.ofNat_lt.1 hu
    simp only [(literalScan_ofNat .eofValue n h).1, bind, Except.bind, literalNumber_digits false hn]
    rfl
  | negSucc n =>
    have hn : n + 1 < 0x10000000000000000 := by omega
    have hm : 0 < n + 1 ∧ n + 1 ≤ 0x8000000000000000 := by omega
    simp only [(literalScan_ofNat .eofValue (n + 1) h).2, bind, Except.bind, literalNumber_digits true hn]
    unfold Literal.integer
    rw [if_pos rfl, if_pos hm]
    rfl

end

/-! ## Strings -/

theorem hex4?_hexChar {n : Nat} (h : n < 32) :
    hex4? '0' '0' (hexChar (n / 16)) (hexChar (n % 16)) = some n :=
  (by decide : ∀ n < 32, hex4? '0' '0' (hexChar (n / 16)) (hexChar (n % 16)) = some n) n h

theorem string_plain {c : Char} (hq : c ≠ '"') (hb : c ≠ '\\') (hc : ¬ c < ' ') (rest : List Char) :
    string (c :: rest) = (string rest).map fun (cs, rest) => (c :: cs, rest) := by
  rw [string.eq_def]
  split
  · rename_i h
    cases h
  · rename_i h
    exact absurd (List.cons.inj h).1 hq
  · rename_i h
    exact absurd (List.cons.inj h).1 hb
  · rename_i h
    exact absurd (List.cons.inj h).1 hb
  · rename_i h
    exact absurd (List.cons.inj h).1 hb
  · rename_i h
    exact absurd (List.cons.inj h).1 hb
  · rename_i h
    obtain ⟨rfl, rfl⟩ := List.cons.inj h
    exact if_neg hc

theorem string_escape (c : Char) (rest : List Char) :
    string (escape c ++ rest) = (string rest).map fun (cs, rest) => (c :: cs, rest) := by
  unfold escape
  split
  · rfl
  · rfl
  · rfl
  · rfl
  · rfl
  · rfl
  · rfl
  · rename_i hq hb _ _ _ _ _
    by_cases hc : c < ' '
    · have hn : c.toNat < 32 := hc
      have ht : isTrailing c.toNat = false := by
        unfold isTrailing
        rw [decide_eq_false (by omega), Bool.false_and]
      have hl : isLeading c.toNat = false := by
        unfold isLeading
        rw [decide_eq_false (by omega), Bool.false_and]
      rw [if_pos hc]
      show string ('\\' :: 'u' :: '0' :: '0' :: hexChar (c.toNat / 16) :: hexChar (c.toNat % 16) :: rest) = _
      rw [string, hex4?_hexChar hn]
      simp only [ht, hl, Char.ofNat_toNat]
      rfl
    · rw [if_neg hc]
      exact string_plain (fun h => hq h) (fun h => hb h) hc rest

theorem string_flatMap_escape (chars rest : List Char) :
    string (chars.flatMap escape ++ '"' :: rest) = .ok (chars, rest) := by
  induction chars with
  | nil => rfl
  | cons c chars ih =>
    rw [List.flatMap_cons, List.append_assoc, string_escape, ih]
    rfl

/-! ## Values -/

namespace Value

section
variable {c : Char}

theorem skipBlanks_of_not (hb : isBlank c = false) (text : List Char) : skipBlanks (c :: text) = c :: text := by
  unfold skipBlanks
  rw [List.dropWhile_cons_of_neg (by rw [hb]; decide)]

theorem scanWithin_scalar (limit : Nat) {text : List Char} (ha : ∀ rest, skipBlanks text ≠ '[' :: rest)
    (ho : ∀ rest, skipBlanks text ≠ '\x7b' :: rest) : scanWithin limit text = scanScalar (skipBlanks text) := by
  cases limit <;> rw [scanWithin] <;> split
  · rename_i he
    exact absurd he (ha _)
  · rename_i he
    exact absurd he (ho _)
  · rfl
  · rename_i he
    exact absurd he (ha _)
  · rename_i he
    exact absurd he (ho _)
  · rfl

/-- A character that does not stand between tokens and opens no array and no object. -/
structure Plain (c : Char) : Prop where
  notBlank : isBlank c = false
  notBracket : c ≠ '['
  notBrace : c ≠ '\x7b'
  notClosing : c ≠ ']'

theorem scanWithin_plain (h : Plain c) (limit : Nat) (text : List Char) :
    scanWithin limit (c :: text) = scanScalar (c :: text) := by
  have hs := skipBlanks_of_not h.notBlank text
  rw [scanWithin_scalar limit, hs]
  · intro rest he
    rw [hs] at he
    exact h.notBracket (List.cons.inj he).1
  · intro rest he
    rw [hs] at he
    exact h.notBrace (List.cons.inj he).1

theorem scanScalar_of_startsNumber (h : startsNumber c = true) (text : List Char) :
    scanScalar (c :: text) = (Json.number (c :: text)).map fun (n, rest) => (.number n, rest) := by
  unfold scanScalar
  split
  · rename_i he
    cases he
  · rename_i he
    rw [(List.cons.inj he).1] at h
    cases h
  · rename_i he
    rw [(List.cons.inj he).1] at h
    cases h
  · rename_i he
    rw [(List.cons.inj he).1] at h
    cases h
  · rename_i he
    rw [(List.cons.inj he).1] at h
    cases h
  · rename_i he
    obtain ⟨rfl, rfl⟩ := List.cons.inj he
    rw [if_pos h]

end

theorem startsNumber_digitChar {d : Nat} (h : d < 10) :
    startsNumber (Decimal.digitChar d) = true ∧ isBlank (Decimal.digitChar d) = false ∧
      Decimal.digitChar d ≠ '[' ∧ Decimal.digitChar d ≠ '\x7b' ∧ Decimal.digitChar d ≠ ']' :=
  (by decide : ∀ d < 10, startsNumber (Decimal.digitChar d) = true ∧ isBlank (Decimal.digitChar d) = false ∧
    Decimal.digitChar d ≠ '[' ∧ Decimal.digitChar d ≠ '\x7b' ∧ Decimal.digitChar d ≠ ']') d h

theorem ofInt_eq_cons (n : Int) : ∃ c text, Decimal.ofInt n = c :: text ∧ startsNumber c = true ∧ Plain c := by
  unfold Decimal.ofInt
  cases n with
  | ofNat n =>
    obtain ⟨d, ds, hd, _⟩ := Decimal.digits_eq_cons n
    obtain ⟨hs, hb, h1, h2, h3⟩ :=
      startsNumber_digitChar (Decimal.digits_lt n d (by rw [hd]; exact List.mem_cons_self ..))
    refine ⟨Decimal.digitChar d, ds.map Decimal.digitChar, ?_, hs, hb, h1, h2, h3⟩
    show Decimal.ofNat n = _
    rw [Decimal.ofNat, hd, List.map_cons]
  | negSucc n => exact ⟨'-', _, rfl, rfl, rfl, by decide, by decide, by decide⟩

theorem scalar_print {v : Value} (hc : v.Canonical) (hd : v.depth = 0) :
    (∃ c text, v.print = c :: text ∧ Plain c) ∧
      ∀ rest, Ends rest → scanScalar (v.print ++ rest) = .ok (v, rest) := by
  cases v with
  | null => exact ⟨⟨'n', _, rfl, rfl, by decide, by decide, by decide⟩, fun _ _ => rfl⟩
  | bool b =>
    cases b with
    | false => exact ⟨⟨'f', _, rfl, rfl, by decide, by decide, by decide⟩, fun _ _ => rfl⟩
    | true => exact ⟨⟨'t', _, rfl, rfl, by decide, by decide, by decide⟩, fun _ _ => rfl⟩
  | number n =>
    cases n with
    | int n =>
      obtain ⟨c, text, ht, hs, hp⟩ := ofInt_eq_cons n
      refine ⟨⟨c, text, ht, hp⟩, fun rest hr => ?_⟩
      have hn := number_ofInt hc hr
      show scanScalar (Decimal.ofInt n ++ rest) = _
      rw [ht, List.cons_append] at hn ⊢
      rw [scanScalar_of_startsNumber hs, hn]
      rfl
    | real x => exact absurd hc id
  | string s =>
    refine ⟨⟨'"', _, rfl, rfl, by decide, by decide, by decide⟩, fun rest _ => ?_⟩
    have hs := string_flatMap_escape s.toList rest
    show scanScalar ('"' :: (s.toList.flatMap escape ++ ['"']) ++ rest) = _
    rw [List.cons_append, List.append_assoc]
    show (Json.string (s.toList.flatMap escape ++ '"' :: rest)).map _ = _
    rw [hs]
    show Except.ok (Value.string (String.ofList s.toList), rest) = _
    rw [String.ofList_toList]
  | array items => cases hd
  | object members => cases hd

end Value

end Telemetry.Json
