import Telemetry.Json.Skip
import Telemetry.Proofs.Json.Scalars
import Telemetry.Proofs.Json.Sequences

/-!
# What is read can be skipped

A value that is read leaves an end of its text (`leaves_scanWithin`), and skipping it leaves the
same end, however deeply the text is nested (`skip_ok`). Skipping takes more than reading does:
numbers of any size and lone surrogates.
-/

namespace Telemetry.Json

/-! ## Strings -/

section
variable {text rest : List Char}

theorem string_map_ok (front : List Char) {chars : List Char} {f : List Char → List Char}
    (h : ((string text).map fun read => (f read.1, read.2)) = .ok (chars, rest))
    (ih : ∀ {chars rest}, string text = .ok (chars, rest) → rest <:+ text ∧ skipString text = .ok ((), rest)) :
    rest <:+ front ++ text ∧ skipString text = .ok ((), rest) := by
  obtain ⟨⟨chars', rest'⟩, hs, h⟩ := map_ok h
  cases h
  obtain ⟨hr, hk⟩ := ih hs
  exact ⟨hr.trans (List.suffix_append front text), hk⟩

theorem string_ok {chars : List Char} (h : string text = .ok (chars, rest)) :
    rest <:+ text ∧ skipString text = .ok ((), rest) := by
  fun_induction string text generalizing chars rest with
  | case2 rest' =>
    cases h
    exact ⟨List.suffix_cons _ _, rfl⟩
  | case6 a b c d lead hl _ _ e f g i rest' trail ht _ ih =>
    obtain ⟨hr, hk⟩ := string_map_ok ['\\', 'u', a, b, c, d, '\\', 'u', e, f, g, i] h ih
    refine ⟨hr, ?_⟩
    simp only [skipString, hl, ht, hk]
  | case10 a b c d rest' n hn _ _ ih =>
    obtain ⟨hr, hk⟩ := string_map_ok ['\\', 'u', a, b, c, d] h ih
    refine ⟨hr, ?_⟩
    simp only [skipString, hn, hk]
  | case13 e rest' _ hu c hc ih =>
    obtain ⟨hr, hk⟩ := string_map_ok ['\\', e] h ih
    refine ⟨hr, ?_⟩
    simp only [skipString, hc, hk]
  | case16 c rest' hq _ _ hn hb hc ih =>
    obtain ⟨hr, hk⟩ := string_map_ok [c] h ih
    refine ⟨hr, ?_⟩
    simp only [skipString, hc, hk, if_false]
  | _ => cases h

theorem word_suffix {letters : List Char} (h : word letters text = .ok ((), rest)) : rest <:+ text := by
  induction letters generalizing text with
  | nil =>
    cases h
    exact List.suffix_refl _
  | cons expected letters ih =>
    cases text with
    | nil => cases h
    | cons c text =>
      rw [word] at h
      split at h
      · exact (ih h).trans (List.suffix_cons c text)
      · cases h

/-! ## Numbers -/

theorem takeDigits_suffix {ds : List Nat} (h : Decimal.takeDigits text = (ds, rest)) : rest <:+ text :=
  ⟨_, (Decimal.eq_of_takeDigits h).1.symm⟩

namespace Literal

/-- The cause of a text that ends too early has no part in what is read off any other text. -/
def Steady {α : Type} (scan : Cause → Scan α) : Prop :=
  ∀ ⦃atEnd text a rest⦄, scan atEnd text = .ok (a, rest) → rest <:+ text ∧ ∀ atEnd', scan atEnd' text = .ok (a, rest)

theorem steady_scanWhole : Steady scanWhole := by
  intro atEnd text ds rest h
  fun_cases scanWhole atEnd text with
  | case1 => cases h
  | case2 text after ht =>
    refine ⟨?_, fun _ => h⟩
    simp only [scanWhole, ht] at h
    cases h
    exact (takeDigits_suffix ht).trans (List.suffix_cons _ _)
  | case3 text ht =>
    simp only [scanWhole] at h
    cases h
  | case4 _ _ _ _ ht =>
    simp only [scanWhole, ht] at h
    cases h
  | case5 =>
    simp only [scanWhole] at h ⊢
    exact ⟨takeDigits_suffix (Except.ok.inj h), fun _ => h⟩

theorem steady_scanFraction : Steady scanFraction := by
  intro atEnd text ds rest h
  fun_cases scanFraction atEnd text with
  | case1 text ht =>
    simp only [scanFraction, ht] at h
    cases h
  | case2 text _ _ ht =>
    simp only [scanFraction, ht] at h
    cases h
  | case3 text =>
    simp only [scanFraction] at h ⊢
    exact ⟨(takeDigits_suffix (Except.ok.inj h)).trans (List.suffix_cons _ _), fun _ => h⟩
  | case4 =>
    simp only [scanFraction] at h ⊢
    cases h
    exact ⟨List.suffix_refl _, fun _ => rfl⟩

theorem scanSign_suffix (text : List Char) : (scanSign text).2 <:+ text := by
  unfold scanSign
  split
  · exact List.suffix_cons _ _
  · exact List.suffix_cons _ _
  · exact List.suffix_refl _

theorem steady_scanExponentDigits : Steady scanExponentDigits := by
  intro atEnd text e rest h
  have hs := scanSign_suffix text
  fun_cases scanExponentDigits atEnd text with
  | case1 negative text' he ht =>
    simp only [scanExponentDigits, he, ht] at h
    cases h
  | case2 negative text' he after _ ht =>
    simp only [scanExponentDigits, he, ht] at h
    cases h
  | case3 negative text' he digits after _ _ ht =>
    rw [he] at hs
    simp only [scanExponentDigits, he, ht] at h ⊢
    cases h
    exact ⟨(takeDigits_suffix ht).trans hs, fun _ => rfl⟩

theorem steady_scanExponent : Steady scanExponent := by
  intro atEnd text e rest h
  fun_cases scanExponent atEnd text with
  | case1 text | case2 text =>
    obtain ⟨hr, hs⟩ := steady_scanExponentDigits h
    exact ⟨hr.trans (List.suffix_cons _ _), hs⟩
  | case3 =>
    simp only [scanExponent] at h ⊢
    cases h
    exact ⟨List.suffix_refl _, fun _ => rfl⟩

theorem steady_scan : Steady scan := by
  intro atEnd text l rest h
  fun_cases scan atEnd text with
  | case1 negative text' he =>
    have ht : text' <:+ text := by
      split at he <;> cases he
      · exact List.suffix_cons _ _
      · exact List.suffix_refl _
    simp only [scan, he] at h ⊢
    obtain ⟨⟨whole, rest₁⟩, hw, h⟩ := bind_ok h
    obtain ⟨⟨fraction, rest₂⟩, hf, h⟩ := bind_ok h
    obtain ⟨⟨exponent, rest₃⟩, hx, h⟩ := bind_ok h
    cases h
    obtain ⟨hw, hws⟩ := steady_scanWhole hw
    obtain ⟨hf, hfs⟩ := steady_scanFraction hf
    obtain ⟨hx, hxs⟩ := steady_scanExponent hx
    refine ⟨hx.trans (hf.trans (hw.trans ht)), fun atEnd' => ?_⟩
    simp only [hws, hfs, hxs, bind, Except.bind]
    rfl

end Literal

theorem number_ok {n : Number} (h : number text = .ok (n, rest)) :
    rest <:+ text ∧ skipNumber text = .ok ((), rest) := by
  obtain ⟨⟨l, rest'⟩, hl, h⟩ := bind_ok h
  obtain ⟨hr, hs⟩ := Literal.steady_scan hl
  simp only at h
  split at h <;> cases h
  rw [skipNumber, hs]
  exact ⟨hr, rfl⟩

/-! ## Scalars -/

theorem scanScalar_ok {v : Value} (h : Value.scanScalar text = .ok (v, rest)) :
    rest <:+ text ∧ skipScalar text = .ok ((), rest) := by
  fun_cases Value.scanScalar text with
  | case1 => cases h
  | case2 text | case3 text | case4 text =>
    obtain ⟨⟨_, rest'⟩, hw, h⟩ := map_ok h
    cases h
    exact ⟨(word_suffix hw).trans (List.suffix_cons _ _), hw⟩
  | case5 text =>
    obtain ⟨⟨chars, rest'⟩, hs, h⟩ := map_ok h
    cases h
    obtain ⟨hr, hk⟩ := string_ok hs
    exact ⟨hr.trans (List.suffix_cons _ _), hk⟩
  | case6 c text hn ht hf hq hs =>
    simp only [Value.scanScalar, if_pos hs] at h
    obtain ⟨⟨n, rest'⟩, hn, h⟩ := map_ok h
    cases h
    simp only [skipScalar, if_pos hs]
    exact number_ok hn
  | case7 c text hn ht hf hq hs =>
    simp only [Value.scanScalar, if_neg hs] at h
    cases h

/-! ## Values -/

theorem leaves_scanKey : Leaves Value.scanKey := by
  intro text key rest h
  obtain ⟨⟨chars, rest'⟩, hs, h⟩ := map_ok h
  cases h
  exact (string_ok hs).1

theorem leaves_scanWithin (limit : Nat) : Leaves (Value.scanWithin limit) := by
  induction limit with
  | zero =>
    intro text v rest h
    cases Value.scanned h with
    | scalar _ _ hv => exact (scanScalar_ok hv).1.trans (skipBlanks_suffix text)
  | succ limit ih =>
    intro text v rest h
    cases Value.scanned h with
    | array hs hi => exact (hi.suffix ih).trans (suffix_of_skipBlanks hs)
    | object hs hm => exact (hm.suffix leaves_scanKey ih).trans (suffix_of_skipBlanks hs)
    | scalar _ _ hv => exact (scanScalar_ok hv).1.trans (skipBlanks_suffix text)

theorem skipWithin_scalar (limit : Nat) (ha : ∀ rest, skipBlanks text ≠ '[' :: rest)
    (ho : ∀ rest, skipBlanks text ≠ '\x7b' :: rest) : skipWithin limit text = skipScalar (skipBlanks text) := by
  cases limit with
  | zero => rfl
  | succ limit =>
    rw [skipWithin]
    split
    · rename_i he
      exact absurd he (ha _)
    · rename_i he
      exact absurd he (ho _)
    · rfl

theorem reads_skip {value : Scan Value} {limit : Nat}
    (hv : ∀ t v r, t <:+ text → value t = .ok (v, r) → skipWithin limit t = .ok ((), r)) :
    Reads Value.scanKey value skipString (fun _ _ text => do skipWithin limit (← colon text)) (fun _ => ())
      (fun _ _ => some ()) text := by
  constructor
  · intro t k r _ hk
    obtain ⟨⟨chars, r'⟩, hs, hk⟩ := map_ok hk
    cases hk
    exact (string_ok hs).2
  · intro t t' k v r ht hc hr _ s' r'
    rw [hc]
    show skipWithin limit t' = _ ↔ _
    rw [hv _ _ _ ((colon_suffix hc).trans ht) hr]
    simp [eq_comm]

theorem skipWithin_of_scanned {limit n : Nat} {v : Value} (h : Value.Scanned limit text v rest)
    (hn : text.length ≤ n) : skipWithin n text = .ok ((), rest) := by
  -- `limit` bounds the nesting, and `n` only the length of the text
  induction limit generalizing text rest n v with
  | zero =>
    cases h with
    | scalar ha ho hv =>
      rw [skipWithin_scalar n ha ho]
      exact (scanScalar_ok hv).2
  | succ limit ih =>
    cases h with
    | array hs hi =>
      have hl := length_lt_of_skipBlanks hs
      obtain ⟨n, rfl⟩ := Nat.exists_eq_succ_of_ne_zero (n := n) (by omega)
      have hr : elements (skipWithin n) lenient _ = .ok (_, rest) := hi.run lenient (leaves_scanWithin limit)
        fun t v r ht hv => ih (Value.scanned hv) (by have := ht.length_le; omega)
      simp only [skipWithin, hs, hr]
      rfl
    | object hs hm =>
      have hl := length_lt_of_skipBlanks hs
      obtain ⟨n, rfl⟩ := Nat.exists_eq_succ_of_ne_zero (n := n) (by omega)
      simp only [skipWithin, hs]
      refine (hm.run leaves_scanKey (leaves_scanWithin limit) (reads_skip ?_)).2 ⟨rfl, ?_⟩
      · intro t v r ht hv
        exact ih (Value.scanned hv) (by have := ht.length_le; omega)
      · exact List.foldlM_pure
    | scalar ha ho hv =>
      rw [skipWithin_scalar n ha ho]
      exact (scanScalar_ok hv).2

theorem skip_ok {limit : Nat} {v : Value} (h : Value.scanWithin limit text = .ok (v, rest)) :
    skip text = .ok ((), rest) :=
  skipWithin_of_scanned (Value.scanned h) (Nat.le_refl _)

end

end Telemetry.Json
