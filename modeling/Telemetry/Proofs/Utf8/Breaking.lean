import Telemetry.Proofs.Utf8

/-!
# Where bytes break off being text

Bytes that are no text are the encoding of some characters and behind it the beginning of
one more, at which the bytes end or which the next byte does not carry on (`breaks_decode`).
The characters in front are the longest well-formed part, and only an end can be mended by
more bytes.
-/

namespace Telemetry.Utf8

def Begun (bytes : Bytes) : Prop := ∃ c, bytes <+: String.utf8EncodeChar c

/-- Of the parts in front of the bytes that have the property, the longest has this length. -/
structure Longest (P : Bytes → Prop) (bytes : Bytes) (n : Nat) : Prop where
  le : n ≤ bytes.length
  has : P (bytes.take n)
  greatest : ∀ k ≤ bytes.length, P (bytes.take k) → k ≤ n

def Fault.index : Fault → Nat
  | .invalid index _ => index
  | .incomplete index => index

/-! ## Characters that have begun -/

theorem encodeChar_ne_nil (c : Char) : String.utf8EncodeChar c ≠ [] := by
  intro h
  have hl := String.length_utf8EncodeChar c
  rw [h] at hl
  exact absurd hl (Nat.ne_of_lt c.utf8Size_pos)

theorem eq_of_encodeChar_prefix {c d : Char} (h : String.utf8EncodeChar c <+: String.utf8EncodeChar d) : c = d := by
  obtain ⟨rest, hr⟩ := h
  have hd := run_encodeChar d 0 []
  rw [List.append_nil, ← hr, run_encodeChar c 0 rest] at hd
  cases hc : run .between (0 + c.utf8Size) rest with
  | error fault =>
    rw [hc] at hd
    cases hd
  | ok text =>
    rw [hc] at hd
    cases hd
    rfl

section
variable {seen : Bytes} {s : State} {b : UInt8}

theorem Opened.run (ho : Opened seen s) (index : Nat) (bytes : Bytes) :
    run .between index (seen ++ bytes) = Utf8.run s index bytes := by
  cases ho with
  | between => rfl
  | one hl => exact run_more (step_lead hl) index bytes
  | two hl hc hf =>
    rw [List.cons_append, run_more (step_lead hl)]
    exact run_more (step_further hc hf) index bytes
  | three hl hc hd hf =>
    rw [List.cons_append, run_more (step_lead hl), List.cons_append, run_more (step_further hc hf)]
    exact run_more (step_further hd rfl) index bytes

theorem Opened.seen_eq {need : Need} {n bits : Nat} (ho : Opened seen (.inside need n bits)) :
    n = seen.length ∧ 0 < n ∧ need.least ≤ need.greatest := by
  cases ho with
  | one hl =>
    refine ⟨rfl, Nat.one_pos, ?_⟩
    rcases lead?_iff.1 hl with ⟨_, _, _, rfl⟩ | ⟨_, _, rfl⟩ | ⟨_, _, rfl⟩
    · decide
    · simp only [UInt8.le_iff_toNat_le]
      split <;> split <;> simp only [UInt8.reduceToNat] <;> omega
    · simp only [UInt8.le_iff_toNat_le]
      split <;> split <;> simp only [UInt8.reduceToNat] <;> omega
  | two _ _ _ => exact ⟨rfl, Nat.two_pos, (by decide : (0x80 : UInt8) ≤ 0xBF)⟩
  | three _ _ _ _ => exact ⟨rfl, Nat.succ_pos 2, (by decide : (0x80 : UInt8) ≤ 0xBF)⟩

theorem Opened.ends {need : Need} {n bits : Nat} (ho : Opened seen (.inside need n bits)) :
    ∃ c last, last ≠ [] ∧ String.utf8EncodeChar c = seen ++ last := by
  have hb : need.least ≤ need.least ∧ need.least ≤ need.greatest := ⟨UInt8.le_refl _, ho.seen_eq.2.2⟩
  induction hf : need.further generalizing seen need n bits with
  | zero => exact ⟨_, [need.least], by simp, ho.char (step_last hb hf)⟩
  | succ k ih =>
    have ho' := ho.more (step_further hb hf)
    obtain ⟨c, last, _, hc⟩ := ih ho' ⟨UInt8.le_refl _, ho'.seen_eq.2.2⟩ rfl
    exact ⟨c, need.least :: last, by simp, by simp [hc]⟩

theorem Opened.begun (ho : Opened seen s) : Begun seen := by
  cases s with
  | between =>
    cases ho
    exact ⟨default, List.nil_prefix⟩
  | inside need n bits =>
    obtain ⟨c, last, _, hc⟩ := ho.ends
    exact ⟨c, last, hc.symm⟩

theorem Opened.no_char (ho : Opened seen s) (c : Char) : ¬ String.utf8EncodeChar c <+: seen := by
  intro h
  cases s with
  | between =>
    cases ho
    exact encodeChar_ne_nil c (List.prefix_nil.1 h)
  | inside need n bits =>
    obtain ⟨d, last, hn, hd⟩ := ho.ends
    have he := eq_of_encodeChar_prefix (h.trans ⟨last, hd.symm⟩)
    have hl := h.length_le
    rw [he, hd, List.length_append] at hl
    exact hn (List.length_eq_zero_iff.1 (by omega))

theorem Opened.refused {k : Nat} (ho : Opened seen s) (h : step s b = .refused k) :
    k = max 1 seen.length ∧ ¬ Begun (seen ++ [b]) := by
  constructor
  · cases s with
    | between =>
      cases ho
      simp only [step] at h
      split at h
      · cases h
      · split at h <;> cases h
        rfl
    | inside need n bits =>
      obtain ⟨hn, hp, _⟩ := ho.seen_eq
      simp only [step] at h
      split at h
      · split at h <;> cases h
      · cases h
        omega
  · rintro ⟨c, rest, hc⟩
    have hr := run_encodeChar c 0 []
    rw [List.append_nil, ← hc, List.append_assoc, ho.run] at hr
    simp only [List.cons_append, Utf8.run, h] at hr
    cases hr

theorem Opened.refused_no_char {k : Nat} (ho : Opened seen s) (h : step s b = .refused k) (bytes : Bytes) (c : Char) :
    ¬ String.utf8EncodeChar c <+: seen ++ b :: bytes := by
  intro hc
  rcases Nat.lt_or_ge seen.length (String.utf8EncodeChar c).length with hl | hl
  · have hp : seen ++ [b] <+: seen ++ b :: bytes := (List.prefix_append_right_inj seen).2 (by simp)
    exact (ho.refused h).2 ⟨c, List.prefix_of_prefix_length_le hp hc (by rwa [List.length_append])⟩
  · exact ho.no_char c (List.prefix_of_prefix_length_le hc (List.prefix_append ..) hl)

end

/-! ## The characters in front -/

theorem encode_append (text text' : List Char) : encode (text ++ text') = encode text ++ encode text' :=
  List.flatMap_append ..

theorem encode_singleton (c : Char) : encode [c] = String.utf8EncodeChar c := List.flatMap_singleton ..

theorem run_encode_append (text : List Char) (index : Nat) (bytes : Bytes) :
    ∃ index', run .between index (encode text ++ bytes) = (run .between index' bytes).map (text ++ ·) := by
  induction text generalizing index with
  | nil => exact ⟨index, by cases h : run .between index bytes <;> simp [encode, h, Except.map]⟩
  | cons c text ih =>
    obtain ⟨index', hi⟩ := ih (index + c.utf8Size)
    refine ⟨index', ?_⟩
    rw [encode_cons, List.append_assoc, run_encodeChar, hi]
    cases run .between index' bytes <;> rfl

theorem wellFormed_append_iff {text : List Char} {bytes : Bytes} :
    WellFormed (encode text ++ bytes) ↔ WellFormed bytes := by
  constructor
  · intro h
    obtain ⟨whole, hw⟩ := wellFormed_iff.1 h
    obtain ⟨index', hi⟩ := run_encode_append text 0 bytes
    rw [decode, hi] at hw
    cases hr : run .between index' bytes with
    | error fault =>
      rw [hr] at hw
      cases hw
    | ok rest => exact ⟨rest, run_ok .between hr⟩
  · rintro ⟨rest, rfl⟩
    exact ⟨text ++ rest, encode_append text rest⟩

theorem eq_nil_of_wellFormed {bytes front : Bytes} (hb : ∀ c, ¬ String.utf8EncodeChar c <+: bytes)
    (hp : front <+: bytes) (h : WellFormed front) : front = [] := by
  obtain ⟨text, rfl⟩ := h
  cases text with
  | nil => rfl
  | cons c text => exact absurd ((List.prefix_append ..).trans hp) (hb c)

theorem longest_wellFormed (text : List Char) {bytes : Bytes} (hb : ∀ c, ¬ String.utf8EncodeChar c <+: bytes) :
    Longest WellFormed (encode text ++ bytes) (encode text).length := by
  refine ⟨by simp, ⟨text, by simp⟩, ?_⟩
  intro k hk h
  by_cases hl : k ≤ (encode text).length
  · exact hl
  rw [List.take_append, List.take_of_length_le (by omega), wellFormed_append_iff] at h
  have hn := eq_nil_of_wellFormed hb (List.take_prefix ..) h
  simp only [List.take_eq_nil_iff] at hn
  rw [List.length_append] at hk
  rcases hn with hn | rfl
  · omega
  · simpa using hk

/-! ## The break -/

/-- The bytes are no text for the reason that the fault gives. -/
inductive Breaks : Bytes → Fault → Prop where
  | cut {text : List Char} {seen : Bytes} {need : Need} {n bits : Nat} (ho : Opened seen (.inside need n bits)) :
      Breaks (encode text ++ seen) (.incomplete (encode text).length)
  | wrong {text : List Char} {seen bytes : Bytes} {s : State} {b : UInt8} {k : Nat} (ho : Opened seen s)
      (hs : step s b = .refused k) : Breaks (encode text ++ (seen ++ b :: bytes)) (.invalid (encode text).length k)

theorem breaks_run {text : List Char} {seen bytes : Bytes} {s : State} {fault : Fault} (ho : Opened seen s)
    (h : run s (encode text).length bytes = .error fault) : Breaks (encode text ++ (seen ++ bytes)) fault := by
  -- `text` is what is whole so far, and `seen` the bytes of a character that is not
  induction bytes generalizing text seen s with
  | nil =>
    cases s with
    | between => cases h
    | inside need n bits =>
      cases h
      rw [List.append_nil]
      exact .cut ho
  | cons b bytes ih =>
    rw [run] at h
    split at h
    · rename_i c hs
      have he : encode (text ++ [c]) = encode text ++ (seen ++ [b]) := by
        rw [encode_append, encode_singleton, ho.char hs]
      have hl : (encode (text ++ [c])).length = (encode text).length + c.utf8Size := by
        rw [he, ← ho.char hs, List.length_append, String.length_utf8EncodeChar]
      cases hr : run .between ((encode text).length + c.utf8Size) bytes with
      | ok rest =>
        rw [hr] at h
        cases h
      | error fault' =>
        rw [hr] at h
        cases h
        have hb := ih .between (hl ▸ hr)
        rw [he] at hb
        simpa using hb
    · rename_i s' hs
      have hb := ih (ho.more hs) h
      simpa using hb
    · cases h
      exact .wrong ho (by assumption)

theorem breaks_decode {bytes : Bytes} {fault : Fault} (h : decode bytes = .error fault) : Breaks bytes fault :=
  show Breaks (encode [] ++ ([] ++ bytes)) fault from breaks_run .between h

namespace Breaks

variable {bytes : Bytes} {fault : Fault}

theorem longest (h : Breaks bytes fault) : Longest WellFormed bytes fault.index := by
  cases h with
  | cut ho => exact longest_wellFormed _ ho.no_char
  | wrong ho hs => exact longest_wellFormed _ (ho.refused_no_char hs _)

theorem incomplete_iff (h : Breaks bytes fault) :
    (∃ more, WellFormed (bytes ++ more)) ↔ fault = .incomplete fault.index := by
  cases h with
  | @cut text seen need n bits ho =>
    obtain ⟨c, last, _, hc⟩ := ho.ends
    refine iff_of_true ⟨last, text ++ [c], ?_⟩ rfl
    rw [encode_append, encode_singleton, hc, List.append_assoc]
  | @wrong text seen rest s b k ho hs =>
    refine iff_of_false ?_ (by simp [Fault.index])
    rintro ⟨more, hm⟩
    rw [List.append_assoc, wellFormed_append_iff, List.append_assoc, List.cons_append] at hm
    have hn := eq_nil_of_wellFormed (ho.refused_no_char hs _) (List.prefix_refl _) hm
    simp at hn

theorem invalid (h : Breaks bytes fault) (hf : fault ≠ .incomplete fault.index) :
    ∃ k, Longest Begun (bytes.drop fault.index) k ∧ fault = .invalid fault.index (max 1 k) := by
  cases h with
  | cut ho => exact absurd rfl hf
  | @wrong text seen rest s b k ho hs =>
    obtain ⟨hk, hb⟩ := ho.refused hs
    refine ⟨seen.length, ?_, by rw [hk]; rfl⟩
    simp only [Fault.index, List.drop_left]
    refine ⟨by simp, by simpa using ho.begun, ?_⟩
    rintro n _ ⟨c, hc⟩
    by_cases hn : n ≤ seen.length
    · exact hn
    have hp : seen ++ [b] <+: (seen ++ b :: rest).take n := by
      refine List.prefix_of_prefix_length_le ?_ (List.take_prefix n (seen ++ b :: rest)) ?_
      · exact (List.prefix_append_right_inj seen).2 (by simp)
      · simp only [List.length_append, List.length_take, List.length_cons, List.length_nil]
        omega
    exact absurd ⟨c, hp.trans hc⟩ hb

end Breaks

end Telemetry.Utf8
