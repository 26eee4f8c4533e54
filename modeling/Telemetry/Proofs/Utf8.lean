import Telemetry.Utf8

/-!
# Encoding and decoding agree

The machine reads the bytes of every list of characters back (`decode_encode`),
and what it reads has no other bytes (`encode_of_decode`). `Opened` says which
bytes of a character lead the machine into which state.
-/

namespace Telemetry.Utf8

theorem encode_cons (c : Char) (text : List Char) :
    encode (c :: text) = String.utf8EncodeChar c ++ encode text := rfl

/-! ## Characters by their number -/

theorem toNat_ofNat {n : Nat} (h : n < 0xD800 ∨ 0xDFFF < n ∧ n < 0x110000) : (Char.ofNat n).toNat = n := by
  have hv : n.isValidChar := h
  rw [Char.ofNat, dif_pos hv]
  rfl

theorem encodeChar_eq (c : Char) : String.utf8EncodeChar c =
    if c.toNat ≤ 0x7F then [UInt8.ofNat c.toNat]
    else if c.toNat ≤ 0x7FF then
      [UInt8.ofNat (c.toNat / 64 + 0xC0), UInt8.ofNat (c.toNat % 64 + 0x80)]
    else if c.toNat ≤ 0xFFFF then
      [UInt8.ofNat (c.toNat / 4096 + 0xE0), UInt8.ofNat (c.toNat / 64 % 64 + 0x80),
        UInt8.ofNat (c.toNat % 64 + 0x80)]
    else
      [UInt8.ofNat (c.toNat / 262144 + 0xF0), UInt8.ofNat (c.toNat / 4096 % 64 + 0x80),
        UInt8.ofNat (c.toNat / 64 % 64 + 0x80), UInt8.ofNat (c.toNat % 64 + 0x80)] := by
  have hv : c.val.toNat = c.toNat := rfl
  have hlt : c.toNat < 0x110000 := by
    have := c.valid
    simp only [UInt32.isValidChar, Nat.isValidChar, hv] at this
    omega
  unfold String.utf8EncodeChar
  simp only [hv]
  split
  · rfl
  · split
    · rw [Nat.mod_eq_of_lt (by omega : c.toNat / 64 < 0x20)]
    · split
      · rw [Nat.mod_eq_of_lt (by omega : c.toNat / 4096 < 0x10)]
      · rw [Nat.mod_eq_of_lt (by omega : c.toNat / 262144 < 0x08)]

theorem toNat_byte {n : Nat} (h : n < 256) : (UInt8.ofNat n).toNat = n := by
  rw [UInt8.toNat_ofNat', Nat.mod_eq_of_lt h]

theorem byte_eq {b : UInt8} {n : Nat} (h : b.toNat = n) : UInt8.ofNat n = b := by
  rw [← h, UInt8.ofNat_toNat]

/-! ## Steps of the machine -/

theorem lead?_iff {b : UInt8} {need : Need} {bits : Nat} : lead? b = some (need, bits) ↔
    (b.toNat = bits + 0xC0 ∧ 2 ≤ bits ∧ bits < 32 ∧ need = ⟨0x80, 0xBF, 0⟩) ∨
    (b.toNat = bits + 0xE0 ∧ bits < 16 ∧
      need = ⟨if bits = 0 then 0xA0 else 0x80, if bits = 0xD then 0x9F else 0xBF, 1⟩) ∨
    (b.toNat = bits + 0xF0 ∧ bits < 5 ∧
      need = ⟨if bits = 0 then 0x90 else 0x80, if bits = 4 then 0x8F else 0xBF, 2⟩) := by
  unfold lead?
  simp only [UInt8.le_iff_toNat_le, ← UInt8.toNat_inj, UInt8.reduceToNat]
  constructor
  · intro h
    split at h
    · simp only [Option.some.injEq, Prod.mk.injEq] at h
      obtain ⟨rfl, rfl⟩ := h
      exact .inl ⟨by omega, by omega, by omega, rfl⟩
    split at h
    · simp only [Option.some.injEq, Prod.mk.injEq] at h
      obtain ⟨rfl, rfl⟩ := h
      exact .inr (.inl ⟨by omega, by omega, rfl⟩)
    split at h
    · simp only [Option.some.injEq, Prod.mk.injEq] at h
      obtain ⟨rfl, rfl⟩ := h
      exact .inr (.inl ⟨by omega, by omega, rfl⟩)
    split at h
    · simp only [Option.some.injEq, Prod.mk.injEq] at h
      obtain ⟨rfl, rfl⟩ := h
      refine .inr (.inl ⟨by omega, by omega, ?_⟩)
      rw [if_neg (by omega), if_neg (by omega)]
    split at h
    · simp only [Option.some.injEq, Prod.mk.injEq] at h
      obtain ⟨rfl, rfl⟩ := h
      exact .inr (.inr ⟨by omega, by omega, rfl⟩)
    split at h
    · simp only [Option.some.injEq, Prod.mk.injEq] at h
      obtain ⟨rfl, rfl⟩ := h
      refine .inr (.inr ⟨by omega, by omega, ?_⟩)
      rw [if_neg (by omega), if_neg (by omega)]
    split at h
    · simp only [Option.some.injEq, Prod.mk.injEq] at h
      obtain ⟨rfl, rfl⟩ := h
      exact .inr (.inr ⟨by omega, by omega, rfl⟩)
    · cases h
  · rintro (⟨hb, _, _, rfl⟩ | ⟨hb, _, rfl⟩ | ⟨hb, _, rfl⟩)
    · rw [if_pos (by omega), hb, Nat.add_sub_cancel]
    · rw [hb]
      by_cases h₀ : bits = 0
      · subst h₀; rfl
      by_cases h₁ : bits = 0xD
      · subst h₁; rfl
      rw [if_neg (by omega), if_neg (by omega), if_neg (by omega), if_pos (by omega), if_neg h₀, if_neg h₁,
        Nat.add_sub_cancel]
    · rw [hb]
      by_cases h₀ : bits = 0
      · subst h₀; rfl
      by_cases h₁ : bits = 4
      · subst h₁; rfl
      rw [if_neg (by omega), if_neg (by omega), if_neg (by omega), if_neg (by omega), if_neg (by omega),
        if_pos (by omega), if_neg h₀, if_neg h₁, Nat.add_sub_cancel]

section
variable {b : UInt8} {c : Char} {need : Need} {seen bits : Nat}

theorem step_lead (h : lead? b = some (need, bits)) : step .between b = .more (.inside need 1 bits) := by
  have hb : ¬ b < 0x80 := by
    rw [UInt8.lt_iff_toNat_lt]
    rcases lead?_iff.1 h with ⟨hb, _⟩ | ⟨hb, _⟩ | ⟨hb, _⟩ <;> rw [hb] <;> simp only [UInt8.reduceToNat] <;> omega
  simp only [step, if_neg hb, h]

theorem step_between_eq_char (h : step .between b = .char c) : b.toNat < 0x80 ∧ c = Char.ofNat b.toNat := by
  simp only [step] at h
  split at h
  · rename_i hb
    simp only [Step.char.injEq] at h
    exact ⟨UInt8.lt_iff_toNat_lt.1 hb, h.symm⟩
  · split at h <;> cases h

theorem step_between_eq_more {s : State} (h : step .between b = .more s) :
    ∃ need bits, lead? b = some (need, bits) ∧ s = .inside need 1 bits := by
  simp only [step] at h
  split at h
  · cases h
  · split at h
    · rename_i hl
      simp only [Step.more.injEq] at h
      exact ⟨_, _, hl, h.symm⟩
    · cases h

theorem step_inside_eq_char (h : step (.inside need seen bits) b = .char c) :
    (need.least ≤ b ∧ b ≤ need.greatest) ∧ need.further = 0 ∧
      c = Char.ofNat (bits * 64 + (b.toNat - 0x80)) := by
  simp only [step] at h
  split at h
  · rename_i hb
    split at h
    · rename_i hf
      simp only [Step.char.injEq] at h
      exact ⟨hb, hf, h.symm⟩
    · cases h
  · cases h

theorem step_inside_eq_more {s : State} (h : step (.inside need seen bits) b = .more s) :
    (need.least ≤ b ∧ b ≤ need.greatest) ∧
      ∃ n, need.further = n + 1 ∧ s = .inside ⟨0x80, 0xBF, n⟩ (seen + 1) (bits * 64 + (b.toNat - 0x80)) := by
  simp only [step] at h
  split at h
  · rename_i hb
    split at h
    · cases h
    · rename_i n hf
      simp only [Step.more.injEq] at h
      exact ⟨hb, n, hf, h.symm⟩
  · cases h

theorem step_last (hb : need.least ≤ b ∧ b ≤ need.greatest) (hf : need.further = 0) :
    step (.inside need seen bits) b = .char (Char.ofNat (bits * 64 + (b.toNat - 0x80))) := by
  simp only [step, if_pos hb, hf]

theorem step_further {n : Nat} (hb : need.least ≤ b ∧ b ≤ need.greatest) (hf : need.further = n + 1) :
    step (.inside need seen bits) b =
      .more (.inside ⟨0x80, 0xBF, n⟩ (seen + 1) (bits * 64 + (b.toNat - 0x80))) := by
  simp only [step, if_pos hb, hf]

theorem run_char {s : State} (h : step s b = .char c) (index : Nat) (bytes : Bytes) :
    run s index (b :: bytes) = (run .between (index + c.utf8Size) bytes).map (c :: ·) := by
  rw [run, h]

theorem run_more {s s' : State} (h : step s b = .more s') (index : Nat) (bytes : Bytes) :
    run s index (b :: bytes) = run s' index bytes := by
  rw [run, h]

end

/-! ## What the encoding of a character does to the machine -/

theorem tail_mem {n : Nat} (h : n < 64) : (0x80 : UInt8) ≤ UInt8.ofNat (n + 0x80) ∧ UInt8.ofNat (n + 0x80) ≤ 0xBF := by
  simp only [UInt8.le_iff_toNat_le, UInt8.reduceToNat, toNat_byte (show n + 0x80 < 256 by omega)]
  omega

theorem run_tail {n : Nat} (h : n < 64) (seen bits index : Nat) (bytes : Bytes) :
    run (.inside ⟨0x80, 0xBF, 0⟩ seen bits) index (UInt8.ofNat (n + 0x80) :: bytes) =
      (run .between (index + (Char.ofNat (bits * 64 + n)).utf8Size) bytes).map (Char.ofNat (bits * 64 + n) :: ·) := by
  have hs : step (.inside ⟨0x80, 0xBF, 0⟩ seen bits) (UInt8.ofNat (n + 0x80)) =
      .char (Char.ofNat (bits * 64 + n)) := by
    rw [step_last (tail_mem h) rfl, toNat_byte (by omega), Nat.add_sub_cancel]
  exact run_char hs index bytes

theorem run_further {n k : Nat} {need : Need} (h : n < 64) (hf : need.further = k + 1)
    (hb : need.least ≤ UInt8.ofNat (n + 0x80) ∧ UInt8.ofNat (n + 0x80) ≤ need.greatest)
    (seen bits index : Nat) (bytes : Bytes) :
    run (.inside need seen bits) index (UInt8.ofNat (n + 0x80) :: bytes) =
      run (.inside ⟨0x80, 0xBF, k⟩ (seen + 1) (bits * 64 + n)) index bytes := by
  have hs : step (.inside need seen bits) (UInt8.ofNat (n + 0x80)) =
      .more (.inside ⟨0x80, 0xBF, k⟩ (seen + 1) (bits * 64 + n)) := by
    rw [step_further hb hf, toNat_byte (by omega), Nat.add_sub_cancel]
  exact run_more hs index bytes

theorem toNat_lt (c : Char) : c.toNat < 0xD800 ∨ 0xDFFF < c.toNat ∧ c.toNat < 0x110000 := c.valid

theorem run_encodeChar (c : Char) (index : Nat) (bytes : Bytes) :
    run .between index (String.utf8EncodeChar c ++ bytes) =
      (run .between (index + c.utf8Size) bytes).map (c :: ·) := by
  have hc := toNat_lt c
  rw [encodeChar_eq]
  split
  · have hb := toNat_byte (show c.toNat < 256 by omega)
    have hs : step .between (UInt8.ofNat c.toNat) = .char c := by
      simp only [step]
      have hlt : UInt8.ofNat c.toNat < 0x80 := by
        simp only [UInt8.lt_iff_toNat_lt, hb, UInt8.reduceToNat]
        omega
      rw [if_pos hlt, hb, Char.ofNat_toNat]
    exact run_char hs index bytes
  split
  · have hl : lead? (UInt8.ofNat (c.toNat / 64 + 0xC0)) = some (⟨0x80, 0xBF, 0⟩, c.toNat / 64) :=
      lead?_iff.2 (.inl ⟨toNat_byte (by omega), by omega, by omega, rfl⟩)
    simp only [List.cons_append, List.nil_append]
    rw [run_more (step_lead hl), run_tail (by omega), Nat.div_add_mod', Char.ofNat_toNat]
  split
  · have hl := lead?_iff.2 (.inr (.inl ⟨toNat_byte (show c.toNat / 4096 + 0xE0 < 256 by omega), by omega, rfl⟩))
    simp only [List.cons_append, List.nil_append]
    rw [run_more (step_lead hl), run_further (by omega) rfl, run_tail (by omega)]
    · rw [show (c.toNat / 4096 * 64 + c.toNat / 64 % 64) * 64 + c.toNat % 64 = c.toNat by omega, Char.ofNat_toNat]
    · simp only [UInt8.le_iff_toNat_le, toNat_byte (show c.toNat / 64 % 64 + 0x80 < 256 by omega)]
      split <;> split <;> simp only [UInt8.reduceToNat] <;> omega
  · have hl := lead?_iff.2 (.inr (.inr ⟨toNat_byte (show c.toNat / 262144 + 0xF0 < 256 by omega), by omega, rfl⟩))
    simp only [List.cons_append, List.nil_append]
    rw [run_more (step_lead hl), run_further (by omega) rfl, run_further (by omega) rfl (tail_mem (by omega)),
      run_tail (by omega)]
    · rw [show ((c.toNat / 262144 * 64 + c.toNat / 4096 % 64) * 64 + c.toNat / 64 % 64) * 64 + c.toNat % 64 =
        c.toNat by omega, Char.ofNat_toNat]
    · simp only [UInt8.le_iff_toNat_le, toNat_byte (show c.toNat / 4096 % 64 + 0x80 < 256 by omega)]
      split <;> split <;> simp only [UInt8.reduceToNat] <;> omega

theorem run_encode (text : List Char) (index : Nat) : run .between index (encode text) = .ok text := by
  induction text generalizing index with
  | nil => rfl
  | cons c text ih => rw [encode_cons, run_encodeChar, ih]; rfl

theorem decode_encode (text : List Char) : decode (encode text) = .ok text := run_encode text 0

/-! ## What the machine has seen -/

/-- The bytes of an unfinished character that lead from between characters into
a state. -/
inductive Opened : Bytes → State → Prop
  | between : Opened [] .between
  | one {b need bits} : lead? b = some (need, bits) → Opened [b] (.inside need 1 bits)
  | two {b c need bits k} : lead? b = some (need, bits) → need.least ≤ c ∧ c ≤ need.greatest →
      need.further = k + 1 →
      Opened [b, c] (.inside ⟨0x80, 0xBF, k⟩ 2 (bits * 64 + (c.toNat - 0x80)))
  | three {b c d need bits} : lead? b = some (need, bits) → need.least ≤ c ∧ c ≤ need.greatest →
      (0x80 : UInt8) ≤ d ∧ d ≤ 0xBF → need.further = 2 →
      Opened [b, c, d]
        (.inside ⟨0x80, 0xBF, 0⟩ 3 ((bits * 64 + (c.toNat - 0x80)) * 64 + (d.toNat - 0x80)))

theorem further_le {b : UInt8} {need : Need} {bits : Nat} (h : lead? b = some (need, bits)) : need.further ≤ 2 := by
  rcases lead?_iff.1 h with ⟨_, _, _, rfl⟩ | ⟨_, _, rfl⟩ | ⟨_, _, rfl⟩ <;> simp

theorem three_range {bits : Nat} {d : UInt8} (hbits : bits < 16)
    (hd : (if bits = 0 then 0xA0 else 0x80) ≤ d ∧ d ≤ if bits = 0xD then 0x9F else 0xBF) :
    0x80 ≤ d.toNat ∧ d.toNat ≤ 0xBF ∧ 0x20 ≤ bits * 64 + (d.toNat - 0x80) ∧
      (bits * 64 + (d.toNat - 0x80) < 0x360 ∨ 0x380 ≤ bits * 64 + (d.toNat - 0x80)) := by
  -- the narrow ranges keep out overlong forms and surrogates
  simp only [UInt8.le_iff_toNat_le] at hd
  split at hd <;> split at hd <;> simp only [UInt8.reduceToNat] at hd <;> omega

theorem four_range {bits : Nat} {d : UInt8} (hbits : bits < 5)
    (hd : (if bits = 0 then 0x90 else 0x80) ≤ d ∧ d ≤ if bits = 4 then 0x8F else 0xBF) :
    0x80 ≤ d.toNat ∧ d.toNat ≤ 0xBF ∧ 0x10 ≤ bits * 64 + (d.toNat - 0x80) ∧
      bits * 64 + (d.toNat - 0x80) < 0x110 := by
  simp only [UInt8.le_iff_toNat_le] at hd
  split at hd <;> split at hd <;> simp only [UInt8.reduceToNat] at hd <;> omega

section
variable {seen : Bytes} {s : State} {b : UInt8}

theorem Opened.more {s' : State} (ho : Opened seen s) (h : step s b = .more s') : Opened (seen ++ [b]) s' := by
  cases ho with
  | between =>
    obtain ⟨need, bits, hl, rfl⟩ := step_between_eq_more h
    exact .one hl
  | one hl =>
    obtain ⟨hb, k, hf, rfl⟩ := step_inside_eq_more h
    exact .two hl hb hf
  | two hl hc hf =>
    obtain ⟨hb, k, hf', rfl⟩ := step_inside_eq_more h
    have := further_le hl
    simp only at hf'
    obtain rfl : k = 0 := by omega
    exact .three hl hc hb (by omega)
  | three _ _ _ _ =>
    obtain ⟨_, k, hf', _⟩ := step_inside_eq_more h
    cases hf'

theorem Opened.char {c : Char} (ho : Opened seen s) (h : step s b = .char c) :
    String.utf8EncodeChar c = seen ++ [b] := by
  cases ho with
  | between =>
    obtain ⟨hb, hc⟩ := step_between_eq_char h
    have hn := toNat_ofNat (n := b.toNat) (by omega)
    rw [← hc] at hn
    rw [encodeChar_eq, hn, if_pos (by omega), UInt8.ofNat_toNat]
    rfl
  | @one a need bits hl =>
    obtain ⟨hb, hf, hc⟩ := step_inside_eq_char h
    rcases lead?_iff.1 hl with ⟨ha, _, _, rfl⟩ | ⟨_, _, rfl⟩ | ⟨_, _, rfl⟩
    · simp only [UInt8.le_iff_toNat_le, UInt8.reduceToNat] at hb
      have hn := toNat_ofNat (n := bits * 64 + (b.toNat - 0x80)) (by omega)
      rw [← hc] at hn
      rw [encodeChar_eq, if_neg (by omega), if_pos (by omega), byte_eq (b := a) (by omega),
        byte_eq (b := b) (by omega)]
      rfl
    · cases hf
    · cases hf
  | @two a d need bits k hl hd hk =>
    obtain ⟨hb, hf, hc⟩ := step_inside_eq_char h
    simp only at hf
    subst hf
    rcases lead?_iff.1 hl with ⟨_, _, _, rfl⟩ | ⟨ha, _, rfl⟩ | ⟨_, _, rfl⟩
    · cases hk
    · have hm := three_range (by omega) hd
      simp only [UInt8.le_iff_toNat_le, UInt8.reduceToNat] at hb
      have hn := toNat_ofNat (n := (bits * 64 + (d.toNat - 0x80)) * 64 + (b.toNat - 0x80)) (by omega)
      rw [← hc] at hn
      rw [encodeChar_eq, if_neg (by omega), if_neg (by omega), if_pos (by omega), byte_eq (b := a) (by omega),
        byte_eq (b := d) (by omega), byte_eq (b := b) (by omega)]
      rfl
    · cases hk
  | @three a d e need bits hl hd he hk =>
    obtain ⟨hb, _, hc⟩ := step_inside_eq_char h
    rcases lead?_iff.1 hl with ⟨_, _, _, rfl⟩ | ⟨_, _, rfl⟩ | ⟨ha, _, rfl⟩
    · cases hk
    · cases hk
    · have hm := four_range (by omega) hd
      simp only [UInt8.le_iff_toNat_le, UInt8.reduceToNat] at hb he
      have hn := toNat_ofNat
        (n := ((bits * 64 + (d.toNat - 0x80)) * 64 + (e.toNat - 0x80)) * 64 + (b.toNat - 0x80)) (by omega)
      rw [← hc] at hn
      rw [encodeChar_eq, if_neg (by omega), if_neg (by omega), if_neg (by omega), byte_eq (b := a) (by omega),
        byte_eq (b := d) (by omega), byte_eq (b := e) (by omega), byte_eq (b := b) (by omega)]
      rfl

end

theorem run_ok {seen bytes : Bytes} {s : State} {index : Nat} {text : List Char} (ho : Opened seen s)
    (h : run s index bytes = .ok text) : encode text = seen ++ bytes := by
  induction bytes generalizing seen s index text with
  | nil =>
    cases s with
    | between =>
      cases ho
      cases h
      rfl
    | inside need n bits => cases h
  | cons b bytes ih =>
    rw [run] at h
    split at h
    · rename_i c hs
      cases hr : run .between (index + c.utf8Size) bytes with
      | error fault => rw [hr] at h; cases h
      | ok rest =>
        rw [hr] at h
        cases h
        rw [encode_cons, ho.char hs, ih .between hr, List.append_assoc]
        rfl
    · rename_i hs
      rw [ih (ho.more hs) h, List.append_assoc]
      rfl
    · cases h

theorem encode_of_decode {bytes : Bytes} {text : List Char} (h : decode bytes = .ok text) : encode text = bytes :=
  run_ok .between h

theorem wellFormed_iff {bytes : Bytes} : WellFormed bytes ↔ ∃ text, decode bytes = .ok text := by
  constructor
  · rintro ⟨text, rfl⟩
    exact ⟨text, decode_encode text⟩
  · rintro ⟨text, h⟩
    exact ⟨text, encode_of_decode h⟩

end Telemetry.Utf8
