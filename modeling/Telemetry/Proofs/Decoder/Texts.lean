import Telemetry.Proofs.Decoder.Take
import Telemetry.Proofs.Utf8.Breaking

/-!
# Which payloads are texts

A frame in front whose payload is well formed is taken as the text with these bytes. Any other
payload comes back with the place where it breaks off being text. The bytes behind the frame
are left, whatever they are, and have no part in this.
-/

namespace Telemetry.Decoder

theorem takeText_wire {payload : Bytes} (hp : payload.length < 0x100000000) (rest : Bytes) :
    takeText ⟨Frame.wire payload ++ rest⟩ = ((textOf payload).map some, ⟨rest⟩) := by
  have hs := Frame.split?_wire hp rest
  rcases takeText_cases ⟨Frame.wire payload ++ rest⟩ with ⟨hb, _⟩ | ⟨payload', rest', hs', ht⟩
  · exact absurd ⟨payload, rest, hp, rfl⟩ hb
  · rw [hs] at hs'
    cases hs'
    exact ht

theorem textOf_eq_ok_iff {payload : Bytes} {text : String} : textOf payload = .ok text ↔ Bytes.ofText text = payload := by
  constructor
  · intro h
    rcases textOf_cases payload with ⟨chars, _, ht, hb⟩ | ⟨fault, _, ht⟩
    · rw [ht] at h
      cases h
      exact hb
    · rw [ht] at h
      cases h
  · rintro rfl
    rw [textOf, Bytes.ofText, Utf8.decode_encode]
    simp

theorem textOf_of_not_wellFormed {payload : Bytes} (h : ¬ Utf8.WellFormed payload) :
    ∃ index, Utf8.Longest Utf8.WellFormed payload index ∧
      ((∃ more, Utf8.WellFormed (payload ++ more)) ↔
        textOf payload = .error (.decoding payload (.utf8 (.incomplete index)))) ∧
      ((¬ ∃ more, Utf8.WellFormed (payload ++ more)) →
        ∃ n, Utf8.Longest Utf8.Begun (payload.drop index) n ∧
          textOf payload = .error (.decoding payload (.utf8 (.invalid index (max 1 n))))) := by
  rcases textOf_cases payload with ⟨text, ht, _⟩ | ⟨fault, hf, ht⟩
  · exact absurd (Utf8.wellFormed_iff.2 ⟨text, ht⟩) h
  have hb := Utf8.breaks_decode hf
  refine ⟨fault.index, hb.longest, ?_, ?_⟩
  · rw [hb.incomplete_iff, ht]
    simp
  · intro hn
    rw [hb.incomplete_iff] at hn
    obtain ⟨n, hl, he⟩ := hb.invalid hn
    refine ⟨n, hl, ?_⟩
    rw [ht, ← he]

/-- **A frame is taken as text exactly when its payload is well formed.** Any other payload comes back
with its longest well-formed part and what breaks it off there. -/
theorem takeText_exactly (payload rest : Bytes) (hp : payload.length < 0x100000000) :
    let taken := takeText ⟨Frame.wire payload ++ rest⟩
    taken.2 = ⟨rest⟩ ∧ (∀ rest', (takeText ⟨Frame.wire payload ++ rest'⟩).1 = taken.1) ∧
      ((∃ text, taken.1 = .ok (some text)) ↔ Utf8.WellFormed payload) ∧
      (∀ text, taken.1 = .ok (some text) → Bytes.ofText text = payload) ∧
      (¬ Utf8.WellFormed payload → ∃ index, Utf8.Longest Utf8.WellFormed payload index ∧
        ((∃ more, Utf8.WellFormed (payload ++ more)) ↔
          taken.1 = .error (.decoding payload (.utf8 (.incomplete index)))) ∧
        ((¬ ∃ more, Utf8.WellFormed (payload ++ more)) →
          ∃ n, Utf8.Longest Utf8.Begun (payload.drop index) n ∧
            taken.1 = .error (.decoding payload (.utf8 (.invalid index (max 1 n)))))) := by
  intro taken
  have ht : taken = ((textOf payload).map some, ⟨rest⟩) := takeText_wire hp rest
  have hok (text : String) : taken.1 = .ok (some text) ↔ Bytes.ofText text = payload := by
    rw [ht, ← textOf_eq_ok_iff]
    cases textOf payload <;> simp [Except.map]
  have herr (fault : Fault) : taken.1 = .error fault ↔ textOf payload = .error fault := by
    rw [ht]
    cases textOf payload <;> simp [Except.map]
  refine ⟨by rw [ht], ?_, ?_, fun text h => (hok text).1 h, ?_⟩
  · intro rest'
    rw [takeText_wire hp rest', ht]
  · constructor
    · rintro ⟨text, h⟩
      exact ⟨text.toList, (hok text).1 h⟩
    · rintro ⟨text, h⟩
      exact ⟨String.ofList text, (hok _).2 (by rw [ofText_ofList, h])⟩
  · intro hn
    simp only [herr]
    exact textOf_of_not_wellFormed hn

/-- A payload that breaks off in the third byte of a character, and one that ends behind the second. -/
theorem takeText_exactly_broken :
    let broken : Bytes := [0x61, 0xF0, 0x90, 0x28]
    let short : Bytes := [0xE2, 0x82]
    broken.length < 0x100000000 ∧ ¬ Utf8.WellFormed broken ∧ Utf8.Longest Utf8.WellFormed broken 1 ∧
      takeText ⟨Frame.wire broken ++ [0x80]⟩ = (.error (.decoding broken (.utf8 (.invalid 1 2))), ⟨[0x80]⟩) ∧
      short.length < 0x100000000 ∧ ¬ Utf8.WellFormed short ∧ (∃ more, Utf8.WellFormed (short ++ more)) ∧
      takeText ⟨Frame.wire short ++ [0xAC]⟩ = (.error (.decoding short (.utf8 (.incomplete 0))), ⟨[0xAC]⟩) := by
  intro broken short
  have hbd : Utf8.decode broken = .error (.invalid 1 2) := rfl
  have hsd : Utf8.decode short = .error (.incomplete 0) := rfl
  have hb : takeText ⟨Frame.wire broken ++ [0x80]⟩ = (.error (.decoding broken (.utf8 (.invalid 1 2))), ⟨[0x80]⟩) := by
    rw [takeText_wire (by decide), textOf, hbd]
    rfl
  have hs : takeText ⟨Frame.wire short ++ [0xAC]⟩ = (.error (.decoding short (.utf8 (.incomplete 0))), ⟨[0xAC]⟩) := by
    rw [takeText_wire (by decide), textOf, hsd]
    rfl
  obtain ⟨_, _, hbt, _, hbf⟩ := takeText_exactly broken [0x80] (by decide)
  obtain ⟨_, _, hst, _, hsf⟩ := takeText_exactly short [0xAC] (by decide)
  rw [hb] at hbt hbf
  rw [hs] at hst hsf
  have hbn : ¬ Utf8.WellFormed broken := by simp [← hbt]
  have hsn : ¬ Utf8.WellFormed short := by simp [← hst]
  refine ⟨by decide, hbn, ?_, hb, by decide, hsn, ?_, hs⟩
  · obtain ⟨index, hl, hm, hk⟩ := hbf hbn
    have hn : ¬ ∃ more, Utf8.WellFormed (broken ++ more) := by simp [hm]
    obtain ⟨n, _, he⟩ := hk hn
    have hi : 1 = index ∧ 2 = max 1 n := by simpa using he
    exact hi.1 ▸ hl
  · obtain ⟨index, _, hm, hk⟩ := hsf hsn
    by_cases hn : ∃ more, Utf8.WellFormed (short ++ more)
    · exact hn
    · obtain ⟨n, _, he⟩ := hk hn
      cases he

end Telemetry.Decoder
