import Telemetry.Path.Resolve
import Telemetry.Proofs.Path.Naming

/-!
# Paths shown as text

Every text names a path that shows as this text. Not every path is named by the text that it
shows as: that takes a segment at least, since no segments show as one empty segment does, and
no dot within a segment, since it would show as one between two (`plain_iff`).
-/

namespace Telemetry.Path

/-- The dots of the text are those between the segments, and there is a segment. -/
structure Plain (p : Path) : Prop where
  nonempty : p.segments ≠ []
  clear : ∀ segment ∈ p.segments, separator ∉ segment.toList

section
variable {p q : Path}

theorem names_text_iff : Names p.text p ↔ p.Plain := by
  have hjoined : [separator].intercalate (p.segments.map String.toList) = p.text.toList := by
    rw [text, String.toList_ofList]
  refine ⟨fun h => ⟨?_, ?_⟩, fun h => ⟨?_, ?_, hjoined⟩⟩
  · simpa using h.nonempty
  · simpa using h.clear
  · simpa using h.nonempty
  · simpa using h.clear

theorem plain_iff : ofString p.text = p ↔ p.Plain := by
  rw [← names_iff, names_text_iff]

theorem Plain.eq_of_text_eq (hp : p.Plain) (hq : q.Plain) (h : p.text = q.text) : p = q := by
  rw [← plain_iff.2 hp, h, plain_iff.2 hq]

end

section
variable (s : String)

theorem text_ofString : (ofString s).text = s := by
  have h : Names s (ofString s) := names_iff.2 rfl
  exact h.text

theorem plain_ofString : (ofString s).Plain := by
  rw [← plain_iff, text_ofString]

theorem length_ofString : (ofString s).segments.length = s.toList.count separator + 1 := by
  simp [ofString, Text.length_splitOn]

end

/-- **Texts and paths tell each other.** The path that a text names shows as the text, and a path is named
by what it shows as exactly when it is plain. -/
theorem text_tells_path :
    (∀ s : String, (ofString s).text = s ∧ (ofString s).segments.length = s.toList.count separator + 1 ∧
      ∀ segment ∈ (ofString s).segments, separator ∉ segment.toList) ∧
    (∀ p : Path, ofString p.text = p ↔ p.Plain) ∧
    ∀ p q : Path, p.Plain → q.Plain → p.text = q.text → p = q ∧ ∀ m, p.resolve m = q.resolve m := by
  refine ⟨?_, fun _ => plain_iff, ?_⟩
  · intro s
    exact ⟨text_ofString s, length_ofString s, (plain_ofString s).clear⟩
  · intro p q hp hq h
    have hpq := hp.eq_of_text_eq hq h
    exact ⟨hpq, fun m => by rw [hpq]⟩

theorem text_tells_path_ends :
    let p : Path := ⟨["", "a", ""]⟩
    let q : Path := ofString ".a."
    p.Plain ∧ q.Plain ∧ p.text = q.text ∧ p = q ∧
      ofString (⟨[]⟩ : Path).text ≠ ⟨[]⟩ ∧ ofString (⟨["a.b"]⟩ : Path).text ≠ ⟨["a.b"]⟩ := by
  intro p q
  obtain ⟨hs, hn, he⟩ := text_tells_path
  have hp : p.Plain := ⟨by decide, by decide⟩
  have hq : q.Plain := plain_ofString ".a."
  have ht : p.text = q.text := by
    rw [(hs ".a.").1]
    rfl
  refine ⟨hp, hq, ht, (he p q hp hq ht).1, ?_, ?_⟩
  · rw [ne_eq, hn]
    exact fun h => h.nonempty rfl
  · rw [ne_eq, hn]
    exact fun h => h.clear "a.b" (by decide) (by decide)

end Telemetry.Path
