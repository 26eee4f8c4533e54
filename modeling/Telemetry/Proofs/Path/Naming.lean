import Telemetry.Path.Basic
import Telemetry.Proofs.Text.Pieces

/-!
# Paths and lists of paths in text

A text names the path whose segments are its pieces between the dots, and it lists
the cores of its pieces between the commas that are not blank. Each text names one
path (`names_iff`) and lists one list of entries (`lists_iff`).
-/

namespace Telemetry.Path

def Names (s : String) (p : Path) : Prop := Text.Pieces separator s.toList (p.segments.map String.toList)

theorem names_iff {s : String} {p : Path} : Names s p ↔ ofString s = p := by
  have hl (pieces : List (List Char)) : (pieces.map String.ofList).map String.toList = pieces := by
    rw [List.map_map]
    simp [Function.comp_def]
  have hs (segments : List String) : (segments.map String.toList).map String.ofList = segments := by
    rw [List.map_map]
    simp [Function.comp_def]
  rw [Names, Text.pieces_iff, ofString]
  constructor
  · intro h
    rw [h, hs]
  · rintro rfl
    rw [hl]

theorem Names.text {s : String} {p : Path} (h : Names s p) : p.text = s := by
  rw [Path.text, h.joined, String.ofList_toList]

/-! ## Lists -/

inductive Cores : List (List Char) → List String → Prop where
  | nil : Cores [] []
  | blank {piece : List Char} {pieces : List (List Char)} {entries : List String} (ht : Text.Trims piece [])
      (others : Cores pieces entries) : Cores (piece :: pieces) entries
  | entry {piece core : List Char} {pieces : List (List Char)} {entries : List String} (ht : Text.Trims piece core)
      (hn : core ≠ []) (others : Cores pieces entries) : Cores (piece :: pieces) (String.ofList core :: entries)

def Lists (s : String) (entries : List String) : Prop :=
  ∃ pieces, Text.Pieces ',' s.toList pieces ∧ Cores pieces entries

theorem cores_iff {pieces : List (List Char)} {entries : List String} :
    Cores pieces entries ↔ entries = ((pieces.map Text.trim).filter (· ≠ [])).map String.ofList := by
  constructor
  · intro h
    induction h with
    | nil => rfl
    | blank ht _ ih => simp [Text.trims_iff.1 ht, ih]
    | entry ht hn _ ih => simp [Text.trims_iff.1 ht, hn, ih]
  · rintro rfl
    induction pieces with
    | nil => exact .nil
    | cons piece pieces ih =>
      have ht := Text.trims_trim piece
      by_cases hn : Text.trim piece = []
      · rw [hn] at ht
        simp only [List.map_cons, hn]
        exact .blank ht ih
      · have he := Cores.entry ht hn ih
        simpa [hn] using he

theorem lists_iff {s : String} {entries : List String} : Lists s entries ↔ entries = Path.entries s := by
  constructor
  · rintro ⟨pieces, hp, hc⟩
    rw [cores_iff.1 hc, ← Text.pieces_iff.1 hp]
    rfl
  · intro h
    exact ⟨_, Text.pieces_iff.2 rfl, cores_iff.2 h⟩

end Telemetry.Path
