import Telemetry.Proofs.Path.Showing

/-!
# Lists of paths in text

A text lists the paths of its entries in order, whatever white space and blank entries stand
between the commas. A list of paths can be written down exactly when all its paths can
(`Listable`): shown as text they are entries of their own, with no comma in them and no white
space at their ends.
-/

namespace Telemetry.Path

/-! ## Entries -/

def Blank (s : String) : Prop := ∀ c ∈ s.toList, Text.isWhite c = true

section
variable {s front back : String}

theorem Blank.clear (h : Blank s) : ',' ∉ s.toList := by
  intro hc
  cases h ',' hc

theorem entries_comma (s t : String) : entries (s ++ "," ++ t) = entries s ++ entries t := by
  simp [entries, List.splitOn_append_cons_self]

theorem entries_of_clear (h : ',' ∉ s.toList) :
    entries s = ([Text.trim s.toList].filter (· ≠ [])).map String.ofList := by
  simp [entries, List.splitOn_eq_singleton h]

theorem entries_blank (h : Blank s) : entries s = [] := by
  have ht : Text.trim s.toList = [] := by
    rw [← Text.trims_iff]
    exact ⟨⟨s.toList, [], by simp, h, by simp⟩, by simp, by simp⟩
  simp [entries_of_clear h.clear, ht]

theorem exists_eq_comma (h : ',' ∈ s.toList) :
    ∃ t u : String, s = t ++ "," ++ u ∧ t.length < s.length ∧ u.length < s.length := by
  obtain ⟨first, others, he⟩ := List.append_of_mem h
  have hs : s = String.ofList first ++ "," ++ String.ofList others := by
    rw [← String.toList_inj]
    simp [he]
  have hlen : s.length = first.length + (others.length + 1) := by
    simp [← String.length_toList, he]
  refine ⟨String.ofList first, String.ofList others, hs, ?_, ?_⟩
  · rw [String.length_ofList]
    omega
  · rw [String.length_ofList]
    omega

theorem entries_pad (hf : Blank front) (hb : Blank back) (s : String) :
    entries (front ++ s ++ back) = entries s := by
  have hempty : Blank "" := by simp [Blank]
  -- at a comma the text falls into two shorter ones, with white space at one end of each
  induction hn : s.length using Nat.strongRecOn generalizing s front back with | _ n ih
  by_cases hc : ',' ∈ s.toList
  · obtain ⟨t, u, rfl, ht, hu⟩ := exists_eq_comma hc
    have hfront : entries (front ++ t ++ "") = entries t := ih t.length (by omega) hf hempty t rfl
    have hback : entries ("" ++ u ++ back) = entries u := ih u.length (by omega) hempty hb u rfl
    rw [entries_comma, ← hfront, ← hback, ← entries_comma]
    simp [String.append_assoc]
  · have hpad : ',' ∉ (front ++ s ++ back).toList := by
      simp [hc, hf.clear, hb.clear]
    have ht := Text.trims_iff.1 ((Text.trims_trim s.toList).pad hf hb)
    rw [entries_of_clear hpad, entries_of_clear hc, String.toList_append, String.toList_append, ht]

end

theorem listOfString_comma (s t : String) : listOfString (s ++ "," ++ t) = listOfString s ++ listOfString t := by
  simp [listOfString, entries_comma]

theorem listOfString_join (entries : List String) :
    listOfString (",".intercalate entries) = entries.flatMap listOfString := by
  induction entries with
  | nil => rfl
  | cons entry entries ih =>
    by_cases hn : entries = []
    · simp [hn]
    · rw [String.intercalate_cons_of_ne_nil hn, listOfString_comma, ih, List.flatMap_cons]

/-- White space stands at the ends of entries, and blank entries between them. -/
inductive Padded : List String → List String → Prop where
  | nil : Padded [] []
  | entry {entries padded : List String} {front back : String} (entry : String) (hf : Blank front) (hb : Blank back)
      (others : Padded entries padded) : Padded (entry :: entries) ((front ++ entry ++ back) :: padded)
  | blank {entries padded : List String} {white : String} (hw : Blank white) (others : Padded entries padded) :
      Padded entries (white :: padded)

theorem Padded.listOfString_eq {entries padded : List String} (h : Padded entries padded) :
    listOfString (",".intercalate padded) = listOfString (",".intercalate entries) := by
  rw [listOfString_join, listOfString_join]
  induction h with
  | nil => rfl
  | entry entry hf hb _ ih => simp [ih, listOfString, entries_pad hf hb]
  | blank hw _ ih => simp [ih, listOfString, entries_blank hw]

/-! ## Paths that can be listed -/

/-- What the path shows as is an entry of a list, and names the path. -/
structure Listable (p : Path) : Prop where
  plain : p.Plain
  clear : ∀ segment ∈ p.segments, ',' ∉ segment.toList
  nonempty : p.text ≠ ""
  first : ∀ c ∈ p.text.toList.head?, Text.isWhite c = false
  last : ∀ c ∈ p.text.toList.getLast?, Text.isWhite c = false

section
variable {p : Path} {paths : List Path}

theorem comma_mem_text_iff : ',' ∈ p.text.toList ↔ ∃ segment ∈ p.segments, ',' ∈ segment.toList := by
  rw [text, String.toList_ofList, Text.mem_intercalate (by decide)]
  refine ⟨fun h => ?_, fun h => ?_⟩
  · obtain ⟨piece, hp, hc⟩ := h
    obtain ⟨segment, hs, rfl⟩ := List.mem_map.1 hp
    exact ⟨segment, hs, hc⟩
  · obtain ⟨segment, hs, hc⟩ := h
    exact ⟨segment.toList, List.mem_map_of_mem hs, hc⟩

theorem listable_of_mem {s : String} (h : p ∈ listOfString s) : p.Listable := by
  simp only [listOfString, entries, List.mem_map, List.mem_filter, decide_eq_true_eq] at h
  obtain ⟨_, ⟨_, ⟨⟨piece, hp, rfl⟩, hn⟩, rfl⟩, rfl⟩ := h
  have ht : (ofString (String.ofList (Text.trim piece))).text.toList = Text.trim piece := by
    rw [text_ofString, String.toList_ofList]
  have hcore := Text.trims_trim piece
  refine ⟨plain_ofString _, ?_, ?_, ?_, ?_⟩
  · intro segment hs hm
    have hcomma := comma_mem_text_iff.2 ⟨segment, hs, hm⟩
    rw [ht] at hcomma
    exact Text.not_mem_of_mem_splitOn hp (Text.mem_of_mem_trim hcomma)
  · intro he
    rw [he] at ht
    exact hn ht.symm
  · rw [ht]
    exact hcore.first
  · rw [ht]
    exact hcore.last

theorem Listable.listOfString_text (h : p.Listable) : listOfString p.text = [p] := by
  have hc : ',' ∉ p.text.toList := by
    rw [comma_mem_text_iff]
    intro ⟨segment, hs, hm⟩
    exact h.clear segment hs hm
  have ht : Text.trim p.text.toList = p.text.toList :=
    Text.trims_iff.1 ⟨⟨[], [], by simp, by simp, by simp⟩, h.first, h.last⟩
  simp [listOfString, entries_of_clear hc, ht, h.nonempty, plain_iff.2 h.plain]

theorem listOfString_texts (h : ∀ p ∈ paths, p.Listable) : listOfString (",".intercalate (paths.map text)) = paths := by
  rw [listOfString_join]
  induction paths with
  | nil => rfl
  | cons p paths ih =>
    obtain ⟨hp, hps⟩ := List.forall_mem_cons.1 h
    rw [List.map_cons, List.flatMap_cons, hp.listOfString_text, ih hps]
    rfl

end

/-- **Lists of paths in text.** What some text lists are listable paths, whatever stands around its
entries, and what these show as, with commas between, lists them again. -/
theorem list_writes_paths :
    (∀ s t : String, listOfString (s ++ "," ++ t) = listOfString s ++ listOfString t) ∧
    (∀ entries padded : List String, Padded entries padded →
      listOfString (",".intercalate padded) = listOfString (",".intercalate entries)) ∧
    (∀ paths : List Path, (∃ s, listOfString s = paths) ↔ ∀ p ∈ paths, p.Listable) ∧
    (∀ paths : List Path, (∀ p ∈ paths, p.Listable) → listOfString (",".intercalate (paths.map text)) = paths) ∧
    ∀ s : String, listOfString (",".intercalate ((listOfString s).map text)) = listOfString s := by
  refine ⟨listOfString_comma, fun _ _ => Padded.listOfString_eq, ?_, fun _ => listOfString_texts, ?_⟩
  · intro paths
    refine ⟨?_, fun h => ⟨_, listOfString_texts h⟩⟩
    intro ⟨s, hs⟩ p hp
    rw [← hs] at hp
    exact listable_of_mem hp
  · intro s
    exact listOfString_texts fun p => listable_of_mem

theorem list_writes_paths_padded :
    let entries := ["a. b", "."]
    let padded := ["\u00a0" ++ "a. b" ++ "\u3000", " ", "" ++ "." ++ "", "\t\u0085"]
    let paths : List Path := [⟨["a", " b"]⟩, ⟨["", ""]⟩]
    Padded entries padded ∧ (∀ p ∈ paths, p.Listable) ∧ listOfString (",".intercalate padded) = paths ∧
      listOfString (",".intercalate (paths.map text)) = paths := by
  intro entries padded paths
  obtain ⟨_, hpadded, hlisted, htexts, _⟩ := list_writes_paths
  have hblank (s : String) (h : s.toList.all Text.isWhite = true) : Blank s := List.all_eq_true.1 h
  have hp : Padded entries padded :=
    .entry _ (hblank "\u00a0" rfl) (hblank "\u3000" rfl) <| .blank (hblank " " rfl) <|
      .entry _ (hblank "" rfl) (hblank "" rfl) <| .blank (hblank "\t\u0085" rfl) .nil
  have hs : listOfString (",".intercalate entries) = paths := by decide +kernel
  have hl : ∀ p ∈ paths, p.Listable := (hlisted paths).1 ⟨_, hs⟩
  exact ⟨hp, hl, (hpadded entries padded hp).trans hs, htexts paths hl⟩

end Telemetry.Path
