import Telemetry.Text.Blank

/-!
# Pieces and cores of a text

What splitting and trimming come to, told without doing it: the pieces of a text hold
no separator and make up the text when they are joined (`pieces_iff`), and the core of
a text is what stands between white space and has none at its ends (`trims_iff`).
-/

namespace Telemetry.Text

/-! ## Pieces -/

structure Pieces (separator : Char) (text : List Char) (pieces : List (List Char)) : Prop where
  nonempty : pieces ≠ []
  clear : ∀ piece ∈ pieces, separator ∉ piece
  joined : [separator].intercalate pieces = text

theorem not_mem_of_mem_splitOn {separator : Char} {text piece : List Char} (h : piece ∈ text.splitOn separator) :
    separator ∉ piece := by
  induction text generalizing piece with
  | nil =>
    rw [List.splitOn_nil, List.mem_singleton] at h
    rw [h]
    exact List.not_mem_nil
  | cons c text ih =>
    obtain ⟨first, others, hs⟩ := List.exists_cons_of_ne_nil (List.splitOn_ne_nil separator text)
    rw [List.splitOn_cons_eq_if_modifyHead, hs] at h
    rw [hs] at ih
    by_cases hc : c = separator
    · rw [if_pos (beq_iff_eq.2 hc)] at h
      rcases List.mem_cons.1 h with rfl | h
      · exact List.not_mem_nil
      · exact ih h
    · rw [if_neg (by simpa using hc), List.modifyHead_cons] at h
      rcases List.mem_cons.1 h with rfl | h
      · intro hm
        rcases List.mem_cons.1 hm with he | hm
        · exact hc he.symm
        · exact ih (List.mem_cons_self ..) hm
      · exact ih (List.mem_cons_of_mem _ h)

theorem length_splitOn (separator : Char) (text : List Char) :
    (text.splitOn separator).length = text.count separator + 1 := by
  induction text with
  | nil => rfl
  | cons c text ih =>
    rw [List.splitOn_cons_eq_if_modifyHead]
    by_cases hc : c = separator <;> simp [hc, ih]

theorem mem_intercalate {separator c : Char} (hc : c ≠ separator) {pieces : List (List Char)} :
    c ∈ [separator].intercalate pieces ↔ ∃ piece ∈ pieces, c ∈ piece := by
  induction pieces with
  | nil => simp
  | cons piece pieces ih =>
    by_cases hn : pieces = []
    · simp [hn]
    · simp [List.intercalate_cons_of_ne_nil hn, ih, hc]

theorem pieces_iff {separator : Char} {text : List Char} {pieces : List (List Char)} :
    Pieces separator text pieces ↔ text.splitOn separator = pieces := by
  constructor
  · intro h
    rw [← h.joined]
    exact List.splitOn_intercalate separator h.clear h.nonempty
  · rintro rfl
    constructor
    · exact List.splitOn_ne_nil separator text
    · intro piece hp
      exact not_mem_of_mem_splitOn hp
    · exact List.intercalate_splitOn separator

/-! ## Cores -/

structure Trims (text core : List Char) : Prop where
  around : ∃ front back, text = front ++ core ++ back ∧ (∀ c ∈ front, isWhite c = true) ∧
    ∀ c ∈ back, isWhite c = true
  first : ∀ c ∈ core.head?, isWhite c = false
  last : ∀ c ∈ core.getLast?, isWhite c = false

section
variable {p : Char → Bool}

theorem dropWhile_eq_self {text : List Char} (h : ∀ c ∈ text.head?, p c = false) : text.dropWhile p = text := by
  cases text with
  | nil => rfl
  | cons c text =>
    have hc := h c rfl
    rw [List.dropWhile_cons_of_neg (by simp [hc])]

theorem head?_dropWhile (text : List Char) : ∀ c ∈ (text.dropWhile p).head?, p c = false := by
  intro c hc
  have h := List.head?_dropWhile_not p text
  rw [Option.mem_def.1 hc] at h
  exact h

theorem dropWhile_eq_nil {text : List Char} (h : ∀ c ∈ text, p c = true) : text.dropWhile p = [] := by
  have hd : (text ++ []).dropWhile p = [].dropWhile p := List.dropWhile_append_of_pos h
  rwa [List.append_nil] at hd

theorem exists_eq_append_dropWhile (text : List Char) :
    ∃ front, text = front ++ text.dropWhile p ∧ ∀ c ∈ front, p c = true := by
  refine ⟨text.takeWhile p, List.takeWhile_append_dropWhile.symm, ?_⟩
  intro c hc
  exact List.all_eq_true.1 List.all_takeWhile c hc

end

theorem trims_trim (text : List Char) : Trims text (trim text) := by
  obtain ⟨front, hf, hfw⟩ := exists_eq_append_dropWhile (p := isWhite) text
  obtain ⟨back, hb, hbw⟩ := exists_eq_append_dropWhile (p := isWhite) (text.dropWhile isWhite).reverse
  have hsplit : text.dropWhile isWhite = trim text ++ back.reverse := by
    rw [← List.reverse_reverse (text.dropWhile isWhite), hb, List.reverse_append, trim]
  constructor
  · refine ⟨front, back.reverse, ?_, hfw, ?_⟩
    · rw [List.append_assoc, ← hsplit]
      exact hf
    · intro c hc
      exact hbw c (List.mem_reverse.1 hc)
  · -- the first character of the core is the first behind the white space in front
    intro c hc
    refine head?_dropWhile text c ?_
    rw [hsplit, List.head?_append, Option.mem_def.1 hc]
    rfl
  · intro c hc
    rw [trim, List.getLast?_reverse] at hc
    exact head?_dropWhile _ c hc

theorem trims_iff {text core : List Char} : Trims text core ↔ trim text = core := by
  constructor
  · intro h
    obtain ⟨front, back, rfl, hf, hb⟩ := h.around
    rw [trim, List.append_assoc, List.dropWhile_append_of_pos hf]
    by_cases hc : core = []
    · subst hc
      rw [List.nil_append, dropWhile_eq_nil hb]
      rfl
    · have hhead : ∀ c ∈ (core ++ back).head?, isWhite c = false := by
        intro c hm
        refine h.first c ?_
        obtain ⟨d, rest, rfl⟩ := List.exists_cons_of_ne_nil hc
        exact hm
      have hlast : ∀ c ∈ core.reverse.head?, isWhite c = false := by
        intro c hm
        rw [List.head?_reverse] at hm
        exact h.last c hm
      have hback : ∀ c ∈ back.reverse, isWhite c = true := by
        intro c hm
        exact hb c (List.mem_reverse.1 hm)
      rw [dropWhile_eq_self hhead, List.reverse_append, List.dropWhile_append_of_pos hback, dropWhile_eq_self hlast,
        List.reverse_reverse]
  · rintro rfl
    exact trims_trim text

theorem Trims.pad {text core front back : List Char} (h : Trims text core) (hf : ∀ c ∈ front, isWhite c = true)
    (hb : ∀ c ∈ back, isWhite c = true) : Trims (front ++ text ++ back) core := by
  obtain ⟨before, after, rfl, hbefore, hafter⟩ := h.around
  refine ⟨⟨front ++ before, after ++ back, ?_, ?_, ?_⟩, h.first, h.last⟩
  · simp
  · exact List.forall_mem_append.2 ⟨hf, hbefore⟩
  · exact List.forall_mem_append.2 ⟨hafter, hb⟩

theorem mem_of_mem_trim {text : List Char} {c : Char} (h : c ∈ trim text) : c ∈ text := by
  obtain ⟨front, back, he, _⟩ := (trims_trim text).around
  rw [he]
  simp [h]

end Telemetry.Text
