import Telemetry.Frame.Stream

/-!
# The frame in front

A split succeeds exactly when a complete frame stands in front of the bytes, and
takes that frame off. A frame is told by its own bytes, so what comes behind it
changes nothing.
-/

namespace Telemetry.Frame

/-- A complete frame stands in front of these bytes. -/
def Begins (bytes : Bytes) : Prop :=
  ∃ payload rest, payload.length < 0x100000000 ∧ bytes = wire payload ++ rest

section
variable {bytes payload rest : Bytes}

theorem split?_iff : split? bytes = some (payload, rest) ↔
    payload.length < 0x100000000 ∧ bytes = wire payload ++ rest := by
  constructor
  · exact eq_wire_of_split?
  · rintro ⟨h, rfl⟩
    exact split?_wire h rest

theorem split?_eq_none_iff : split? bytes = none ↔ ¬ Begins bytes := by
  constructor
  · rintro h ⟨payload, rest, hs⟩
    rw [split?_iff.2 hs] at h
    cases h
  · intro h
    cases hs : split? bytes with
    | none => rfl
    | some pair => exact absurd ⟨pair.1, pair.2, split?_iff.1 hs⟩ h

theorem not_begins_iff : ¬ Begins bytes ↔ bytes.length < headerSize ∨
    ∃ length, length? bytes = some length ∧ bytes.length < headerSize + length := by
  rw [← split?_eq_none_iff, split?]
  cases hl : length? bytes with
  | none =>
    have h := (Bytes.word?_eq_none_iff bytes).1 hl
    exact iff_of_true rfl (.inl h)
  | some length =>
    have h : ¬ bytes.length < headerSize := by
      intro h
      rw [length?, (Bytes.word?_eq_none_iff bytes).2 h] at hl
      cases hl
    simp [h]

theorem split?_append (h : split? bytes = some (payload, rest)) (more : Bytes) :
    split? (bytes ++ more) = some (payload, rest ++ more) := by
  obtain ⟨hp, rfl⟩ := split?_iff.1 h
  rw [List.append_assoc, split?_wire hp]

theorem length_rest_lt {block : Bytes} (hb : ¬ Begins bytes) (h : split? (bytes ++ block) = some (payload, rest)) :
    rest.length < block.length := by
  obtain ⟨hp, he⟩ := split?_iff.1 h
  refine Nat.lt_of_not_le fun hl => hb ?_
  -- else the frame had been complete without the block
  have hlen := congrArg List.length he
  rw [List.length_append, List.length_append] at hlen
  have hpre : wire payload <+: bytes :=
    List.prefix_of_prefix_length_le (List.prefix_append ..) (he ▸ List.prefix_append ..) (by omega)
  obtain ⟨more, rfl⟩ := hpre
  exact ⟨payload, more, hp, rfl⟩

theorem not_begins_of_prefix {cut : Bytes} (hp : payload.length < 0x100000000) (h : cut <+: wire payload)
    (hne : cut ≠ wire payload) : ¬ Begins cut := by
  rintro ⟨front, rest, hf, rfl⟩
  obtain ⟨more, hm⟩ := h
  have hs := split?_append (split?_wire hf rest) more
  rw [hm, ← List.append_nil (wire payload), split?_wire hp] at hs
  simp only [Option.some.injEq, Prod.mk.injEq, List.nil_eq_append_iff] at hs
  obtain ⟨rfl, rfl, _⟩ := hs
  exact hne (List.append_nil _)

end

end Telemetry.Frame
