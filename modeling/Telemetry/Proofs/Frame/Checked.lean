import Telemetry.Frame.Decoder
import Telemetry.Proofs.Frame.Encoding

/-!
# Splitting as the inverse of appending

A split finds the frame that was appended and nothing else, for every length that a header can
hold (`split_inverts_append`). Taking a frame off a decoder cuts the buffer once more, at an index
of its own. With every index checked, in `splitWithin` and `takeWithin`, both come to the same:
no index is ever out of range.
-/

namespace Telemetry

namespace Bytes

def index? (n : Nat) : Option Nat := if n < 0x10000000000000000 then some n else none

def cut? (bytes : Bytes) (i : Nat) : Option (Bytes × Bytes) :=
  if i ≤ bytes.length then some (bytes.splitAt i) else none

theorem foldr_ofWord {n : Nat} (h : n < 0x100000000) : (ofWord n).foldr (fun b m => b.toNat + 256 * m) 0 = n := by
  simp only [ofWord, List.foldr_cons, List.foldr_nil, UInt8.toNat_ofNat']
  omega

end Bytes

namespace Frame

def cutFrame? (bytes : Bytes) (stop : Nat) : Option (Bytes × Bytes) := do
  let (frame, rest) ← bytes.cut? stop
  let (_, body) ← frame.cut? headerSize
  some (body, rest)

/-- A split that gives nothing at all where an index is out of range. -/
def splitWithin (bytes : Bytes) : Option (Option (Bytes × Bytes)) :=
  match length? bytes with
  | none => some none
  | some length => do
    let stop ← Bytes.index? (headerSize + length)
    if bytes.length < stop then some none else (cutFrame? bytes stop).map some

section
variable {bytes : Bytes} {length : Nat}

theorem index?_stop (h : length < 0x100000000) : Bytes.index? (headerSize + length) = some (headerSize + length) := by
  have hstop : headerSize + length < 0x10000000000000000 := by
    unfold headerSize
    omega
  simp [Bytes.index?, hstop]

theorem cutFrame?_stop (h : headerSize + length ≤ bytes.length) : cutFrame? bytes (headerSize + length) =
    some ((bytes.take (headerSize + length)).drop headerSize, bytes.drop (headerSize + length)) := by
  simp [cutFrame?, Bytes.cut?, h]

theorem splitWithin_eq (bytes : Bytes) : splitWithin bytes = some (split? bytes) := by
  unfold splitWithin split?
  cases hw : length? bytes with
  | none => rfl
  | some length =>
    by_cases hl : bytes.length < headerSize + length
    · simp [index?_stop (Bytes.word?_lt hw), hl]
    · simp [index?_stop (Bytes.word?_lt hw), hl, cutFrame?_stop (Nat.le_of_not_lt hl)]

theorem split?_ofWord {n : Nat} (h : n < 0x100000000) (body : Bytes) :
    split? (Bytes.ofWord n ++ body) = none ↔ body.length < n := by
  have hw : length? (Bytes.ofWord n ++ body) = some n := Bytes.word?_ofWord h body
  have hl : (Bytes.ofWord n ++ body).length = headerSize + body.length := by simp [headerSize]
  rw [split?_eq_none_iff, not_begins_iff, hw, hl]
  simp only [Option.some.injEq, exists_eq_left']
  omega

end

end Frame

def Decoder.takeWithin (d : Decoder) : Option (Option Bytes × Decoder) := do
  match ← Frame.splitWithin d.buffer with
  | none => some (none, d)
  | some (payload, _) =>
    let stop ← Bytes.index? (Frame.headerSize + payload.length)
    let (body, rest) ← Frame.cutFrame? d.buffer stop
    some (some body, ⟨rest⟩)

theorem Decoder.takeWithin_eq (d : Decoder) : d.takeWithin = some d.takePayload := by
  rw [takeWithin, Frame.splitWithin_eq, takePayload_eq]
  cases hs : Frame.split? d.buffer with
  | none => rfl
  | some pair =>
    obtain ⟨payload, rest⟩ := pair
    obtain ⟨hl, hp, hr⟩ := Frame.split?_eq_some hs
    obtain ⟨hshort, _⟩ := Frame.split?_iff.1 hs
    simp [Frame.index?_stop hshort, Frame.cutFrame?_stop hl, ← hp, ← hr]

namespace Frame

/-- **Splitting inverts appending.** A split gives a payload and a rest exactly for the frame of that
payload with that rest behind it, and no index is out of range on the way. -/
theorem split_inverts_append :
    (∀ n < 0x100000000, (Bytes.ofWord n).length = headerSize ∧
      (Bytes.ofWord n).foldr (fun b m => b.toNat + 256 * m) 0 = n) ∧
    (∀ bytes payload rest : Bytes, split? bytes = some (payload, rest) ↔
      payload.length < 0x100000000 ∧ bytes = Bytes.ofWord payload.length ++ payload ++ rest) ∧
    (∀ bytes : Bytes, split? bytes = none ↔
      bytes.length < headerSize ∨ ∃ n, length? bytes = some n ∧ bytes.length < headerSize + n) ∧
    (∀ n < 0x100000000, ∀ body : Bytes, length? (Bytes.ofWord n ++ body) = some n ∧
      (split? (Bytes.ofWord n ++ body) = none ↔ body.length < n)) ∧
    (∀ bytes payload rest more : Bytes, split? bytes = some (payload, rest) →
      split? (bytes ++ more) = some (payload, rest ++ more)) ∧
    (∀ payload out : Bytes, append payload out =
      if payload.length < 0x100000000 then (.ok (), out ++ Bytes.ofWord payload.length ++ payload)
      else (.error (.tooLarge payload.length), out)) ∧
    ∀ d : Decoder, d.takeWithin = some d.takePayload ∧
      d.takePayload = match split? d.buffer with
        | none => (none, d)
        | some (payload, rest) => (some payload, ⟨rest⟩) := by
  refine ⟨?_, fun _ _ _ => split?_iff, ?_, ?_, fun _ _ _ more h => split?_append h more, ?_, ?_⟩
  · intro n hn
    exact ⟨Bytes.length_ofWord n, Bytes.foldr_ofWord hn⟩
  · intro bytes
    rw [split?_eq_none_iff, not_begins_iff]
  · intro n hn body
    exact ⟨Bytes.word?_ofWord hn body, split?_ofWord hn body⟩
  · intro payload out
    by_cases hp : payload.length < 0x100000000
    · rw [append_of_short hp, if_pos hp, wire, List.append_assoc]
    · rw [append_of_long hp, if_neg hp]
  · intro d
    exact ⟨d.takeWithin_eq, d.takePayload_eq⟩

theorem split_inverts_append_longest :
    let bytes : Bytes := Bytes.ofWord 2 ++ [0x7B, 0x7D] ++ [9]
    split? (Bytes.ofWord 0xFFFFFFFF ++ [0x7B]) = none ∧ split? bytes = some ([0x7B, 0x7D], [9]) ∧
      split? (bytes ++ [7]) = some ([0x7B, 0x7D], [9, 7]) ∧
      (⟨bytes⟩ : Decoder).takeWithin = some (some [0x7B, 0x7D], ⟨[9]⟩) := by
  intro bytes
  obtain ⟨_, hsome, _, hnone, hmore, _, htake⟩ := split_inverts_append
  have hs : split? bytes = some ([0x7B, 0x7D], [9]) := (hsome bytes _ _).2 ⟨by decide, rfl⟩
  refine ⟨?_, hs, hmore bytes _ _ [7] hs, ?_⟩
  · exact (hnone 0xFFFFFFFF (by decide) [0x7B]).2.2 (by decide)
  · obtain ⟨hw, ht⟩ := htake ⟨bytes⟩
    rw [hw, ht, hs]

end Frame

end Telemetry
