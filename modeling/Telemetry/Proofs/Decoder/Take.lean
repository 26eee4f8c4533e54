import Telemetry.Frame.Decoder
import Telemetry.Message
import Telemetry.Proofs.Frame.Front
import Telemetry.Proofs.Utf8

/-!
# Taking the frame in front

All that a take can do: nothing, when no complete frame is in front, or to take
that frame off and leave the bytes behind it. Which text a payload is depends on
its bytes alone.
-/

namespace Telemetry.Decoder

theorem ofText_ofList (text : List Char) : Bytes.ofText (String.ofList text) = Utf8.encode text := by
  rw [Bytes.ofText, String.toList_ofList]

theorem textOf_cases (payload : Bytes) :
    (∃ text, Utf8.decode payload = .ok text ∧ textOf payload = .ok (String.ofList text) ∧
      Bytes.ofText (String.ofList text) = payload) ∨
    ∃ fault, Utf8.decode payload = .error fault ∧ textOf payload = .error (.decoding payload (.utf8 fault)) := by
  unfold textOf
  cases h : Utf8.decode payload with
  | ok text => exact .inl ⟨text, rfl, rfl, by rw [ofText_ofList, Utf8.encode_of_decode h]⟩
  | error fault => exact .inr ⟨fault, rfl, rfl⟩

section
variable (d : Decoder)

theorem takePayload_cases :
    (¬ Frame.Begins d.buffer ∧ d.takePayload = (none, d)) ∨
    ∃ payload rest, Frame.split? d.buffer = some (payload, rest) ∧ d.takePayload = (some payload, ⟨rest⟩) := by
  rw [takePayload_eq]
  cases h : Frame.split? d.buffer with
  | none => exact .inl ⟨Frame.split?_eq_none_iff.1 h, rfl⟩
  | some pair => exact .inr ⟨pair.1, pair.2, rfl, rfl⟩

theorem takeText_cases :
    (¬ Frame.Begins d.buffer ∧ d.takeText = (.ok none, d)) ∨
    ∃ payload rest, Frame.split? d.buffer = some (payload, rest) ∧
      d.takeText = ((textOf payload).map some, ⟨rest⟩) := by
  unfold takeText
  rcases d.takePayload_cases with ⟨hb, ht⟩ | ⟨payload, rest, hs, ht⟩
  · exact .inl ⟨hb, by rw [ht]⟩
  · exact .inr ⟨payload, rest, hs, by rw [ht]⟩

end

end Telemetry.Decoder
