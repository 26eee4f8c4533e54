import Telemetry.Proofs.Decoder.Take
import Telemetry.Reader.Blocking
import Telemetry.Reader.Polling

/-!
# One pass of a reading

Reading and waiting, or reading without waiting: a pass takes the frame in front of
the buffer and receives nothing, or receives once and goes on from there.
-/

namespace Telemetry.Reader

def backlog (r : Reader) : Bytes := r.decoder.buffer ++ r.source.left

section
variable {r : Reader}

theorem takeText_of_none (hb : ¬ Frame.Begins r.decoder.buffer) : r.decoder.takeText = (.ok none, r.decoder) := by
  rcases r.decoder.takeText_cases with ⟨_, ht⟩ | ⟨_, _, hs, _⟩
  · exact ht
  · rw [← Frame.split?_eq_none_iff, hs] at hb
    cases hb

theorem takeText_of_split? {payload rest : Bytes} (hs : Frame.split? r.decoder.buffer = some (payload, rest)) :
    r.decoder.takeText = ((Decoder.textOf payload).map some, ⟨rest⟩) := by
  rcases r.decoder.takeText_cases with ⟨hb, _⟩ | ⟨payload', rest', hs', ht⟩
  · rw [← Frame.split?_eq_none_iff, hs] at hb
    cases hb
  · rw [hs] at hs'
    cases hs'
    exact ht

/-! ## Waiting -/

theorem fill_eq (r : Reader) : r.fill = match r.source.receiveNow r.chunk.size with
    | (.ok received, source) => (.ok received.length, r.store received source)
    | (.error error, source) =>
      if error.kind = .interrupted then fill { r with source } else (.error (.io error), { r with source }) := by
  rw [fill]
  split <;> rename_i hr <;> rw [hr]

theorem awaitText_of_split? {payload rest : Bytes} (hs : Frame.split? r.decoder.buffer = some (payload, rest)) :
    r.awaitText = (Decoder.textOf payload, { r with decoder := ⟨rest⟩ }) := by
  rw [awaitText, takeText_of_split? hs]
  cases Decoder.textOf payload <;> rfl

theorem awaitText_of_none (hb : ¬ Frame.Begins r.decoder.buffer) :
    r.awaitText = match r.fill with
      | (.error fault, r') => (.error fault, r')
      | (.ok 0, r') => (.error (.closed r'.buffered), r')
      | (.ok (_ + 1), r') => r'.awaitText := by
  rw [awaitText, takeText_of_none hb]
  simp only
  split <;> rename_i hf <;> rw [hf]

/-! ## Polling -/

theorem pollText_of_split? {payload rest : Bytes} (hs : Frame.split? r.decoder.buffer = some (payload, rest)) :
    r.pollText = (.ready (Decoder.textOf payload), { r with decoder := ⟨rest⟩ }) := by
  rw [pollText, takeText_of_split? hs]
  cases Decoder.textOf payload <;> rfl

theorem pollText_of_none (hb : ¬ Frame.Begins r.decoder.buffer) :
    r.pollText = match r.pollFill with
      | (.pending, r') => (.pending, r')
      | (.ready (.error fault), r') => (.ready (.error fault), r')
      | (.ready (.ok 0), r') => (.ready (.error (.closed r'.buffered)), r')
      | (.ready (.ok (_ + 1)), r') => r'.pollText := by
  rw [pollText, takeText_of_none hb]
  simp only
  split <;> rename_i hf <;> rw [hf]

end

end Telemetry.Reader
