import Telemetry.Proofs.Decoder.Take
import Telemetry.Reader.Blocking
import Telemetry.Reader.Polling

/-!
# Ways to read the next frame

A frame can be read as text, as a message, or into a type. `Reading.ofPayload`
says what a payload comes back as, from its bytes alone; a fault gives them back
as they were.
-/

namespace Telemetry

inductive Reading : Type 1 where
  | text
  | message
  | typed {α : Type} (scan : Json.Scan α)

namespace Reading

def Result : Reading → Type
  | .text => String
  | .message => Message
  | @typed α _ => α

def await : (reading : Reading) → Reader → Except Fault reading.Result × Reader
  | .text, r => r.awaitText
  | .message, r => r.awaitMessage
  | .typed scan, r => r.awaitAs scan

def poll : (reading : Reading) → Reader → Poll (Except Fault reading.Result) × Reader
  | .text, r => r.pollText
  | .message, r => r.pollMessage
  | .typed scan, r => r.pollAs scan

def ofText : (reading : Reading) → List Char → Except Json.Error reading.Result
  | .text, chars => .ok (String.ofList chars)
  | .message, chars => Json.decode Json.Value.scan chars
  | .typed scan, chars => Json.decode scan chars

/-- What a payload is read as: a fault holds the payload as it is. -/
def ofPayload (reading : Reading) (payload : Bytes) : Except Fault reading.Result :=
  match Utf8.decode payload with
  | .error fault => .error (.decoding payload (.utf8 fault))
  | .ok chars => (reading.ofText chars).mapError fun error => .decoding payload (.json error)

def ofFrame : (reading : Reading) → Except Fault String → Except Fault reading.Result
  | .text, frame => frame
  | .message, frame => frame.bind (Message.decodeAs Json.Value.scan)
  | .typed scan, frame => frame.bind (Message.decodeAs scan)

/-! ## Readings by the text they get -/

theorem await_eq (reading : Reading) (r : Reader) :
    reading.await r = (reading.ofFrame r.awaitText.1, r.awaitText.2) := by
  have hs {α : Type} (scan : Json.Scan α) :
      r.awaitAs scan = (r.awaitText.1.bind (Message.decodeAs scan), r.awaitText.2) := by
    rw [Reader.awaitAs]
    rcases r.awaitText with ⟨_ | _, r'⟩ <;> rfl
  cases reading with
  | text => rfl
  | message => exact hs Json.Value.scan
  | typed scan => exact hs scan

theorem poll_eq (reading : Reading) (r : Reader) :
    reading.poll r = (r.pollText.1.map reading.ofFrame, r.pollText.2) := by
  have hs {α : Type} (scan : Json.Scan α) :
      r.pollAs scan = (r.pollText.1.map (·.bind (Message.decodeAs scan)), r.pollText.2) := by
    rw [Reader.pollAs]
    rcases r.pollText with ⟨(_ | _) | _, r'⟩ <;> rfl
  cases reading with
  | text =>
    show r.pollText = _
    rcases r.pollText with ⟨_ | _, r'⟩ <;> rfl
  | message => exact hs Json.Value.scan
  | typed scan => exact hs scan

theorem ofFrame_error (reading : Reading) (fault : Fault) : reading.ofFrame (.error fault) = .error fault := by
  cases reading <;> rfl

theorem ofFrame_textOf (reading : Reading) (payload : Bytes) :
    reading.ofFrame (Decoder.textOf payload) = reading.ofPayload payload := by
  unfold ofPayload
  rcases Decoder.textOf_cases payload with ⟨text, hd, ht, hp⟩ | ⟨fault, hd, ht⟩ <;> rw [ht, hd]
  · have hs {α : Type} (scan : Json.Scan α) : Message.decodeAs scan (String.ofList text) =
        (Json.decode scan text).mapError fun error => .decoding payload (.json error) := by
      simp only [Message.decodeAs, String.toList_ofList, hp]
      cases Json.decode scan text <;> rfl
    cases reading with
    | text => rfl
    | message => exact hs Json.Value.scan
    | typed scan => exact hs scan
  · exact ofFrame_error reading _

/-! ## What comes of a payload -/

theorem ofPayload_fault (reading : Reading) {payload : Bytes} {fault : Fault}
    (h : reading.ofPayload payload = .error fault) : ∃ reason, fault = .decoding payload reason := by
  unfold ofPayload at h
  split at h
  · cases h
    exact ⟨_, rfl⟩
  · cases ht : reading.ofText _ with
    | ok a =>
      rw [ht] at h
      cases h
    | error error =>
      rw [ht] at h
      cases h
      exact ⟨_, rfl⟩

theorem ofPayload_text_iff {payload : Bytes} {s : String} :
    text.ofPayload payload = .ok s ↔ Bytes.ofText s = payload := by
  unfold ofPayload
  constructor
  · intro h
    cases hd : Utf8.decode payload with
    | error fault =>
      rw [hd] at h
      cases h
    | ok chars =>
      rw [hd] at h
      cases h
      rw [Decoder.ofText_ofList, Utf8.encode_of_decode hd]
  · rintro rfl
    rw [Bytes.ofText, Utf8.decode_encode]
    exact congrArg Except.ok (String.ofList_toList ..)

end Reading

def Reader.after (r : Reader) (readings : List Reading) : Reader :=
  readings.foldl (fun r reading => (reading.await r).2) r

end Telemetry
