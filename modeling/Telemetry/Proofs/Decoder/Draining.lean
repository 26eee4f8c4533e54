import Telemetry.Proofs.Decoder.Take
import Telemetry.Proofs.Frame.Cut

/-!
# Draining a decoder

A decoder is drained by taking frames until none is complete. Each frame that its
buffer is cut into comes back once, in order, and the rest stays (`drain_eq`).
-/

namespace Telemetry.Decoder

def takeString (d : Decoder) : Option (Except Fault String) × Decoder :=
  match d.takeText with
  | (.ok none, d) => (none, d)
  | (.ok (some text), d) => (some (.ok text), d)
  | (.error fault, d) => (some (.error fault), d)

inductive Take where
  | payload
  | text

namespace Take

def Result : Take → Type
  | .payload => Bytes
  | .text => Except Fault String

def run : (take : Take) → Decoder → Option take.Result × Decoder
  | .payload, d => d.takePayload
  | .text, d => d.takeString

def ofPayload : (take : Take) → Bytes → take.Result
  | .payload, bytes => bytes
  | .text, bytes => textOf bytes

section
variable {d d' : Decoder} (take : Take)

theorem run_of_none (h : Frame.split? d.buffer = none) : take.run d = (none, d) := by
  have hp : d.takePayload = (none, d) := by rw [takePayload_eq, h]
  cases take with
  | payload => exact hp
  | text =>
    have ht : d.takeText = (.ok none, d) := by rw [takeText, hp]
    show d.takeString = (none, d)
    rw [takeString, ht]

theorem run_of_some {bytes rest : Bytes} (h : Frame.split? d.buffer = some (bytes, rest)) :
    take.run d = (some (take.ofPayload bytes), ⟨rest⟩) := by
  have hp : d.takePayload = (some bytes, ⟨rest⟩) := by rw [takePayload_eq, h]
  cases take with
  | payload => exact hp
  | text =>
    have ht : d.takeText = ((textOf bytes).map some, ⟨rest⟩) := by rw [takeText, hp]
    show d.takeString = (some (textOf bytes), _)
    rw [takeString, ht]
    cases textOf bytes <;> rfl

theorem buffered_run {result : take.Result} (h : take.run d = (some result, d')) : d'.buffered < d.buffered := by
  cases hs : Frame.split? d.buffer with
  | none =>
    rw [take.run_of_none hs] at h
    cases h
  | some pair =>
    obtain ⟨payload, rest⟩ := pair
    have hl := Frame.length_split? hs
    rw [take.run_of_some hs] at h
    cases h
    simp only [buffered, Frame.headerSize] at *
    omega

end

end Take

def drain (take : Take) (d : Decoder) : List take.Result × Decoder :=
  match _ : take.run d with
  | (none, d') => ([], d')
  | (some result, d') =>
    let (results, last) := drain take d'
    (result :: results, last)
termination_by d.buffered
decreasing_by exact take.buffered_run ‹_›

theorem drain_eq (take : Take) (d : Decoder) :
    d.drain take = ((Frame.splitAll d.buffer).1.map take.ofPayload, ⟨(Frame.splitAll d.buffer).2⟩) := by
  fun_induction drain take d with
  | case1 d d' h =>
    cases hs : Frame.split? d.buffer with
    | none =>
      rw [take.run_of_none hs] at h
      cases h
      rw [Frame.splitAll_none hs]
      rfl
    | some pair =>
      rw [take.run_of_some hs] at h
      cases h
  | case2 d result d' h results last hd ih =>
    cases hs : Frame.split? d.buffer with
    | none =>
      rw [take.run_of_none hs] at h
      cases h
    | some pair =>
      rw [take.run_of_some hs] at h
      cases h
      rw [hd] at ih
      cases ih
      rw [Frame.splitAll_some hs]
      rfl

theorem drain_of_cuts (take : Take) {d : Decoder} {payloads : List Bytes} {last : Bytes}
    (h : Frame.Cuts d.buffer payloads last) : d.drain take = (payloads.map take.ofPayload, ⟨last⟩) := by
  rw [drain_eq, h.splitAll_eq]

theorem drain_payload (d : Decoder) : d.drain .payload = ((Frame.splitAll d.buffer).1, ⟨(Frame.splitAll d.buffer).2⟩) := by
  rw [drain_eq]
  exact Prod.ext (List.map_id _) rfl

end Telemetry.Decoder
