import Telemetry.Frame.Basic

/-!
# Streams of frames

A whole run of bytes as the frames at its front and what is left after the last complete one.
-/

namespace Telemetry.Frame

/-- The payloads of the complete frames at the front, in order, and the bytes after them. -/
def splitAll (bytes : Bytes) : List Bytes × Bytes :=
  match _ : split? bytes with
  | none => ([], bytes)
  | some (payload, rest) =>
    let (payloads, last) := splitAll rest
    (payload :: payloads, last)
termination_by bytes.length
decreasing_by
  have := length_split? ‹_›
  simp only [headerSize] at this
  omega

def wireAll (payloads : List Bytes) : Bytes := payloads.flatMap wire

end Telemetry.Frame
