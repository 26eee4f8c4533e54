import Telemetry.Message
import Telemetry.Sink.Basic

/-!
# Sending

Payloads and messages go out as one frame each, and each frame in one go.
-/

namespace Telemetry.Sink

/-- Sends a payload as one frame. Nothing is written of one that is too long. -/
def sendPayload (s : Sink) (payload : Bytes) : Except Fault Unit × Sink :=
  match Frame.append payload [] with
  | (.error fault, _) => (.error fault, s)
  | (.ok (), frame) =>
    let (result, s) := s.writeAll frame
    (result.mapError .io, s)

/-- Sends a content as one frame. Nothing is written of one that has no text. -/
def send (s : Sink) (content : Message.Content) : Except Fault Unit × Sink :=
  match Message.payload content with
  | .error fault => (.error fault, s)
  | .ok payload => s.sendPayload payload

end Telemetry.Sink
