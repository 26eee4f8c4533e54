import Telemetry.Clock
import Telemetry.Frame.Stream
import Telemetry.Main
import Telemetry.Proofs.Decoder.Conservation
import Telemetry.Proofs.Decoder.Schedules
import Telemetry.Proofs.Decoder.Truncation
import Telemetry.Proofs.Decoder.Texts
import Telemetry.Proofs.Frame.Checked
import Telemetry.Proofs.Reader.Reading
import Telemetry.Proofs.Reader.Waiting
import Telemetry.Proofs.Reader.Calls
import Telemetry.Proofs.Source.Settled
import Telemetry.Proofs.Reader.Polling
import Telemetry.Proofs.Reader.Fusing
import Telemetry.Proofs.Path.Reaching
import Telemetry.Proofs.Path.Composing
import Telemetry.Proofs.Path.Pulling
import Telemetry.Proofs.Path.Listing
import Telemetry.Proofs.Decimal
import Telemetry.Proofs.Json.RoundTrip
import Telemetry.Proofs.Json.Skipping
import Telemetry.Proofs.Json.Typed
import Telemetry.Proofs.Typed
import Telemetry.Proofs.Reader.Resuming
import Telemetry.Proofs.Sink.CutShort
import Telemetry.Proofs.Monitor.Agreement
import Telemetry.Proofs.Replaying
import Telemetry.Proofs.Faults
import Telemetry.Proofs.Reader.Bounding
