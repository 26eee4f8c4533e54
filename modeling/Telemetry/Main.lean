import Std.Async.TCP
import Telemetry.CommandLine
import Telemetry.Replay

/-!
# The program

Connects or listens, and moves bytes and lines between the network, the standard streams and the
library.
-/

namespace Telemetry

open Std.Async
open Std.Net (SocketAddress IPv4Addr IPv6Addr)

namespace Address

def socket? (a : Address) : Option SocketAddress :=
  match IPv4Addr.ofString a.host with
  | some ip => some (.v4 ⟨ip, a.tcp⟩)
  | none => (IPv6Addr.ofString a.host).map fun ip => .v6 ⟨ip, a.tcp⟩

def socket (a : Address) : IO SocketAddress :=
  match a.socket? with
  | some socket => return socket
  | none => throw (.userError s!"invalid address {a.host}")

end Address

namespace Program

/-! ## Monitors -/

def write (report : Monitor.Report) : IO Unit := do
  report.out.forM IO.println
  report.err.forM IO.eprintln

/-- What the next receive delivers; after a close there is nothing more to come. -/
def receive (client : TCP.Socket.Client) : IO (List Event) := do
  try
    match ← (client.recv? 4096).block with
    | some bytes => return [.data bytes.toList, .pending]
    | none => return []
  catch e => return [.failure ⟨.other, some e.toString⟩]

/-- Reports on messages as they come, up to a fault or the end. -/
partial def watch {σ : Type} (client : TCP.Socket.Client) (step : σ → Message → σ × Monitor.Report)
    (atEnd : Monitor.Report) (state : σ) (reader : Reader) : IO Unit := do
  match reader.pollNext with
  | (.pending, reader) =>
    let source := reader.source.push (← receive client)
    watch client step atEnd state { reader with source }
  | (.ready none, _) => write atEnd
  | (.ready (some (.error fault)), _) => write (Monitor.stopped fault)
  | (.ready (some (.ok m)), reader) =>
    let (state, report) := step state m
    write report
    watch client step atEnd state reader

def connect (address : Address) : IO TCP.Socket.Client := do
  let client ← TCP.Socket.Client.mk
  (client.connect (← address.socket)).block
  client.noDelay
  return client

def idle : Reader := Reader.ofSource { events := [.pending] }

/-! ## Replay -/

partial def readAll (input : IO.FS.Stream) (read : ByteArray) : IO ByteArray := do
  let bytes ← input.read 65536
  if bytes.isEmpty then return read else readAll input (read ++ bytes)

def replay (address : Address) : IO UInt32 := do
  let server ← TCP.Socket.Server.mk
  server.bind (← address.socket)
  server.listen 1
  let client ← server.accept.block
  let capture ← readAll (← IO.getStdin) .empty
  let result := Replay.replay { answers := [] } capture.toList
  (client.send ⟨result.sink.accepted.toArray⟩).block
  client.shutdown.block
  return result.outcome.exitCode.toUInt32

/-! ## Commands -/

def run : Command → IO UInt32
  | .monitorFields address options => do
    watch (← connect address) (Monitor.fieldStep options) {} {} idle
    return 0
  | .monitorLines address fields => do
    let atEnd := Monitor.lineReport fields []
    watch (← connect address) (fun _ m => ((), Monitor.messageLine fields m)) atEnd () idle
    return 0
  | .replay address => replay address

end Program

end Telemetry

def main (arguments : List String) : IO UInt32 := do
  match Telemetry.Command.ofArguments? arguments with
  | some command => Telemetry.Program.run command
  | none =>
    IO.eprintln Telemetry.Command.usage
    return 2
