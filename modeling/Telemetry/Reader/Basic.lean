import Telemetry.Frame.Decoder
import Telemetry.Message
import Telemetry.Reader.Chunk
import Telemetry.Source

/-!
# Readers

A reader holds a source of bytes, the receive buffer, and the chunk that each receive fills. There
are two ways to use one: `Reader.Blocking` waits for what it asks, `Reader.Polling` comes back when
nothing has come yet.

`load` counts what a reader can still work through.
-/

namespace Telemetry

def defaultAddress : String := "127.0.0.1:9165"

namespace Reader

/-- How to read. A chunk has room for one byte at least. -/
structure Options where
  chunkSize : Nat := 4096
  chunkSize_pos : 0 < chunkSize := by decide

/-- Options with chunks of a given size; none is taken as one. -/
def Options.ofChunkSize (size : Nat) : Options := ⟨max size 1, by omega⟩

def Options.usual : Options := {}

end Reader

/-- `ended` says that the sequence of messages has ended with a fault. -/
structure Reader where
  source : Source
  chunk : Chunk
  decoder : Decoder := {}
  ended : Bool := false

namespace Reader

def ofSource (source : Source) (options : Options := .usual) : Reader :=
  { source, chunk := .ofSize options.chunkSize, decoder := .ofCapacity options.chunkSize }

def buffered (r : Reader) : Nat := r.decoder.buffered

/-- Writes received bytes into the chunk and hands the front of the chunk to the decoder. -/
def store (r : Reader) (received : Bytes) (source : Source) : Reader :=
  let chunk := r.chunk.write received
  { r with source, chunk, decoder := r.decoder.feed (chunk.front received.length) }

/-! ## Collecting -/

def load (r : Reader) : Nat :=
  if r.ended then 0 else r.decoder.buffered + r.source.weight + 1

def collect {α : Type} (next : Reader → Option α × Reader)
    (load_next : ∀ {r a r'}, next r = (some a, r') → r'.load < r.load) (r : Reader) :
    List α × Reader :=
  match _ : next r with
  | (none, r') => ([], r')
  | (some a, r') =>
    let (items, last) := collect next load_next r'
    (a :: items, last)
termination_by r.load
decreasing_by exact load_next ‹_›

theorem decoder_store (r : Reader) {received : Bytes} (h : received.length ≤ r.chunk.size) (source : Source) :
    (r.store received source).decoder = r.decoder.feed received := by
  rw [store, Chunk.front_write h]

end Reader

end Telemetry
