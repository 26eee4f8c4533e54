import Telemetry.Bytes

/-!
# Chunks

A chunk is the room into which a reader receives. It starts out as zeros, and every receive writes
at its start, over what earlier ones left there. Only what has been written is kept: a chunk may be
far larger than all that is ever received.
-/

namespace Telemetry

/-- Room for `size` bytes: first those that have been written, then zeros. -/
structure Chunk where
  size : Nat
  written : Bytes
  length_written : written.length ≤ size

namespace Chunk

def ofSize (size : Nat) : Chunk := ⟨size, [], Nat.zero_le _⟩

def bytes (c : Chunk) : Bytes := c.written ++ List.replicate (c.size - c.written.length) 0

/-- Writes at the start of the chunk, as far as there is room. -/
def write (c : Chunk) (bytes : Bytes) : Chunk where
  size := c.size
  written := bytes.take c.size ++ c.written.drop bytes.length
  length_written := by
    have := c.length_written
    rw [List.length_append, List.length_take, List.length_drop]
    omega

def front (c : Chunk) (n : Nat) : Bytes :=
  c.written.take n ++ List.replicate (min n c.size - c.written.length) 0

theorem bytes_write (c : Chunk) (bytes : Bytes) :
    (c.write bytes).bytes = bytes.take c.size ++ c.bytes.drop bytes.length := by
  have := c.length_written
  simp only [Chunk.bytes, write, List.append_assoc, List.drop_append, List.drop_replicate,
    List.length_append, List.length_take, List.length_drop]
  congr 3
  omega

theorem front_eq_take (c : Chunk) (n : Nat) : c.front n = c.bytes.take n := by
  rw [front, bytes, List.take_append, List.take_replicate]
  congr 2
  omega

theorem front_write {c : Chunk} {bytes : Bytes} (h : bytes.length ≤ c.size) :
    (c.write bytes).front bytes.length = bytes := by
  rw [front_eq_take, bytes_write, List.take_of_length_le h, List.take_left]

end Chunk

end Telemetry
