import Telemetry.Frame.Basic

/-!
# The receive buffer

Received bytes are appended at the end, and frames are taken off the front. An incomplete frame
stays where it is, its header included.
-/

namespace Telemetry

/-- The bytes that have been received and not yet been taken off in a frame. -/
structure Decoder where
  buffer : Bytes := []
deriving DecidableEq, Repr, Inhabited

namespace Decoder

/-- An empty decoder with room set aside for a number of bytes. Room grows where it is short, so
the number has no further effect. -/
def ofCapacity (_capacity : Nat) : Decoder := {}

def feed (d : Decoder) (bytes : Bytes) : Decoder := ⟨d.buffer ++ bytes⟩

def buffered (d : Decoder) : Nat := d.buffer.length

def isEmpty (d : Decoder) : Bool := d.buffer.isEmpty

def clear (_ : Decoder) : Decoder := {}

/-- Takes the frame in front off the buffer, if it is complete: cuts the buffer behind the frame
and drops the header. -/
def takePayload (d : Decoder) : Option Bytes × Decoder :=
  match Frame.split? d.buffer with
  | none => (none, d)
  | some (payload, _) =>
    let (frame, rest) := d.buffer.splitAt (Frame.headerSize + payload.length)
    (some (frame.drop Frame.headerSize), ⟨rest⟩)

def textOf (payload : Bytes) : Except Fault String :=
  match Utf8.decode payload with
  | .ok text => .ok (String.ofList text)
  | .error fault => .error (.decoding payload (.utf8 fault))

/-- Takes the frame in front off the buffer and reads its payload as text. A payload that is no
text is taken off too. -/
def takeText (d : Decoder) : Except Fault (Option String) × Decoder :=
  match d.takePayload with
  | (none, d) => (.ok none, d)
  | (some payload, d) => ((textOf payload).map some, d)

/-! ## What a take leaves -/

section
variable {d d' : Decoder}

@[simp] theorem buffered_feed (d : Decoder) (bytes : Bytes) :
    (d.feed bytes).buffered = d.buffered + bytes.length := by
  simp [feed, buffered]

theorem takePayload_eq (d : Decoder) :
    d.takePayload = match Frame.split? d.buffer with
      | none => (none, d)
      | some (payload, rest) => (some payload, ⟨rest⟩) := by
  unfold takePayload
  split
  · rfl
  · rename_i hs
    obtain ⟨_, hp, hr⟩ := Frame.split?_eq_some hs
    simp only [List.splitAt_eq, ← hp, ← hr]

theorem buffered_takePayload {payload : Bytes} (h : d.takePayload = (some payload, d')) :
    d'.buffered < d.buffered := by
  rw [takePayload_eq] at h
  split at h
  · simp at h
  · simp only [Prod.mk.injEq] at h
    obtain ⟨_, rfl⟩ := h
    have := Frame.length_split? ‹_›
    simp only [buffered, Frame.headerSize] at *
    omega

theorem buffered_takeText {text : String} (h : d.takeText = (.ok (some text), d')) :
    d'.buffered < d.buffered := by
  unfold takeText at h
  split at h
  · simp at h
  · simp only [Prod.mk.injEq] at h
    obtain ⟨_, rfl⟩ := h
    exact buffered_takePayload (by assumption)

end

end Decoder

end Telemetry
