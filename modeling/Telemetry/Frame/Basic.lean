import Telemetry.Fault

/-!
# Frames

A frame is a payload behind a header of four bytes, its length with the least significant byte
first. Nothing else marks where a frame begins.
-/

namespace Telemetry.Frame

def headerSize : Nat := 4

def length? (bytes : Bytes) : Option Nat := Bytes.word? bytes

/-- The payload of the frame in front and the bytes after it, once the frame is complete. -/
def split? (bytes : Bytes) : Option (Bytes × Bytes) := do
  let length ← length? bytes
  let stop := headerSize + length
  if bytes.length < stop then none
  else some ((bytes.take stop).drop headerSize, bytes.drop stop)

def header (length : Nat) : Except Fault Bytes :=
  if length < 0x100000000 then .ok (Bytes.ofWord length) else .error (.tooLarge length)

/-- Appends a payload as a frame to what is there; a payload that is too long appends nothing. -/
def append (payload out : Bytes) : Except Fault Unit × Bytes :=
  match header payload.length with
  | .ok header => (.ok (), out ++ header ++ payload)
  | .error fault => (.error fault, out)

/-- The bytes of a frame whose header has room for the payload's length. -/
def wire (payload : Bytes) : Bytes := Bytes.ofWord payload.length ++ payload

/-! ## What a split gives -/

section
variable {bytes payload rest : Bytes}

theorem split?_eq_some (h : split? bytes = some (payload, rest)) :
    headerSize + payload.length ≤ bytes.length ∧
      payload = (bytes.take (headerSize + payload.length)).drop headerSize ∧
      rest = bytes.drop (headerSize + payload.length) := by
  simp only [split?, Option.bind_eq_bind, Option.bind_eq_some_iff] at h
  obtain ⟨length, _, h⟩ := h
  split at h
  · cases h
  · rename_i hl
    have hp : ((bytes.take (headerSize + length)).drop headerSize).length = length := by
      rw [List.length_drop, List.length_take]
      omega
    simp only [Option.some.injEq, Prod.mk.injEq] at h
    obtain ⟨rfl, rfl⟩ := h
    rw [hp]
    exact ⟨by omega, rfl, rfl⟩

theorem length_split? (h : split? bytes = some (payload, rest)) :
    bytes.length = headerSize + payload.length + rest.length := by
  obtain ⟨hl, _, hr⟩ := split?_eq_some h
  rw [hr, List.length_drop]
  omega

theorem eq_wire_of_split? (h : split? bytes = some (payload, rest)) :
    payload.length < 0x100000000 ∧ bytes = wire payload ++ rest := by
  have hw : length? bytes = some payload.length := by
    have hl := length_split? h
    simp only [split?, Option.bind_eq_bind, Option.bind_eq_some_iff] at h
    obtain ⟨length, hw, h⟩ := h
    split at h
    · cases h
    · simp only [Option.some.injEq, Prod.mk.injEq] at h
      have := congrArg List.length h.2
      rw [List.length_drop] at this
      rw [hw]
      congr 1
      omega
  obtain ⟨_, hp, hr⟩ := split?_eq_some h
  refine ⟨Bytes.word?_lt hw, ?_⟩
  have hb := Bytes.eq_ofWord_of_word? hw
  have hd : bytes.drop headerSize = payload ++ rest := by
    have := List.take_append_drop payload.length (bytes.drop headerSize)
    rwa [List.take_drop, List.drop_drop, ← hp, ← hr, eq_comm] at this
  rw [wire, List.append_assoc, ← hd]
  exact hb

theorem split?_wire (h : payload.length < 0x100000000) (rest : Bytes) :
    split? (wire payload ++ rest) = some (payload, rest) := by
  have hw : length? (wire payload ++ rest) = some payload.length := by
    rw [wire, List.append_assoc]
    exact Bytes.word?_ofWord h _
  simp only [split?, hw, Option.bind_eq_bind, Option.bind_some]
  have hl : (wire payload).length = headerSize + payload.length := by simp [wire, headerSize]
  rw [if_neg (by rw [List.length_append]; omega), ← hl, List.take_left, List.drop_left]
  rfl

end

end Telemetry.Frame
