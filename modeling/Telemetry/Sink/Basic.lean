import Telemetry.Fault

/-!
# Byte sinks

What a connection makes of bytes that are sent, write by write: it accepts some of them from the
front, or fails. After the last answer it accepts everything.
-/

namespace Telemetry

inductive Answer where
  | accept (limit : Nat)
  | failure (error : IoError)
deriving DecidableEq, Repr

structure Sink where
  answers : List Answer
  accepted : Bytes := []
  writes : Nat := 0
deriving DecidableEq, Repr

namespace Sink

/-- Writes once; gives the number of bytes that were accepted. -/
def write (s : Sink) (bytes : Bytes) : Except IoError Nat × Sink :=
  match s.answers with
  | [] => (.ok bytes.length, ⟨[], s.accepted ++ bytes, s.writes + 1⟩)
  | .accept limit :: answers =>
    (.ok (min limit bytes.length), ⟨answers, s.accepted ++ bytes.take limit, s.writes + 1⟩)
  | .failure error :: answers => (.error error, ⟨answers, s.accepted, s.writes + 1⟩)

section
variable {s s' : Sink} {bytes : Bytes}

theorem length_answers_ok {n : Nat} (h : s.write bytes = (.ok n, s')) :
    s'.answers.length ≤ s.answers.length ∧ n ≤ bytes.length := by
  obtain ⟨_ | ⟨_ | _, answers⟩, accepted, writes⟩ := s <;>
    simp only [write, Prod.mk.injEq, Except.ok.injEq, reduceCtorEq, false_and] at h
  · obtain ⟨rfl, rfl⟩ := h
    exact ⟨Nat.le_refl _, Nat.le_refl _⟩
  · obtain ⟨rfl, rfl⟩ := h
    exact ⟨Nat.le_succ _, Nat.min_le_right _ _⟩

theorem length_answers_error {error : IoError} (h : s.write bytes = (.error error, s')) :
    s'.answers.length < s.answers.length := by
  obtain ⟨_ | ⟨_ | _, answers⟩, accepted, writes⟩ := s <;>
    simp only [write, Prod.mk.injEq, reduceCtorEq, false_and] at h
  obtain ⟨_, rfl⟩ := h
  simp

end

/-- Writes until all bytes are accepted. An interrupted write is repeated, and a write that
accepts nothing is a failure. -/
def writeAll (s : Sink) (bytes : Bytes) : Except IoError Unit × Sink :=
  if bytes = [] then (.ok (), s)
  else
    match _ : s.write bytes with
    | (.ok 0, s') => (.error ⟨.writeZero, none⟩, s')
    | (.ok (n + 1), s') => writeAll s' (bytes.drop (n + 1))
    | (.error error, s') =>
      if error.kind = .interrupted then writeAll s' bytes else (.error error, s')
termination_by s.answers.length + bytes.length
decreasing_by
  · have := length_answers_ok ‹_›
    rw [List.length_drop]
    omega
  · have := length_answers_error ‹_›
    omega

end Sink

end Telemetry
