import Telemetry.Source

/-!
# Sources without moments of waiting

A source settles to another one when that one holds the same events but for the
moments in which nothing has come. A receive that finds something finds the same
in both, and one that finds nothing moves the first source alone.
-/

namespace Telemetry

def Event.isPending : Event → Bool
  | .pending => true
  | _ => false

namespace Source

/-- The source without the moments in which nothing has come. -/
def settled (s : Source) : Source := { s with events := s.events.filter (!·.isPending) }

def Settles (s t : Source) : Prop := t.events = s.events.filter (!·.isPending)

theorem settles_settled (s : Source) : s.Settles s.settled := rfl

/-- Receives of `size` bytes, one after the other, and what they come back with. -/
inductive Receives (size : Nat) : Source → List Receipt → Source → Prop where
  | nil {s : Source} : Receives size s [] s
  | cons {s s₁ s₂ : Source} {receipt : Receipt} {receipts : List Receipt}
      (first : s.receive size = (receipt, s₁)) (others : Receives size s₁ receipts s₂) :
      Receives size s (receipt :: receipts) s₂

theorem Receives.append {size : Nat} {s s₁ s₂ : Source} {receipts more : List Receipt}
    (h : Receives size s receipts s₁) (h' : Receives size s₁ more s₂) : Receives size s (receipts ++ more) s₂ := by
  induction h with
  | nil => exact h'
  | cons first _ ih => exact .cons first (ih h')

section
variable {s t : Source}

theorem Settles.left (h : s.Settles t) : t.left = s.left := by
  unfold Source.left
  rw [h]
  induction s.events with
  | nil => rfl
  | cons event events ih =>
    cases event with
    | data bytes => exact congrArg (bytes ++ ·) ih
    | failure error => exact ih
    | pending => exact ih

theorem Settles.receive (h : s.Settles t) (size : Nat) : match s.receive size with
    | (.received bytes, s') => ∃ t', t.receiveNow size = (.ok bytes, t') ∧ s'.Settles t'
    | (.failed error, s') => ∃ t', t.receiveNow size = (.error error, t') ∧ s'.Settles t'
    | (.pending, s') => s'.Settles t := by
  unfold Source.receive receiveNow
  unfold Settles at h
  rcases hs : s.events with _ | ⟨bytes | error | _, events⟩ <;> rw [hs] at h
  · have ht : t.receive size = (.received [], t.counted size []) := by rw [Source.receive, h]; rfl
    rw [ht]
    exact ⟨_, rfl, rfl⟩
  · replace h : t.events = .data bytes :: events.filter (!·.isPending) := h
    by_cases hl : bytes.length ≤ size
    · have ht : t.receive size = (.received bytes, t.counted size (events.filter (!·.isPending))) := by
        rw [Source.receive, h]
        exact if_pos hl
      simp only [if_pos hl]
      rw [ht]
      exact ⟨_, rfl, rfl⟩
    · have ht : t.receive size = (.received (bytes.take size),
          t.counted size (.data (bytes.drop size) :: events.filter (!·.isPending))) := by
        rw [Source.receive, h]
        exact if_neg hl
      simp only [if_neg hl]
      rw [ht]
      exact ⟨_, rfl, rfl⟩
  · have ht : t.receive size = (.failed error, t.counted size (events.filter (!·.isPending))) := by
      rw [Source.receive, h]
      rfl
    rw [ht]
    exact ⟨_, rfl, rfl⟩
  · exact h

end

end Source

end Telemetry
