import Telemetry.Proofs.Source.Disturbed
import Telemetry.Proofs.Source.Settled

/-!
# What some receives bring

Receives take their data off the front of what is left. A source brims when every
receive brings all that it asks for, or all that is left; then the number of receives
says how much they have brought (`Brims.length`).
-/

namespace Telemetry.Source

section
variable {size : Nat} {s s' : Source} {receipts : List Receipt}

theorem Receives.left (h : s.Receives size receipts s') : s.left = receipts.flatMap Receipt.data ++ s'.left := by
  induction h with
  | nil => rfl
  | cons first _ ih =>
    rw [left_receive first, ih, List.flatMap_cons, List.append_assoc]

theorem count_receive {receipt : Receipt} (h : s.receive size = (receipt, s')) : s'.receives = s.receives + 1 := by
  rcases s.receive_cases size with ⟨_, hr⟩ | ⟨_, _, _, _, hr⟩ | ⟨_, _, _, _, hr⟩ | ⟨_, _, _, hr⟩ | ⟨_, _, hr⟩ <;>
    rw [h] at hr <;> cases hr <;> rfl

theorem Receives.count (h : s.Receives size receipts s') : s'.receives = s.receives + receipts.length := by
  induction h with
  | nil => rfl
  | cons first _ ih =>
    rw [ih, count_receive first, List.length_cons]
    omega

theorem length_data_receive {receipt : Receipt} (h : s.receive size = (receipt, s')) :
    receipt.data.length ≤ size := by
  cases receipt with
  | received bytes => exact length_received h
  | failed error => exact Nat.zero_le _
  | pending => exact Nat.zero_le _

theorem Receives.of_append {front back : List Receipt} (h : s.Receives size (front ++ back) s') :
    ∃ s₁, s.Receives size front s₁ ∧ s₁.Receives size back s' := by
  induction front generalizing s with
  | nil => exact ⟨s, .nil, h⟩
  | cons receipt front ih =>
    cases h with
    | cons first others =>
      obtain ⟨s₁, hf, hb⟩ := ih others
      exact ⟨s₁, .cons first hf, hb⟩

/-- Every receive brings as much as it has room for, or else all that is left. -/
def Brims (s : Source) (size : Nat) : Prop :=
  ∀ receipts s', s.Receives size receipts s' → ∃ bytes s₁, s'.receive size = (.received bytes, s₁) ∧
    bytes.length = min size s'.left.length

theorem Brims.length (hs : s.Brims size) (h : s.Receives size receipts s') :
    (receipts.flatMap Receipt.data).length = min (receipts.length * size) s.left.length := by
  induction h with
  | nil => simp
  | @cons s s₁ s₂ receipt receipts first others ih =>
    obtain ⟨bytes, _, hr, hl⟩ := hs [] s .nil
    rw [first] at hr
    cases hr
    have hs₁ : s₁.Brims size := fun receipts s' h => hs _ s' (.cons first h)
    have hleft := congrArg List.length (left_received first)
    rw [List.length_append] at hleft
    rw [List.flatMap_cons, List.length_append, ih hs₁, List.length_cons, Nat.succ_mul]
    show bytes.length + _ = _
    omega

def Whole (s : Source) : Prop := s.events = [] ∨ ∃ bytes, s.events = [.data bytes]

theorem Whole.receive (h : s.Whole) (size : Nat) :
    ∃ bytes s₁, s.receive size = (.received bytes, s₁) ∧ bytes.length = min size s.left.length ∧ s₁.Whole := by
  rcases h with he | ⟨bytes, he⟩
  · refine ⟨[], s.counted size [], by rw [Source.receive, he], ?_, .inl rfl⟩
    simp [Source.left, he]
  · have hleft : s.left = bytes := by simp [Source.left, he]
    by_cases hl : bytes.length ≤ size
    · refine ⟨bytes, s.counted size [], ?_, ?_, .inl rfl⟩
      · rw [Source.receive, he]
        exact if_pos hl
      · rw [hleft]
        omega
    · refine ⟨bytes.take size, s.counted size [.data (bytes.drop size)], ?_, ?_, .inr ⟨_, rfl⟩⟩
      · rw [Source.receive, he]
        exact if_neg hl
      · rw [hleft, List.length_take]

theorem Whole.brims (h : s.Whole) (size : Nat) : s.Brims size := by
  intro receipts s' hr
  induction hr with
  | nil =>
    obtain ⟨bytes, s₁, hb, hl, _⟩ := h.receive size
    exact ⟨bytes, s₁, hb, hl⟩
  | cons first _ ih =>
    obtain ⟨_, _, hb, _, hw⟩ := h.receive size
    rw [first] at hb
    cases hb
    exact ih hw

end

end Telemetry.Source
