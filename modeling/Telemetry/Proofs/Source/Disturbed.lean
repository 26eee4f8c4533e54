import Telemetry.Proofs.Frame.Cut
import Telemetry.Proofs.Source.Steady

/-!
# Disturbed sources

Blocks of data come disturbed when failures and empty receives stand anywhere between
them or within them. What a source still has to tell a reader that waits are its lasting
errors, and how much of a frame stands behind the last complete one at each empty
receive; every receive takes its own part off the front.
-/

namespace Telemetry

/-- The blocks come with failures and empty receives between them and within them. -/
inductive Disturbs : List Bytes → List Event → Prop where
  | done : Disturbs [] []
  | block {blocks : List Bytes} {events : List Event} (bytes : Bytes) (others : Disturbs blocks events) :
      Disturbs (bytes :: blocks) (.data bytes :: events)
  | piece {blocks : List Bytes} {events : List Event} (front back : Bytes) (others : Disturbs (back :: blocks) events) :
      Disturbs ((front ++ back) :: blocks) (.data front :: events)
  | failure {blocks : List Bytes} {events : List Event} (error : IoError) (others : Disturbs blocks events) :
      Disturbs blocks (.failure error :: events)
  | waiting {blocks : List Bytes} {events : List Event} (others : Disturbs blocks events) :
      Disturbs blocks (.pending :: events)
  | empty {blocks : List Bytes} {events : List Event} (others : Disturbs blocks events) :
      Disturbs blocks (.data [] :: events)

def Event.error? : Event → Option IoError
  | .data _ => none
  | .failure error => if error.kind = .interrupted then none else some error
  | .pending => some ⟨.wouldBlock, none⟩

def Receipt.error? : Receipt → Option IoError
  | .received _ => none
  | .failed error => if error.kind = .interrupted then none else some error
  | .pending => some ⟨.wouldBlock, none⟩

def Receipt.data : Receipt → Bytes
  | .received bytes => bytes
  | _ => []

theorem Receipt.data_of_error? {receipt : Receipt} {error : IoError} (h : receipt.error? = some error) :
    receipt.data = [] := by
  cases receipt with
  | received bytes => cases h
  | failed error => rfl
  | pending => rfl

theorem Event.not_interrupted {event : Event} {error : IoError} (h : event.error? = some error) :
    error.kind ≠ .interrupted := by
  cases event with
  | data bytes => cases h
  | failure e =>
    rw [Event.error?] at h
    split at h
    · cases h
    · cases h
      assumption
  | pending =>
    cases h
    exact fun hk => by cases hk

namespace Source

def errors (s : Source) : List IoError := s.events.filterMap Event.error?

/-- What is found behind the last complete frame at each empty receive, and at the end. -/
def closings (received : Bytes) : List Event → List Nat
  | [] => [(Frame.splitAll received).2.length]
  | .data [] :: events =>
    (Frame.splitAll received).2.length :: if events = [] then [] else closings received events
  | .data (b :: bytes) :: events => closings (received ++ b :: bytes) events
  | .failure _ :: events => closings received events
  | .pending :: events => closings received events

theorem closings_data (received : Bytes) {bytes : Bytes} (h : bytes ≠ []) (events : List Event) :
    closings received (.data bytes :: events) = closings (received ++ bytes) events := by
  cases bytes with
  | nil => exact absurd rfl h
  | cons b bytes => rfl

theorem closings_congr {received received' : Bytes}
    (h : (Frame.splitAll received).2 = (Frame.splitAll received').2) (events : List Event) :
    closings received events = closings received' events := by
  fun_induction closings received events generalizing received' with
  | case1 received => rw [closings, h]
  | case2 received events ih =>
    rw [closings, h, ih h]
  | case3 received b bytes events ih =>
    rw [closings]
    refine ih ?_
    rw [Frame.splitAll_append, Frame.splitAll_append received', h]
  | case4 received error events ih => exact ih h
  | case5 received events ih => exact ih h

section
variable {s s' : Source} {size : Nat} {receipt : Receipt}

theorem left_receive (h : s.receive size = (receipt, s')) : s.left = receipt.data ++ s'.left := by
  cases receipt with
  | received bytes => exact left_received h
  | failed error => exact (left_failed h).symm
  | pending => exact (left_pending h).symm

theorem errors_receive (h : s.receive size = (receipt, s')) : s.errors = receipt.error?.toList ++ s'.errors := by
  rcases s.receive_cases size with ⟨he, hr⟩ | ⟨_, _, he, _, hr⟩ | ⟨_, _, he, _, hr⟩ | ⟨error, _, he, hr⟩ |
    ⟨_, he, hr⟩ <;> rw [h] at hr <;> cases hr <;> unfold errors <;> rw [he]
  · rfl
  · rfl
  · rfl
  · by_cases hk : error.kind = .interrupted <;> simp [Event.error?, Receipt.error?, hk, counted]
  · rfl

theorem closings_failed (received : Bytes) (h : s.receive size = (receipt, s'))
    (hf : ∀ bytes, receipt ≠ .received bytes) : closings received s.events = closings received s'.events := by
  rcases s.receive_cases size with ⟨he, hr⟩ | ⟨_, _, he, _, hr⟩ | ⟨_, _, he, _, hr⟩ | ⟨error, _, he, hr⟩ |
    ⟨_, he, hr⟩ <;> rw [h] at hr <;> cases hr
  · exact absurd rfl (hf _)
  · exact absurd rfl (hf _)
  · exact absurd rfl (hf _)
  · rw [he]
    rfl
  · rw [he]
    rfl

theorem closings_received (received : Bytes) {bytes : Bytes} (h : s.receive size = (.received bytes, s'))
    (hb : bytes ≠ []) : closings received s.events = closings (received ++ bytes) s'.events := by
  rcases s.receive_cases size with ⟨he, hr⟩ | ⟨_, _, he, _, hr⟩ | ⟨block, events, he, hl, hr⟩ | ⟨error, _, he, hr⟩ |
    ⟨_, he, hr⟩ <;> rw [h] at hr <;> cases hr
  · exact absurd rfl hb
  · rw [he, closings_data _ hb]
    rfl
  · -- what does not fit stays in front as an event of its own, and is not empty
    have hd : block.drop size ≠ [] := by
      rw [← List.length_pos_iff, List.length_drop]
      omega
    have hn : block ≠ [] := fun h0 => by
      rw [h0] at hl
      cases hl
    show _ = closings (received ++ block.take size) (.data (block.drop size) :: events)
    rw [he, closings_data _ hn, closings_data _ hd, List.append_assoc, List.take_append_drop]

theorem closings_empty (received : Bytes) (h : s.receive size = (.received [], s')) (hs : 0 < size) :
    closings received s.events =
        (Frame.splitAll received).2.length :: (if s'.events = [] then [] else closings received s'.events) ∧
      (s'.events = [] ∨ s'.weight < s.weight) := by
  rcases s.receive_cases size with ⟨he, hr⟩ | ⟨_, events, he, _, hr⟩ | ⟨block, events, he, hl, hr⟩ | ⟨_, _, _, hr⟩ |
    ⟨_, _, hr⟩ <;> rw [h] at hr
  · cases hr
    rw [he]
    exact ⟨rfl, .inl rfl⟩
  · cases hr
    rw [he]
    refine ⟨rfl, .inr ?_⟩
    rw [weight, weight, he]
    show weightOf events < Event.weight (.data []) + weightOf events
    exact Nat.lt_add_of_pos_left (Nat.succ_pos 0)
  · have hb : block.take size ≠ [] := by
      rw [← List.length_pos_iff, List.length_take]
      omega
    simp only [Prod.mk.injEq, Receipt.received.injEq] at hr
    exact absurd hr.1.symm hb
  · cases hr
  · cases hr

end

end Source

theorem Disturbs.undisturbed (blocks : List Bytes) : Disturbs blocks (blocks.map .data) := by
  induction blocks with
  | nil => exact .done
  | cons bytes _ ih => exact .block bytes ih

theorem Disturbs.left {blocks : List Bytes} {events : List Event} (h : Disturbs blocks events) (receives asked : Nat) :
    (⟨events, receives, asked⟩ : Source).left = blocks.flatten := by
  unfold Source.left
  induction h with
  | done => rfl
  | block bytes _ ih => exact congrArg (bytes ++ ·) ih
  | piece front back _ ih =>
    rw [List.flatten_cons, List.append_assoc]
    exact congrArg (front ++ ·) ih
  | failure error _ ih => exact ih
  | waiting _ ih => exact ih
  | empty _ ih => exact ih

end Telemetry
