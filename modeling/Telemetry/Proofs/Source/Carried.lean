import Telemetry.Proofs.Source.Settled
import Telemetry.Proofs.Source.Steady

/-!
# What a source carries

The data up to the end, however it is cut into blocks, and the end itself: the peer
closes, or a receive fails for good. A receive takes its own part off the front
(`carried_receive`), and moments of waiting carry nothing.
-/

namespace Telemetry

inductive Ending where
  | closed
  | failed (error : IoError)
deriving DecidableEq, Repr

/-- A receive without data is a close, and behind a close or a lasting error nothing counts. -/
def Receipt.onto : Receipt → Bytes × Ending → Bytes × Ending
  | .received [], _ => ([], .closed)
  | .received (b :: bytes), (data, ending) => (b :: bytes ++ data, ending)
  | .failed error, rest => if error.kind = .interrupted then rest else ([], .failed error)
  | .pending, rest => rest

theorem Receipt.onto_received {bytes : Bytes} (h : bytes ≠ []) (rest : Bytes × Ending) :
    (Receipt.received bytes).onto rest = (bytes ++ rest.1, rest.2) := by
  cases bytes with
  | nil => exact absurd rfl h
  | cons b bytes => rfl

def Event.receipt : Event → Receipt
  | .data bytes => .received bytes
  | .failure error => .failed error
  | .pending => .pending

namespace Source

def carriedBy : List Event → Bytes × Ending
  | [] => ([], .closed)
  | event :: events => event.receipt.onto (carriedBy events)

def carried (s : Source) : Bytes × Ending := carriedBy s.events

def Prompt (s : Source) : Prop := ∀ event ∈ s.events, event.isPending = false

theorem carried_settled (s : Source) : s.settled.carried = s.carried := by
  unfold carried settled
  simp only
  induction s.events with
  | nil => rfl
  | cons event events ih =>
    cases hp : event.isPending with
    | true =>
      have he : event = .pending := by
        cases event <;> first | rfl | cases hp
      subst he
      exact ih
    | false =>
      rw [List.filter_cons_of_pos (by rw [hp]; rfl), carriedBy, carriedBy, ih]

theorem prompt_settled (s : Source) : s.settled.Prompt := by
  intro event h
  have hp := (List.mem_filter.1 h).2
  simpa using hp

section
variable {s s' : Source} {size : Nat} {receipt : Receipt}

theorem carried_receive (h : s.receive size = (receipt, s')) (room : 0 < size) :
    s.carried = receipt.onto s'.carried := by
  unfold carried
  rcases s.receive_cases size with ⟨he, hr⟩ | ⟨block, events, he, _, hr⟩ | ⟨block, events, he, hl, hr⟩ |
    ⟨error, events, he, hr⟩ | ⟨events, he, hr⟩ <;> rw [h] at hr <;> cases hr <;> rw [he]
  · rfl
  · rfl
  · -- the block is cut, and both of its parts hold data
    have hf : block.take size ≠ [] := by
      rw [← List.length_pos_iff, List.length_take]
      omega
    have hb : block.drop size ≠ [] := by
      rw [← List.length_pos_iff, List.length_drop]
      omega
    have hn : block ≠ [] := by
      rintro rfl
      exact hf List.take_nil
    show (Receipt.received block).onto (carriedBy events) =
      (Receipt.received (block.take size)).onto ((Receipt.received (block.drop size)).onto (carriedBy events))
    rw [Receipt.onto_received hn, Receipt.onto_received hf, Receipt.onto_received hb, ← List.append_assoc,
      List.take_append_drop]
  · rfl
  · rfl

theorem Prompt.receive (h : s.Prompt) (hr : s.receive size = (receipt, s')) : receipt ≠ .pending ∧ s'.Prompt := by
  unfold Prompt at h ⊢
  rcases s.receive_cases size with ⟨he, hc⟩ | ⟨block, events, he, _, hc⟩ | ⟨block, events, he, hl, hc⟩ |
    ⟨error, events, he, hc⟩ | ⟨events, he, hc⟩ <;> rw [hr] at hc <;> cases hc <;> rw [he] at h
  · exact ⟨Receipt.noConfusion, h⟩
  · exact ⟨Receipt.noConfusion, (List.forall_mem_cons.1 h).2⟩
  · exact ⟨Receipt.noConfusion, List.forall_mem_cons.2 ⟨rfl, (List.forall_mem_cons.1 h).2⟩⟩
  · exact ⟨Receipt.noConfusion, (List.forall_mem_cons.1 h).2⟩
  · cases (List.forall_mem_cons.1 h).1

end

end Source

end Telemetry
