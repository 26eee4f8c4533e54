import Telemetry.Proofs.Reader.Calls
import Telemetry.Proofs.Source.Settled

/-!
# What serves a poll

A poll receives until it has its answer or nothing has come. It is pending exactly
when a receive was, and then that receive was its last.
-/

namespace Telemetry

def Poll.waits {α : Type} : Poll α → List Receipt
  | .ready _ => []
  | .pending => [.pending]

theorem Poll.waits_map {α β : Type} (f : α → β) (poll : Poll α) : (poll.map f).waits = poll.waits := by
  cases poll <;> rfl

/-- Receives of `size` bytes lead from the one source to the other, and none but the
last of a pending poll came back pending. -/
def Source.Serves {α : Type} (size : Nat) (s : Source) (poll : Poll α) (s' : Source) : Prop :=
  ∃ receipts, .pending ∉ receipts ∧ s.Receives size (receipts ++ poll.waits) s'

namespace Source.Serves

section
variable {α β : Type} {size : Nat} {s s₁ s₂ : Source}

theorem none (a : α) : Serves size s (.ready a) s := ⟨[], List.not_mem_nil, .nil⟩

theorem pending (h : s.receive size = (.pending, s₁)) : Serves size s (.pending : Poll α) s₁ :=
  ⟨[], List.not_mem_nil, .cons h .nil⟩

theorem first {receipt : Receipt} {poll : Poll α} (h : s.receive size = (receipt, s₁)) (hp : .pending ≠ receipt)
    (hs : Serves size s₁ poll s₂) : Serves size s poll s₂ := by
  obtain ⟨receipts, hn, hr⟩ := hs
  refine ⟨receipt :: receipts, ?_, .cons h hr⟩
  intro hm
  rcases List.mem_cons.1 hm with he | hm
  · exact hp he
  · exact hn hm

theorem trans {a : α} {poll : Poll β} (h : Serves size s (.ready a) s₁) (h' : Serves size s₁ poll s₂) :
    Serves size s poll s₂ := by
  obtain ⟨receipts, hn, hr⟩ := h
  obtain ⟨more, hn', hr'⟩ := h'
  refine ⟨receipts ++ more, ?_, ?_⟩
  · intro hm
    rcases List.mem_append.1 hm with hm | hm
    · exact hn hm
    · exact hn' hm
  · rw [Poll.waits, List.append_nil] at hr
    rw [List.append_assoc]
    exact hr.append hr'

theorem of_waits {poll : Poll α} {poll' : Poll β} (h : Serves size s poll s₁) (hw : poll'.waits = poll.waits) :
    Serves size s poll' s₁ := by
  unfold Serves
  rw [hw]
  exact h

end

end Source.Serves

namespace Reader

section
variable {r r' : Reader}

theorem pollFill_serves {n : Poll (Except Fault Nat)} (h : r.pollFill = (n, r')) :
    r.source.Serves r.chunk.size n r'.source ∧ r'.chunk.size = r.chunk.size := by
  fun_induction pollFill r with
  | case1 r source hr =>
    cases h
    exact ⟨.pending hr, rfl⟩
  | case2 r bytes source hr =>
    cases h
    exact ⟨.first hr Receipt.noConfusion (.none _), rfl⟩
  | case3 r error source hr hk ih =>
    obtain ⟨hs, hc⟩ := ih h
    exact ⟨.first hr Receipt.noConfusion hs, hc⟩
  | case4 r error source hr hk =>
    cases h
    exact ⟨.first hr Receipt.noConfusion (.none _), rfl⟩

theorem pollText_serves {text : Poll (Except Fault String)} (h : r.pollText = (text, r')) :
    r.source.Serves r.chunk.size text r'.source ∧ r'.chunk.size = r.chunk.size := by
  fun_induction pollText r with
  | case1 r text' decoder ht =>
    cases h
    exact ⟨.none _, rfl⟩
  | case2 r fault decoder ht =>
    cases h
    exact ⟨.none _, rfl⟩
  | case3 r _ _ r₁ hf =>
    cases h
    obtain ⟨hs, hc⟩ := pollFill_serves hf
    exact ⟨hs.of_waits rfl, hc⟩
  | case4 r _ _ fault r₁ hf =>
    cases h
    obtain ⟨hs, hc⟩ := pollFill_serves hf
    exact ⟨hs.of_waits rfl, hc⟩
  | case5 r _ _ r₁ hf =>
    cases h
    obtain ⟨hs, hc⟩ := pollFill_serves hf
    exact ⟨hs.of_waits rfl, hc⟩
  | case6 r _ _ n r₁ hf ih =>
    obtain ⟨hs, hc⟩ := pollFill_serves hf
    obtain ⟨hs', hc'⟩ := ih h
    rw [hc] at hs'
    exact ⟨hs.trans hs', hc'.trans hc⟩

theorem pollReading_serves {reading : Reading} {answer : Poll (Except Fault reading.Result)}
    (h : reading.poll r = (answer, r')) :
    r.source.Serves r.chunk.size answer r'.source ∧ r'.chunk.size = r.chunk.size := by
  rw [reading.poll_eq] at h
  cases h
  obtain ⟨hs, hc⟩ := pollText_serves (r := r) rfl
  exact ⟨hs.of_waits (Poll.waits_map ..), hc⟩

theorem poll_serves (call : Call) {answer : Poll call.Answer} (h : call.poll r = (answer, r')) :
    r.source.Serves r.chunk.size answer r'.source ∧ r'.chunk.size = r.chunk.size := by
  cases call with
  | read reading => exact pollReading_serves h
  | next =>
    have h : r.pollNext = (answer, r') := h
    unfold pollNext at h
    by_cases he : r.ended
    · rw [if_pos he] at h
      cases h
      exact ⟨.none _, rfl⟩
    · rw [if_neg he] at h
      rcases hp : r.pollMessage with ⟨item, r₁⟩
      obtain ⟨hs, hc⟩ := @pollReading_serves r r₁ .message item hp
      rw [hp] at h
      cases item <;> cases h <;> exact ⟨hs.of_waits rfl, hc⟩

end

end Reader

end Telemetry
