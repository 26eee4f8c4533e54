import Telemetry.Proofs.Reader.Fusing
import Telemetry.Proofs.Reader.Gathering
import Telemetry.Proofs.Source.Brimming

/-!
# How often a call receives

Each receive of a call but the last one takes something off the source: bytes, or an
interruption. So the bytes and the setbacks that are left bound the receives of a call, and
those of a run of calls together (`receives_bounded`).
-/

namespace Telemetry

def Event.isSetback : Event → Bool
  | .data _ => false
  | _ => true

/-- What a receive takes off its source: the bytes, or else one setback. -/
def Receipt.toll : Receipt → Nat
  | .received bytes => bytes.length
  | _ => 1

/-- No call goes on behind this receive: it has brought no bytes, or an error that is no
interruption. -/
def Receipt.Ends (receipt : Receipt) : Prop := receipt = .received [] ∨ receipt.error?.isSome = true

theorem Receipt.toll_pos {receipt : Receipt} (h : ¬ receipt.Ends) : 0 < receipt.toll := by
  cases receipt with
  | received bytes =>
    have hn : bytes ≠ [] := fun he => h (.inl (by rw [he]))
    exact List.length_pos_iff.2 hn
  | failed error => exact Nat.one_pos
  | pending => exact Nat.one_pos

namespace Source

def setbacks (s : Source) : Nat := s.events.countP Event.isSetback

def due (s : Source) : Nat := s.left.length + s.setbacks

section
variable {s s' : Source} {size : Nat} {receipt : Receipt} {receipts : List Receipt}

theorem due_receive (h : s.receive size = (receipt, s')) : s.due = receipt.toll + s'.due := by
  have hleft := congrArg List.length (left_receive h)
  have hset : receipt.data.length + s.setbacks = receipt.toll + s'.setbacks := by
    unfold setbacks
    rcases s.receive_cases size with ⟨he, hr⟩ | ⟨_, _, he, _, hr⟩ | ⟨_, _, he, _, hr⟩ | ⟨_, _, he, hr⟩ | ⟨_, he, hr⟩ <;>
      rw [h] at hr <;> cases hr <;> rw [he] <;>
      simp [counted, Receipt.data, Receipt.toll, Event.isSetback, List.countP_cons, Nat.add_comm]
  rw [List.length_append] at hleft
  unfold due
  omega

theorem Receives.due_le (h : s.Receives size receipts s') (hg : ∀ receipt ∈ receipts.dropLast, ¬ receipt.Ends) :
    receipts.length + s'.due ≤ s.due + 1 := by
  induction h with
  | nil => simp
  | @cons s s₁ s₂ receipt receipts first others ih =>
    have hd := due_receive first
    by_cases hn : receipts = []
    · subst hn
      cases others
      simp only [List.length_singleton]
      omega
    · rw [List.dropLast_cons_of_ne_nil hn] at hg
      have hpos := Receipt.toll_pos (hg receipt (by simp))
      have hothers := ih fun receipt hm => hg receipt (by simp [hm])
      rw [List.length_cons]
      omega

end

end Source

namespace Reader

theorem goes_on_cons {first : Receipt} {receipts : List Receipt} (hf : ¬ first.Ends)
    (hg : ∀ receipt ∈ receipts.dropLast, ¬ receipt.Ends) :
    ∀ receipt ∈ (first :: receipts).dropLast, ¬ receipt.Ends := by
  by_cases hn : receipts = []
  · simp [hn]
  · rw [List.dropLast_cons_of_ne_nil hn]
    exact List.forall_mem_cons.2 ⟨hf, hg⟩

theorem Awaits.goes_on {r r' : Reader} {receipts : List Receipt} {result : Except Fault String}
    (h : Awaits r receipts result r') : ∀ receipt ∈ receipts.dropLast, ¬ receipt.Ends := by
  induction h with
  | taken _ => simp
  | closed _ _ => simp
  | failed _ _ _ => simp
  | data _ _ hn _ ih =>
    apply goes_on_cons _ ih
    simp [Receipt.Ends, Receipt.error?, hn]
  | interrupted _ _ hk _ ih =>
    apply goes_on_cons _ ih
    simp [Receipt.Ends, Receipt.error?, hk]

end Reader

open Reader

theorem Manner.Does.receives {manner : Manner} {call : Call} {answer : Poll call.Answer} {r r' : Reader}
    (h : manner.Does r call answer r') :
    ∃ receipts, r.source.Receives r.chunk.size receipts r'.source ∧ ∀ receipt ∈ receipts.dropLast, ¬ receipt.Ends := by
  cases h with
  | ended _ => exact ⟨[], .nil, by simp⟩
  | waits h hl =>
    rw [hl.source]
    exact ⟨_, h.receives.1, h.goes_on⟩

section
variable (manner : Manner)

theorem Manner.run_receives (r : Reader) (calls : List Call) :
    (manner.run r calls).2.source.receives + (manner.run r calls).2.source.due ≤
      r.source.receives + r.source.due + calls.length := by
  induction calls generalizing r with
  | nil => simp [Manner.run]
  | cons call calls ih =>
    obtain ⟨receipts, hr, hg⟩ := (manner.does_call r call).receives
    have hc := hr.count
    have hd := hr.due_le hg
    have h := ih (manner.call call r).2
    rw [manner.run_cons, List.length_cons]
    simp only
    omega

/-- **No call spins.** A call receives at most once for each byte and each setback that is still to come,
and once more. -/
theorem Reader.receives_bounded (r : Reader) :
    (∀ call : Call, ∃ receipts, r.source.Receives r.chunk.size receipts (manner.call call r).2.source ∧
      (manner.call call r).2.source.receives = r.source.receives + receipts.length ∧
      receipts.length ≤ r.source.left.length + r.source.setbacks + 1 ∧
      ∀ receipt ∈ receipts.dropLast, ¬ receipt.Ends) ∧
    ∀ calls : List Call, (manner.run r calls).2.source.receives ≤
      r.source.receives + (r.source.left.length + r.source.setbacks) + calls.length := by
  refine ⟨?_, ?_⟩
  · intro call
    obtain ⟨receipts, hr, hg⟩ := (manner.does_call r call).receives
    have hd := hr.due_le hg
    exact ⟨receipts, hr, hr.count, by unfold Source.due at hd; omega, hg⟩
  · intro calls
    have h := manner.run_receives r calls
    unfold Source.due at h
    omega

example : (Manner.waiting.call (.read .text)
    (ofSource ⟨[.data [2, 0], .failure ⟨.interrupted, none⟩, .data [0]], 0, 0⟩ (.ofChunkSize 1))).2.source.receives =
      3 + 1 + 1 := by decide +kernel

end

end Telemetry
