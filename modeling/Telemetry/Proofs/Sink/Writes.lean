import Telemetry.Sink.Basic

/-!
# The writes of a run of bytes

Bytes are written until all of them are accepted, or a write accepts nothing or fails
for good. `Writes` lists the writes with their replies; `Concludes` says which replies
end them, and with what.
-/

namespace Telemetry.Sink

def taken : Except IoError Nat → Nat
  | .ok n => n
  | .error _ => 0

inductive Writes : Sink → Bytes → List (Except IoError Nat) → Sink → Bytes → Prop where
  | nil {s : Sink} {bytes : Bytes} : Writes s bytes [] s bytes
  | cons {s s₁ s₂ : Sink} {bytes left : Bytes} {reply : Except IoError Nat} {replies : List (Except IoError Nat)}
      (first : s.write bytes = (reply, s₁)) (others : Writes s₁ (bytes.drop (taken reply)) replies s₂ left) :
      Writes s bytes (reply :: replies) s₂ left

/-- What the replies come to when they leave these bytes. -/
inductive Concludes : List (Except IoError Nat) → Bytes → Except IoError Unit → Prop where
  | whole : Concludes [] [] (.ok ())
  | stalled {left : Bytes} (hl : left ≠ []) : Concludes [.ok 0] left (.error ⟨.writeZero, none⟩)
  | failed {left : Bytes} {error : IoError} (hl : left ≠ []) (hk : error.kind ≠ .interrupted) :
      Concludes [.error error] left (.error error)
  | more {n : Nat} {replies : List (Except IoError Nat)} {left : Bytes} {result : Except IoError Unit}
      (others : Concludes replies left result) : Concludes (.ok (n + 1) :: replies) left result
  | again {error : IoError} {replies : List (Except IoError Nat)} {left : Bytes} {result : Except IoError Unit}
      (hk : error.kind = .interrupted) (others : Concludes replies left result) :
      Concludes (.error error :: replies) left result

theorem accepted_write {s s' : Sink} {bytes : Bytes} {reply : Except IoError Nat} (h : s.write bytes = (reply, s')) :
    s'.accepted = s.accepted ++ bytes.take (taken reply) := by
  unfold write at h
  split at h <;> cases h
  · simp [taken]
  · simp [taken, List.take_eq_take_iff]
  · simp [taken]

theorem Writes.accepted {s s' : Sink} {bytes left : Bytes} {replies : List (Except IoError Nat)}
    (h : Writes s bytes replies s' left) : ∃ front, bytes = front ++ left ∧ s'.accepted = s.accepted ++ front := by
  induction h with
  | nil => exact ⟨[], rfl, (List.append_nil _).symm⟩
  | @cons s s₁ s₂ bytes left reply replies first _ ih =>
    obtain ⟨front, hb, ha⟩ := ih
    refine ⟨bytes.take (taken reply) ++ front, ?_, ?_⟩
    · rw [List.append_assoc, ← hb, List.take_append_drop]
    · rw [ha, accepted_write first, List.append_assoc]

section
variable {replies : List (Except IoError Nat)} {left : Bytes} {result : Except IoError Unit}

theorem Concludes.ok_iff (h : Concludes replies left result) : result = .ok () ↔ left = [] := by
  induction h with
  | whole => simp
  | stalled hl => simp [hl]
  | failed hl _ => simp [hl]
  | more _ ih => exact ih
  | again _ _ ih => exact ih

theorem Concludes.not_interrupted {error : IoError} (h : Concludes replies left result) (hr : result = .error error) :
    error.kind ≠ .interrupted := by
  induction h with
  | whole => cases hr
  | stalled _ => cases hr; exact fun hk => by cases hk
  | failed _ hk => cases hr; exact hk
  | more _ ih => exact ih hr
  | again _ _ ih => exact ih hr

theorem Concludes.of_zero (h : Concludes replies left result) (hz : .ok 0 ∈ replies) :
    result = .error ⟨.writeZero, none⟩ := by
  induction h with
  | whole => cases hz
  | stalled _ => rfl
  | failed _ _ => simp at hz
  | more _ ih => exact ih (by simpa using hz)
  | again _ _ ih => exact ih (by simpa using hz)

end

theorem writeAll_writes (s : Sink) (bytes : Bytes) :
    ∃ replies left, Writes s bytes replies (s.writeAll bytes).2 left ∧ Concludes replies left (s.writeAll bytes).1 := by
  fun_induction writeAll s bytes with
  | case1 s => exact ⟨[], [], .nil, .whole⟩
  | case2 s bytes hb s' hw => exact ⟨[.ok 0], bytes, .cons hw .nil, .stalled hb⟩
  | case3 s bytes hb n s' hw ih =>
    obtain ⟨replies, left, hr, hc⟩ := ih
    exact ⟨.ok (n + 1) :: replies, left, .cons hw hr, .more hc⟩
  | case4 s bytes hb error s' hw hk ih =>
    obtain ⟨replies, left, hr, hc⟩ := ih
    exact ⟨.error error :: replies, left, .cons hw hr, .again hk hc⟩
  | case5 s bytes hb error s' hw hk => exact ⟨[.error error], bytes, .cons hw .nil, .failed hb hk⟩

end Telemetry.Sink
