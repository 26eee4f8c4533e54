import Telemetry.Source

/-!
# What a receive takes off a source

A receive gives the front of the data that is left and nothing else moves
(`left_received`, `left_failed`). A source is steady when it holds blocks of data
and interruptions only; then a receive with some room gives nothing only at the
end.
-/

namespace Telemetry

def Event.Steady : Event → Prop
  | .data bytes => bytes ≠ []
  | .failure error => error.kind = .interrupted
  | .pending => False

namespace Source

def Steady (s : Source) : Prop := ∀ event ∈ s.events, event.Steady

section
variable (s : Source) (size : Nat)

theorem receive_cases :
    (s.events = [] ∧ s.receive size = (.received [], s.counted size [])) ∨
    (∃ bytes events, s.events = .data bytes :: events ∧ bytes.length ≤ size ∧
      s.receive size = (.received bytes, s.counted size events)) ∨
    (∃ bytes events, s.events = .data bytes :: events ∧ size < bytes.length ∧
      s.receive size = (.received (bytes.take size), s.counted size (.data (bytes.drop size) :: events))) ∨
    (∃ error events, s.events = .failure error :: events ∧
      s.receive size = (.failed error, s.counted size events)) ∨
    ∃ events, s.events = .pending :: events ∧ s.receive size = (.pending, s.counted size events) := by
  unfold receive
  rcases h : s.events with _ | ⟨bytes | error | _, events⟩
  · exact .inl ⟨rfl, rfl⟩
  · by_cases hl : bytes.length ≤ size
    · exact .inr (.inl ⟨bytes, events, rfl, hl, if_pos hl⟩)
    · exact .inr (.inr (.inl ⟨bytes, events, rfl, by omega, if_neg hl⟩))
  · exact .inr (.inr (.inr (.inl ⟨error, events, rfl, rfl⟩)))
  · exact .inr (.inr (.inr (.inr ⟨events, rfl, rfl⟩)))

end

section
variable {s s' : Source} {size : Nat}

theorem left_data {bytes : Bytes} {events : List Event} (h : s.events = .data bytes :: events) (size : Nat) :
    s.left = bytes ++ (s.counted size events).left := by
  simp [left, counted, h]

theorem left_received {bytes : Bytes} (h : s.receive size = (.received bytes, s')) :
    s.left = bytes ++ s'.left := by
  rcases s.receive_cases size with ⟨he, hr⟩ | ⟨block, events, he, hl, hr⟩ | ⟨block, events, he, hl, hr⟩ |
    ⟨_, _, _, hr⟩ | ⟨_, _, hr⟩ <;> rw [h] at hr <;> cases hr
  · simp [left, counted, he]
  · exact left_data he size
  · rw [left_data he size]
    simp [left, counted, ← List.append_assoc]

theorem left_failed {error : IoError} (h : s.receive size = (.failed error, s')) : s'.left = s.left := by
  rcases s.receive_cases size with ⟨_, hr⟩ | ⟨_, _, _, _, hr⟩ | ⟨_, _, _, _, hr⟩ | ⟨_, events, he, hr⟩ |
    ⟨_, _, hr⟩ <;> rw [h] at hr <;> cases hr
  simp [left, counted, he]

theorem left_pending (h : s.receive size = (.pending, s')) : s'.left = s.left := by
  rcases s.receive_cases size with ⟨_, hr⟩ | ⟨_, _, _, _, hr⟩ | ⟨_, _, _, _, hr⟩ | ⟨_, _, _, hr⟩ |
    ⟨events, he, hr⟩ <;> rw [h] at hr <;> cases hr
  simp [left, counted, he]

theorem Steady.head {event : Event} {events : List Event} (h : s.Steady) (he : s.events = event :: events) :
    event.Steady :=
  h event (by rw [he]; exact List.mem_cons_self ..)

theorem Steady.tail {event : Event} {events : List Event} (h : s.Steady) (he : s.events = event :: events) :
    (s.counted size events).Steady :=
  fun e hm => h e (by rw [he]; exact List.mem_cons_of_mem _ hm)

theorem Steady.receiveNow (h : s.Steady) (hsize : 0 < size) :
    (∃ bytes s', s.receiveNow size = (.ok bytes, s') ∧ s'.Steady ∧ (bytes = [] → s.left = []) ∧
      s.left = bytes ++ s'.left) ∨
    ∃ error s', s.receiveNow size = (.error error, s') ∧ error.kind = .interrupted ∧ s'.Steady ∧
      s'.left = s.left := by
  unfold Source.receiveNow
  rcases s.receive_cases size with ⟨he, hr⟩ | ⟨block, events, he, _, hr⟩ | ⟨block, events, he, hl, hr⟩ |
    ⟨error, events, he, hr⟩ | ⟨events, he, hr⟩
  · have hleft : s.left = [] := by simp [left, he]
    rw [hr]
    refine .inl ⟨[], _, rfl, ?_, fun _ => hleft, hleft⟩
    intro e hm
    cases hm
  · rw [hr]
    exact .inl ⟨block, _, rfl, h.tail he, fun e => absurd e (h.head he), left_data he size⟩
  · have hb : block.take size ≠ [] := by
      rw [← List.length_pos_iff, List.length_take]
      omega
    have hs : (s.counted size (.data (block.drop size) :: events)).Steady := by
      intro e hm
      rcases List.mem_cons.1 hm with rfl | hm
      · show block.drop size ≠ []
        rw [← List.length_pos_iff, List.length_drop]
        omega
      · exact h e (by rw [he]; exact List.mem_cons_of_mem _ hm)
    have hleft := left_received hr
    rw [hr]
    exact .inl ⟨_, _, rfl, hs, fun e => absurd e hb, hleft⟩
  · have hleft := left_failed hr
    rw [hr]
    exact .inr ⟨error, _, rfl, h.head he, h.tail he, hleft⟩
  · exact absurd (h.head he) id

end

/-! ## Byte by byte -/

section
variable (bytes : Bytes)

theorem steady_bytewise : ∀ event ∈ bytes.map fun b => Event.data [b], event.Steady := by
  intro event h
  obtain ⟨b, _, rfl⟩ := List.mem_map.1 h
  exact List.cons_ne_nil b []

theorem left_bytewise : (⟨bytes.map fun b => .data [b], 0, 0⟩ : Source).left = bytes := by
  induction bytes with
  | nil => rfl
  | cons b bytes ih => exact congrArg (b :: ·) ih

end

end Source

end Telemetry
