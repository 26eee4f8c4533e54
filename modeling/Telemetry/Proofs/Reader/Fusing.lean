import Telemetry.Proofs.Reader.Manner

/-!
# The sequence of messages ends once

Calls for the next item may stand anywhere between direct readings. The items that
they give are messages up to at most one fault, and from then on there are none
(`sequence_fused`). A reading neither ends the sequence nor depends on its end.
-/

namespace Telemetry

def Call.item? : (call : Call) → Poll call.Answer → Option (Except Fault Message)
  | .next, .ready (some item) => some item
  | _, _ => none

namespace Manner

/-- Makes each call once. One that comes back pending is dropped there, and a call that
is polled on is the same call again. -/
def run (manner : Manner) (r : Reader) : List Call → List ((call : Call) × Poll call.Answer) × Reader
  | [] => ([], r)
  | call :: calls =>
    let (answer, r) := manner.call call r
    let (answers, last) := run manner r calls
    (⟨call, answer⟩ :: answers, last)

def items (answers : List ((call : Call) × Poll call.Answer)) : List (Except Fault Message) :=
  answers.filterMap fun answer => answer.1.item? answer.2

/-! ## One call -/

section
variable (manner : Manner) (r : Reader)

theorem ended_read (reading : Reading) : (manner.call (.read reading) r).2.ended = r.ended := by
  rw [call_read]
  exact ((Reader.Level.refl r).text manner).2.2

theorem call_item (call : Call) :
    (call.item? (manner.call call r).1 = none ∧ (manner.call call r).2.ended = r.ended) ∨
    ∃ item, r.ended = false ∧ call.item? (manner.call call r).1 = some item ∧
      (manner.call call r).2.ended = !item.isOk := by
  cases call with
  | read reading => exact .inl ⟨rfl, manner.ended_read r reading⟩
  | next =>
    by_cases he : r.ended
    · rw [manner.call_next_of_ended he]
      exact .inl ⟨rfl, rfl⟩
    · have he : r.ended = false := by simpa using he
      have hr := manner.ended_read r .message
      rw [manner.call_next he]
      rcases hc : manner.call (.read .message) r with ⟨item | _, r'⟩
      · exact .inr ⟨item, he, rfl, rfl⟩
      · rw [hc] at hr
        exact .inl ⟨rfl, hr⟩

theorem call_next_eq_none_iff : (manner.call .next r).1 = .ready none ↔ r.ended = true := by
  constructor
  · intro h
    by_cases he : r.ended = true
    · exact he
    · rw [manner.call_next (by simpa using he)] at h
      rcases hc : manner.call (.read .message) r with ⟨item | _, r'⟩ <;> rw [hc] at h <;> cases h
  · intro h
    rw [manner.call_next_of_ended h]

theorem ended_of_pending {call : Call} (h : (manner.call call r).1 = .pending) :
    (manner.call call r).2.ended = r.ended := by
  rcases manner.call_item r call with ⟨_, he⟩ | ⟨item, _, hi, _⟩
  · exact he
  · rw [h] at hi
    cases call <;> cases hi

end

/-! ## A run of calls -/

/-- Messages, and behind them one fault if the sequence has ended. -/
inductive Sequence : List (Except Fault Message) → Bool → Prop where
  | going (messages : List Message) : Sequence (messages.map .ok) false
  | ended (messages : List Message) (fault : Fault) : Sequence (messages.map .ok ++ [.error fault]) true

theorem Sequence.cons {items : List (Except Fault Message)} {ended : Bool} (m : Message) (h : Sequence items ended) :
    Sequence (.ok m :: items) ended := by
  cases h with
  | going messages => exact .going (m :: messages)
  | ended messages fault => exact .ended (m :: messages) fault

theorem Sequence.ended_iff {items : List (Except Fault Message)} {ended : Bool} (h : Sequence items ended) :
    ended = true ↔ ∃ fault, .error fault ∈ items := by
  cases h with
  | going messages => simp
  | ended messages fault => simp

theorem items_cons (call : Call) (answer : Poll call.Answer) (answers : List ((call : Call) × Poll call.Answer)) :
    items (⟨call, answer⟩ :: answers) = (call.item? answer).toList ++ items answers := by
  unfold items
  rw [List.filterMap_cons]
  cases call.item? answer <;> rfl

theorem run_cons (manner : Manner) (r : Reader) (call : Call) (calls : List Call) :
    manner.run r (call :: calls) = (⟨call, (manner.call call r).1⟩ :: (manner.run (manner.call call r).2 calls).1,
      (manner.run (manner.call call r).2 calls).2) := rfl

theorem run_of_ended (manner : Manner) (calls : List Call) {r : Reader} (h : r.ended = true) :
    items (manner.run r calls).1 = [] ∧ (manner.run r calls).2.ended = true := by
  induction calls generalizing r with
  | nil => exact ⟨rfl, h⟩
  | cons call calls ih =>
    rw [run_cons, items_cons]
    rcases manner.call_item r call with ⟨hi, he⟩ | ⟨_, hf, _, _⟩
    · rw [hi]
      exact ih (he.trans h)
    · rw [h] at hf
      cases hf

theorem run_sequence (manner : Manner) (calls : List Call) {r : Reader} (h : r.ended = false) :
    Sequence (items (manner.run r calls).1) (manner.run r calls).2.ended := by
  induction calls generalizing r with
  | nil =>
    show Sequence [] r.ended
    rw [h]
    exact .going []
  | cons call calls ih =>
    rw [run_cons, items_cons]
    rcases manner.call_item r call with ⟨hi, he⟩ | ⟨item, _, hi, he⟩ <;> rw [hi]
    · exact ih (he.trans h)
    · cases item with
      | ok m => exact (ih he).cons m
      | error fault =>
        obtain ⟨hn, hl⟩ := manner.run_of_ended calls he
        rw [hn, hl]
        exact .ended [] fault

end Manner

namespace Reader

/-- **The sequence of messages ends once.** Its items are messages and at most one fault behind them, and
readings in between leave it as it was. -/
theorem sequence_fused (manner : Manner) (source : Source) (options : Options) (calls : List Call) :
    let (answers, r) := manner.run (ofSource source options) calls
    Manner.Sequence (Manner.items answers) r.ended ∧
      ((∃ fault, .error fault ∈ Manner.items answers) → manner.call .next r = (.ready none, r)) ∧
      ((manner.call .next r).1 = .ready none → ∃ fault, .error fault ∈ Manner.items answers) ∧
      (r.ended = true ↔ (manner.call .next r).1 = .ready none) ∧
      (∀ call : Call, (manner.call call r).1 = .pending → (manner.call call r).2.ended = r.ended) ∧
      ∀ reading : Reading,
        let result := (manner.call (.read reading) r).1
        let r' := (manner.call (.read reading) r).2
        r'.ended = r.ended ∧ ((manner.call .next r').1 = .ready none ↔ (manner.call .next r).1 = .ready none) ∧
          ∀ other : Reader, Level r other →
            (manner.call (.read reading) other).1 = result ∧ Level r' (manner.call (.read reading) other).2 := by
  have hs : Manner.Sequence _ _ := manner.run_sequence calls (r := ofSource source options) rfl
  rcases hr : manner.run (ofSource source options) calls with ⟨answers, r⟩
  rw [hr] at hs
  refine ⟨hs, ?_, ?_, ?_, ?_, ?_⟩
  · intro h
    exact manner.call_next_of_ended (hs.ended_iff.2 h)
  · intro h
    exact hs.ended_iff.1 ((manner.call_next_eq_none_iff r).1 h)
  · exact (manner.call_next_eq_none_iff r).symm
  · intro call h
    exact manner.ended_of_pending r h
  · intro reading result r'
    have he : r'.ended = r.ended := manner.ended_read r reading
    refine ⟨he, ?_, ?_⟩
    · rw [manner.call_next_eq_none_iff, manner.call_next_eq_none_iff, he]
    · intro other hl
      exact hl.read manner reading

theorem sequence_fused_mixed :
    let source : Source := ⟨[.data [1, 0, 0, 0, 0xFF], .pending, .data [1, 0, 0, 0, 0x37, 1, 0, 0],
      .data [0, 0x78, 1, 0, 0, 0, 0x38]], 0, 0⟩
    let run := Manner.polling.run (ofSource source .usual) [.read .message, .next, .next, .next]
    let other := { run.2 with ended := false }
    (∃ fault, .error fault ∈ Manner.items run.1) ∧ Manner.polling.call .next run.2 = (.ready none, run.2) ∧
      Level run.2 other ∧
      (Manner.polling.call (.read .text) other).1 = (Manner.polling.call (.read .text) run.2).1 := by
  intro source run other
  have hf : ∃ fault, .error fault ∈ Manner.items run.1 := by
    have ha : (Manner.items run.1).any (!·.isOk) = true := by decide +kernel
    obtain ⟨item, hm, hi⟩ := List.any_eq_true.1 ha
    cases item with
    | ok m => cases hi
    | error fault => exact ⟨fault, hm⟩
  have hl : Level run.2 other := ⟨rfl, rfl, rfl⟩
  obtain ⟨_, hn, _, _, _, hr⟩ := sequence_fused .polling source .usual [.read .message, .next, .next, .next]
  exact ⟨hf, hn hf, hl, ((hr .text).2.2 other hl).1⟩

end Reader

end Telemetry
