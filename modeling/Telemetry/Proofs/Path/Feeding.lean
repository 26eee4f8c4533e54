import Mathlib.Data.Nat.Find
import Telemetry.Path.Selection

/-!
# What one call takes from a feed

A call takes the answers of its feed up to the first that is not an absent path
(`next_of_first`), and it never returns if there is no such answer.
-/

namespace Telemetry

/-! ## Answers -/

namespace Feed

section
variable {σ : Type} [Feed σ]

def rest (feed : σ) : Nat → σ
  | 0 => feed
  | n + 1 => rest (ask feed).2 n

def answer (feed : σ) (n : Nat) : Option Path := (ask (rest feed n)).1

theorem rest_add (feed : σ) (n k : Nat) : rest feed (n + k) = rest (rest feed n) k := by
  induction n generalizing feed with
  | zero => rw [Nat.zero_add, rest]
  | succ n ih => rw [Nat.succ_add, rest, rest, ih]

theorem answer_rest (feed : σ) (n k : Nat) : answer (rest feed n) k = answer feed (n + k) := by
  rw [answer, answer, rest_add]

end

theorem rest_list (paths : List Path) (n : Nat) : rest paths n = paths.drop n := by
  induction n generalizing paths with
  | zero => rfl
  | succ n ih =>
    rw [rest, ih]
    cases paths with
    | nil => exact List.drop_nil
    | cons path paths => rfl

theorem answer_list (paths : List Path) (n : Nat) : answer paths n = paths[n]? := by
  rw [answer, rest_list, ← List.head?_drop]
  cases paths.drop n <;> rfl

end Feed

namespace Selection

open Feed (ask rest answer)

def Absent (m : Message) (answer : Option Path) : Prop := ∃ path, answer = some path ∧ path.resolve m = .ok none

/-- What a path that is not absent gives. -/
inductive Gives (m : Message) (path : Path) : Item → Prop where
  | value {v : Message} (hr : path.resolve m = .ok (some v)) : Gives m path (.ok (path.text, v))
  | fault {fault : Fault} (hr : path.resolve m = .error fault) : Gives m path (.error fault)

inductive Settles (m : Message) : Option Path → Option Item → Prop where
  | none : Settles m none none
  | path {path : Path} {item : Item} (hg : Gives m path item) : Settles m (some path) (some item)

theorem absent_or_settles (m : Message) (answer : Option Path) : Absent m answer ∨ ∃ item, Settles m answer item := by
  cases answer with
  | none => exact .inr ⟨none, .none⟩
  | some path =>
    rcases hr : path.resolve m with fault | _ | value
    · exact .inr ⟨_, .path (.fault hr)⟩
    · exact .inl ⟨path, rfl, hr⟩
    · exact .inr ⟨_, .path (.value hr)⟩

theorem Settles.not_absent {m : Message} {answer : Option Path} {item : Option Item} (hs : Settles m answer item) :
    ¬ Absent m answer := by
  rintro ⟨path, rfl, ha⟩
  rcases hs with _ | ⟨⟨hr⟩ | ⟨hr⟩⟩ <;> rw [ha] at hr <;> cases hr

/-! ## Calls -/

def isFault : Option Item → Bool
  | some (.error _) => true
  | _ => false

section
variable {σ : Type} [Feed σ] {m : Message} {feed : σ} {item : Option Item} {n : Nat}

theorem next_of_failed {s : Selection σ} (h : s.failed = true) : s.next = some (none, s) := by rw [next, if_pos h]

theorem next_of_absent (ha : Absent m (ask feed).1) : next ⟨m, feed, false⟩ = next ⟨m, (ask feed).2, false⟩ := by
  obtain ⟨path, hp, hr⟩ := ha
  have he : ask feed = (some path, (ask feed).2) := Prod.ext hp rfl
  rw [next, he]
  simp only [hr]
  rfl

theorem next_of_settles (hs : Settles m (ask feed).1 item) :
    next ⟨m, feed, false⟩ = some (item, ⟨m, (ask feed).2, isFault item⟩) := by
  generalize he : ask feed = asked at hs ⊢
  obtain ⟨answer, feed'⟩ := asked
  rw [next, he]
  rcases hs with _ | ⟨⟨hr⟩ | ⟨hr⟩⟩
  · rfl
  · simp only [hr]
    rfl
  · simp only [hr]
    rfl

theorem next_skip (ha : ∀ i < n, Absent m (answer feed i)) :
    next ⟨m, feed, false⟩ = next ⟨m, rest feed n, false⟩ := by
  induction n generalizing feed with
  | zero => rfl
  | succ n ih =>
    have h0 : Absent m (ask feed).1 := ha 0 (Nat.zero_lt_succ n)
    rw [next_of_absent h0]
    exact ih fun i hi => ha (i + 1) (Nat.succ_lt_succ hi)

theorem next_of_first (ha : ∀ i < n, Absent m (answer feed i)) (hs : Settles m (answer feed n) item) :
    next ⟨m, feed, false⟩ = some (item, ⟨m, rest feed (n + 1), isFault item⟩) := by
  rw [next_skip ha, Feed.rest_add]
  exact next_of_settles hs

theorem exists_of_next {r : Option Item × Selection σ} (h : next ⟨m, feed, false⟩ = some r) :
    ∃ n, ¬ Absent m (answer feed n) := by
  -- a call that returns has made finitely many passes, which the induction is on
  refine next.partial_correctness (fun s _ => s.failed = false → ∃ n, ¬ Absent s.message (answer s.feed n)) ?_
    ⟨m, feed, false⟩ r h rfl
  intro next ih ⟨m, feed, failed⟩ r h hf
  cases hf
  by_cases ha : Absent m (ask feed).1
  · obtain ⟨path, hp, hr⟩ := ha
    have he : ask feed = (some path, (ask feed).2) := Prod.ext hp rfl
    rw [if_neg Bool.false_ne_true, he] at h
    simp only [hr] at h
    obtain ⟨n, hn⟩ := ih _ _ h rfl
    exact ⟨n + 1, hn⟩
  · exact ⟨0, ha⟩

theorem next_cases (m : Message) (feed : σ) :
    (next ⟨m, feed, false⟩ = none ∧ ∀ n, Absent m (answer feed n)) ∨
      ∃ n item, (∀ i < n, Absent m (answer feed i)) ∧ Settles m (answer feed n) item ∧
        next ⟨m, feed, false⟩ = some (item, ⟨m, rest feed (n + 1), isFault item⟩) := by
  by_cases h : ∃ n, ¬ Absent m (answer feed n)
  · right
    classical
    have hf : ∀ i < Nat.find h, Absent m (answer feed i) := fun i hi => not_not.1 (Nat.find_min h hi)
    obtain ⟨item, hs⟩ := (absent_or_settles m _).resolve_left (Nat.find_spec h)
    exact ⟨Nat.find h, item, hf, hs, next_of_first hf hs⟩
  · left
    refine ⟨?_, fun n => not_not.1 (not_exists.1 h n)⟩
    rw [Option.eq_none_iff_forall_ne_some]
    intro r hr
    exact h (exists_of_next hr)

end

end Selection

end Telemetry
