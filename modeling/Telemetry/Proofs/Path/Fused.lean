import Telemetry.Proofs.Path.Selecting

/-!
# Selections that have come to their end

A selection that has met a fault gives nothing any more. One that has only come to the end
of its feed asks the feed again, and gives what a feed that resumes has for it
(`resumes_after_end`); when it stays at its end is said in `fused_exactly`.
-/

namespace Telemetry.Selection

open Feed (ask rest answer)

section
variable {σ : Type} [Feed σ]

def after (s : Selection σ) : Nat → Option (Selection σ)
  | 0 => some s
  | n + 1 => s.next.bind fun (_, s') => s'.after n

/-- What the call behind a number of others gives, if they all return. -/
def nth (s : Selection σ) (n : Nat) : Option (Option Item) := ((s.after n).bind next).map Prod.fst

/-- Once it has given nothing, it gives nothing whenever it is called. -/
def Fused (s : Selection σ) : Prop := ∀ i j, i ≤ j → s.nth i = some none → s.nth j = some none

def Over (s : Selection σ) : Prop := ∀ n, s.nth n = some none

/-- All paths of the feed are absent, and it says again and again that it has none. -/
def Quiet (m : Message) (feed : σ) : Prop :=
  (∀ n path, answer feed n = some path → path.resolve m = .ok none) ∧ ∀ n, ∃ k ≥ n, answer feed k = none

def FailsBefore (m : Message) (feed : σ) (n : Nat) : Prop :=
  ∃ i < n, ∃ path fault, answer feed i = some path ∧ path.resolve m = .error fault

/-- At every end of the feed there is a fault in front, or nothing behind it counts. -/
def Stays (m : Message) (feed : σ) : Prop :=
  ∀ n, answer feed n = none → FailsBefore m feed n ∨ Quiet m (rest feed (n + 1))

/-! ## Calls -/

section
variable {s s' : Selection σ} {item : Option Item}

theorem after_succ_of_next (h : s.next = some (item, s')) (n : Nat) : s.after (n + 1) = s'.after n := by
  rw [after, h]
  rfl

theorem nth_zero (h : s.next = some (item, s')) : s.nth 0 = some item := by
  rw [nth, after, Option.bind_some, h]
  rfl

theorem nth_succ (h : s.next = some (item, s')) (n : Nat) : s.nth (n + 1) = s'.nth n := by
  rw [nth, after_succ_of_next h, nth]

theorem nth_of_never (h : s.next = none) (n : Nat) : s.nth n = none := by
  cases n with
  | zero =>
    rw [nth, after, Option.bind_some, h]
    rfl
  | succ n =>
    rw [nth, after, h]
    rfl

theorem after_of_failed (h : s.failed = true) (n : Nat) : s.after n = some s := by
  induction n with
  | zero => rfl
  | succ n ih => rw [after_succ_of_next (next_of_failed h), ih]

theorem over_of_failed (h : s.failed = true) : s.Over := by
  intro n
  induction n with
  | zero => exact nth_zero (next_of_failed h)
  | succ n ih => rw [nth_succ (next_of_failed h), ih]

theorem Over.fused (h : s.Over) : s.Fused := fun _ j _ _ => h j

theorem over_iff_next : s.Over ↔ ∃ s', s.next = some (none, s') ∧ s'.Over := by
  constructor
  · intro h
    rcases hn : s.next with _ | ⟨item, s'⟩
    · have h0 := h 0
      rw [nth_of_never hn] at h0
      cases h0
    · have h0 := h 0
      rw [nth_zero hn] at h0
      cases h0
      refine ⟨s', rfl, fun n => ?_⟩
      rw [← nth_succ hn]
      exact h (n + 1)
  · rintro ⟨s', hn, h⟩ n
    cases n with
    | zero => exact nth_zero hn
    | succ n => rw [nth_succ hn, h n]

theorem fused_iff_next (h : s.next = some (item, s')) : s.Fused ↔ (item = none → s'.Over) ∧ s'.Fused := by
  constructor
  · intro hs
    refine ⟨?_, ?_⟩
    · rintro rfl n
      rw [← nth_succ h]
      exact hs 0 (n + 1) (Nat.zero_le _) (nth_zero h)
    · intro i j hij hi
      rw [← nth_succ h] at hi ⊢
      exact hs (i + 1) (j + 1) (Nat.succ_le_succ hij) hi
  · rintro ⟨ho, hs⟩ i j hij hi
    cases i with
    | zero =>
      rw [nth_zero h] at hi
      cases hi
      exact over_iff_next.2 ⟨s', h, ho rfl⟩ j
    | succ i =>
      cases j with
      | zero => cases hij
      | succ j =>
        rw [nth_succ h] at hi ⊢
        exact hs i j (Nat.le_of_succ_le_succ hij) hi

end

/-! ## The feed behind its end -/

section
variable {m : Message} {feed : σ}

theorem Quiet.rest (h : Quiet m feed) (k : Nat) : Quiet m (rest feed k) := by
  obtain ⟨ha, he⟩ := h
  refine ⟨?_, ?_⟩
  · intro n path hp
    rw [Feed.answer_rest] at hp
    exact ha _ path hp
  · intro n
    obtain ⟨i, hi, hn⟩ := he (k + n)
    refine ⟨i - k, by omega, ?_⟩
    rw [Feed.answer_rest, Nat.add_sub_cancel' (by omega), hn]

theorem Quiet.next (h : Quiet m feed) :
    ∃ n, (⟨m, feed, false⟩ : Selection σ).next = some (none, ⟨m, Feed.rest feed n, false⟩) := by
  obtain ⟨ha, he⟩ := h
  rcases next_cases m feed with ⟨_, hf⟩ | ⟨n, item, _, hs, hn⟩
  · obtain ⟨k, _, hk⟩ := he 0
    obtain ⟨path, hp, _⟩ := hf k
    rw [hk] at hp
    cases hp
  · generalize hp : answer feed n = settled at hs
    cases hs with
    | none => exact ⟨n + 1, hn⟩
    | path hg => exact absurd ⟨_, rfl, ha n _ hp⟩ (Settles.path hg).not_absent

theorem Quiet.over (h : Quiet m feed) : Over ⟨m, feed, false⟩ := by
  intro n
  induction n generalizing feed with
  | zero =>
    obtain ⟨_, hn⟩ := h.next
    exact nth_zero hn
  | succ n ih =>
    obtain ⟨k, hn⟩ := h.next
    rw [nth_succ hn, ih (h.rest k)]

theorem Over.next (h : Over ⟨m, feed, false⟩) :
    ∃ n, (∀ i < n, Absent m (answer feed i)) ∧ answer feed n = none ∧ Over ⟨m, Feed.rest feed (n + 1), false⟩ := by
  obtain ⟨s', hn, ho⟩ := over_iff_next.1 h
  rcases next_cases m feed with ⟨hf, _⟩ | ⟨n, item, ha, hs, hs'⟩
  · rw [hf] at hn
    cases hn
  · rw [hs'] at hn
    cases hn
    generalize hp : answer feed n = settled at hs
    cases hs
    exact ⟨n, ha, hp, ho⟩

theorem Over.passes (h : Over ⟨m, feed, false⟩) (k : Nat) :
    ∃ n ≥ k, (∀ i < n, answer feed i = none ∨ Absent m (answer feed i)) ∧ Over ⟨m, Feed.rest feed n, false⟩ := by
  induction k with
  | zero => exact ⟨0, Nat.le_refl 0, by simp, h⟩
  | succ k ih =>
    obtain ⟨n, hk, ha, ho⟩ := ih
    obtain ⟨j, hj, hn, ho'⟩ := ho.next
    rw [← Feed.rest_add] at ho'
    refine ⟨n + (j + 1), by omega, ?_, ho'⟩
    intro i hi
    by_cases hin : i < n
    · exact ha i hin
    · obtain ⟨d, rfl⟩ := Nat.exists_eq_add_of_le (Nat.le_of_not_lt hin)
      rw [← Feed.answer_rest]
      rcases Nat.lt_or_eq_of_le (show d ≤ j by omega) with hd | rfl
      · exact .inr (hj d hd)
      · exact .inl hn

theorem over_iff_quiet : Over ⟨m, feed, false⟩ ↔ Quiet m feed := by
  refine ⟨fun h => ⟨?_, ?_⟩, Quiet.over⟩
  · intro n path hp
    obtain ⟨k, hk, ha, _⟩ := h.passes (n + 1)
    rcases ha n hk with he | ⟨path', hp', hr⟩
    · rw [he] at hp
      cases hp
    · rw [hp'] at hp
      cases hp
      exact hr
  · intro n
    obtain ⟨k, hk, _, ho⟩ := h.passes n
    obtain ⟨j, _, hj, _⟩ := ho.next
    rw [Feed.answer_rest] at hj
    exact ⟨k + j, by omega, hj⟩

end

/-! ## Staying at the end -/

section
variable {m : Message} {feed : σ}

theorem Absent.ne_fault {answer : Option Path} {path : Path} {fault : Fault} (h : Absent m answer)
    (hp : answer = some path) : path.resolve m ≠ .error fault := by
  obtain ⟨path', rfl, hr⟩ := h
  cases hp
  simp [hr]

theorem FailsBefore.of_rest {k n : Nat} (h : FailsBefore m (rest feed k) n) : FailsBefore m feed (k + n) := by
  obtain ⟨i, hi, path, fault, hp, hr⟩ := h
  rw [Feed.answer_rest] at hp
  exact ⟨k + i, by omega, path, fault, hp, hr⟩

theorem FailsBefore.behind {k n : Nat} (h : FailsBefore m feed (k + n))
    (hk : ∀ i < k, ∀ path fault, answer feed i = some path → path.resolve m ≠ .error fault) :
    FailsBefore m (rest feed k) n := by
  obtain ⟨i, hi, path, fault, hp, hr⟩ := h
  have hki : k ≤ i := by
    by_contra hik
    exact hk i (by omega) path fault hp hr
  obtain ⟨d, rfl⟩ := Nat.exists_eq_add_of_le hki
  rw [← Feed.answer_rest] at hp
  exact ⟨d, by omega, path, fault, hp, hr⟩

theorem Fused.stays (h : Fused ⟨m, feed, false⟩) : Stays m feed := by
  intro n hn
  -- every call that gives a value brings the answer `n` nearer
  induction n using Nat.strongRecOn generalizing feed with | _ n ih
  rcases next_cases m feed with ⟨_, hf⟩ | ⟨k, item, ha, hs, hnext⟩
  · obtain ⟨path, hp, _⟩ := hf n
    rw [hn] at hp
    cases hp
  obtain ⟨ho, hf⟩ := (fused_iff_next hnext).1 h
  have hkn : k ≤ n := by
    by_contra hnk
    obtain ⟨path, hp, _⟩ := ha n (by omega)
    rw [hn] at hp
    cases hp
  obtain ⟨d, rfl⟩ := Nat.exists_eq_add_of_le hkn
  generalize hp : answer feed k = settled at hs
  cases hs with
  | none =>
    right
    have hq := (over_iff_quiet.1 (ho rfl)).rest d
    rwa [← Feed.rest_add, Nat.add_right_comm] at hq
  | path hg =>
    cases d with
    | zero =>
      rw [Nat.add_zero, hp] at hn
      cases hn
    | succ d =>
      cases hg with
      | fault hr => exact .inl ⟨k, by omega, _, _, hp, hr⟩
      | value hr =>
        have hd : k + (d + 1) = k + 1 + d := by omega
        rw [hd] at hn ⊢
        rw [← Feed.answer_rest] at hn
        rcases ih d (by omega) hf hn with hf | hq
        · exact .inl hf.of_rest
        · rw [← Feed.rest_add] at hq
          exact .inr hq

theorem Stays.step (h : Stays m feed) {item : Option Item} {s' : Selection σ}
    (hn : next ⟨m, feed, false⟩ = some (item, s')) :
    s'.Over ∨ item ≠ none ∧ ∃ k, s' = ⟨m, rest feed k, false⟩ ∧ Stays m (rest feed k) := by
  rcases next_cases m feed with ⟨hf, _⟩ | ⟨k, item', ha, hs, hnext⟩
  · rw [hf] at hn
    cases hn
  rw [hnext] at hn
  cases hn
  generalize hp : answer feed k = settled at hs
  cases hs with
  | none =>
    left
    rcases h k hp with ⟨i, hi, path, fault, hp, hr⟩ | hq
    -- the paths passed over are absent, so none of them fails
    · exact absurd hr ((ha i hi).ne_fault hp)
    · exact hq.over
  | path hg =>
    cases hg with
    | fault hr => exact .inl (over_of_failed rfl)
    | value hr =>
      right
      refine ⟨Option.some_ne_none _, k + 1, rfl, ?_⟩
      intro n hn
      rw [Feed.answer_rest] at hn
      rw [← Feed.rest_add]
      refine (h _ hn).imp_left fun hf => hf.behind ?_
      intro i hi path fault hip
      rcases Nat.lt_or_eq_of_le (Nat.le_of_lt_succ hi) with hik | rfl
      · exact (ha i hik).ne_fault hip
      · rw [hp] at hip
        cases hip
        simp [hr]

theorem Stays.fused (h : Stays m feed) : Fused ⟨m, feed, false⟩ := by
  intro i j hij hi
  induction i using Nat.strongRecOn generalizing feed j with | _ i ih
  rcases hn : next ⟨m, feed, false⟩ with _ | ⟨item, s'⟩
  · rw [nth_of_never hn] at hi
    cases hi
  rcases h.step hn with ho | ⟨hne, k, rfl, hk⟩
  · exact (fused_iff_next hn).2 ⟨fun _ => ho, ho.fused⟩ i j hij hi
  cases i with
  | zero =>
    rw [nth_zero hn] at hi
    exact absurd (Option.some.inj hi) hne
  | succ i =>
    cases j with
    | zero => cases hij
    | succ j =>
      rw [nth_succ hn] at hi ⊢
      exact ih i (Nat.lt_succ_self i) hk j (Nat.le_of_succ_le_succ hij) hi

end

theorem failed_of_fault {s s' : Selection σ} {fault : Fault} (h : s.next = some (some (.error fault), s')) :
    s'.failed = true := by
  obtain ⟨m, feed, failed⟩ := s
  cases failed with
  | true =>
    rw [next_of_failed rfl] at h
    cases h
  | false =>
    rcases next_cases m feed with ⟨hf, _⟩ | ⟨_, _, _, _, hn⟩
    · rw [hf] at h
      cases h
    · rw [hn] at h
      cases h
      rfl

end

/-- **When a selection stays at its end.** A fault ends it for good. Otherwise it stays at the
end of its feed exactly when all that the feed has behind that end is absent and ends again. -/
theorem fused_exactly {σ : Type} [Feed σ] (m : Message) (feed : σ) :
    (Fused ⟨m, feed, false⟩ ↔
      ∀ n, answer feed n = none → FailsBefore m feed n ∨ Quiet m (rest feed (n + 1))) ∧
      ((∀ i j, i ≤ j → answer feed i = none → answer feed j = none) → Fused ⟨m, feed, false⟩) ∧
      ∀ (s s' : Selection σ) (fault : Fault), s.next = some (some (.error fault), s') →
        ∀ n, s'.after n = some s' ∧ s'.nth n = some none := by
  refine ⟨⟨Fused.stays, Stays.fused⟩, ?_, ?_⟩
  · intro h
    refine Stays.fused fun n hn => .inr ⟨?_, ?_⟩
    · intro k path hp
      rw [Feed.answer_rest, h n _ (by omega) hn] at hp
      cases hp
    · intro k
      refine ⟨k, Nat.le_refl k, ?_⟩
      rw [Feed.answer_rest, h n _ (by omega) hn]
  · intro s s' fault h n
    have hf := failed_of_fault h
    exact ⟨after_of_failed hf n, over_of_failed hf n⟩

/-! ## Feeds that resume -/

/-- A feed that gives the answers of a list, and then none. -/
instance : Feed (List (Option Path)) where
  ask answers := (answers.head?.join, answers.tail)

theorem fused_exactly_after_fault :
    let m : Message := .object [("a", .null)]
    let answers : List (Option Path) := [some ⟨["a"]⟩, some ⟨["a", "b"]⟩, none, some ⟨["a"]⟩]
    let fault : Fault := .pathKind "a.b" "b" .null
    Fused ⟨m, answers, false⟩ ∧ Fused (ofPaths m [⟨["a"]⟩]) ∧
      next ⟨m, answers.tail, false⟩ = some (some (.error fault), ⟨m, answers.drop 2, true⟩) ∧
      ∀ n, nth ⟨m, answers.drop 2, true⟩ n = some none := by
  intro m answers fault
  have hn : next ⟨m, answers.tail, false⟩ = some (some (.error fault), ⟨m, answers.drop 2, true⟩) :=
    next_of_settles (.path (.fault rfl))
  refine ⟨(fused_exactly m answers).1.2 ?_, (fused_exactly m _).2.1 ?_, hn, fun n => ?_⟩
  · intro n hn
    left
    refine ⟨1, ?_, ⟨["a", "b"]⟩, fault, rfl, rfl⟩
    match n with
    | 0 | 1 => cases hn
    | n + 2 => omega
  · intro i j hij hi
    rw [Feed.answer_list, List.getElem?_eq_none_iff] at hi ⊢
    exact Nat.le_trans hi hij
  · exact ((fused_exactly m answers).2.2 _ _ fault hn n).2

/-- A feed that reports its end and then has a path makes a selection give an item behind
its own end. -/
theorem resumes_after_end :
    let answers : List (Option Path) := [none, some ⟨[]⟩]
    let s : Selection (List (Option Path)) := ⟨.null, answers, false⟩
    s.nth 0 = some none ∧ s.nth 1 = some (some (.ok ("", .null))) ∧ ¬ s.Fused := by
  intro answers s
  have h0 : s.next = some (none, ⟨.null, [some ⟨[]⟩], false⟩) :=
    next_of_settles .none
  have h1 : next ⟨.null, [some ⟨[]⟩], false⟩ = some (some (.ok ("", .null)), ⟨.null, ([] : List (Option Path)), false⟩) :=
    next_of_settles (.path (.value rfl))
  have hn : s.nth 1 = some (some (.ok ("", .null))) := by rw [nth_succ h0, nth_zero h1]
  refine ⟨nth_zero h0, hn, fun h => ?_⟩
  have ho := h 0 1 (Nat.zero_le 1) (nth_zero h0)
  rw [hn] at ho
  cases ho

end Telemetry.Selection
