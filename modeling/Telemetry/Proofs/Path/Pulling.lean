import Telemetry.Proofs.Path.Fused

/-!
# What a selection takes for its items

For one item a selection takes paths from its feed up to the first that is not absent, and
does not look at those behind it (`next_ofPaths_cases`). So its items come in the order of
their paths, those of two lists of paths one after the other, and the paths taken so far are
told by the last item (`selection_pulls`).
-/

namespace Telemetry

open Feed (ask rest answer)

/-! ## Feeds that begin with a list of paths -/

namespace Feed

section
variable {σ : Type} [Feed σ]

def Begins : σ → List Path → Prop
  | _, [] => True
  | feed, path :: paths => (ask feed).1 = some path ∧ Begins (ask feed).2 paths

theorem begins_append {feed : σ} {front back : List Path} :
    Begins feed (front ++ back) ↔ Begins feed front ∧ Begins (rest feed front.length) back := by
  induction front generalizing feed with
  | nil => simp [Begins, rest]
  | cons path front ih => simp [Begins, ih, rest, and_assoc]

end

theorem begins_list (front back : List Path) : Begins (front ++ back) front := by
  induction front with
  | nil => trivial
  | cons path front ih => exact ⟨rfl, ih⟩

end Feed

namespace Selection

open Feed (Begins)

/-- The call behind `n` others takes absent paths and one that gives the item, and those others
have taken the paths in front of these, whatever the feed has later. -/
structure Draws (m : Message) (n : Nat) (front absent : List Path) (path : Path) (item : Item) : Prop where
  skipped : ∀ p ∈ absent, p.resolve m = .ok none
  gives : Gives m path item
  before : ∀ {σ : Type} [Feed σ] {feed : σ}, Begins feed (front ++ absent ++ [path]) →
    after ⟨m, feed, false⟩ n = some ⟨m, rest feed front.length, false⟩
  given : ∀ {σ : Type} [Feed σ] {feed : σ}, Begins feed (front ++ absent ++ [path]) →
    nth ⟨m, feed, false⟩ n = some (some item)
  behind : ∀ {σ : Type} [Feed σ] {feed : σ}, Begins feed (front ++ absent ++ [path]) →
    after ⟨m, feed, false⟩ (n + 1) = some ⟨m, rest feed (front ++ absent ++ [path]).length, isFault (some item)⟩

/-! ## One call -/

section
variable {m : Message} {absent : List Path} {path : Path} {item : Item}

theorem next_of_begins {σ : Type} [Feed σ] {feed : σ} (ha : ∀ p ∈ absent, p.resolve m = .ok none)
    (hb : Begins feed absent) : next ⟨m, feed, false⟩ = next ⟨m, rest feed absent.length, false⟩ := by
  induction absent generalizing feed with
  | nil => rfl
  | cons p absent ih =>
    obtain ⟨hp, ha⟩ := List.forall_mem_cons.1 ha
    obtain ⟨h0, hb⟩ := hb
    rw [next_of_absent ⟨p, h0, hp⟩]
    exact ih ha hb

theorem next_begins {σ : Type} [Feed σ] {feed : σ} (ha : ∀ p ∈ absent, p.resolve m = .ok none) (hg : Gives m path item)
    (hb : Begins feed (absent ++ [path])) :
    next ⟨m, feed, false⟩ = some (some item, ⟨m, rest feed (absent ++ [path]).length, isFault (some item)⟩) := by
  obtain ⟨hb, h0, _⟩ := Feed.begins_append.1 hb
  have hs : Settles m (ask (rest feed absent.length)).1 (some item) := by
    rw [h0]
    exact .path hg
  rw [next_of_begins ha hb, List.length_append, Feed.rest_add]
  exact next_of_settles hs

theorem next_ofPaths_cases (m : Message) (paths : List Path) :
    (ofPaths m paths).next = some (none, ofPaths m []) ∨
    ∃ absent path back item, paths = absent ++ [path] ++ back ∧ (∀ p ∈ absent, p.resolve m = .ok none) ∧
      Gives m path item ∧
      (ofPaths m paths).next = some (some item, { ofPaths m back with failed := isFault (some item) }) := by
  induction paths with
  | nil => exact .inl (next_nil m)
  | cons path paths ih =>
    have hn := next_cons m path paths
    rcases hr : path.resolve m with fault | _ | value <;> rw [hr] at hn
    · exact .inr ⟨[], path, paths, _, rfl, by simp, .fault hr, hn⟩
    · rw [hn]
      rcases ih with hs | ⟨absent, other, back, item, rfl, ha, hg, hs⟩
      · exact .inl hs
      · exact .inr ⟨path :: absent, other, back, item, rfl, List.forall_mem_cons.2 ⟨hr, ha⟩, hg, hs⟩
    · exact .inr ⟨[], path, paths, _, rfl, by simp, .value hr, hn⟩

end

/-! ## Many calls -/

theorem over_nil (m : Message) : (ofPaths m []).Over := by
  intro n
  induction n with
  | zero => exact nth_zero (next_nil m)
  | succ n ih => rw [nth_succ (next_nil m), ih]

section
variable {m : Message} {paths : List Path} {n : Nat} {item : Item}

theorem nth_ofPaths (m : Message) (paths : List Path) (n : Nat) :
    (ofPaths m paths).nth n = some (ofPaths m paths).items[n]? := by
  induction n generalizing paths with
  | zero =>
    rcases next_ofPaths_cases m paths with hn | ⟨_, _, _, item, _, _, _, hn⟩
    · rw [nth_zero hn, items_of_none hn]
      rfl
    · rw [nth_zero hn, items_of_some hn]
      rfl
  | succ n ih =>
    rcases next_ofPaths_cases m paths with hn | ⟨_, _, back, item, _, _, _, hn⟩
    · rw [nth_succ hn, items_of_none hn, over_nil m n]
      rfl
    · rw [nth_succ hn, items_of_some hn, List.getElem?_cons_succ]
      cases isFault (some item) with
      | false => exact ih back
      | true =>
        rw [over_of_failed rfl n, items_of_none (next_of_failed rfl)]
        rfl

theorem exists_draws (h : (ofPaths m paths).nth n = some (some item)) :
    ∃ front absent path back, paths = front ++ absent ++ [path] ++ back ∧ Draws m n front absent path item := by
  induction n generalizing paths with
  | zero =>
    rcases next_ofPaths_cases m paths with hn | ⟨absent, path, back, item', rfl, ha, hg, hn⟩
    · rw [nth_zero hn] at h
      cases h
    · rw [nth_zero hn] at h
      cases h
      refine ⟨[], absent, path, back, rfl, ha, hg, fun _ => rfl, ?_, ?_⟩
      · intro σ _ feed hb
        exact nth_zero (next_begins ha hg hb)
      · intro σ _ feed hb
        exact after_succ_of_next (next_begins ha hg hb) 0
  | succ n ih =>
    rcases next_ofPaths_cases m paths with hn | ⟨absent, path, back, first, rfl, ha, hg, hn⟩
    · rw [nth_succ hn, over_nil m n] at h
      cases h
    · rw [nth_succ hn] at h
      cases hf : isFault (some first) with
      | true =>
        rw [over_of_failed hf n] at h
        cases h
      | false =>
        rw [hf] at h
        obtain ⟨front, absent', path', back', rfl, hd⟩ := ih h
        -- the first call leaves the feed that `hd` speaks of
        have hw {σ : Type} [Feed σ] {feed : σ}
            (hb : Begins feed (absent ++ [path] ++ front ++ absent' ++ [path'])) :
            next ⟨m, feed, false⟩ = some (some first, ⟨m, rest feed (absent ++ [path]).length, false⟩) ∧
              Begins (rest feed (absent ++ [path]).length) (front ++ absent' ++ [path']) := by
          rw [List.append_assoc, List.append_assoc, Feed.begins_append] at hb
          have hn := next_begins ha hg hb.1
          rw [hf] at hn
          exact ⟨hn, by simpa using hb.2⟩
        refine ⟨absent ++ [path] ++ front, absent', path', back', by simp, hd.skipped, hd.gives, ?_, ?_, ?_⟩
        · intro σ _ feed hb
          obtain ⟨hn, hb⟩ := hw hb
          rw [after_succ_of_next hn, hd.before hb, ← Feed.rest_add, ← List.length_append]
        · intro σ _ feed hb
          obtain ⟨hn, hb⟩ := hw hb
          rw [nth_succ hn, hd.given hb]
        · intro σ _ feed hb
          obtain ⟨hn, hb⟩ := hw hb
          rw [after_succ_of_next hn, hd.behind hb, ← Feed.rest_add, ← List.length_append]
          simp

theorem after_of_none (hn : (ofPaths m paths).nth n = some none)
    (hf : ∀ i < n, ∀ fault, (ofPaths m paths).nth i ≠ some (some (.error fault))) :
    (ofPaths m paths).after (n + 1) = some (ofPaths m []) := by
  induction n generalizing paths with
  | zero =>
    rcases next_ofPaths_cases m paths with he | ⟨absent, path, back, item, _, _, _, he⟩
    · exact after_succ_of_next he 0
    · rw [nth_zero he] at hn
      cases hn
  | succ n ih =>
    rcases next_ofPaths_cases m paths with he | ⟨absent, path, back, item, _, _, _, he⟩
    · rw [after_succ_of_next he]
      refine ih (over_nil m n) ?_
      intro i _ fault
      rw [over_nil m i]
      exact nofun
    · cases item with
      | error fault => exact absurd (nth_zero he) (hf 0 (Nat.succ_pos n) fault)
      | ok field =>
        replace he : (ofPaths m paths).next = some (some (.ok field), ofPaths m back) := he
        rw [nth_succ he] at hn
        rw [after_succ_of_next he]
        refine ih hn ?_
        intro i hi fault
        rw [← nth_succ he]
        exact hf (i + 1) (Nat.succ_lt_succ hi) fault

end

theorem after_fault {σ : Type} [Feed σ] {s : Selection σ} {n : Nat} {fault : Fault}
    (h : s.nth n = some (some (.error fault))) (k : Nat) : s.after (n + 1 + k) = s.after (n + 1) := by
  induction n generalizing s with
  | zero =>
    rcases hn : s.next with _ | ⟨item, s'⟩
    · rw [nth_of_never hn] at h
      cases h
    · rw [nth_zero hn] at h
      cases h
      have hf := failed_of_fault hn
      rw [Nat.zero_add, Nat.add_comm, after_succ_of_next hn, after_succ_of_next hn, after_of_failed hf]
      rfl
  | succ n ih =>
    rcases hn : s.next with _ | ⟨item, s'⟩
    · rw [nth_of_never hn] at h
      cases h
    · rw [nth_succ hn] at h
      rw [Nat.succ_add, after_succ_of_next hn, after_succ_of_next hn, ih h]

/-! ## Lists of paths one after the other -/

theorem items_append_of_ok (m : Message) {paths : List Path} (others : List Path)
    (h : ∀ p ∈ paths, ∀ fault, p.resolve m ≠ .error fault) :
    (ofPaths m (paths ++ others)).items = (ofPaths m paths).items ++ (ofPaths m others).items := by
  induction paths with
  | nil => simp [items_nil]
  | cons path paths ih =>
    obtain ⟨hp, hs⟩ := List.forall_mem_cons.1 h
    rw [List.cons_append, items_ofPaths_cons, items_ofPaths_cons, ih hs]
    rcases hr : path.resolve m with fault | _ | value
    · exact absurd hr (hp fault)
    · rfl
    · rfl

theorem items_append_of_error (m : Message) {paths : List Path} (others : List Path)
    (h : ∃ p ∈ paths, ∃ fault, p.resolve m = .error fault) :
    (ofPaths m (paths ++ others)).items = (ofPaths m paths).items := by
  induction paths with
  | nil => simp at h
  | cons path paths ih =>
    rw [List.cons_append, items_ofPaths_cons, items_ofPaths_cons]
    rcases hr : path.resolve m with fault | _ | value
    · rfl
    · exact ih (by simpa [hr] using h)
    · exact congrArg (_ :: ·) (ih (by simpa [hr] using h))

/-- **A selection takes no more paths than its items need.** The call that gives an item has taken
the paths up to the one that the item is from, and behind a fault nothing is taken any more. -/
theorem selection_pulls (m : Message) (paths others : List Path) :
    ((∀ p ∈ paths, ∀ fault, p.resolve m ≠ .error fault) →
      (ofPaths m (paths ++ others)).items = (ofPaths m paths).items ++ (ofPaths m others).items) ∧
    ((∃ p ∈ paths, ∃ fault, p.resolve m = .error fault) →
      (ofPaths m (paths ++ others)).items = (ofPaths m paths).items) ∧
    (∀ n, (ofPaths m paths).nth n = some (ofPaths m paths).items[n]?) ∧
    (∀ n item, (ofPaths m paths).items[n]? = some item → ∃ front absent path back,
      paths = front ++ absent ++ [path] ++ back ∧ Draws m n front absent path item ∧
      (ofPaths m paths).after n = some (ofPaths m (absent ++ [path] ++ back)) ∧
      (ofPaths m paths).after (n + 1) = some { ofPaths m back with failed := isFault (some item) }) ∧
    (∀ n fault, (ofPaths m paths).nth n = some (some (.error fault)) →
      ∀ k, (ofPaths m paths).after (n + 1 + k) = (ofPaths m paths).after (n + 1)) ∧
    ∀ n, (ofPaths m paths).nth n = some none →
      (∀ i < n, ∀ fault, (ofPaths m paths).nth i ≠ some (some (.error fault))) →
      (ofPaths m paths).after (n + 1) = some (ofPaths m []) := by
  refine ⟨items_append_of_ok m others, items_append_of_error m others, nth_ofPaths m paths, ?_, ?_, ?_⟩
  · intro n item h
    obtain ⟨front, absent, path, back, rfl, hd⟩ := exists_draws (by rw [nth_ofPaths, h])
    have hb := Feed.begins_list (front ++ absent ++ [path]) back
    refine ⟨front, absent, path, back, rfl, hd, (hd.before hb).trans ?_, (hd.behind hb).trans ?_⟩
    · rw [Feed.rest_list, List.append_assoc, List.append_assoc, List.drop_left]
      simp [ofPaths]
    · rw [Feed.rest_list, List.drop_left]
      rfl
  · intro n fault h
    exact after_fault h
  · intro n
    exact after_of_none

theorem selection_pulls_mixed :
    let m : Message := .object [("a", .null), ("xs", .array [])]
    let missing : Path := ⟨["b"]⟩
    let field : Path := ⟨["a"]⟩
    let past : Path := ⟨["xs", "0"]⟩
    let fault : Fault := .pathIndex "xs.0" 0 0
    (∀ p ∈ [missing, field], ∀ fault, p.resolve m ≠ .error fault) ∧
      (ofPaths m ([missing, field] ++ [past])).items = (ofPaths m [missing, field]).items ++ (ofPaths m [past]).items ∧
      past.resolve m = .error fault ∧ (ofPaths m ([past] ++ [field])).items = (ofPaths m [past]).items ∧
      (ofPaths m [missing, past, field]).items[0]? = some (.error fault) ∧
      (∃ front absent path back, [missing, past, field] = front ++ absent ++ [path] ++ back ∧
        Draws m 0 front absent path (.error fault)) ∧
      (∀ k, (ofPaths m [missing, past, field]).after (1 + k) = (ofPaths m [missing, past, field]).after 1) ∧
      (ofPaths m [field, missing]).nth 1 = some none ∧ (ofPaths m [field, missing]).after 2 = some (ofPaths m []) := by
  intro m missing field past fault
  have hm : missing.resolve m = .ok none := rfl
  have hf : field.resolve m = .ok (some .null) := rfl
  have hp : past.resolve m = .error fault := rfl
  have hok : ∀ p ∈ [missing, field], ∀ fault, p.resolve m ≠ .error fault := by simp [hm, hf]
  have hfault : (ofPaths m [missing, past, field]).nth 0 = some (some (.error fault)) :=
    nth_zero ((next_cons m missing _).trans (next_cons m past _))
  have hvalue : (ofPaths m [field, missing]).next = some (some (.ok ("a", .null)), ofPaths m [missing]) :=
    next_cons m field _
  have hnone : (ofPaths m [field, missing]).nth 1 = some none := by
    rw [nth_succ hvalue]
    exact nth_zero ((next_cons m missing []).trans (next_nil m))
  obtain ⟨_, _, hi, hd, hs, _⟩ := selection_pulls m [missing, past, field] []
  have hx : (ofPaths m [missing, past, field]).items[0]? = some (.error fault) :=
    Option.some.inj ((hi 0).symm.trans hfault)
  obtain ⟨front, absent, path, back, he, hd, _⟩ := hd 0 _ hx
  refine ⟨hok, (selection_pulls m _ [past]).1 hok, hp, (selection_pulls m _ [field]).2.1 ⟨past, by simp, fault, hp⟩, hx,
    ⟨front, absent, path, back, he, hd⟩, hs 0 fault hfault, hnone,
    (selection_pulls m [field, missing] []).2.2.2.2.2 1 hnone ?_⟩
  intro i hi fault
  obtain rfl := Nat.lt_one_iff.1 hi
  simp [nth_zero hvalue]

end Selection

end Telemetry
