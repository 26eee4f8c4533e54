import Telemetry.Proofs.Json.Scanned

/-!
# Elements and members as they stand in the text

Which elements stand behind an opening bracket and which members behind an opening brace,
told without the loops that run through them. A loop that succeeds has found them
(`elements_ok`, `scanMembers_ok`), and any other loop over the same text comes to what it
makes of them (`Elements.run`, `Members.run`).
-/

namespace Telemetry.Json

/-- What a scan leaves is an end of its text. -/
def Leaves {α : Type} (scan : Scan α) : Prop := ∀ ⦃text a rest⦄, scan text = .ok (a, rest) → rest <:+ text

section
variable {text rest : List Char} {c : Char}

theorem skipBlanks_suffix (text : List Char) : skipBlanks text <:+ text := List.dropWhile_suffix _

theorem suffix_of_skipBlanks (h : skipBlanks text = c :: rest) : rest <:+ text := by
  have hs := skipBlanks_suffix text
  rw [h] at hs
  exact (List.suffix_cons c rest).trans hs

theorem length_lt_of_skipBlanks (h : skipBlanks text = c :: rest) : rest.length < text.length := by
  have hs := (skipBlanks_suffix text).length_le
  rw [h] at hs
  exact hs

theorem colon_suffix (h : colon text = .ok rest) : rest <:+ text := by
  unfold colon at h
  split at h
  · cases h
  · rename_i hs
    cases h
    exact suffix_of_skipBlanks hs
  · cases h

end

/-! ## Elements -/

section
variable {α β : Type} {item : Scan α}

structure Element (item : Scan α) (text : List Char) (a : α) (rest : List Char) : Prop where
  begins : skipBlanks text ≠ []
  opens : ∀ start, skipBlanks text ≠ ']' :: start
  reads : item (skipBlanks text) = .ok (a, rest)

inductive MoreElements (item : Scan α) : List Char → List α → List Char → Prop where
  | closed {text rest : List Char} (hs : skipBlanks text = ']' :: rest) : MoreElements item text [] rest
  | comma {text start after rest : List Char} {a : α} {others : List α} (hs : skipBlanks text = ',' :: start)
      (ha : Element item start a after) (ho : MoreElements item after others rest) :
      MoreElements item text (a :: others) rest

inductive Elements (item : Scan α) : List Char → List α → List Char → Prop where
  | empty {text rest : List Char} (hs : skipBlanks text = ']' :: rest) : Elements item text [] rest
  | first {text after rest : List Char} {a : α} {others : List α} (ha : Element item text a after)
      (ho : MoreElements item after others rest) : Elements item text (a :: others) rest

variable {dangling : Dangling} {text rest : List Char} {a : α} {items : List α}

theorem moreElements_ok {limit : Nat} (h : moreElements item dangling limit text = .ok (items, rest)) :
    MoreElements item text items rest := by
  induction limit generalizing text items with
  | zero => cases h
  | succ limit ih =>
    unfold moreElements at h
    split at h
    · cases h
    · rename_i hs
      cases h
      exact .closed hs
    · rename_i start hs
      split at h
      · cases h
      · cases h
      · rename_i hn hc
        obtain ⟨⟨a, after⟩, ha, h⟩ := bind_ok h
        obtain ⟨⟨others, rest'⟩, ho, h⟩ := bind_ok h
        cases h
        exact .comma hs ⟨hn, hc, ha⟩ (ih ho)
    · cases h

theorem elements_ok (h : elements item dangling text = .ok (items, rest)) : Elements item text items rest := by
  unfold elements at h
  split at h
  · cases h
  · rename_i hs
    cases h
    exact .empty hs
  · rename_i hn hc
    obtain ⟨⟨a, after⟩, ha, h⟩ := bind_ok h
    obtain ⟨⟨others, rest'⟩, ho, h⟩ := bind_ok h
    cases h
    exact .first ⟨hn, hc, ha⟩ (moreElements_ok ho)

theorem Element.suffix (hi : Leaves item) (h : Element item text a rest) : rest <:+ text :=
  (hi h.reads).trans (skipBlanks_suffix text)

theorem MoreElements.suffix (hi : Leaves item) (h : MoreElements item text items rest) :
    rest <:+ text ∧ items.length < text.length := by
  induction h with
  | closed hs => exact ⟨suffix_of_skipBlanks hs, Nat.zero_lt_of_lt (length_lt_of_skipBlanks hs)⟩
  | comma hs ha ho ih =>
    have ha := ha.suffix hi
    have hl := ha.length_le
    have hs' := length_lt_of_skipBlanks hs
    exact ⟨ih.1.trans (ha.trans (suffix_of_skipBlanks hs)), by simp only [List.length_cons]; omega⟩

theorem Elements.suffix (hi : Leaves item) (h : Elements item text items rest) : rest <:+ text := by
  cases h with
  | empty hs => exact suffix_of_skipBlanks hs
  | first ha ho => exact (ho.suffix hi).1.trans (ha.suffix hi)

/-! ### Another loop over the same elements -/

variable {item' : Scan β} {f : α → β}

theorem MoreElements.run (dangling : Dangling) (hi : Leaves item) (h : MoreElements item text items rest)
    (hr : ∀ t a r, t <:+ text → item t = .ok (a, r) → item' t = .ok (f a, r)) {limit : Nat}
    (hl : items.length < limit) : moreElements item' dangling limit text = .ok (items.map f, rest) := by
  induction h generalizing limit with
  | closed hs =>
    obtain ⟨limit, rfl⟩ := Nat.exists_eq_succ_of_ne_zero (Nat.ne_of_gt hl)
    rw [moreElements, hs]
    rfl
  | @comma text start after rest a others hs ha ho ih =>
    obtain ⟨limit, rfl⟩ := Nat.exists_eq_succ_of_ne_zero (Nat.ne_of_gt (Nat.zero_lt_of_lt hl))
    have hst := suffix_of_skipBlanks hs
    have hat := (ha.suffix hi).trans hst
    have ho' := ih (fun t a r ht => hr t a r (ht.trans hat)) (Nat.lt_of_succ_lt_succ hl)
    rw [moreElements, hs]
    simp only
    split
    · rename_i he
      exact absurd he ha.begins
    · rename_i he
      exact absurd he (ha.opens _)
    · rw [hr _ _ _ ((skipBlanks_suffix start).trans hst) ha.reads]
      show (moreElements item' dangling limit after >>= _) = _
      rw [ho']
      rfl

theorem Elements.run (dangling : Dangling) (hi : Leaves item) (h : Elements item text items rest)
    (hr : ∀ t a r, t <:+ text → item t = .ok (a, r) → item' t = .ok (f a, r)) :
    elements item' dangling text = .ok (items.map f, rest) := by
  cases h with
  | empty hs =>
    rw [elements, hs]
    rfl
  | first ha ho =>
    have hat := ha.suffix hi
    have ho' := ho.run dangling hi (fun t a r ht => hr t a r (ht.trans hat)) (ho.suffix hi).2
    rw [elements]
    split
    · rename_i he
      exact absurd he ha.begins
    · rename_i he
      exact absurd he (ha.opens _)
    · rw [hr _ _ _ (skipBlanks_suffix text) ha.reads]
      show (moreElements item' dangling _ _ >>= _) = _
      rw [ho']
      rfl

theorem Elements.unique {items' : List α} {rest' : List Char} (hi : Leaves item) (h : Elements item text items rest)
    (h' : Elements item text items' rest') : items = items' ∧ rest = rest' := by
  have hr := h.run ⟨.eofList, .eofList, .eofList⟩ hi (f := id) fun _ _ _ _ ht => ht
  rw [h'.run _ hi (f := id) fun _ _ _ _ ht => ht, List.map_id, List.map_id] at hr
  cases hr
  exact ⟨rfl, rfl⟩

end

/-! ## Members -/

section
variable {α κ : Type} {key : Scan κ} {value : Scan α}

inductive Member (key : Scan κ) (value : Scan α) : List Char → κ × α → List Char → Prop where
  | mk {text start afterKey afterColon rest : List Char} {k : κ} {a : α} (hs : skipBlanks text = '"' :: start)
      (hk : key start = .ok (k, afterKey)) (hc : colon afterKey = .ok afterColon)
      (ha : value afterColon = .ok (a, rest)) : Member key value text (k, a) rest

inductive MoreMembers (key : Scan κ) (value : Scan α) : List Char → List (κ × α) → List Char → Prop where
  | closed {text rest : List Char} (hs : skipBlanks text = '\x7d' :: rest) : MoreMembers key value text [] rest
  | comma {text start after rest : List Char} {m : κ × α} {others : List (κ × α)}
      (hs : skipBlanks text = ',' :: start) (hm : Member key value start m after)
      (ho : MoreMembers key value after others rest) : MoreMembers key value text (m :: others) rest

/-- The members behind an opening brace, in the order in which they stand there. -/
inductive Members (key : Scan κ) (value : Scan α) : List Char → List (κ × α) → List Char → Prop where
  | empty {text rest : List Char} (hs : skipBlanks text = '\x7d' :: rest) : Members key value text [] rest
  | first {text after rest : List Char} {m : κ × α} {others : List (κ × α)} (hm : Member key value text m after)
      (ho : MoreMembers key value after others rest) : Members key value text (m :: others) rest

variable {text rest rest' : List Char} {m : κ × α} {ms : List (κ × α)}

theorem Member.quoted (h : Member key value text m rest) : ∃ start, skipBlanks text = '"' :: start := by
  obtain ⟨hs, _, _, _⟩ := h
  exact ⟨_, hs⟩

theorem Member.suffix (hk : Leaves key) (hv : Leaves value) (h : Member key value text m rest) : rest <:+ text := by
  obtain ⟨hs, hk', hc, ha⟩ := h
  exact (hv ha).trans ((colon_suffix hc).trans ((hk hk').trans (suffix_of_skipBlanks hs)))

theorem MoreMembers.suffix (hk : Leaves key) (hv : Leaves value) (h : MoreMembers key value text ms rest) :
    rest <:+ text ∧ ms.length < text.length := by
  induction h with
  | closed hs => exact ⟨suffix_of_skipBlanks hs, Nat.zero_lt_of_lt (length_lt_of_skipBlanks hs)⟩
  | comma hs hm ho ih =>
    have hm := hm.suffix hk hv
    have hl := hm.length_le
    have hs' := length_lt_of_skipBlanks hs
    exact ⟨ih.1.trans (hm.trans (suffix_of_skipBlanks hs)), by simp only [List.length_cons]; omega⟩

theorem Members.suffix (hk : Leaves key) (hv : Leaves value) (h : Members key value text ms rest) : rest <:+ text := by
  cases h with
  | empty hs => exact suffix_of_skipBlanks hs
  | first hm ho => exact (ho.suffix hk hv).1.trans (hm.suffix hk hv)

/-! ### Another loop over the same members -/

/-- A loop with other keys and states makes of a member what `read` makes of it, and fails where that
gives nothing. -/
structure Reads {σ κ' : Type} (key : Scan κ) (value : Scan α) (key' : Scan κ') (member : σ → κ' → Scan σ)
    (name : κ → κ') (read : σ → κ × α → Option σ) (within : List Char) : Prop where
  key : ∀ t k r, t <:+ within → key t = .ok (k, r) → key' t = .ok (name k, r)
  member : ∀ t t' k a r, t <:+ within → colon t = .ok t' → value t' = .ok (a, r) →
    ∀ s s' r', member s (name k) t = .ok (s', r') ↔ r' = r ∧ read s (k, a) = some s'

variable {σ κ' : Type} {key' : Scan κ'} {member : σ → κ' → Scan σ} {name : κ → κ'} {read : σ → κ × α → Option σ}
  {dangling : Dangling} {s s' : σ}

theorem Reads.mono {within within' : List Char} (h : Reads key value key' member name read within)
    (hs : within' <:+ within) : Reads key value key' member name read within' := by
  constructor
  · intro t k r ht
    exact h.key t k r (ht.trans hs)
  · intro t t' k a r ht
    exact h.member t t' k a r (ht.trans hs)

theorem Member.run (hk : Leaves key) (h : Member key value text m rest)
    (hr : Reads key value key' member name read text) {start : List Char} (hs : skipBlanks text = '"' :: start)
    {f : σ × List Char → Except Stop (σ × List Char)} {others : List (κ × α)} {last : List Char}
    (hf : ∀ s₁, f (s₁, rest) = .ok (s', rest') ↔ rest' = last ∧ others.foldlM read s₁ = some s') :
    (key' start >>= fun p => member s p.1 p.2 >>= f) = .ok (s', rest') ↔
      rest' = last ∧ (m :: others).foldlM read s = some s' := by
  obtain ⟨hs', hk', hc, ha⟩ := h
  rename_i afterKey afterColon k a
  cases hs.symm.trans hs'
  have hst := suffix_of_skipBlanks hs
  have hm := hr.member _ _ k a rest ((hk hk').trans hst) hc ha s
  rw [hr.key _ _ _ hst hk']
  show (member s (name k) afterKey >>= f) = _ ↔ _
  rw [List.foldlM_cons]
  constructor
  · intro h
    obtain ⟨⟨s₁, r₁⟩, h₁, h⟩ := bind_ok h
    obtain ⟨rfl, hs₁⟩ := (hm s₁ r₁).1 h₁
    rw [hs₁]
    exact (hf s₁).1 h
  · rintro ⟨hl, h⟩
    obtain ⟨s₁, hs₁, h⟩ := Option.bind_eq_some_iff.1 h
    rw [(hm s₁ rest).2 ⟨rfl, hs₁⟩]
    exact (hf s₁).2 ⟨hl, h⟩

theorem MoreMembers.run (hk : Leaves key) (hv : Leaves value) (h : MoreMembers key value text ms rest)
    (hr : Reads key value key' member name read text) {limit : Nat} (hl : ms.length < limit) :
    moreMembers key' member dangling limit s text = .ok (s', rest') ↔ rest' = rest ∧ ms.foldlM read s = some s' := by
  induction h generalizing limit s with
  | closed hs =>
    obtain ⟨limit, rfl⟩ := Nat.exists_eq_succ_of_ne_zero (Nat.ne_of_gt hl)
    rw [moreMembers, hs]
    simp [eq_comm, and_comm]
  | comma hs hm ho ih =>
    obtain ⟨limit, rfl⟩ := Nat.exists_eq_succ_of_ne_zero (Nat.ne_of_gt (Nat.zero_lt_of_lt hl))
    have hst := suffix_of_skipBlanks hs
    have ho' (s₁ : σ) : moreMembers key' member dangling limit s₁ _ = .ok (s', rest') ↔ _ :=
      ih (hr.mono ((hm.suffix hk hv).trans hst)) (Nat.lt_of_succ_lt_succ hl)
    obtain ⟨start, hb⟩ := hm.quoted
    rw [moreMembers, hs]
    simp only [hb]
    exact hm.run hk (hr.mono hst) hb ho'

theorem Members.run (hk : Leaves key) (hv : Leaves value) (h : Members key value text ms rest)
    (hr : Reads key value key' member name read text) :
    members key' member dangling s text = .ok (s', rest') ↔ rest' = rest ∧ ms.foldlM read s = some s' := by
  cases h with
  | empty hs =>
    rw [members, hs]
    simp [eq_comm, and_comm]
  | first hm ho =>
    have ho' (s₁ : σ) : moreMembers key' member dangling _ s₁ _ = .ok (s', rest') ↔ _ := ho.run hk hv
      (hr.mono (hm.suffix hk hv)) (ho.suffix hk hv).2
    obtain ⟨start, hb⟩ := hm.quoted
    rw [members, hb]
    exact hm.run hk hr hb ho'

/-! ### The members of an object -/

section
variable {collect : List (κ × α) → κ → Scan (List (κ × α))}
  (hc : ∀ read k t read' r, collect read k t = .ok (read', r) →
    ∃ t' a, colon t = .ok t' ∧ value t' = .ok (a, r) ∧ read' = (k, a) :: read)
include hc

theorem moreMembers_ok {limit : Nat} {read read' : List (κ × α)}
    (h : moreMembers key collect dangling limit read text = .ok (read', rest)) :
    ∃ ms, MoreMembers key value text ms rest ∧ read' = ms.reverse ++ read := by
  induction limit generalizing text read with
  | zero => cases h
  | succ limit ih =>
    unfold moreMembers at h
    split at h
    · cases h
    · rename_i hs
      cases h
      exact ⟨[], .closed hs, rfl⟩
    · rename_i start hs
      split at h
      · cases h
      · rename_i hq
        obtain ⟨⟨k, afterKey⟩, hk, h⟩ := bind_ok h
        obtain ⟨⟨read₁, after⟩, h₁, h⟩ := bind_ok h
        obtain ⟨afterColon, a, hcolon, ha, rfl⟩ := hc _ _ _ _ _ h₁
        obtain ⟨ms, ho, rfl⟩ := ih h
        exact ⟨(k, a) :: ms, .comma hs (.mk hq hk hcolon ha) ho, by simp⟩
      · cases h
      · cases h
    · cases h

theorem members_ok {read' : List (κ × α)} (h : members key collect dangling [] text = .ok (read', rest)) :
    Members key value text read'.reverse rest := by
  unfold members at h
  split at h
  · cases h
  · rename_i hs
    cases h
    exact .empty hs
  · rename_i hq
    obtain ⟨⟨k, afterKey⟩, hk, h⟩ := bind_ok h
    obtain ⟨⟨read₁, after⟩, h₁, h⟩ := bind_ok h
    obtain ⟨afterColon, a, hcolon, ha, rfl⟩ := hc _ _ _ _ _ h₁
    obtain ⟨ms, ho, rfl⟩ := moreMembers_ok hc h
    rw [List.reverse_append, List.reverse_reverse]
    exact .first (.mk hq hk hcolon ha) ho
  · cases h

end

end

/-! ## Values -/

namespace Value

section
variable {nested : Scan Value} {text rest : List Char} {ms : List (String × Value)}

theorem scanMembers_ok (h : scanMembers nested text = .ok (ms, rest)) : Members scanKey nested text ms rest := by
  obtain ⟨⟨read, rest'⟩, hr, h⟩ := bind_ok h
  cases h
  refine members_ok ?_ hr
  intro read k t read' r h
  obtain ⟨t', hc, h⟩ := bind_ok h
  obtain ⟨⟨v, r'⟩, hv, h⟩ := bind_ok h
  cases h
  exact ⟨t', v, hc, hv, rfl⟩

theorem scanMembers_iff (hk : Leaves scanKey) (hn : Leaves nested) :
    scanMembers nested text = .ok (ms, rest) ↔ Members scanKey nested text ms rest := by
  constructor
  · exact scanMembers_ok
  · intro h
    have hr : Reads scanKey nested scanKey (fun read k text => do
        let scanned ← nested (← colon text)
        return ((k, scanned.1) :: read, scanned.2)) id (fun read m => some (m :: read)) text := by
      constructor
      · intro t k r _ hk
        exact hk
      · intro t t' k v r _ hc hv s s' r'
        simp [hc, hv, bind, Except.bind, pure, Except.pure, eq_comm, and_comm]
    have hf : ms.foldlM (fun read m => some (m :: read)) [] = some ms.reverse := by
      rw [← List.append_nil ms.reverse, ← List.foldl_flip_cons_eq_append']
      exact List.foldlM_pure
    have hm : members scanKey _ strict [] text = .ok (ms.reverse, rest) := (h.run hk hn hr).2 ⟨rfl, hf⟩
    rw [scanMembers, hm]
    simp [bind, Except.bind, pure, Except.pure]

end

inductive Scanned : (limit : Nat) → List Char → Value → List Char → Prop where
  | array {limit : Nat} {text start rest : List Char} {items : List Value} (hs : skipBlanks text = '[' :: start)
      (hi : Elements (scanWithin limit) start items rest) : Scanned (limit + 1) text (.array items) rest
  | object {limit : Nat} {text start rest : List Char} {ms : List (String × Value)}
      (hs : skipBlanks text = '\x7b' :: start) (hm : Members scanKey (scanWithin limit) start ms rest) :
      Scanned (limit + 1) text (ofMembers ms) rest
  | scalar {limit : Nat} {text rest : List Char} {v : Value} (ha : ∀ start, skipBlanks text ≠ '[' :: start)
      (ho : ∀ start, skipBlanks text ≠ '\x7b' :: start) (hv : scanScalar (skipBlanks text) = .ok (v, rest)) :
      Scanned limit text v rest

theorem scanned {limit : Nat} {text rest : List Char} {v : Value} (h : scanWithin limit text = .ok (v, rest)) :
    Scanned limit text v rest := by
  cases limit with
  | zero =>
    unfold scanWithin at h
    split at h
    · cases h
    · cases h
    · rename_i ha ho
      exact .scalar (fun _ => ha _) (fun _ => ho _) h
  | succ limit =>
    unfold scanWithin at h
    split at h
    · rename_i hs
      obtain ⟨⟨items, rest'⟩, hi, h⟩ := bind_ok h
      cases h
      exact .array hs (elements_ok hi)
    · rename_i hs
      obtain ⟨⟨ms, rest'⟩, hm, h⟩ := bind_ok h
      cases h
      exact .object hs (scanMembers_ok hm)
    · rename_i ha ho
      exact .scalar (fun _ => ha _) (fun _ => ho _) h

end Value

end Telemetry.Json
