import Telemetry.Proofs.Json.Scalars

/-!
# Printed values read back

Within its limit a scan reads every printed value back, and a value that is nested
more deeply stops it for that reason (`readsBack`). The induction is on the limit:
behind each bracket there is a scan within one less.
-/

namespace Telemetry.Json

/-! ## Outcomes -/

/-- The result is `a` if that fits within the limit, and too deep otherwise. -/
structure Yields {α : Type} (result : Except Stop α) (a : α) (fits : Prop) : Prop where
  whole : fits → result = .ok a
  deep : ¬ fits → ∃ stop, result = .error stop ∧ stop.cause = .tooDeep

namespace Yields

section
variable {α β : Type} {result : Except Stop α} {a : α} {p q : Prop}

theorem ok (a : α) (hp : p) : Yields (.ok a) a p := by
  constructor
  · intro _
    rfl
  · intro h
    exact absurd hp h

theorem congr (h : Yields result a p) (hpq : p ↔ q) : Yields result a q := by
  constructor
  · intro hq
    exact h.whole (hpq.2 hq)
  · intro hq
    apply h.deep
    intro hp
    exact hq (hpq.1 hp)

theorem bind {f : α → Except Stop β} {b : β} (h : Yields result a p) (h' : Yields (f a) b q) :
    Yields (result >>= f) b (p ∧ q) := by
  constructor
  · rintro ⟨hp, hq⟩
    rw [h.whole hp]
    exact h'.whole hq
  · intro hn
    by_cases hp : p
    · rw [h.whole hp]
      apply h'.deep
      intro hq
      exact hn ⟨hp, hq⟩
    · obtain ⟨stop, he, hc⟩ := h.deep hp
      rw [he]
      exact ⟨stop, rfl, hc⟩

theorem map {f : α → Except Stop β} {b : β} (h : Yields result a p) (hf : f a = .ok b) :
    Yields (result >>= f) b p := by
  have hb : Yields (f a) b True := by
    rw [hf]
    exact ok b trivial
  exact (h.bind hb).congr (and_iff_left trivial)

end

end Yields

namespace Value

/-- Within this limit printed values are read back, or refused for their depth. -/
def ReadsBack (limit : Nat) : Prop :=
  ∀ ⦃v : Value⦄, v.Canonical → ∀ ⦃rest : List Char⦄, Ends rest →
    Yields (scanWithin limit (v.print ++ rest)) (v, rest) (v.depth ≤ limit)

/-! ## Arrays -/

theorem print_eq_cons {v : Value} (hc : v.Canonical) :
    ∃ c text, v.print = c :: text ∧ isBlank c = false ∧ c ≠ ']' := by
  by_cases hd : v.depth = 0
  · obtain ⟨c, text, ht, hp⟩ := (scalar_print hc hd).1
    exact ⟨c, text, ht, hp.notBlank, hp.notClosing⟩
  · cases v with
    | array items => cases items <;> exact ⟨'[', _, rfl, rfl, by decide⟩
    | object members => cases members <;> exact ⟨'\x7b', _, rfl, rfl, by decide⟩
    | _ => exact absurd rfl hd

theorem ends_printItems (items : List Value) (rest : List Char) : Ends (printItems items ++ rest) := by
  cases items with
  | nil => exact .inr (.inl rfl)
  | cons v items => exact .inl rfl

theorem length_printItems (items : List Value) : items.length < (printItems items).length := by
  induction items with
  | nil => exact Nat.one_pos
  | cons v items ih =>
    unfold printItems
    simp only [List.length_cons, List.length_append]
    omega

theorem moreElements_comma {α : Type} (item : Scan α) (dangling : Dangling) (fuel : Nat) {c : Char}
    (hb : isBlank c = false) (hc : c ≠ ']') (text : List Char) :
    moreElements item dangling (fuel + 1) (',' :: c :: text) = (do
      let (a, rest) ← item (c :: text)
      let (others, rest) ← moreElements item dangling fuel rest
      return (a :: others, rest)) := by
  rw [moreElements, skipBlanks_of_not rfl]
  simp only [skipBlanks_of_not hb]
  split
  · rename_i h
    cases h
  · rename_i h
    exact absurd (List.cons.inj h).1 hc
  · rfl

theorem elements_of_ne {α : Type} (item : Scan α) (dangling : Dangling) {c : Char}
    (hb : isBlank c = false) (hc : c ≠ ']') (text : List Char) :
    elements item dangling (c :: text) = (do
      let (a, rest) ← item (c :: text)
      let (others, rest) ← moreElements item dangling rest.length rest
      return (a :: others, rest)) := by
  unfold elements
  rw [skipBlanks_of_not hb]
  split
  · rename_i h
    cases h
  · rename_i h
    exact absurd (List.cons.inj h).1 hc
  · rfl

section
variable {limit : Nat} (ih : ReadsBack limit)
include ih

theorem yields_printItems {items : List Value} (hc : CanonicalItems items) {fuel : Nat} (hf : items.length < fuel)
    (rest : List Char) :
    Yields (moreElements (scanWithin limit) strict fuel (printItems items ++ rest)) (items, rest)
      (depthItems items ≤ limit) := by
  induction items generalizing fuel with
  | nil =>
    obtain ⟨fuel, rfl⟩ := Nat.exists_eq_succ_of_ne_zero (Nat.ne_of_gt hf)
    exact .ok _ (Nat.zero_le limit)
  | cons v items ihs =>
    obtain ⟨fuel, rfl⟩ := Nat.exists_eq_succ_of_ne_zero (Nat.ne_of_gt (Nat.zero_lt_of_lt hf))
    obtain ⟨hv, hs⟩ := hc
    have hfirst := ih hv (ends_printItems items rest)
    have hothers := ihs hs (Nat.lt_of_succ_lt_succ hf)
    obtain ⟨c, text, ht, hb, hn⟩ := print_eq_cons hv
    show Yields (moreElements _ _ _ (',' :: (v.print ++ printItems items) ++ rest)) _ _
    rw [List.cons_append, List.append_assoc]
    rw [ht, List.cons_append] at hfirst ⊢
    rw [moreElements_comma _ _ _ hb hn]
    refine (hfirst.bind ?_).congr Nat.max_le.symm
    apply hothers.map
    rfl

theorem yields_array {items : List Value} (hc : CanonicalItems items) (rest : List Char) :
    Yields (elements (scanWithin limit) strict ((print (.array items)).tail ++ rest)) (items, rest)
      (depthItems items ≤ limit) := by
  cases items with
  | nil => exact .ok _ (Nat.zero_le limit)
  | cons v items =>
    obtain ⟨hv, hs⟩ := hc
    have hfirst := ih hv (ends_printItems items rest)
    have hf : items.length < (printItems items ++ rest).length := by
      rw [List.length_append]
      exact Nat.lt_add_right _ (length_printItems items)
    have hothers := yields_printItems ih hs hf rest
    obtain ⟨c, text, ht, hb, hn⟩ := print_eq_cons hv
    show Yields (elements _ _ (v.print ++ printItems items ++ rest)) _ _
    rw [List.append_assoc]
    rw [ht, List.cons_append] at hfirst ⊢
    rw [elements_of_ne _ _ hb hn]
    refine (hfirst.bind ?_).congr Nat.max_le.symm
    apply hothers.map
    rfl

end

/-! ## Objects -/

theorem scanKey_print (k : String) (rest : List Char) :
    scanKey (k.toList.flatMap escape ++ '"' :: rest) = .ok (k, rest) := by
  unfold scanKey
  rw [string_flatMap_escape]
  show Except.ok (String.ofList k.toList, rest) = _
  rw [String.ofList_toList]

theorem printMember_append (k : String) (v : Value) (more : List Char) :
    printString k ++ ':' :: v.print ++ more = '"' :: (k.toList.flatMap escape ++ '"' :: ':' :: (v.print ++ more)) := by
  simp [printString]

theorem ends_printMembers (members : List (String × Value)) (rest : List Char) :
    Ends (printMembers members ++ rest) := by
  rcases members with _ | ⟨⟨k, v⟩, members⟩
  · exact .inr (.inr rfl)
  · exact .inl rfl

theorem length_printMembers (members : List (String × Value)) :
    members.length < (printMembers members).length := by
  induction members with
  | nil => exact Nat.one_pos
  | cons member members ih =>
    unfold printMembers
    simp only [List.length_cons, List.length_append]
    omega

section
variable {limit : Nat} {member : List (String × Value) → String → Scan (List (String × Value))}
  (hm : ∀ (read : List (String × Value)) (k : String) {v : Value}, v.Canonical → ∀ {rest : List Char}, Ends rest →
    Yields (member read k (':' :: (v.print ++ rest))) ((k, v) :: read, rest) (v.depth ≤ limit))
include hm

theorem yields_printMembers {members : List (String × Value)} (hc : CanonicalMembers members) {fuel : Nat}
    (hf : members.length < fuel) (read : List (String × Value)) (rest : List Char) :
    Yields (moreMembers scanKey member strict fuel read (printMembers members ++ rest))
      (members.reverse ++ read, rest) (depthMembers members ≤ limit) := by
  induction members generalizing fuel read with
  | nil =>
    obtain ⟨fuel, rfl⟩ := Nat.exists_eq_succ_of_ne_zero (Nat.ne_of_gt hf)
    exact .ok _ (Nat.zero_le limit)
  | cons entry members ihs =>
    obtain ⟨fuel, rfl⟩ := Nat.exists_eq_succ_of_ne_zero (Nat.ne_of_gt (Nat.zero_lt_of_lt hf))
    obtain ⟨k, v⟩ := entry
    obtain ⟨hv, hs⟩ := hc
    have hfirst := hm read k hv (ends_printMembers members rest)
    have hothers := ihs hs (Nat.lt_of_succ_lt_succ hf) ((k, v) :: read)
    rw [List.reverse_cons, List.append_assoc]
    show Yields (moreMembers _ _ _ _ _ (',' :: (printString k ++ ':' :: v.print ++ printMembers members) ++ rest)) _ _
    rw [List.cons_append, List.append_assoc, printMember_append]
    show Yields (scanKey _ >>= _) _ _
    rw [scanKey_print]
    exact (hfirst.bind hothers).congr Nat.max_le.symm

theorem yields_members {members : List (String × Value)} (hc : CanonicalMembers members) (rest : List Char) :
    Yields (Json.members scanKey member strict [] ((print (.object members)).tail ++ rest)) (members.reverse, rest)
      (depthMembers members ≤ limit) := by
  rcases members with _ | ⟨⟨k, v⟩, members⟩
  · exact .ok _ (Nat.zero_le limit)
  · obtain ⟨hv, hs⟩ := hc
    have hfirst := hm [] k hv (ends_printMembers members rest)
    have hf : members.length < (printMembers members ++ rest).length := by
      rw [List.length_append]
      exact Nat.lt_add_right _ (length_printMembers members)
    have hothers := yields_printMembers hm hs hf [(k, v)] rest
    rw [List.reverse_cons]
    show Yields (Json.members _ _ _ _ ((printString k ++ ':' :: v.print ++ printMembers members) ++ rest)) _ _
    rw [List.append_assoc, printMember_append]
    show Yields (scanKey _ >>= _) _ _
    rw [scanKey_print]
    exact (hfirst.bind hothers).congr Nat.max_le.symm

end

theorem yields_object {limit : Nat} (ih : ReadsBack limit) {members : List (String × Value)}
    (hc : CanonicalMembers members) (rest : List Char) :
    Yields (scanMembers (scanWithin limit) ((print (.object members)).tail ++ rest)) (members, rest)
      (depthMembers members ≤ limit) := by
  unfold scanMembers
  refine (yields_members ?_ hc rest).map ?_
  · intro read k v hv rest hr
    apply (ih hv hr).map
    rfl
  · show Except.ok (members.reverse.reverse, rest) = _
    rw [List.reverse_reverse]

theorem insert_of_forall_lt {k : String} (v : Value) {members : List (String × Value)}
    (h : ∀ member ∈ members, member.1 < k) : insert k v members = members ++ [(k, v)] := by
  induction members with
  | nil => rfl
  | cons member members ih =>
    obtain ⟨hk, hs⟩ := List.forall_mem_cons.1 h
    unfold insert
    rw [if_neg (String.lt_asymm hk), if_neg (String.ne_of_lt hk).symm, ih hs]
    rfl

theorem ofMembers_of_pairwise {members : List (String × Value)} (h : members.Pairwise (·.1 < ·.1)) :
    ofMembers members = .object members := by
  have hf (sorted members : List (String × Value)) (h : (sorted ++ members).Pairwise (·.1 < ·.1)) :
      members.foldl (fun sorted member => insert member.1 member.2 sorted) sorted = sorted ++ members := by
    induction members generalizing sorted with
    | nil => rw [List.append_nil]; rfl
    | cons member members ih =>
      have hlt : ∀ m ∈ sorted, m.1 < member.1 := by
        intro m hm
        exact (List.pairwise_append.1 h).2.2 m hm member (List.mem_cons_self ..)
      rw [List.foldl_cons, insert_of_forall_lt member.2 hlt, ih _ (by rwa [List.append_assoc]), List.append_assoc]
      rfl
  exact congrArg Value.object (hf [] members h)

/-! ## All values -/

theorem yields_scalar (limit : Nat) {v : Value} (hc : v.Canonical) (hd : v.depth = 0) {rest : List Char}
    (hr : Ends rest) : Yields (scanWithin limit (v.print ++ rest)) (v, rest) (v.depth ≤ limit) := by
  obtain ⟨⟨c, text, ht, hp⟩, hs⟩ := scalar_print hc hd
  have hs := hs rest hr
  rw [ht, List.cons_append] at hs ⊢
  rw [scanWithin_plain hp, hs, hd]
  exact .ok _ (Nat.zero_le limit)

theorem print_array (items : List Value) : print (.array items) = '[' :: (print (.array items)).tail := by
  cases items <;> rfl

theorem print_object (members : List (String × Value)) :
    print (.object members) = '\x7b' :: (print (.object members)).tail := by
  cases members <;> rfl

/-- **Printed values read back.** Within the limit a value is read back whole, and one
that is nested more deeply is refused for that. -/
theorem readsBack (limit : Nat) : ReadsBack limit := by
  induction limit with
  | zero =>
    intro v hc rest hr
    -- the bracket itself is refused, whatever is inside it
    cases v with
    | array items =>
      rw [print_array]
      constructor
      · intro h
        exact absurd h (Nat.not_succ_le_zero _)
      · intro _
        exact ⟨_, rfl, rfl⟩
    | object members =>
      rw [print_object]
      constructor
      · intro h
        exact absurd h (Nat.not_succ_le_zero _)
      · intro _
        exact ⟨_, rfl, rfl⟩
    | _ => exact yields_scalar 0 hc rfl hr
  | succ limit ih =>
    intro v hc rest hr
    cases v with
    | array items =>
      have hi := yields_array ih hc rest
      rw [print_array]
      show Yields (elements (scanWithin limit) strict _ >>= _) _ _
      refine (hi.map ?_).congr Nat.add_le_add_iff_right.symm
      rfl
    | object members =>
      have hi := yields_object ih hc.2 rest
      rw [print_object]
      show Yields (scanMembers (scanWithin limit) _ >>= _) _ _
      refine (hi.map ?_).congr Nat.add_le_add_iff_right.symm
      show Except.ok (ofMembers members, rest) = _
      rw [ofMembers_of_pairwise hc.1]
    | _ => exact yields_scalar (limit + 1) hc rfl hr

theorem decode_print {v : Value} (hc : v.Canonical) :
    (v.depth ≤ depthLimit → Json.decode scan v.print = .ok v) ∧
      (depthLimit < v.depth → ∃ error, Json.decode scan v.print = .error error ∧ error.cause = .tooDeep) := by
  have hs : Yields (scan v.print) (v, []) (v.depth ≤ depthLimit) := by
    have := @readsBack depthLimit v hc [] trivial
    rwa [List.append_nil] at this
  have hw : Yields (whole scan v.print) v (v.depth ≤ depthLimit) := by
    apply hs.map
    rfl
  unfold Json.decode
  constructor
  · intro hd
    rw [hw.whole hd]
    rfl
  · intro hd
    obtain ⟨stop, he, hc⟩ := hw.deep (Nat.not_le_of_lt hd)
    rw [he]
    exact ⟨stop.error v.print, rfl, hc⟩

end Value

end Telemetry.Json
