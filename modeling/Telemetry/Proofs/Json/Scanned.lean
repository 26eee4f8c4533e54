import Telemetry.Json.Parser

/-!
# What is read is in order

A value that a scan reads is nested within the scan's limit, its objects have each key
once and in order, and its integers are exact (`kept_scanWithin`). If it holds no
double besides, it is one that can be printed and read back (`canonical_of_tidy`).
-/

namespace Telemetry.Json

theorem bind_ok {α β : Type} {result : Except Stop α} {f : α → Except Stop β} {b : β} (h : result >>= f = .ok b) :
    ∃ a, result = .ok a ∧ f a = .ok b := by
  cases result with
  | error stop => cases h
  | ok a => exact ⟨a, rfl, h⟩

theorem map_ok {ε α β : Type} {result : Except ε α} {f : α → β} {b : β} (h : result.map f = .ok b) :
    ∃ a, result = .ok a ∧ f a = b := by
  cases result with
  | error stop => cases h
  | ok a =>
    cases h
    exact ⟨a, rfl, rfl⟩

namespace Value

/-! ## Parts -/

inductive Part (w : Value) : Value → Prop where
  | whole : Part w w
  | item {items : List Value} {v : Value} (hv : v ∈ items) (h : Part w v) : Part w (.array items)
  | member {members : List (String × Value)} {key : String} {v : Value} (hv : (key, v) ∈ members) (h : Part w v) :
      Part w (.object members)

def Integral (v : Value) : Prop := ∀ x, ¬ Part (.number (.real x)) v

/-- A number that is kept exactly, or an object in order. -/
def Tidy : Value → Prop
  | .number (.int n) => exactInt n
  | .object members => members.Pairwise (·.1 < ·.1)
  | _ => True

theorem canonicalItems_iff {items : List Value} : CanonicalItems items ↔ ∀ v ∈ items, v.Canonical := by
  induction items with
  | nil => exact ⟨fun _ _ h => absurd h List.not_mem_nil, fun _ => trivial⟩
  | cons v items ih =>
    show v.Canonical ∧ CanonicalItems items ↔ _
    rw [ih, List.forall_mem_cons]

theorem canonicalMembers_iff {members : List (String × Value)} :
    CanonicalMembers members ↔ ∀ member ∈ members, member.2.Canonical := by
  induction members with
  | nil => exact ⟨fun _ _ h => absurd h List.not_mem_nil, fun _ => trivial⟩
  | cons member members ih =>
    show member.2.Canonical ∧ CanonicalMembers members ↔ _
    rw [ih, List.forall_mem_cons]

theorem canonical_of_tidy {v : Value} (ht : ∀ w, Part w v → w.Tidy) (hi : v.Integral) : v.Canonical := by
  match v with
  | .null => trivial
  | .bool _ => trivial
  | .string _ => trivial
  | .number (.int _) => exact ht _ .whole
  | .number (.real x) => exact absurd .whole (hi x)
  | .array items =>
    refine canonicalItems_iff.2 ?_
    intro w hw
    have := List.sizeOf_lt_of_mem hw
    exact canonical_of_tidy (fun u hu => ht u (.item hw hu)) fun x hx => hi x (.item hw hx)
  | .object members =>
    refine ⟨ht _ .whole, canonicalMembers_iff.2 ?_⟩
    intro (key, w) hw
    have := List.sizeOf_lt_of_mem hw
    exact canonical_of_tidy (fun u hu => ht u (.member hw hu)) fun x hx => hi x (.member hw hx)
termination_by sizeOf v
decreasing_by
  · simp only [array.sizeOf_spec]
    omega
  · simp only [object.sizeOf_spec, Prod.mk.sizeOf_spec] at *
    omega

theorem integral_of_canonical {v : Value} (hc : v.Canonical) : v.Integral := by
  intro x hp
  induction hp with
  | whole => exact hc
  | item hv _ ih => exact ih (canonicalItems_iff.1 hc _ hv)
  | member hv _ ih => exact ih (canonicalMembers_iff.1 hc.2 _ hv)

/-! ## Kept values -/

structure Kept (limit : Nat) (v : Value) : Prop where
  depth : v.depth ≤ limit
  tidy : ∀ w, Part w v → w.Tidy

theorem Kept.scalar {limit : Nat} {v : Value} (hd : v.depth = 0) (ht : v.Tidy) : Kept limit v := by
  constructor
  · rw [hd]
    exact Nat.zero_le limit
  · intro w hw
    cases hw with
    | whole => exact ht
    | item hv h => cases hd
    | member hv h => cases hd

theorem Kept.array {limit : Nat} {items : List Value} (h : ∀ v ∈ items, Kept limit v) :
    Kept (limit + 1) (.array items) := by
  have hd : depthItems items ≤ limit := by
    induction items with
    | nil => exact Nat.zero_le limit
    | cons v items ih =>
      obtain ⟨hv, hs⟩ := List.forall_mem_cons.1 h
      exact Nat.max_le.2 ⟨hv.depth, ih hs⟩
  constructor
  · exact Nat.add_le_add_right hd 1
  · intro w hw
    cases hw with
    | whole => trivial
    | item hv hw => exact (h _ hv).tidy w hw

theorem Kept.object {limit : Nat} {members : List (String × Value)} (ho : members.Pairwise (·.1 < ·.1))
    (h : ∀ member ∈ members, Kept limit member.2) : Kept (limit + 1) (.object members) := by
  have hd : depthMembers members ≤ limit := by
    clear ho
    induction members with
    | nil => exact Nat.zero_le limit
    | cons member members ih =>
      obtain ⟨hv, hs⟩ := List.forall_mem_cons.1 h
      exact Nat.max_le.2 ⟨hv.depth, ih hs⟩
  constructor
  · exact Nat.add_le_add_right hd 1
  · intro w hw
    cases hw with
    | whole => exact ho
    | member hv hw => exact (h _ hv).tidy w hw

/-! ## Objects from their members -/

theorem mem_insert {key : String} {value : Value} {members : List (String × Value)} {member : String × Value}
    (h : member ∈ insert key value members) : member = (key, value) ∨ member ∈ members := by
  induction members with
  | nil => exact .inl (List.mem_singleton.1 h)
  | cons first members ih =>
    obtain ⟨k, v⟩ := first
    rw [insert] at h
    split at h
    · exact List.mem_cons.1 h
    · split at h
      · rcases List.mem_cons.1 h with rfl | h
        · exact .inl rfl
        · exact .inr (List.mem_cons_of_mem _ h)
      · rcases List.mem_cons.1 h with rfl | h
        · exact .inr (List.mem_cons_self ..)
        · rcases ih h with rfl | h
          · exact .inl rfl
          · exact .inr (List.mem_cons_of_mem _ h)

theorem pairwise_insert (key : String) (value : Value) {members : List (String × Value)}
    (h : members.Pairwise (·.1 < ·.1)) : (insert key value members).Pairwise (·.1 < ·.1) := by
  induction members with
  | nil => exact List.pairwise_singleton ..
  | cons first members ih =>
    obtain ⟨k, v⟩ := first
    obtain ⟨hk, hs⟩ := List.pairwise_cons.1 h
    rw [insert]
    by_cases hlt : key < k
    · rw [if_pos hlt]
      refine List.pairwise_cons.2 ⟨?_, h⟩
      intro member hm
      rcases List.mem_cons.1 hm with rfl | hm
      · exact hlt
      · exact String.lt_trans hlt (hk member hm)
    · rw [if_neg hlt]
      by_cases he : key = k
      · rw [if_pos he]
        refine List.pairwise_cons.2 ⟨?_, hs⟩
        rw [he]
        exact hk
      · rw [if_neg he]
        have hgt : k < key := by
          by_cases hn : k < key
          · exact hn
          · exact absurd (String.le_antisymm (String.not_lt.1 hn) (String.not_lt.1 hlt)) he
        refine List.pairwise_cons.2 ⟨?_, ih hs⟩
        intro member hm
        rcases mem_insert hm with rfl | hm
        · exact hgt
        · exact hk member hm

theorem Kept.ofMembers {limit : Nat} {members : List (String × Value)} (h : ∀ member ∈ members, Kept limit member.2) :
    Kept (limit + 1) (ofMembers members) := by
  have hf (members sorted : List (String × Value)) (h : ∀ member ∈ members, Kept limit member.2)
      (ho : sorted.Pairwise (·.1 < ·.1)) (hs : ∀ member ∈ sorted, Kept limit member.2) :
      Kept (limit + 1) (.object (members.foldl (fun sorted member => insert member.1 member.2 sorted) sorted)) := by
    induction members generalizing sorted with
    | nil => exact .object ho hs
    | cons member members ih =>
      obtain ⟨hm, hms⟩ := List.forall_mem_cons.1 h
      refine ih (insert member.1 member.2 sorted) hms (pairwise_insert _ _ ho) ?_
      intro other hi
      rcases mem_insert hi with rfl | hi
      · exact hm
      · exact hs other hi
  exact hf members [] h .nil fun _ hm => absurd hm List.not_mem_nil

end Value

/-! ## Numbers -/

theorem absorb_lt {n : Nat} (ds : List Nat) (h : n < 0x10000000000000000) :
    (Literal.absorb n ds).1 < 0x10000000000000000 := by
  induction ds generalizing n with
  | nil => exact h
  | cons d ds ih =>
    unfold Literal.absorb
    split
    · exact ih (by assumption)
    · exact h

theorem exactInt_integer {negative : Bool} {significand : Nat} (h : significand < 0x10000000000000000) {n : Int}
    (hn : Literal.integer negative significand = .int n) : Value.exactInt n := by
  unfold Literal.integer at hn
  unfold Value.exactInt
  split at hn
  · split at hn <;> cases hn
    omega
  · cases hn
    omega

theorem exactInt_literal {l : Literal} {n : Int} (h : l.number = .ok (.int n)) : Value.exactInt n := by
  have hl := absorb_lt (n := 0) l.whole (by decide)
  unfold Literal.number at h
  split at h
  rename_i significand left ha
  rw [ha] at hl
  split at h
  · exact exactInt_integer hl (Except.ok.inj h)
  · -- a number with a fraction or an exponent, or with too many digits, is a double
    simp only at h
    split at h
    · split at h <;> cases h
    · split at h
      · split at h <;> cases h
      · split at h <;> cases h

theorem exactInt_number {text rest : List Char} {n : Int} (h : number text = .ok (.int n, rest)) :
    Value.exactInt n := by
  obtain ⟨⟨l, rest'⟩, _, h⟩ := bind_ok h
  simp only at h
  split at h <;> cases h
  exact exactInt_literal (by assumption)

/-! ## Elements and members -/

section
variable {α : Type} {item : Scan α} {dangling : Dangling} {P : α → Prop}
  (hi : ∀ text a rest, item text = .ok (a, rest) → P a)
include hi

theorem moreElements_forall {limit : Nat} {text rest : List Char} {items : List α}
    (h : moreElements item dangling limit text = .ok (items, rest)) : ∀ a ∈ items, P a := by
  induction limit generalizing text items with
  | zero => cases h
  | succ limit ih =>
    unfold moreElements at h
    split at h
    · cases h
    · cases h
      exact fun _ hm => absurd hm List.not_mem_nil
    · split at h
      · cases h
      · cases h
      · obtain ⟨⟨a, rest₁⟩, ha, h⟩ := bind_ok h
        obtain ⟨⟨others, rest₂⟩, ho, h⟩ := bind_ok h
        cases h
        exact List.forall_mem_cons.2 ⟨hi _ _ _ ha, ih ho⟩
    · cases h

theorem elements_forall {text rest : List Char} {items : List α}
    (h : elements item dangling text = .ok (items, rest)) : ∀ a ∈ items, P a := by
  unfold elements at h
  split at h
  · cases h
  · cases h
    exact fun _ hm => absurd hm List.not_mem_nil
  · obtain ⟨⟨a, rest₁⟩, ha, h⟩ := bind_ok h
    obtain ⟨⟨others, rest₂⟩, ho, h⟩ := bind_ok h
    cases h
    exact List.forall_mem_cons.2 ⟨hi _ _ _ ha, moreElements_forall hi ho⟩

end

section
variable {σ κ : Type} {key : Scan κ} {member : σ → κ → Scan σ} {dangling : Dangling} {P : σ → Prop}
  (hm : ∀ s k text s' rest, member s k text = .ok (s', rest) → P s → P s')
include hm

theorem moreMembers_keeps {limit : Nat} {s s' : σ} {text rest : List Char}
    (h : moreMembers key member dangling limit s text = .ok (s', rest)) (hs : P s) : P s' := by
  induction limit generalizing s text with
  | zero => cases h
  | succ limit ih =>
    unfold moreMembers at h
    split at h
    · cases h
    · cases h
      exact hs
    · split at h
      · cases h
      · obtain ⟨⟨k, rest₁⟩, _, h⟩ := bind_ok h
        obtain ⟨⟨s₁, rest₂⟩, h₁, h⟩ := bind_ok h
        exact ih h (hm _ _ _ _ _ h₁ hs)
      · cases h
      · cases h
    · cases h

theorem members_keeps {s s' : σ} {text rest : List Char}
    (h : members key member dangling s text = .ok (s', rest)) (hs : P s) : P s' := by
  unfold members at h
  split at h
  · cases h
  · cases h
    exact hs
  · obtain ⟨⟨k, rest₁⟩, _, h⟩ := bind_ok h
    obtain ⟨⟨s₁, rest₂⟩, h₁, h⟩ := bind_ok h
    exact moreMembers_keeps hm h (hm _ _ _ _ _ h₁ hs)
  · cases h

end

/-! ## Values -/

namespace Value

theorem kept_scanScalar {limit : Nat} {text rest : List Char} {v : Value} (h : scanScalar text = .ok (v, rest)) :
    Kept limit v := by
  unfold scanScalar at h
  split at h
  · cases h
  · obtain ⟨_, _, h⟩ := map_ok h
    cases h
    exact .scalar rfl trivial
  · obtain ⟨_, _, h⟩ := map_ok h
    cases h
    exact .scalar rfl trivial
  · obtain ⟨_, _, h⟩ := map_ok h
    cases h
    exact .scalar rfl trivial
  · obtain ⟨_, _, h⟩ := map_ok h
    cases h
    exact .scalar rfl trivial
  · split at h
    · obtain ⟨⟨n, _⟩, hn, h⟩ := map_ok h
      cases h
      cases n with
      | int n => exact .scalar rfl (exactInt_number hn)
      | real x => exact .scalar rfl trivial
    · cases h

theorem kept_scanMembers {limit : Nat} {nested : Scan Value}
    (hn : ∀ text v rest, nested text = .ok (v, rest) → Kept limit v) {text rest : List Char}
    {members : List (String × Value)} (h : scanMembers nested text = .ok (members, rest)) :
    ∀ member ∈ members, Kept limit member.2 := by
  obtain ⟨⟨reversed, rest'⟩, hr, h⟩ := bind_ok h
  cases h
  have hk : ∀ member ∈ reversed, Kept limit member.2 := by
    refine members_keeps (P := fun read => ∀ member ∈ read, Kept limit member.2) ?_ hr ?_
    · intro read key text read' rest h hread
      obtain ⟨text', _, h⟩ := bind_ok h
      obtain ⟨⟨v, rest⟩, hv, h⟩ := bind_ok h
      cases h
      exact List.forall_mem_cons.2 ⟨hn _ _ _ hv, hread⟩
    · exact fun _ hm => absurd hm List.not_mem_nil
  intro member hm
  exact hk member (List.mem_reverse.1 hm)

theorem kept_scanWithin {limit : Nat} {text rest : List Char} {v : Value}
    (h : scanWithin limit text = .ok (v, rest)) : Kept limit v := by
  induction limit generalizing text rest v with
  | zero =>
    unfold scanWithin at h
    split at h
    · cases h
    · cases h
    · exact kept_scanScalar h
  | succ limit ih =>
    have hn (text : List Char) (v : Value) (rest : List Char) (h : scanWithin limit text = .ok (v, rest)) :
        Kept limit v := ih h
    unfold scanWithin at h
    split at h
    · obtain ⟨⟨items, rest'⟩, hi, h⟩ := bind_ok h
      cases h
      exact .array (elements_forall hn hi)
    · obtain ⟨⟨members, rest'⟩, hm, h⟩ := bind_ok h
      cases h
      exact .ofMembers (kept_scanMembers hn hm)
    · exact kept_scanScalar h

theorem kept_decode {text : List Char} {v : Value} (h : Json.decode scan text = .ok v) : Kept depthLimit v := by
  have hw : whole scan text = .ok v := by
    unfold Json.decode at h
    cases hw : whole scan text with
    | error stop =>
      rw [hw] at h
      cases h
    | ok w =>
      rw [hw] at h
      cases h
      rfl
  obtain ⟨⟨w, rest⟩, hs, hw⟩ := bind_ok hw
  simp only at hw
  split at hw <;> cases hw
  exact kept_scanWithin hs

end Value

end Telemetry.Json
