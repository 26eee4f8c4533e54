import Telemetry.Json.Target
import Telemetry.Proofs.Json.Scalars
import Telemetry.Proofs.Json.Sequences

/-!
# Values of a type and values of any kind

A text is read into a type exactly when the value read off it is one of that type, and then
the same text is left (`scanUInt32_iff`, `scanInt32_iff`, `scanString_iff`).
-/

namespace Telemetry.Json

/-! ## Whole texts -/

theorem decode_ok_iff {α : Type} {scan : Scan α} {text : List Char} {a : α} :
    decode scan text = .ok a ↔ ∃ rest, scan text = .ok (a, rest) ∧ skipBlanks rest = [] := by
  unfold decode whole
  constructor
  · intro h
    cases hs : scan text with
    | error stop =>
      rw [hs] at h
      cases h
    | ok read =>
      obtain ⟨b, rest⟩ := read
      rw [hs] at h
      refine ⟨rest, ?_⟩
      simp only [bind, Except.bind] at h
      split at h
      · rename_i hb
        cases h
        exact ⟨rfl, hb⟩
      · cases h
  · rintro ⟨rest, hs, hb⟩
    simp only [hs, bind, Except.bind, hb]
    rfl

/-! ## Scalars -/

section
variable (limit : Nat) {text rest : List Char}

theorem Value.Scanned.scalar_of_depth {limit : Nat} {v : Value} (h : Scanned limit text v rest) (hd : v.depth = 0) :
    (∀ start, skipBlanks text ≠ '[' :: start) ∧ (∀ start, skipBlanks text ≠ '\x7b' :: start) ∧
      scanScalar (skipBlanks text) = .ok (v, rest) := by
  cases h with
  | array => cases hd
  | object => cases hd
  | scalar ha ho hv => exact ⟨ha, ho, hv⟩

theorem scalar_ok {α : Type} {expected : String} {make : Value → Except Cause α} {a : α}
    (h : scalar expected make text = .ok (a, rest)) :
    ∃ v, Value.scanWithin limit text = .ok (v, rest) ∧ make v = .ok a := by
  fun_cases scalar expected make text with
  | case1 hs =>
    simp only [scalar, hs] at h
    cases h
  | case2 start hs | case3 start hs =>
    simp only [scalar, hs] at h
    cases h
  | case4 hn ha ho =>
    rw [Value.scanWithin_scalar limit ha ho]
    simp only [scalar] at h
    obtain ⟨⟨v, rest'⟩, hv, h⟩ := bind_ok h
    simp only at h
    split at h <;> cases h
    exact ⟨v, hv, by assumption⟩

theorem scalar_iff {α : Type} {expected : String} {make : Value → Except Cause α} {a : α} {w : Value}
    (hw : w.depth = 0) (hm : ∀ v, make v = .ok a ↔ v = w) :
    scalar expected make text = .ok (a, rest) ↔ Value.scanWithin limit text = .ok (w, rest) := by
  constructor
  · intro h
    obtain ⟨v, hv, ha⟩ := scalar_ok limit h
    rw [← (hm v).1 ha]
    exact hv
  · intro h
    obtain ⟨ha, ho, hv⟩ := (Value.scanned h).scalar_of_depth hw
    fun_cases scalar expected make text with
    | case1 hs =>
      rw [hs] at hv
      cases hv
    | case2 start hs => exact absurd hs (ha _)
    | case3 start hs => exact absurd hs (ho _)
    | case4 =>
      simp only [hv, bind, Except.bind, (hm w).2 rfl]
      rfl

/-! ### Integers -/

theorem asInt_iff {expected : String} {least greatest n : Int} {v : Value} :
    asInt expected least greatest v = .ok n ↔ v = .number (.int n) ∧ least ≤ n ∧ n ≤ greatest := by
  unfold asInt
  constructor
  · intro h
    split at h
    · split at h <;> cases h
      exact ⟨rfl, by assumption⟩
    · cases h
  · rintro ⟨rfl, hn⟩
    exact if_pos hn

/-- The integers of a type are those from `least` to `greatest`. -/
structure Ranges {α : Type} (least greatest : Int) (ofInt : Int → α) (toInt : α → Int) : Prop where
  toInt_ofInt : ∀ n, least ≤ n → n ≤ greatest → toInt (ofInt n) = n
  ofInt_toInt : ∀ a, ofInt (toInt a) = a
  bounds : ∀ a, least ≤ toInt a ∧ toInt a ≤ greatest

theorem Ranges.scalar_iff {α : Type} {least greatest : Int} {ofInt : Int → α} {toInt : α → Int}
    (h : Ranges least greatest ofInt toInt) {expected : String} {a : α} :
    scalar expected (fun v => (asInt expected least greatest v).map ofInt) text = .ok (a, rest) ↔
      Value.scanWithin limit text = .ok (.number (.int (toInt a)), rest) := by
  apply Json.scalar_iff limit rfl
  intro v
  constructor
  · intro hv
    obtain ⟨n, hn, rfl⟩ := map_ok hv
    obtain ⟨rfl, hl, hg⟩ := asInt_iff.1 hn
    rw [h.toInt_ofInt n hl hg]
  · intro hv
    rw [asInt_iff.2 ⟨hv, h.bounds a⟩]
    exact congrArg Except.ok (h.ofInt_toInt a)

def inRange? {α : Type} (least greatest : Int) (ofInt : Int → α) : Value → Option α
  | .number (.int n) => if least ≤ n ∧ n ≤ greatest then some (ofInt n) else none
  | _ => none

theorem Ranges.inRange?_iff {α : Type} {least greatest : Int} {ofInt : Int → α} {toInt : α → Int}
    (h : Ranges least greatest ofInt toInt) {v : Value} {a : α} :
    inRange? least greatest ofInt v = some a ↔ v = .number (.int (toInt a)) := by
  unfold inRange?
  constructor
  · intro hv
    split at hv
    · rename_i n
      split at hv <;> cases hv
      rw [h.toInt_ofInt n (by omega) (by omega)]
    · cases hv
  · rintro rfl
    simp only [if_pos (h.bounds a), h.ofInt_toInt]

theorem Ranges.scalar_of_scanned {α : Type} {least greatest : Int} {ofInt : Int → α} {toInt : α → Int}
    (h : Ranges least greatest ofInt toInt) {expected : String} {limit : Nat} {v : Value}
    (hv : Value.scanWithin limit text = .ok (v, rest)) {a : α} {rest' : List Char} :
    scalar expected (fun v => (asInt expected least greatest v).map ofInt) text = .ok (a, rest') ↔
      rest' = rest ∧ inRange? least greatest ofInt v = some a := by
  rw [h.scalar_iff limit, hv, h.inRange?_iff]
  simp [eq_comm, and_comm]

theorem ranges_uint32 : Ranges 0 0xFFFFFFFF (fun n => UInt32.ofNat n.toNat) (fun n => n.toNat) := by
  constructor
  · intro n hl hg
    rw [UInt32.toNat_ofNat_of_lt' (by show n.toNat < 4294967296; omega)]
    exact Int.toNat_of_nonneg hl
  · intro n
    exact UInt32.ofNat_toNat
  · intro n
    have := n.toNat_lt
    omega

theorem ranges_int32 : Ranges (-0x80000000) 0x7FFFFFFF Int32.ofInt Int32.toInt := by
  constructor
  · intro n hl hg
    exact Int32.toInt_ofInt_of_le (by omega) (by omega)
  · exact Int32.ofInt_toInt
  · intro n
    have := n.le_toInt
    have := n.toInt_lt
    omega

theorem scanUInt32_iff {n : UInt32} :
    scanUInt32 text = .ok (n, rest) ↔ Value.scanWithin limit text = .ok (.number (.int n.toNat), rest) :=
  ranges_uint32.scalar_iff limit

theorem scanInt32_iff {n : Int32} :
    scanInt32 text = .ok (n, rest) ↔ Value.scanWithin limit text = .ok (.number (.int n.toInt), rest) :=
  ranges_int32.scalar_iff limit

/-! ### Strings -/

theorem scanString_iff {s : String} :
    scanString text = .ok (s, rest) ↔ Value.scanWithin limit text = .ok (.string s, rest) := by
  apply scalar_iff limit rfl
  intro v
  constructor
  · intro h
    split at h <;> cases h
    rfl
  · rintro rfl
    rfl

end

/-! ## Members by their keys -/

namespace Value

theorem member?_cons (k : String) (w : Value) (ms : List (String × Value)) (key : String) :
    member? ((k, w) :: ms) key = if key = k then some w else member? ms key := by
  unfold member?
  rw [List.lookup_cons]
  by_cases h : key = k
  · simp [h]
  · simp [h, beq_false_of_ne h]

theorem member?_insert (k : String) (w : Value) (sorted : List (String × Value)) (key : String) :
    member? (insert k w sorted) key = if key = k then some w else member? sorted key := by
  fun_induction insert k w sorted with
  | case1 => exact member?_cons k w [] key
  | case2 k' w' others hlt => exact member?_cons k w _ key
  | case3 w' others hlt =>
    rw [member?_cons, member?_cons]
    by_cases h : key = k <;> simp [h]
  | case4 k' w' others hlt hne ih =>
    rw [member?_cons, member?_cons, ih]
    by_cases h : key = k'
    · rw [if_pos h, if_pos h, if_neg (h ▸ Ne.symm hne)]
    · rw [if_neg h, if_neg h]

theorem member?_gathered {key : String} {v : Value} {sorted ms : List (String × Value)}
    (hc : (ms.map Prod.fst).count key ≤ 1) :
    member? (ms.foldl (fun sorted (k, v) => insert k v sorted) sorted) key = some v ↔
      (key, v) ∈ ms ∨ key ∉ ms.map Prod.fst ∧ member? sorted key = some v := by
  induction ms generalizing sorted with
  | nil => simp
  | cons m ms ih =>
    obtain ⟨k, w⟩ := m
    rw [List.map_cons, List.count_cons] at hc
    rw [List.foldl_cons, ih (by omega), member?_insert]
    by_cases h : key = k
    · subst h
      have hn : key ∉ ms.map Prod.fst := by
        rw [← List.count_eq_zero]
        simp at hc
        omega
      have hv : (key, v) ∉ ms := fun hv => hn (List.mem_map_of_mem hv)
      simp [hv, hn, eq_comm]
    · simp [h]

theorem member?_of_ofMembers {key : String} {v : Value} {ms members : List (String × Value)}
    (h : ofMembers ms = .object members) (hc : (ms.map Prod.fst).count key ≤ 1) :
    member? members key = some v ↔ (key, v) ∈ ms := by
  cases h
  rw [member?_gathered hc]
  simp [member?]

end Value

end Telemetry.Json
