import Mathlib
import Telemetry.Clock
import Telemetry.Message
import Telemetry.Proofs.Json.Skipping
import Telemetry.Proofs.Json.Typed

/-!
# Typed and untyped messages

A clock solution is read by paths of its own: the elements of an array one by one, the members of
an object into slots, whatever else stands there skipped.
-/

namespace Telemetry

open Json

variable {limit : Nat} {text rest rest' : List Char} {clock : Clock}

namespace Clock

def towValue (clock : Clock) : Value := .number (.int clock.tow.toNat)

def biasValue (clock : Clock) : Value := .number (.int clock.bias.toInt)

/-! ## From an array -/

theorem closeArray_iff : closeArray text = .ok rest ↔ skipBlanks text = ']' :: rest := by
  unfold closeArray
  constructor
  · intro h
    split at h
    · cases h
    · rename_i hs
      cases h
      exact hs
    · split at h <;> cases h
    · cases h
  · intro h
    simp only [h]

theorem ofArray_iff (limit : Nat) :
    ofArray text = .ok (clock, rest) ↔
      Elements (Value.scanWithin limit) text [clock.towValue, clock.biasValue] rest := by
  constructor
  · intro h
    unfold ofArray at h
    split at h
    · cases h
    · cases h
    · rename_i hn hc
      obtain ⟨⟨tow, afterTow⟩, ht, h⟩ := bind_ok h
      simp only at h
      split at h
      · cases h
      · cases h
      · rename_i start hs
        split at h
        · cases h
        · cases h
        · rename_i hn' hc'
          obtain ⟨⟨bias, afterBias⟩, hb, h⟩ := bind_ok h
          obtain ⟨_, hcl, h⟩ := bind_ok h
          cases h
          have hlast : MoreElements (Value.scanWithin limit) afterBias [] rest := .closed (closeArray_iff.1 hcl)
          exact .first ⟨hn, hc, (scanUInt32_iff limit).1 ht⟩ (.comma hs ⟨hn', hc', (scanInt32_iff limit).1 hb⟩ hlast)
      · cases h
  · intro h
    cases h with
    | first ht ho =>
      cases ho with
      | comma hs hb ho =>
        cases ho with
        | closed hcl =>
          unfold ofArray
          split
          · rename_i he
            exact absurd he ht.begins
          · rename_i he
            exact absurd he (ht.opens _)
          · simp only [(scanUInt32_iff limit).2 ht.reads, hs, bind, Except.bind]
            split
            · rename_i he
              exact absurd he hb.begins
            · rename_i he
              exact absurd he (hb.opens _)
            · simp only [(scanInt32_iff limit).2 hb.reads, closeArray_iff.2 hcl]
              rfl

/-! ## From an object -/

def fill {α : Type} (name : String) (make : Value → Option α) (slot : Option α) (m : String × Value) :
    Option (Option α) :=
  if m.1 = name then
    if slot.isSome then none else (make m.2).map some
  else some slot

section
variable {α : Type} {name : String} {make : Value → Option α} {ms : List (String × Value)}

theorem foldlM_fill_some {a : α} {slot : Option α} :
    ms.foldlM (fill name make) (some a) = some slot ↔ slot = some a ∧ name ∉ ms.map Prod.fst := by
  induction ms with
  | nil => simp [eq_comm]
  | cons m ms ih =>
    rw [List.foldlM_cons, fill]
    by_cases h : m.1 = name
    · simp [h]
    · simp [h, ih, Ne.symm h]

theorem foldlM_fill_none {a : α} :
    ms.foldlM (fill name make) none = some (some a) ↔
      (ms.map Prod.fst).count name ≤ 1 ∧ ∃ v, (name, v) ∈ ms ∧ make v = some a := by
  induction ms with
  | nil => simp
  | cons m ms ih =>
    obtain ⟨k, w⟩ := m
    rw [List.foldlM_cons, fill]
    by_cases h : k = name
    · subst h
      rw [List.map_cons, List.count_cons_self]
      by_cases hk : k ∈ ms.map Prod.fst
      · have hc : 0 < (ms.map Prod.fst).count k := List.count_pos_iff.2 hk
        cases hw : make w with
        | none => simp [hw]; omega
        | some b => simp [hw, foldlM_fill_some, hk]; omega
      · have hm (v : Value) : (k, v) ∉ ms := fun hv => hk (List.mem_map_of_mem hv)
        cases hw : make w with
        | none => simp [hw, hm, List.count_eq_zero.2 hk]
        | some b => simp [hw, hm, foldlM_fill_some, hk, List.count_eq_zero.2 hk, @eq_comm _ a b]
    · simp [h, ih, Ne.symm h]

end

def fillTow : Option UInt32 → String × Value → Option (Option UInt32) :=
  fill "i_tow" (inRange? 0 0xFFFFFFFF fun n => UInt32.ofNat n.toNat)

def fillBias : Option Int32 → String × Value → Option (Option Int32) :=
  fill "bias" (inRange? (-0x80000000) 0x7FFFFFFF Int32.ofInt)

def read (fields : Fields) (m : String × Value) : Option Fields := do
  let tow ← fillTow fields.tow m
  let bias ← fillBias fields.bias m
  return ⟨tow, bias⟩

theorem foldlM_read {fields fields' : Fields} {ms : List (String × Value)} :
    ms.foldlM read fields = some fields' ↔
      ms.foldlM fillTow fields.tow = some fields'.tow ∧ ms.foldlM fillBias fields.bias = some fields'.bias := by
  induction ms generalizing fields with
  | nil =>
    obtain ⟨tow, bias⟩ := fields
    obtain ⟨tow', bias'⟩ := fields'
    simp
  | cons m ms ih =>
    simp only [List.foldlM_cons, Option.bind_eq_bind, Option.bind_eq_some_iff, ih, read]
    constructor
    · rintro ⟨fields₁, ⟨tow, ht, bias, hb, h⟩, htow, hbias⟩
      cases h
      exact ⟨⟨tow, ht, htow⟩, ⟨bias, hb, hbias⟩⟩
    · rintro ⟨⟨tow, ht, htow⟩, ⟨bias, hb, hbias⟩⟩
      exact ⟨⟨tow, bias⟩, ⟨tow, ht, bias, hb, rfl⟩, htow, hbias⟩

theorem bind_scan_iff {α σ : Type} {result : Except Stop (α × List Char)} {slot : Option α}
    (h : ∀ a r, result = .ok (a, r) ↔ r = rest ∧ slot = some a) (f : α → σ) {s : σ} :
    (result >>= fun read => pure (f read.1, read.2)) = .ok (s, rest') ↔ rest' = rest ∧ slot.map f = some s := by
  cases slot with
  | none =>
    cases result with
    | error stop => simp [bind, Except.bind]
    | ok read => cases ((h read.1 read.2).1 rfl).2
  | some a =>
    rw [(h a rest).2 ⟨rfl, rfl⟩]
    simp [bind, Except.bind, pure, Except.pure, eq_comm, and_comm]

section
variable {t t' r r' : List Char} {k : String} {v : Value} {s s' : Fields} (hc : colon t = .ok t')
  (hv : Value.scanWithin limit t' = .ok (v, r))
include hc hv

theorem field_tow : field s "i_tow" t = .ok (s', r') ↔ r' = r ∧ read s ("i_tow", v) = some s' := by
  unfold field
  rw [if_pos rfl]
  by_cases hs : s.tow.isSome
  · simp [hs, read, fillTow, fill]
  · rw [if_neg hs, hc]
    refine (bind_scan_iff (fun _ _ => ranges_uint32.scalar_of_scanned hv) fun n => { s with tow := some n }).trans ?_
    cases hn : inRange? 0 0xFFFFFFFF (fun n => UInt32.ofNat n.toNat) v <;>
      simp [hs, read, fillTow, fillBias, fill, hn]

theorem field_bias : field s "bias" t = .ok (s', r') ↔ r' = r ∧ read s ("bias", v) = some s' := by
  unfold field
  rw [if_neg (by decide), if_pos rfl]
  by_cases hs : s.bias.isSome
  · simp [hs, read, fillTow, fillBias, fill]
  · rw [if_neg hs, hc]
    refine (bind_scan_iff (fun _ _ => ranges_int32.scalar_of_scanned hv) fun n => { s with bias := some n }).trans ?_
    cases hn : inRange? (-0x80000000) 0x7FFFFFFF Int32.ofInt v <;>
      simp [hs, read, fillTow, fillBias, fill, hn]

theorem field_other (ht : k ≠ "i_tow") (hb : k ≠ "bias") :
    field s k t = .ok (s', r') ↔ r' = r ∧ read s (k, v) = some s' := by
  have hs : read s (k, v) = some s := by simp [read, fillTow, fillBias, fill, ht, hb]
  unfold field
  rw [if_neg ht, if_neg hb, hc, hs]
  show (skip t' >>= _) = _ ↔ _
  rw [skip_ok hv]
  simp [bind, Except.bind, pure, Except.pure, eq_comm, and_comm]

end

theorem reads_field (limit : Nat) (within : List Char) :
    Reads Value.scanKey (Value.scanWithin limit) Value.scanKey field id read within := by
  constructor
  · intro t k r _ hk
    exact hk
  · intro t t' k v r _ hc hv s s' r'
    by_cases ht : k = "i_tow"
    · rw [ht]
      exact field_tow hc hv
    · by_cases hb : k = "bias"
      · rw [hb]
        exact field_bias hc hv
      · exact field_other hc hv ht hb

theorem ofObject_iff {ms : List (String × Value)}
    (h : Members Value.scanKey (Value.scanWithin limit) text ms rest') :
    ofObject text = .ok (clock, rest) ↔ rest = rest' ∧
      ((ms.map Prod.fst).count "i_tow" ≤ 1 ∧ ("i_tow", clock.towValue) ∈ ms) ∧
      ((ms.map Prod.fst).count "bias" ≤ 1 ∧ ("bias", clock.biasValue) ∈ ms) := by
  have htow : ms.foldlM fillTow none = some (some clock.tow) ↔
      (ms.map Prod.fst).count "i_tow" ≤ 1 ∧ ("i_tow", clock.towValue) ∈ ms := by
    simp [fillTow, foldlM_fill_none, ranges_uint32.inRange?_iff, towValue]
  have hbias : ms.foldlM fillBias none = some (some clock.bias) ↔
      (ms.map Prod.fst).count "bias" ≤ 1 ∧ ("bias", clock.biasValue) ∈ ms := by
    simp [fillBias, foldlM_fill_none, ranges_int32.inRange?_iff, biasValue]
  rw [← htow, ← hbias]
  have hread : ms.foldlM read {} = some ⟨some clock.tow, some clock.bias⟩ ↔ _ := foldlM_read
  -- the same members, read into a clock and not into an object
  have hrun : members Value.scanKey field strict {} text = .ok (⟨some clock.tow, some clock.bias⟩, rest) ↔ _ :=
    h.run leaves_scanKey (leaves_scanWithin limit) (reads_field limit text)
  rw [← hread, ← hrun]
  unfold ofObject
  constructor
  · intro h
    obtain ⟨⟨fields, r⟩, hm, h⟩ := bind_ok h
    simp only at h
    split at h <;> cases h
    rename_i tow bias ht hb
    have hf : fields = ⟨some tow, some bias⟩ := by rw [← ht, ← hb]
    rw [hm, hf]
  · intro h
    rw [h]
    rfl

end Clock

/-! ## From any text -/

/-- The keys of the object that the text begins with, escapes decoded, in the order in which they
stand there. -/
def Outermost (text : List Char) (keys : List String) : Prop :=
  ∃ start members rest, skipBlanks text = '\x7b' :: start ∧
    Members Value.scanKey (Value.scanWithin (Value.depthLimit - 1)) start members rest ∧ keys = members.map Prod.fst

theorem Outermost.of_scan {text rest : List Char} {members : List (String × Value)}
    (h : Value.scan text = .ok (.object members, rest)) : ∃ keys, Outermost text keys := by
  have hsc : Value.Scanned (126 + 1) text (.object members) rest := Value.scanned h
  generalize hv : Value.object members = v at hsc
  cases hsc with
  | array => cases hv
  | object hs hm => exact ⟨_, _, _, _, hs, hm, rfl⟩
  | scalar _ _ hsv =>
    cases hv
    have hk : Value.Kept 0 _ := Value.kept_scanScalar hsv
    cases hk.depth

theorem Outermost.unique {text : List Char} {keys keys' : List String} (h : Outermost text keys)
    (h' : Outermost text keys') : keys = keys' := by
  obtain ⟨start, members, rest, hs, hm, rfl⟩ := h
  obtain ⟨start', members', rest', hs', hm', rfl⟩ := h'
  cases hs.symm.trans hs'
  have hr := (Value.scanMembers_iff leaves_scanKey (leaves_scanWithin _)).2 hm
  rw [(Value.scanMembers_iff leaves_scanKey (leaves_scanWithin _)).2 hm'] at hr
  cases hr
  rfl

/-- A message that is the clock solution: an array of the two, or an object that has each of the two
in its text once. -/
inductive Clock.Told (clock : Clock) (text : List Char) : Message → Prop where
  | array : Told clock text (.array [clock.towValue, clock.biasValue])
  | object {members : List (String × Value)} {keys : List String} (hk : Outermost text keys)
      (ht : Value.member? members "i_tow" = some clock.towValue) (ht' : keys.count "i_tow" ≤ 1)
      (hb : Value.member? members "bias" = some clock.biasValue) (hb' : keys.count "bias" ≤ 1) :
      Told clock text (.object members)

namespace Clock

theorem told_array_iff {items : List Value} :
    Told clock text (.array items) ↔ items = [clock.towValue, clock.biasValue] := by
  constructor
  · intro h
    cases h
    rfl
  · rintro rfl
    exact .array

theorem told_object_iff {start : List Char} {ms : List (String × Value)} (hs : skipBlanks text = '\x7b' :: start)
    (hm : Members Value.scanKey (Value.scanWithin (Value.depthLimit - 1)) start ms rest) :
    Told clock text (Value.ofMembers ms) ↔
      ((ms.map Prod.fst).count "i_tow" ≤ 1 ∧ ("i_tow", clock.towValue) ∈ ms) ∧
      ((ms.map Prod.fst).count "bias" ≤ 1 ∧ ("bias", clock.biasValue) ∈ ms) := by
  have hk : Outermost text (ms.map Prod.fst) := ⟨start, ms, rest, hs, hm, rfl⟩
  constructor
  · intro h
    generalize hv : Value.ofMembers ms = v at h
    cases h with
    | array => cases hv
    | object hk' ht ht' hb hb' =>
      cases hk.unique hk'
      exact ⟨⟨ht', (Value.member?_of_ofMembers hv ht').1 ht⟩, ⟨hb', (Value.member?_of_ofMembers hv hb').1 hb⟩⟩
  · rintro ⟨⟨ht', ht⟩, ⟨hb', hb⟩⟩
    exact .object hk ((Value.member?_of_ofMembers rfl ht').2 ht) ht' ((Value.member?_of_ofMembers rfl hb').2 hb) hb'

theorem scan_iff {m : Message} (h : Value.scan text = .ok (m, rest')) :
    scan text = .ok (clock, rest) ↔ rest = rest' ∧ clock.Told text m := by
  have hsc : Value.Scanned (126 + 1) text m rest' := Value.scanned h
  cases hsc with
  | array hs hi =>
    rw [scan, hs, told_array_iff]
    show ofArray _ = _ ↔ _
    rw [ofArray_iff 126]
    constructor
    · intro h
      obtain ⟨rfl, rfl⟩ := hi.unique (leaves_scanWithin 126) h
      exact ⟨rfl, rfl⟩
    · rintro ⟨rfl, rfl⟩
      exact hi
  | object hs hm =>
    rw [scan, hs, told_object_iff hs hm]
    exact ofObject_iff hm
  | scalar ha ho hv =>
    have hd : m.depth ≤ 0 := (Value.kept_scanScalar hv).depth
    constructor
    · intro h
      unfold scan at h
      split at h
      · rename_i he
        exact absurd he (ha _)
      · rename_i he
        exact absurd he (ho _)
      · obtain ⟨v, _, h⟩ := scalar_ok 0 h
        cases h
    · rintro ⟨_, h⟩
      cases h <;> cases hd

end Clock

/-! ## Whole messages -/

namespace Message

theorem decodeAs_ok_iff {α : Type} {scan : Scan α} {text : String} {a : α} :
    decodeAs scan text = .ok a ↔ ∃ rest, scan text.toList = .ok (a, rest) ∧ skipBlanks rest = [] := by
  rw [← decode_ok_iff]
  unfold decodeAs
  constructor
  · intro h
    split at h <;> cases h
    assumption
  · intro h
    rw [h]

/-- **Typed and untyped readings agree.** A payload is read into a type just when the message in it is one
of that type, and otherwise comes back with the fault. -/
theorem decodeAs_agrees (text : String) :
    (∀ n : UInt32, decodeAs scanUInt32 text = .ok n ↔ decode text = .ok (.number (.int n.toNat))) ∧
    (∀ s : String, decodeAs scanString text = .ok s ↔ decode text = .ok (.string s)) ∧
    (∀ m : Message, decode text = .ok m →
      ((∃ members, m = .object members) → ∃! keys, Outermost text.toList keys) ∧
      ∀ clock : Clock, decodeAs Clock.scan text = .ok clock ↔ clock.Told text.toList m) ∧
    ∀ (α : Type) (scan : Scan α) (fault : Fault), decodeAs scan text = .error fault →
      ∃ error, fault = .decoding (.ofText text) (.json error) := by
  refine ⟨?_, ?_, ?_, ?_⟩
  · intro n
    unfold decode
    rw [decodeAs_ok_iff, decodeAs_ok_iff]
    simp only [scanUInt32_iff Value.depthLimit]
    rfl
  · intro s
    unfold decode
    rw [decodeAs_ok_iff, decodeAs_ok_iff]
    simp only [scanString_iff Value.depthLimit]
    rfl
  · intro m hm
    obtain ⟨rest, hs, hb⟩ := decodeAs_ok_iff.1 hm
    constructor
    · rintro ⟨members, rfl⟩
      obtain ⟨keys, hk⟩ := Outermost.of_scan hs
      exact ⟨keys, hk, fun keys' hk' => hk'.unique hk⟩
    · intro clock
      rw [decodeAs_ok_iff]
      constructor
      · rintro ⟨_, hc, _⟩
        exact ((Clock.scan_iff hs).1 hc).2
      · intro ht
        exact ⟨rest, (Clock.scan_iff hs).2 ⟨rfl, ht⟩, hb⟩
  · intro α scan fault h
    unfold decodeAs at h
    split at h <;> cases h
    exact ⟨_, rfl⟩

theorem decodeAs_agrees_escaped :
    let text := "\x7b\"x\":[1],\"b\\u0069as\":-5,\"i_tow\":7\x7d"
    let clock : Clock := ⟨7, -5⟩
    decodeAs Clock.scan text = .ok clock ∧ (∃ m, decode text = .ok m ∧ clock.Told text.toList m) ∧
      (∃! keys, Outermost text.toList keys) ∧
      ∃ error, decodeAs scanUInt32 text = .error (.decoding (.ofText text) (.json error)) := by
  intro text clock
  obtain ⟨hu, _, hm, hf⟩ := decodeAs_agrees text
  have hd : decode text = .ok (.object [("bias", .number (.int (-5))), ("i_tow", .number (.int 7)),
      ("x", .array [.number (.int 1)])]) := by cbv
  have hc : decodeAs Clock.scan text = .ok clock := by cbv
  obtain ⟨hk, ht⟩ := hm _ hd
  refine ⟨hc, ⟨_, hd, (ht clock).1 hc⟩, hk ⟨_, rfl⟩, ?_⟩
  cases h : decodeAs scanUInt32 text with
  | ok n => cases ((hu n).1 h).symm.trans hd
  | error fault =>
    obtain ⟨error, rfl⟩ := hf _ _ _ h
    exact ⟨error, rfl⟩

end Message

end Telemetry
