import Mathlib.Logic.ExistsUnique
import Telemetry.Path.Reach
import Telemetry.Proofs.Decimal

/-!
# Where a path leads

A path leads to the value that its segments reach. When they reach none, they stop at
one value, in front of the first segment that does not step on from there, and these
two say what the path comes to (`resolve_reaches`).
-/

namespace Telemetry

/-- The fault as a path of another text would have it. -/
def Fault.withPath (text : String) : Fault → Fault
  | .pathIndex _ index length => .pathIndex text index length
  | .pathKind _ segment found => .pathKind text segment found
  | fault => fault

namespace Path

open Json (Value)

/-! ## Indexes -/

theorem numeral?_eq_some_iff {text : List Char} {n : Nat} : numeral? text = some n ↔
    ∃ digits, digits ≠ [] ∧ (∀ d ∈ digits, d < 10) ∧ text = digits.map Decimal.digitChar ∧
      n = Decimal.ofDigits 0 digits := by
  constructor
  · intro h
    unfold numeral? at h
    split at h
    · cases h
    · rename_i digits hn ht
      cases h
      obtain ⟨he, hd⟩ := Decimal.eq_of_takeDigits ht
      rw [List.append_nil] at he
      exact ⟨digits, hn, hd, he, rfl⟩
    · cases h
  · rintro ⟨digits, hn, hd, rfl, rfl⟩
    have hr : Decimal.takeDigits [] = ([], []) := rfl
    have ht := Decimal.takeDigits_digits hd hr
    rw [List.append_nil] at ht
    unfold numeral?
    rw [ht]
    cases digits with
    | nil => exact absurd rfl hn
    | cons d ds => rfl

theorem digitChar_ne_plus {d : Nat} (h : d < 10) : Decimal.digitChar d ≠ '+' :=
  (by decide : ∀ d < 10, Decimal.digitChar d ≠ '+') d h

theorem index?_eq_some_iff {segment : String} {n : Nat} : index? segment = some n ↔ Index segment n := by
  constructor
  · intro h
    unfold index? at h
    obtain ⟨k, hk, h⟩ := Option.bind_eq_some_iff.1 h
    split at h
    · cases h
      split at hk
      · rename_i text hs
        obtain ⟨digits, hn, hd, rfl, rfl⟩ := numeral?_eq_some_iff.1 hk
        exact .mk ['+'] (.inr rfl) hn hd hs (by assumption)
      · obtain ⟨digits, hn, hd, ht, rfl⟩ := numeral?_eq_some_iff.1 hk
        exact .mk [] (.inl rfl) hn hd ht (by assumption)
    · cases h
  · rintro ⟨sign, hs, hn, hd, ht, hf⟩
    rename_i digits
    have hk := numeral?_eq_some_iff.2 ⟨digits, hn, hd, rfl, rfl⟩
    unfold index?
    rcases hs with rfl | rfl
    · -- without a sign the first character is a digit
      cases digits with
      | nil => exact absurd rfl hn
      | cons d ds =>
        have hp := digitChar_ne_plus (hd d (List.mem_cons_self ..))
        rw [ht]
        simp only [List.map_cons, List.nil_append] at hk ⊢
        split
        · rename_i h
          exact absurd (List.cons.inj h).1 hp
        · simp [hk, hf]
    · rw [ht]
      simp [hk, hf]

theorem Index.unique {segment : String} {n k : Nat} (h : Index segment n) (h' : Index segment k) : n = k := by
  rw [← index?_eq_some_iff] at h h'
  rw [h] at h'
  exact Option.some.inj h'

/-! ## Reaching -/

section
variable {m m' v w : Message} {segment : String} {segments front : List String}

theorem Step.unique (h : Step m segment v) (h' : Step m segment w) : v = w := by
  cases h with
  | key found =>
    cases h' with
    | key found' =>
      rw [found] at found'
      exact Option.some.inj found'
  | index number found =>
    cases h' with
    | index number' found' =>
      cases number.unique number'
      rw [found] at found'
      exact Option.some.inj found'

theorem Step.follow (h : Step m segment m') (path : Path) (segments : List String) :
    path.follow m (segment :: segments) = path.follow m' segments := by
  cases h with
  | key found => rw [Path.follow, found]
  | index number found =>
    rw [Path.follow, index?_eq_some_iff.2 number]
    simp only [found]

theorem Reach.follow (h : Reach m front v) (path : Path) (segments : List String) :
    path.follow m (front ++ segments) = path.follow v segments := by
  induction h with
  | here m => rfl
  | step first _ ih =>
    rw [List.cons_append, first.follow]
    exact ih

end

/-! ## Stopping -/

structure Stop where
  before : List String
  value : Message
  segment : String
  after : List String

/-- The segments in front reach the value, and the next one does not step on from there. -/
structure Stop.Of (stop : Stop) (m : Message) (segments : List String) : Prop where
  split : segments = stop.before ++ stop.segment :: stop.after
  reach : Reach m stop.before stop.value
  stuck : ∀ v, ¬ Step stop.value stop.segment v

/-- What a path of this text comes to when a segment does not step on from a value. -/
inductive Refused (text segment : String) : Message → Except Fault (Option Message) → Prop where
  | absent (members : List (String × Value)) : Refused text segment (.object members) (.ok none)
  | past {items : List Value} {n : Nat} (number : Index segment n) (beyond : items.length ≤ n) :
      Refused text segment (.array items) (.error (.pathIndex text n items.length))
  | unnumbered (items : List Value) (none : ∀ n, ¬ Index segment n) :
      Refused text segment (.array items) (.error (.pathKind text segment .sequence))
  | scalar {w : Message} (kind : w.kind ∈ [Value.Kind.null, .boolean, .number, .string]) :
      Refused text segment w (.error (.pathKind text segment w.kind))

section
variable {m v w : Message} {segment : String} {segments : List String}

theorem refused_follow (path : Path) (h : ∀ v, ¬ Step w segment v) (segments : List String) :
    Refused path.text segment w (path.follow w (segment :: segments)) := by
  cases w with
  | object members =>
    have hm : Value.member? members segment = none := by
      cases hm : Value.member? members segment with
      | none => rfl
      | some v => exact absurd (.key hm) (h v)
    rw [follow, hm]
    exact .absent members
  | array items =>
    rw [follow]
    cases hi : index? segment with
    | none =>
      refine .unnumbered items fun n hn => ?_
      rw [← index?_eq_some_iff, hi] at hn
      cases hn
    | some n =>
      have hn := index?_eq_some_iff.1 hi
      cases hv : items[n]? with
      | some v => exact absurd (.index hn hv) (h v)
      | none =>
        simp only [hv]
        exact .past hn (List.getElem?_eq_none_iff.1 hv)
  | null => exact .scalar (by simp [Value.kind])
  | bool b => exact .scalar (by simp [Value.kind])
  | number n => exact .scalar (by simp [Value.kind])
  | string s => exact .scalar (by simp [Value.kind])

namespace Refused

variable {text : String} {answer : Except Fault (Option Message)}

theorem ne_some (h : Refused text segment w answer) : answer ≠ .ok (some v) := by
  rintro rfl
  cases h

theorem none_iff (h : Refused text segment w answer) : answer = .ok none ↔ w.kind = .mapping := by
  cases h with
  | absent members => simp [Value.kind]
  | past number beyond => simp [Value.kind]
  | unnumbered items none => simp [Value.kind]
  | scalar kind =>
    simp only [reduceCtorEq, false_iff]
    intro hk
    simp [hk] at kind

theorem pathIndex_iff {text' : String} {n length : Nat} (h : Refused text segment w answer) :
    answer = .error (.pathIndex text' n length) ↔
      text' = text ∧ Index segment n ∧ ∃ items, w = .array items ∧ length = items.length := by
  constructor
  · rintro rfl
    cases h with
    | past number beyond => exact ⟨rfl, number, _, rfl, rfl⟩
  · rintro ⟨rfl, hn, items, rfl, rfl⟩
    cases h with
    | past number beyond => rw [number.unique hn]
    | unnumbered items none => exact absurd hn (none n)
    | scalar kind => simp [Value.kind] at kind

theorem pathKind_iff {text' segment' : String} {found : Value.Kind} (h : Refused text segment w answer) :
    answer = .error (.pathKind text' segment' found) ↔
      text' = text ∧ segment' = segment ∧ found = w.kind ∧
        (w.kind = .sequence ∧ (∀ n, ¬ Index segment n) ∨
          w.kind ∈ [Value.Kind.null, .boolean, .number, .string]) := by
  constructor
  · rintro rfl
    cases h with
    | unnumbered items none => exact ⟨rfl, rfl, rfl, .inl ⟨rfl, none⟩⟩
    | scalar kind => exact ⟨rfl, rfl, rfl, .inr kind⟩
  · rintro ⟨rfl, rfl, rfl, hw⟩
    cases h with
    | absent members => simp [Value.kind] at hw
    | past number beyond =>
      rcases hw with ⟨_, none⟩ | kind
      · exact absurd number (none _)
      · simp [Value.kind] at kind
    | unnumbered items none => rfl
    | scalar kind => rfl

theorem with_path {text' : String} {answer' : Except Fault (Option Message)} (h : Refused text segment w answer)
    (h' : Refused text' segment w answer') : answer' = answer.mapError (Fault.withPath text') := by
  cases h with
  | absent members =>
    cases h' with
    | absent _ => rfl
    | scalar kind => simp [Value.kind] at kind
  | past number beyond =>
    cases h' with
    | past number' _ =>
      cases number.unique number'
      rfl
    | unnumbered _ none => exact absurd number (none _)
    | scalar kind => simp [Value.kind] at kind
  | unnumbered items none =>
    cases h' with
    | past number _ => exact absurd number (none _)
    | unnumbered _ _ => rfl
    | scalar kind => simp [Value.kind] at kind
  | scalar kind =>
    cases h' with
    | scalar _ => rfl
    | _ => simp [Value.kind] at kind

end Refused

theorem reach_or_stop (m : Message) (segments : List String) :
    (∃ v, Reach m segments v) ∨ ∃ stop : Stop, stop.Of m segments := by
  induction segments generalizing m with
  | nil => exact .inl ⟨m, .here m⟩
  | cons segment segments ih =>
    by_cases h : ∃ m', Step m segment m'
    · obtain ⟨m', first⟩ := h
      rcases ih m' with ⟨v, rest⟩ | ⟨stop, hs⟩
      · exact .inl ⟨v, .step first rest⟩
      · exact .inr ⟨{ stop with before := segment :: stop.before }, congrArg (segment :: ·) hs.split,
          .step first hs.reach, hs.stuck⟩
    · exact .inr ⟨⟨[], m, segment, segments⟩, rfl, .here m, fun v first => h ⟨v, first⟩⟩

namespace Stop.Of

variable {stop other : Stop}

theorem not_reach (h : stop.Of m segments) : ¬ Reach m segments v := by
  obtain ⟨before, value, segment, after⟩ := stop
  obtain ⟨rfl, hr, hs⟩ := h
  simp only at hr hs ⊢
  intro hv
  induction hr with
  | here m =>
    cases hv with
    | step first _ => exact hs _ first
  | step first _ ih =>
    cases hv with
    | step first' rest =>
      cases first.unique first'
      exact ih hs rest

theorem unique (h : stop.Of m segments) (h' : other.Of m segments) : other = stop := by
  obtain ⟨before, value, segment, after⟩ := stop
  obtain ⟨before', value', segment', after'⟩ := other
  obtain ⟨rfl, hr, hs⟩ := h
  obtain ⟨he, hr', hs'⟩ := h'
  simp only at he hr hs hr' hs'
  induction hr generalizing before' with
  | here m =>
    cases hr' with
    | here _ =>
      cases he
      rfl
    | step first _ =>
      cases he
      exact absurd first (hs _)
  | step first _ ih =>
    cases hr' with
    | here _ =>
      cases he
      exact absurd first (hs' _)
    | step first' rest' =>
      obtain ⟨rfl, he'⟩ := List.cons.inj he
      cases first.unique first'
      cases ih _ hs he' rest'
      rfl

theorem refused {path : Path} (h : stop.Of m path.segments) :
    Refused path.text stop.segment stop.value (path.resolve m) := by
  rw [resolve, h.split, h.reach.follow]
  exact refused_follow path h.stuck stop.after

end Stop.Of

theorem resolve_eq_some_iff {path : Path} : path.resolve m = .ok (some v) ↔ Reach m path.segments v := by
  constructor
  · intro h
    rcases reach_or_stop m path.segments with ⟨w, hw⟩ | ⟨stop, hs⟩
    · have hf := hw.follow path []
      rw [List.append_nil] at hf
      rw [resolve, hf] at h
      cases h
      exact hw
    · exact absurd h hs.refused.ne_some
  · intro h
    have hf := h.follow path []
    rwa [List.append_nil] at hf

end

/-- **A path leads where its segments reach.** If they reach nothing, one segment stops them, and it and
the value in front of it make the answer, but for the path's text. -/
theorem resolve_reaches (path : Path) (m : Message) :
    (∀ v, path.resolve m = .ok (some v) ↔ Reach m path.segments v) ∧
      ((¬ ∃ v, Reach m path.segments v) ↔ ∃! stop : Stop, stop.Of m path.segments) ∧
      ∀ stop : Stop, stop.Of m path.segments →
        (path.resolve m = .ok none ↔ stop.value.kind = .mapping) ∧
        (∀ text n length, path.resolve m = .error (.pathIndex text n length) ↔
          text = path.text ∧ Index stop.segment n ∧ ∃ items, stop.value = .array items ∧ length = items.length) ∧
        (∀ items n, stop.value = .array items → Index stop.segment n → items.length ≤ n) ∧
        (∀ text segment found, path.resolve m = .error (.pathKind text segment found) ↔
          text = path.text ∧ segment = stop.segment ∧ found = stop.value.kind ∧
            (stop.value.kind = .sequence ∧ (∀ n, ¬ Index stop.segment n) ∨
              stop.value.kind ∈ [Value.Kind.null, .boolean, .number, .string])) ∧
        ∀ (path' : Path) (m' : Message) (stop' : Stop), stop'.Of m' path'.segments →
          stop'.value = stop.value → stop'.segment = stop.segment →
          path'.resolve m' = (path.resolve m).mapError (Fault.withPath path'.text) := by
  refine ⟨fun v => resolve_eq_some_iff, ?_, ?_⟩
  · constructor
    · intro h
      obtain ⟨stop, hs⟩ := (reach_or_stop m path.segments).resolve_left h
      exact ⟨stop, hs, fun other ho => hs.unique ho⟩
    · rintro ⟨stop, hs, _⟩ ⟨v, hv⟩
      exact hs.not_reach hv
  · intro stop hs
    have hr := hs.refused
    refine ⟨hr.none_iff, fun _ _ _ => hr.pathIndex_iff, ?_, fun _ _ _ => hr.pathKind_iff, ?_⟩
    · intro items n hv hn
      refine Nat.le_of_not_lt fun hl => hs.stuck items[n] ?_
      rw [hv]
      exact .index hn (List.getElem?_eq_getElem hl)
    · intro path' m' stop' hs' hv hsegment
      have hr' := hs'.refused
      rw [hv, hsegment] at hr'
      exact hr.with_path hr'

theorem resolve_reaches_past :
    let items : List Value := [.number (.int 10)]
    let m : Message := .object [("xs", .array items)]
    let path : Path := ⟨["xs", "+03", "k"]⟩
    let stop : Stop := ⟨["xs"], .array items, "+03", ["k"]⟩
    stop.Of m path.segments ∧ (¬ ∃ v, Reach m path.segments v) ∧
      path.resolve m = .error (.pathIndex path.text 3 1) := by
  intro items m path stop
  have hn : Index "+03" 3 := @Index.mk "+03" [0, 3] ['+'] (.inr rfl) (by decide) (by decide) rfl (by decide)
  have hs : stop.Of m path.segments := by
    refine ⟨rfl, .step (.key rfl) (.here _), ?_⟩
    intro v hv
    cases hv with
    | index number found =>
      cases number.unique hn
      cases found
  obtain ⟨_, hu, ha⟩ := resolve_reaches path m
  have hi := (ha stop hs).2.1 path.text 3 1
  exact ⟨hs, hu.2 ⟨stop, hs, fun other ho => hs.unique ho⟩, hi.2 ⟨rfl, hn, items, rfl, rfl⟩⟩

end Path

end Telemetry
