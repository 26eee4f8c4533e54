import Telemetry.Proofs.Path.Reaching
import Telemetry.Proofs.Path.Selecting

/-!
# Paths put together

A path is followed part by part: what its front leads to is where its back goes on from,
and what stops the front stops the whole (`follow_append`). Which path the segments belong
to shows in the text of a fault and nowhere else (`follow_mapError`).
-/

namespace Telemetry.Path

section
variable (path : Path) (m : Message)

theorem follow_append (front back : List String) :
    path.follow m (front ++ back) = match path.follow m front with
      | .ok (some v) => path.follow v back
      | .ok none => .ok none
      | .error fault => .error fault := by
  fun_induction follow path m front with
  | case1 m => rfl
  | case2 members segment segments m hm ih =>
    simp only [List.cons_append, follow, hm]
    exact ih
  | case3 members segment segments hm => simp only [List.cons_append, follow, hm]
  | case4 items segment segments hi => simp only [List.cons_append, follow, hi]
  | case5 items segment segments n hi m hm ih =>
    simp only [List.cons_append, follow, hi, hm]
    exact ih
  | case6 items segment segments n hi hm => simp only [List.cons_append, follow, hi, hm]
  | case7 m segment segments ho ha =>
    cases m with
    | object members => exact absurd rfl (ho members)
    | array items => exact absurd rfl (ha items)
    | _ => rfl

theorem follow_mapError (path' : Path) (segments : List String) :
    path'.follow m segments = (path.follow m segments).mapError (Fault.withPath path'.text) := by
  fun_induction follow path m segments with
  | case1 m => rfl
  | case2 members segment segments m hm ih =>
    simp only [follow, hm]
    exact ih
  | case3 members segment segments hm =>
    simp only [follow, hm]
    rfl
  | case4 items segment segments hi =>
    simp only [follow, hi]
    rfl
  | case5 items segment segments n hi m hm ih =>
    simp only [follow, hi, hm]
    exact ih
  | case6 items segment segments n hi hm =>
    simp only [follow, hi, hm]
    rfl
  | case7 m segment segments ho ha =>
    cases m with
    | object members => exact absurd rfl (ho members)
    | array items => exact absurd rfl (ha items)
    | _ => rfl

end

section
variable {m v : Message} {front : List String}

theorem resolve_append_of_some (h : resolve ⟨front⟩ m = .ok (some v)) (back : List String) :
    resolve ⟨front ++ back⟩ m = (resolve ⟨back⟩ v).mapError (Fault.withPath (text ⟨front ++ back⟩)) := by
  have hf : follow ⟨front ++ back⟩ m front = .ok (some v) := by
    have hw := follow_mapError ⟨front⟩ m ⟨front ++ back⟩ front
    rwa [show follow ⟨front⟩ m front = _ from h] at hw
  have hw := follow_append ⟨front ++ back⟩ m front back
  rw [hf] at hw
  exact hw.trans (follow_mapError ⟨back⟩ v ⟨front ++ back⟩ back)

theorem resolve_append_of_ne (h : ∀ v, resolve ⟨front⟩ m ≠ .ok (some v)) (back : List String) :
    resolve ⟨front ++ back⟩ m = (resolve ⟨front⟩ m).mapError (Fault.withPath (text ⟨front ++ back⟩)) := by
  have hf : follow ⟨front ++ back⟩ m front = _ := follow_mapError ⟨front⟩ m ⟨front ++ back⟩ front
  have hw := follow_append ⟨front ++ back⟩ m front back
  unfold resolve at h ⊢
  rw [hw, hf]
  rcases hr : follow ⟨front⟩ m front with fault | _ | v
  · rfl
  · rfl
  · exact absurd hr (h v)

end

/-- **Paths compose.** The whole path comes to what its back comes to from where its front leads, and
fails where one of them fails. -/
theorem resolve_append (m : Message) (front back : List String) :
    (∀ v, resolve ⟨front⟩ m = .ok (some v) →
      (∀ answer, resolve ⟨front ++ back⟩ m = .ok answer ↔ resolve ⟨back⟩ v = .ok answer) ∧
      ((∃ fault, resolve ⟨front ++ back⟩ m = .error fault) ↔ ∃ fault, resolve ⟨back⟩ v = .error fault) ∧
      ∀ fault, resolve ⟨back⟩ v = .error fault → fault.path? = some (text ⟨back⟩) ∧
        resolve ⟨front ++ back⟩ m = .error (fault.withPath (text ⟨front ++ back⟩))) ∧
    (resolve ⟨front⟩ m = .ok none → resolve ⟨front ++ back⟩ m = .ok none) ∧
    ∀ fault, resolve ⟨front⟩ m = .error fault → fault.path? = some (text ⟨front⟩) ∧
      resolve ⟨front ++ back⟩ m = .error (fault.withPath (text ⟨front ++ back⟩)) := by
  refine ⟨?_, ?_, ?_⟩
  · intro v hv
    rw [resolve_append_of_some hv]
    cases hb : resolve ⟨back⟩ v with
    | ok answer =>
      refine ⟨fun _ => Iff.rfl, ?_, ?_⟩
      · constructor <;> rintro ⟨_, h⟩ <;> cases h
      · intro fault h
        cases h
    | error fault =>
      have hp : fault.path? = some (text ⟨back⟩) := path?_of_follow hb
      refine ⟨?_, ⟨fun _ => ⟨_, rfl⟩, fun _ => ⟨_, rfl⟩⟩, ?_⟩
      · intro answer
        constructor <;> intro h <;> cases h
      · intro fault' h
        cases h
        exact ⟨hp, rfl⟩
  · intro hn
    rw [resolve_append_of_ne (by simp [hn]), hn]
    rfl
  · intro fault hf
    rw [resolve_append_of_ne (by simp [hf]), hf]
    exact ⟨path?_of_follow hf, rfl⟩

theorem resolve_append_index :
    let m : Message := .object [("xs", .array [.null])]
    resolve ⟨["xs"]⟩ m = .ok (some (.array [.null])) ∧
      resolve ⟨["xs"] ++ ["7", "k"]⟩ m = .error (.pathIndex "xs.7.k" 7 1) ∧
      resolve ⟨["a"]⟩ m = .ok none ∧ resolve ⟨["a"] ++ ["7", "k"]⟩ m = .ok none ∧
      resolve ⟨["xs", "k"]⟩ m = .error (.pathKind "xs.k" "k" .sequence) ∧
      resolve ⟨["xs", "k"] ++ ["7", "k"]⟩ m = .error (.pathKind "xs.k.7.k" "k" .sequence) := by
  intro m
  have hv : resolve ⟨["xs"]⟩ m = .ok (some (.array [.null])) := rfl
  have hn : resolve ⟨["a"]⟩ m = .ok none := rfl
  have hf : resolve ⟨["xs", "k"]⟩ m = .error (.pathKind "xs.k" "k" .sequence) := rfl
  have hb : resolve ⟨["7", "k"]⟩ (.array [.null]) = .error (.pathIndex "7.k" 7 1) := rfl
  refine ⟨hv, ?_, hn, (resolve_append m ["a"] ["7", "k"]).2.1 hn, hf, ?_⟩
  · exact (((resolve_append m ["xs"] ["7", "k"]).1 _ hv).2.2 _ hb).2
  · exact ((resolve_append m ["xs", "k"] ["7", "k"]).2.2 _ hf).2

end Telemetry.Path
