import Telemetry.Proofs.Path.Feeding
import Telemetry.Proofs.Path.Naming

/-!
# What a selection gives

A selection goes through its paths one by one, each from the root of the message, up to
the first that fails (`items_ofPaths_cons`). For a list of paths in text its items bear
the entries of the list as they stand there (`selection_reports`).
-/

namespace Telemetry

def Fault.path? : Fault → Option String
  | .pathIndex path _ _ => some path
  | .pathKind path _ _ => some path
  | _ => none

theorem Path.path?_of_follow {path : Path} {m : Message} {segments : List String} {fault : Fault}
    (h : path.follow m segments = .error fault) : fault.path? = some path.text := by
  fun_induction follow path m segments with
  | case1 m => cases h
  | case2 members segment segments m hm ih => exact ih h
  | case3 members segment segments hm => cases h
  | case4 items segment segments hi =>
    cases h
    rfl
  | case5 items segment segments n hi m hm ih => exact ih h
  | case6 items segment segments n hi hm =>
    cases h
    rfl
  | case7 m segment segments _ _ =>
    cases h
    rfl

namespace Selection

section
variable {s t : Selection (List Path)}

theorem items_step (s : Selection (List Path)) : s.items = match s.next with
    | some (some item, s') => item :: s'.items
    | _ => [] := by
  rw [items]
  split <;> simp_all

theorem items_of_none (h : s.next = some (none, t)) : s.items = [] := by rw [items_step, h]

theorem items_of_some {item : Item} (h : s.next = some (some item, t)) : s.items = item :: t.items := by
  rw [items_step, h]

theorem items_congr (h : s.next = t.next) : s.items = t.items := by rw [items_step, h, ← items_step]

end

theorem next_nil (m : Message) : (ofPaths m []).next = some (none, ofPaths m []) :=
  next_of_settles .none

theorem next_cons (m : Message) (path : Path) (paths : List Path) :
    (ofPaths m (path :: paths)).next = match path.resolve m with
      | .ok (some value) => some (some (.ok (path.text, value)), ofPaths m paths)
      | .ok none => (ofPaths m paths).next
      | .error fault => some (some (.error fault), { ofPaths m paths with failed := true }) := by
  rcases hr : path.resolve m with fault | _ | value
  · exact next_of_settles (.path (.fault hr))
  · exact next_of_absent ⟨path, rfl, hr⟩
  · exact next_of_settles (.path (.value hr))

theorem items_nil (m : Message) : (ofPaths m []).items = [] := items_of_none (next_nil m)

theorem items_ofPaths_cons (m : Message) (path : Path) (paths : List Path) :
    (ofPaths m (path :: paths)).items = match path.resolve m with
      | .ok (some value) => .ok (path.text, value) :: (ofPaths m paths).items
      | .ok none => (ofPaths m paths).items
      | .error fault => [.error fault] := by
  have hn := next_cons m path paths
  rcases hr : path.resolve m with fault | _ | value <;> rw [hr] at hn
  · rw [items_of_some hn, items_of_none (next_of_failed rfl)]
  · exact items_congr hn
  · exact items_of_some hn

def fields (m : Message) : List Path → List (String × Message)
  | [] => []
  | path :: paths =>
    match path.resolve m with
    | .ok (some value) => (path.text, value) :: fields m paths
    | .ok none => fields m paths
    | .error _ => []

def fault? (m : Message) : List Path → Option Fault
  | [] => none
  | path :: paths =>
    match path.resolve m with
    | .ok _ => fault? m paths
    | .error fault => some fault

theorem items_eq (m : Message) (paths : List Path) :
    (ofPaths m paths).items = (fields m paths).map .ok ++ (fault? m paths).toList.map .error := by
  induction paths with
  | nil => exact items_nil m
  | cons path paths ih =>
    rw [items_ofPaths_cons, fields, fault?]
    rcases path.resolve m with fault | _ | value
    · rfl
    · exact ih
    · exact congrArg (_ :: ·) ih

end Selection

/-- What is reported of entries: the value of each that is present, up to the first fault. -/
inductive Reports (m : Message) : List String → List Selection.Item → Prop where
  | done : Reports m [] []
  | absent {entry : String} {entries : List String} {path : Path} {items : List Selection.Item}
      (hp : path.Names entry) (hr : path.resolve m = .ok none) (others : Reports m entries items) :
      Reports m (entry :: entries) items
  | present {entry : String} {entries : List String} {path : Path} {value : Message} {items : List Selection.Item}
      (hp : path.Names entry) (hr : path.resolve m = .ok (some value)) (others : Reports m entries items) :
      Reports m (entry :: entries) (.ok (entry, value) :: items)
  | failed {entry : String} {entries : List String} {path : Path} {fault : Fault}
      (hp : path.Names entry) (hr : path.resolve m = .error fault) (hf : fault.path? = some entry) :
      Reports m (entry :: entries) [.error fault]

namespace Selection

theorem reports_items (m : Message) (entries : List String) :
    Reports m entries (ofPaths m (entries.map Path.ofString)).items := by
  induction entries with
  | nil =>
    rw [List.map_nil, items_nil]
    exact .done
  | cons entry entries ih =>
    have hn : Path.Names entry (Path.ofString entry) := Path.names_iff.2 rfl
    rw [List.map_cons, items_ofPaths_cons]
    rcases hr : (Path.ofString entry).resolve m with fault | _ | value
    · have hf := Path.path?_of_follow hr
      rw [hn.text] at hf
      exact .failed hn hr hf
    · exact .absent hn hr ih
    · rw [hn.text]
      exact .present hn hr ih

theorem reports_iff {m : Message} {entries : List String} {items : List Item} :
    Reports m entries items ↔ items = (ofPaths m (entries.map Path.ofString)).items := by
  constructor
  · intro h
    induction h with
    | done => rw [List.map_nil, items_nil]
    | absent hp hr _ ih => rw [List.map_cons, Path.names_iff.1 hp, items_ofPaths_cons, hr, ih]
    | present hp hr _ ih => rw [List.map_cons, Path.names_iff.1 hp, items_ofPaths_cons, hr, hp.text, ih]
    | failed hp hr _ => rw [List.map_cons, Path.names_iff.1 hp, items_ofPaths_cons, hr]
  · rintro rfl
    exact reports_items m entries

/-- **A selection reports the entries of its list.** Each is followed from the root of the message,
and what is reported of it bears the entry as it stands between the commas. -/
theorem selection_reports (s : String) (m : Message) :
    (∀ entries, Path.Lists s entries ↔ entries = Path.entries s) ∧
      (∀ (entry : String) (path : Path), path.Names entry ↔ Path.ofString entry = path) ∧
      ∀ items, Reports m (Path.entries s) items ↔ items = (ofPaths m (Path.listOfString s)).items := by
  refine ⟨?_, ?_, ?_⟩
  · intro entries
    exact Path.lists_iff
  · intro entry path
    exact Path.names_iff
  · intro items
    exact reports_iff

theorem selection_reports_mixed :
    let m : Message := .object [("a", .object [("b", .number (.int 7))])]
    let s := " a.b , ,x,\u00a0a.b.c\t,a.b"
    Path.Lists s ["a.b", "x", "a.b.c", "a.b"] ∧ (ofPaths m (Path.listOfString s)).items =
      [.ok ("a.b", .number (.int 7)), .error (.pathKind "a.b.c" "c" .number)] := by
  intro m s
  obtain ⟨hl, hn, hr⟩ := selection_reports s m
  have he : ["a.b", "x", "a.b.c", "a.b"] = Path.entries s := by decide +kernel
  have hfield : Path.Names "a.b" ⟨["a", "b"]⟩ := (hn _ _).2 (by decide +kernel)
  have hmissing : Path.Names "x" ⟨["x"]⟩ := (hn _ _).2 (by decide +kernel)
  have hpast : Path.Names "a.b.c" ⟨["a", "b", "c"]⟩ := (hn _ _).2 (by decide +kernel)
  refine ⟨(hl _).2 he, ((hr _).1 ?_).symm⟩
  rw [← he]
  exact .present hfield rfl <| .absent hmissing rfl <| .failed hpast rfl rfl

end Selection

end Telemetry
