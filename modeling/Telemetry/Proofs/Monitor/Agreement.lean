import Mathlib
import Telemetry.Monitor.Fields
import Telemetry.Monitor.Lines
import Telemetry.Proofs.Path.Selecting
import Telemetry.Proofs.Reader.Heard

/-!
# The two monitors agree

Both monitors write what they write message by message (`fieldReport_eq`,
`lineReport_eq`), and hear the same messages and the same fault behind them, whether
they wait or poll. So they show the same fields and stop at the same place
(`monitors_agree`).
-/

namespace Telemetry.Monitor

/-! ## One message -/

section
variable (m : Message) (paths : List Path)

theorem foldl_fieldLine (fields : List (String × Message)) (report : Report) :
    (fields.map Except.ok).foldl (fun report item => report ++ fieldLine item) report =
      ⟨report.out ++ fields.map fun (key, value) => s!"{key}: {value.text}", report.err⟩ := by
  induction fields generalizing report with
  | nil => rw [List.map_nil, List.map_nil, List.append_nil, List.foldl_nil]
  | cons field fields ih =>
    rw [List.map_cons, List.foldl_cons, ih]
    show Report.mk ((report.out ++ [_]) ++ _) (report.err ++ []) = _
    rw [List.append_assoc, List.append_nil]
    rfl

theorem fieldLines_eq : fieldLines paths m =
    ⟨(Selection.fields m paths).map fun (key, value) => s!"{key}: {value.text}",
      (Selection.fault? m paths).toList.map fun fault => s!"Error extracting field: {fault.message}"⟩ := by
  unfold fieldLines
  rw [Selection.items_eq, List.foldl_append, foldl_fieldLine]
  cases Selection.fault? m paths with
  | none => rfl
  | some fault =>
    show Report.mk (_ ++ []) _ = _
    rw [List.append_nil]
    rfl

theorem pairs_eq : (Selection.ofPaths m paths).items.filterMap pair? =
    (Selection.fields m paths).map fun (key, value) => s!"{key}={value.text}" := by
  rw [Selection.items_eq, List.filterMap_append, List.filterMap_map, List.filterMap_map]
  have hf : (Selection.fault? m paths).toList.filterMap (pair? ∘ .error) = [] := by
    rw [List.filterMap_eq_nil_iff]
    intro fault _
    rfl
  rw [hf, List.append_nil]
  exact congrFun List.filterMap_eq_map _

theorem messageLine_eq (h : paths ≠ []) : messageLine paths m =
    { out := match Selection.fields m paths with
        | [] => []
        | fields => [" ".intercalate (fields.map fun (key, value) => s!"{key}={value.text}")] } := by
  unfold messageLine
  rw [if_neg (by simpa using h), pairs_eq]
  cases Selection.fields m paths <;> rfl

end

/-! ## A whole run -/

section
variable (messages : List Message) (fault : Fault) {paths : List Path}

theorem fieldReport_eq (tally : Tally) :
    fieldReport ⟨paths, none⟩ tally (messages.map .ok ++ [.error fault]) =
      ⟨messages.flatMap fun m => (Selection.fields m paths).map fun (key, value) => s!"{key}: {value.text}",
        (messages.flatMap fun m =>
          (Selection.fault? m paths).toList.map fun fault => s!"Error extracting field: {fault.message}") ++
          [s!"Error receiving message: {fault.message}"]⟩ := by
  induction messages with
  | nil => rfl
  | cons m messages ih =>
    show fieldLines paths m ++ fieldReport ⟨paths, none⟩ tally (messages.map .ok ++ [.error fault]) = _
    rw [ih, fieldLines_eq, List.flatMap_cons, List.flatMap_cons, List.append_assoc]
    rfl

theorem lineReport_eq (h : paths ≠ []) :
    lineReport paths (messages.map .ok ++ [.error fault]) =
      ⟨messages.flatMap fun m =>
        match Selection.fields m paths with
        | [] => []
        | fields => [" ".intercalate (fields.map fun (key, value) => s!"{key}={value.text}")],
        [s!"Error receiving message: {fault.message}"]⟩ := by
  induction messages with
  | nil => rfl
  | cons m messages ih =>
    show messageLine paths m ++ lineReport paths (messages.map .ok ++ [.error fault]) = _
    rw [ih, messageLine_eq m paths h, List.flatMap_cons]
    rfl

end

/-! ## The line at the end -/

def tellsEnd (line : String) : Bool := "Error receiving message: ".toList.isPrefixOf line.toList

theorem tellsEnd_stopped (fault : Fault) : tellsEnd s!"Error receiving message: {fault.message}" = true := by
  unfold tellsEnd
  rw [List.isPrefixOf_iff_prefix, String.toList_append]
  exact List.prefix_append ..

theorem tellsEnd_extracting (fault : Fault) : tellsEnd s!"Error extracting field: {fault.message}" = false := by
  unfold tellsEnd
  rw [String.toList_append]
  rfl

theorem filter_tellsEnd (messages : List Message) (paths : List Path) (fault : Fault) :
    ((messages.flatMap fun m =>
      (Selection.fault? m paths).toList.map fun fault => s!"Error extracting field: {fault.message}") ++
      [s!"Error receiving message: {fault.message}"]).filter tellsEnd =
      [s!"Error receiving message: {fault.message}"] := by
  rw [List.filter_append, List.filter_cons_of_pos (tellsEnd_stopped fault), List.filter_nil, List.append_left_eq_self,
    List.filter_eq_nil_iff]
  intro text ht
  obtain ⟨m, _, hm⟩ := List.mem_flatMap.1 ht
  obtain ⟨fault, _, rfl⟩ := List.mem_map.1 hm
  rw [tellsEnd_extracting]
  exact Bool.false_ne_true

theorem stopped_ne (fault : Fault) : s!"Error receiving message: {fault.message}" ≠ "Stream ended unexpectedly" := by
  intro he
  have ht := tellsEnd_stopped fault
  rw [he] at ht
  exact absurd ht (by decide)

/-- **The two monitors agree.** However the same data is cut, and whether they wait or poll, they show
the same fields and stop at the same fault. -/
theorem monitors_agree (fields : String) (hf : Path.listOfString fields ≠ []) (s t : Source)
    (h : t.carried = s.carried) :
    let paths := Path.listOfString fields
    let messages := s.heard.1
    let fault := s.heard.2
    let stop := s!"Error receiving message: {fault.message}"
    let field := fieldMonitor (.ofStrings (some fields) none) s.settled
    let line := lineMonitor fields t
    (Reader.ofSource s.settled).items.1 = messages.map .ok ++ [.error fault] ∧
      (Reader.ofSource t).settledItems.1 = messages.map .ok ++ [.error fault] ∧
      field.out = (messages.flatMap fun m =>
        (Selection.fields m paths).map fun (key, value) => s!"{key}: {value.text}") ∧
      line.out = (messages.flatMap fun m =>
        match Selection.fields m paths with
        | [] => []
        | fields => [" ".intercalate (fields.map fun (key, value) => s!"{key}={value.text}")]) ∧
      field.err = (messages.flatMap fun m =>
        (Selection.fault? m paths).toList.map fun fault => s!"Error extracting field: {fault.message}") ++ [stop] ∧
      line.err = [stop] ∧
      field.err.filter tellsEnd = [stop] ∧
      "Stream ended unexpectedly" ∉ line.err := by
  intro paths messages fault stop field line
  -- only what is carried counts, and by `h` that is the same
  have ht : t.heard = s.heard := by
    unfold Source.heard
    rw [h]
  have hs : (Reader.ofSource s.settled).items.1 = messages.map .ok ++ [.error fault] :=
    (Reader.items_ofSource s .usual).1
  have hl : (Reader.ofSource t).settledItems.1 = messages.map .ok ++ [.error fault] := by
    have hl := (Reader.items_ofSource t .usual).2
    rwa [ht] at hl
  have hfield : field = _ := (congrArg (fieldReport ⟨paths, none⟩ {}) hs).trans (fieldReport_eq messages fault {})
  have hline : line = _ := (congrArg (lineReport paths) hl).trans (lineReport_eq messages fault hf)
  rw [hfield, hline]
  refine ⟨hs, hl, rfl, rfl, rfl, rfl, ?_, ?_⟩
  · exact filter_tellsEnd messages paths fault
  · rw [List.mem_singleton]
    exact (stopped_ne fault).symm

theorem monitors_agree_bytewise :
    let data := Frame.wireAll [.ofText "\x7b\"a\":1,\"b\":\"x\"\x7d", .ofText "\x7b\"c\":0\x7d", .ofText "7"] ++ [9]
    let reset : Event := .failure ⟨.connectionReset, none⟩
    let s : Source := ⟨[.data data, reset], 0, 0⟩
    let t : Source := ⟨(data.flatMap fun b => [.pending, .data [b]]) ++ [.failure ⟨.interrupted, none⟩, reset], 0, 0⟩
    let field := fieldMonitor (.ofStrings (some "a, b") none) s.settled
    let line := lineMonitor "a, b" t
    Path.listOfString "a, b" ≠ [] ∧ t.carried = s.carried ∧
      field.out = ["a: 1", "b: \"x\""] ∧ line.out = ["a=1 b=\"x\""] ∧
      field.err.filter tellsEnd = ["Error receiving message: I/O error: connection reset"] ∧
      line.err = ["Error receiving message: I/O error: connection reset"] := by
  intro data reset s t field line
  have hp : Path.listOfString "a, b" = [⟨["a"]⟩, ⟨["b"]⟩] := by cbv
  have hf : Path.listOfString "a, b" ≠ [] := by
    rw [hp]
    exact List.cons_ne_nil _ _
  have ht : t.carried = s.carried := by decide +kernel
  have hm : s.heard = ([.object [("a", .number (.int 1)), ("b", .string "x")], .object [("c", .number (.int 0))],
      .number (.int 7)], .io ⟨.connectionReset, none⟩) := by cbv
  obtain ⟨_, _, ho, hl, _, he, hs, _⟩ := monitors_agree "a, b" hf s t ht
  rw [hm] at ho hl he hs
  refine ⟨hf, ht, ho.trans ?_, hl.trans ?_, hs.trans ?_, he.trans ?_⟩
  · cbv
  · cbv
  · rfl
  · rfl

end Telemetry.Monitor
