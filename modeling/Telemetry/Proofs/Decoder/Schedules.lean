import Telemetry.Proofs.Decoder.Conservation
import Telemetry.Proofs.Decoder.Draining

/-!
# Schedules of feeding and taking

Data may come in any pieces, and frames may be asked for at any time in between. What
comes back depends on the data alone (`schedules_agree`): a frame that is taken early
is the one that is taken late, and no piece that comes later takes it back.
-/

namespace Telemetry.Decoder

inductive Step where
  | piece (bytes : Bytes)
  | take

abbrev Schedule := List Step

namespace Schedule

def data (s : Schedule) : Bytes :=
  s.flatMap fun
    | .piece bytes => bytes
    | .take => []

def run (take : Take) : Schedule → Decoder → List take.Result × Decoder
  | [], d => ([], d)
  | .piece bytes :: s, d => run take s (d.feed bytes)
  | .take :: s, d =>
    match take.run d with
    | (none, d) => run take s d
    | (some result, d) =>
      let (results, last) := run take s d
      (result :: results, last)

def runOut (take : Take) (s : Schedule) (d : Decoder) : List take.Result × Decoder :=
  let (results, d) := s.run take d
  let (more, last) := d.drain take
  (results ++ more, last)

section
variable (take : Take) (s : Schedule) (d : Decoder)

theorem splitAll_run :
    (Frame.splitAll (d.buffer ++ s.data)).1.map take.ofPayload =
        (s.run take d).1 ++ (Frame.splitAll (s.run take d).2.buffer).1.map take.ofPayload ∧
      (Frame.splitAll (d.buffer ++ s.data)).2 = (Frame.splitAll (s.run take d).2.buffer).2 := by
  -- a piece moves from the data to the buffer; a frame that is taken was the first of both
  induction s generalizing d with
  | nil =>
    rw [data, List.flatMap_nil, List.append_nil]
    exact ⟨rfl, rfl⟩
  | cons step s ih =>
    cases step with
    | piece bytes =>
      have h := ih (d.feed bytes)
      rw [feed, List.append_assoc] at h
      exact h
    | take =>
      have hd : data (.take :: s) = data s := rfl
      rw [hd, run]
      cases hs : Frame.split? d.buffer with
      | none =>
        rw [take.run_of_none hs]
        exact ih d
      | some pair =>
        obtain ⟨payload, rest⟩ := pair
        obtain ⟨hf, hl⟩ := ih ⟨rest⟩
        rw [take.run_of_some hs, Frame.splitAll_some (Frame.split?_append hs (data s))]
        exact ⟨congrArg (take.ofPayload payload :: ·) hf, hl⟩

theorem runOut_eq : s.runOut take d =
    ((Frame.splitAll (d.buffer ++ s.data)).1.map take.ofPayload, ⟨(Frame.splitAll (d.buffer ++ s.data)).2⟩) := by
  obtain ⟨hf, hl⟩ := s.splitAll_run take d
  simp only [runOut, drain_eq, hf, hl]

theorem run_prefix_runOut : (s.run take d).1 <+: (s.runOut take d).1 := List.prefix_append ..

end

end Schedule

/-- **Schedules agree.** Two schedules of the same data give the same results and leave the same buffer,
and on less data they give the first of these. -/
theorem schedules_agree (take : Take) (capacity capacity' : Option Nat) (s t : Schedule) :
    (s.data = t.data → s.runOut take (create capacity) = t.runOut take (create capacity')) ∧
      (s.data <+: t.data →
        (s.run take (create capacity)).1 <+: (t.runOut take (create capacity')).1 ∧
          (s.runOut take (create capacity)).1 <+: (t.runOut take (create capacity')).1) ∧
      s.runOut take (create capacity) =
        ((Frame.splitAll s.data).1.map take.ofPayload, ⟨(Frame.splitAll s.data).2⟩) := by
  refine ⟨?_, ?_, ?_⟩
  · intro h
    rw [Schedule.runOut_eq, Schedule.runOut_eq, buffer_create, buffer_create, h]
  · intro h
    have hp : (s.runOut take (create capacity)).1 <+: (t.runOut take (create capacity')).1 := by
      rw [Schedule.runOut_eq, Schedule.runOut_eq, buffer_create, buffer_create, List.nil_append, List.nil_append]
      exact (Frame.splitAll_fst_prefix h).map take.ofPayload
    exact ⟨(s.run_prefix_runOut take _).trans hp, hp⟩
  · rw [Schedule.runOut_eq, buffer_create, List.nil_append]

theorem schedules_agree_pieces :
    let whole : Schedule := [.piece [1, 0, 0, 0, 0x37, 1, 0, 0, 0, 0xFF, 9]]
    let pieces : Schedule :=
      [.take, .piece [1, 0], .take, .piece [], .piece [0, 0, 0x37, 1, 0, 0, 0], .take, .take, .piece [0xFF, 9]]
    let first : Schedule := [.piece [1, 0, 0, 0, 0x37, 1], .take, .take]
    pieces.data = whole.data ∧ first.data <+: whole.data ∧
      pieces.runOut .text (create none) = whole.runOut .text (create (some 4096)) ∧
      (first.run .text (create none)).1 <+: (whole.runOut .text (create none)).1 ∧
      whole.runOut .text (create none) = ([.ok "7", .error (.decoding [0xFF] (.utf8 (.invalid 0 1)))], ⟨[9]⟩) := by
  intro whole pieces first
  have hd : pieces.data = whole.data := rfl
  have hp : first.data <+: whole.data := by decide
  have hc : Frame.splitAll whole.data = ([[0x37], [0xFF]], [9]) :=
    Frame.Cuts.splitAll_eq ⟨rfl, by decide, Frame.split?_eq_none_iff.1 rfl⟩
  refine ⟨hd, hp, (schedules_agree .text none (some 4096) pieces whole).1 hd,
    ((schedules_agree .text none none first whole).2.1 hp).1, ?_⟩
  rw [Schedule.runOut_eq, buffer_create, List.nil_append, hc]
  rfl

end Telemetry.Decoder
