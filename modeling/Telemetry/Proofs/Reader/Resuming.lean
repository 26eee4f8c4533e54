import Telemetry.Proofs.Reader.Awaiting
import Telemetry.Proofs.Reader.Waiting

/-!
# Reading goes on after an error

A reader that is asked again after an error or an empty receive goes on where it was.
Read to its end, a disturbed source gives the frames that the blocks give undisturbed,
each of its lasting errors once, and one closing for each empty receive
(`disturbances_surface`).
-/

namespace Telemetry

open Reader

theorem Message.decodeAs_isFrame {α : Type} (scan : Json.Scan α) (text : String) :
    isFrame (decodeAs scan text) = true ∧ failure? (decodeAs scan text) = none ∧
      closing? (decodeAs scan text) = none := by
  unfold decodeAs
  cases Json.decode scan text.toList <;> exact ⟨rfl, rfl, rfl⟩

namespace Reading

theorem ofFrame_isFrame (reading : Reading) (text : Except Fault String) :
    isFrame (reading.ofFrame text) = isFrame text ∧ failure? (reading.ofFrame text) = failure? text ∧
      closing? (reading.ofFrame text) = closing? text := by
  cases text with
  | error fault =>
    rw [ofFrame_error]
    cases fault <;> exact ⟨rfl, rfl, rfl⟩
  | ok string =>
    cases reading with
    | text => exact ⟨rfl, rfl, rfl⟩
    | message => exact Message.decodeAs_isFrame Json.Value.scan string
    | typed scan => exact Message.decodeAs_isFrame scan string

theorem awaits (reading : Reading) (r : Reader) :
    ∃ receipts text, Awaits r receipts text (reading.await r).2 ∧ (reading.await r).1 = reading.ofFrame text := by
  obtain ⟨receipts, h⟩ := awaits_awaitText r
  rw [reading.await_eq]
  exact ⟨receipts, _, h, rfl⟩

/-- What one reading takes off what a source has to tell. -/
structure Tells (reading : Reading) (r : Reader) (result : Except Fault reading.Result) (r' : Reader) : Prop where
  frames : (Frame.splitAll r.backlog).1.map reading.ofPayload =
    [result].filter isFrame ++ (Frame.splitAll r'.backlog).1.map reading.ofPayload
  errors : r.source.errors = (failure? result).toList ++ r'.source.errors
  closings : Source.closings r.decoder.buffer r.source.events = match closing? result with
    | some pending =>
      pending :: if r'.source.events = [] then [] else Source.closings r'.decoder.buffer r'.source.events
    | none => Source.closings r'.decoder.buffer r'.source.events
  size : r'.chunk.size = r.chunk.size
  ended : (closing? result).isSome = true → failure? result = none ∧ isFrame result = false ∧
    ¬ Frame.Begins r'.decoder.buffer
  progress : (closing? result).isSome = true ∧ r'.source.events = [] ∨
    r'.decoder.buffered + r'.source.weight < r.decoder.buffered + r.source.weight

theorem tells_await (reading : Reading) (r : Reader) (room : 0 < r.chunk.size) :
    reading.Tells r (reading.await r).1 (reading.await r).2 := by
  obtain ⟨receipts, text, h, hr⟩ := reading.awaits r
  obtain ⟨hf, he, hc⟩ := reading.ofFrame_isFrame text
  rw [← hr] at hf he hc
  constructor
  · rcases h.backlog with ⟨payload, ht, hs⟩ | ⟨hn, hb⟩
    · have hp : (reading.await r).1 = reading.ofPayload payload := by rw [hr, ht, ofFrame_textOf]
      rw [ht, (textOf_isFrame payload).1] at hf
      rw [Frame.splitAll_some hs, List.filter_cons_of_pos hf, hp]
      rfl
    · rw [hb, List.filter_cons_of_neg (by rw [hf, hn]; exact Bool.false_ne_true)]
      rfl
  · rw [he]
    exact h.errors
  · rw [hc]
    exact h.closings room
  · exact h.receives.2
  · intro hs
    rw [hc] at hs
    have hn : failure? text = none ∧ isFrame text = false := by
      match text, hs with
      | .error (.closed pending), _ => exact ⟨rfl, rfl⟩
    rw [he, hf]
    exact ⟨hn.1, hn.2, (h.buffer hn.2).2⟩
  · rw [hc]
    exact h.progress room

end Reading

namespace Reader

/-- Reads again and again, until a reading finds the connection closed and no event is
left. -/
def exhaust (reading : Reading) (r : Reader) (room : 0 < r.chunk.size) :
    List (Except Fault reading.Result) × Reader :=
  let result := (reading.await r).1
  let r' := (reading.await r).2
  if _ : (closing? result).isSome = true ∧ r'.source.events = [] then ([result], r')
  else
    let (results, last) := exhaust reading r' (by rw [(reading.tells_await r room).size]; exact room)
    (result :: results, last)
termination_by r.decoder.buffered + r.source.weight
decreasing_by exact (reading.tells_await r room).progress.resolve_left ‹_›

def readOut (reading : Reading) (events : List Event) (options : Options) : List (Except Fault reading.Result) :=
  (exhaust reading (ofSource ⟨events, 0, 0⟩ options) options.chunkSize_pos).1

theorem exhaust_tells (reading : Reading) (r : Reader) (room : 0 < r.chunk.size) :
    (exhaust reading r room).1.filter isFrame = (Frame.splitAll r.backlog).1.map reading.ofPayload ∧
      (exhaust reading r room).1.filterMap failure? = r.source.errors ∧
      (exhaust reading r room).1.filterMap closing? = Source.closings r.decoder.buffer r.source.events := by
  fun_induction exhaust reading r room with
  | case1 r room result r' h =>
    obtain ⟨hc, he⟩ := h
    have ht : reading.Tells r result r' := reading.tells_await r room
    obtain ⟨hf, hn, hb⟩ := ht.ended hc
    -- nothing is left to come, and what is in the buffer is no frame
    refine ⟨?_, ?_, ?_⟩
    · have hl : r'.backlog = r'.decoder.buffer := by
        rw [backlog, Source.left, he]
        exact List.append_nil _
      rw [ht.frames, hl, Frame.splitAll_of_not_begins hb]
      exact (List.append_nil _).symm
    · rw [ht.errors, Source.errors, he, List.filterMap_cons, hf]
      rfl
    · obtain ⟨pending, hp⟩ := Option.isSome_iff_exists.1 hc
      rw [ht.closings, hp, List.filterMap_cons, hp]
      simp only [he, if_true]
      rfl
  | case2 r room result r' h results last hx ih =>
    have ht : reading.Tells r result r' := reading.tells_await r room
    rw [hx] at ih
    obtain ⟨hf, he, hc⟩ := ih
    refine ⟨?_, ?_, ?_⟩
    · rw [ht.frames, ← hf]
      exact List.filter_append [result] results
    · rw [ht.errors, ← he, List.filterMap_cons]
      cases failure? result <;> rfl
    · rw [ht.closings, ← hc, List.filterMap_cons]
      cases hp : closing? result with
      | none => rfl
      | some pending =>
        have hn : r'.source.events ≠ [] := fun he => h ⟨by rw [hp]; rfl, he⟩
        exact congrArg (pending :: ·) (if_neg hn).symm

/-- **A reader goes on after an error.** However blocks are disturbed, the frames are those of their data,
and each lasting error and each empty receive comes back once. -/
theorem disturbances_surface {blocks : List Bytes} {events : List Event} (h : Disturbs blocks events)
    (reading : Reading) (options options' : Options) :
    let plain := readOut reading (blocks.map .data) options
    let disturbed := readOut reading events options'
    disturbed.filter isFrame = plain.filter isFrame ∧
      plain.filter isFrame = (Frame.splitAll blocks.flatten).1.map reading.ofPayload ∧
      disturbed.filterMap failure? = events.filterMap Event.error? ∧
      (∀ error ∈ disturbed.filterMap failure?, error.kind ≠ .interrupted) ∧
      disturbed.filterMap closing? = Source.closings [] events ∧
      ∀ r : Reader, isFrame (reading.await r).1 = false →
        (∃ receipts, r.source.Receives r.chunk.size receipts (reading.await r).2.source ∧
          (reading.await r).2.decoder.buffer = r.decoder.buffer ++ receipts.flatMap Receipt.data) ∧
        ∀ pending, closing? (reading.await r).1 = some pending → pending = (reading.await r).2.buffered := by
  intro plain disturbed
  obtain ⟨hf, _, _⟩ := exhaust_tells reading (ofSource ⟨blocks.map .data, 0, 0⟩ options) options.chunkSize_pos
  obtain ⟨hf', he', hc'⟩ := exhaust_tells reading (ofSource ⟨events, 0, 0⟩ options') options'.chunkSize_pos
  replace he' : disturbed.filterMap failure? = events.filterMap Event.error? := he'
  rw [backlog_ofSource, (Disturbs.undisturbed blocks).left] at hf
  rw [backlog_ofSource, h.left] at hf'
  refine ⟨hf'.trans hf.symm, hf, he', ?_, hc', ?_⟩
  · intro error hm
    rw [he'] at hm
    obtain ⟨event, _, hevent⟩ := List.mem_filterMap.1 hm
    exact event.not_interrupted hevent
  · intro r hr
    obtain ⟨receipts, text, ha, ht⟩ := reading.awaits r
    obtain ⟨hframe, _, hclosing⟩ := reading.ofFrame_isFrame text
    rw [ht] at hr ⊢
    rw [hframe] at hr
    refine ⟨⟨receipts, ha.receives.1, (ha.buffer hr).1⟩, fun pending hp => ?_⟩
    rw [hclosing] at hp
    exact ha.closing hp

theorem disturbances_surface_header :
    let blocks : List Bytes := [[1, 0, 0, 0, 0x37, 9]]
    let events : List Event := [.data [1, 0], .failure ⟨.interrupted, none⟩, .failure ⟨.timedOut, none⟩, .data [],
      .data [0, 0], .pending, .data [], .data [0x37, 9]]
    let plain := readOut .message (blocks.map .data) .usual
    let disturbed := readOut .message events (.ofChunkSize 0)
    Disturbs blocks events ∧ disturbed.filter isFrame = plain.filter isFrame ∧
      disturbed.filterMap failure? = [⟨.timedOut, none⟩, ⟨.wouldBlock, none⟩] ∧
      disturbed.filterMap closing? = [2, 4, 1] := by
  have h : Disturbs [[1, 0, 0, 0, 0x37, 9]] [.data [1, 0], .failure ⟨.interrupted, none⟩, .failure ⟨.timedOut, none⟩,
      .data [], .data [0, 0], .pending, .data [], .data [0x37, 9]] :=
    .piece [1, 0] [0, 0, 0x37, 9] (.failure _ (.failure _ (.empty
      (.piece [0, 0] [0x37, 9] (.waiting (.empty (.block [0x37, 9] .done)))))))
  obtain ⟨hf, _, he, _, hc, _⟩ := disturbances_surface h .message .usual (.ofChunkSize 0)
  refine ⟨h, hf, he, hc.trans ?_⟩
  have hs : Frame.splitAll [1, 0, 0, 0, 0x37, 9] = ([[0x37]], [9]) :=
    Frame.Cuts.splitAll_eq ⟨rfl, by decide, Frame.split?_eq_none_iff.1 rfl⟩
  have hn (bytes : Bytes) (hb : Frame.split? bytes = none) : (Frame.splitAll bytes).2.length = bytes.length := by
    rw [Frame.splitAll_none hb]
  show [(Frame.splitAll [1, 0]).2.length, (Frame.splitAll [1, 0, 0, 0]).2.length,
    (Frame.splitAll [1, 0, 0, 0, 0x37, 9]).2.length] = [2, 4, 1]
  rw [hn [1, 0] rfl, hn [1, 0, 0, 0] rfl, hs]
  rfl

end Reader

end Telemetry
