import Telemetry.Proofs.Frame.Cut
import Telemetry.Proofs.Reader.Pass
import Telemetry.Proofs.Reader.Reading
import Telemetry.Proofs.Source.Steady

/-!
# Waiting gives the frames of the whole source

On a steady source the k-th reading gives the k-th frame of all the data, read as
that reading reads, and every reading after the last frame finds the connection
closed (`await_frames`). What a reading moves is the backlog: the bytes received
and not taken off, and behind them the data still to come.
-/

namespace Telemetry.Reader

/-- The source never fails for good, and a receive has room. -/
structure Steady (r : Reader) : Prop where
  source : r.source.Steady
  room : 0 < r.chunk.size

theorem steady_ofSource {source : Source} (h : source.Steady) (options : Options) :
    (ofSource source options).Steady := ⟨h, options.chunkSize_pos⟩

theorem backlog_ofSource (source : Source) (options : Options) :
    (ofSource source options).backlog = source.left := rfl

section
variable {r : Reader}

theorem Steady.fill (h : r.Steady) : ∃ n r', r.fill = (.ok n, r') ∧ r'.Steady ∧ r'.backlog = r.backlog ∧
    (n = 0 → r.source.left = []) := by
  fun_induction Reader.fill r with
  | case1 r received source hr =>
    rcases h.source.receiveNow h.room with ⟨bytes, s', hr', hs, he, hl⟩ | ⟨error, s', hr', _⟩ <;> rw [hr] at hr' <;>
      cases hr'
    refine ⟨_, _, rfl, ⟨hs, h.room⟩, ?_, fun hn => he (List.length_eq_zero_iff.1 hn)⟩
    rw [backlog, decoder_store r (Source.length_receiveNow hr), backlog, hl]
    exact List.append_assoc ..
  | case2 r error source hr hk ih =>
    rcases h.source.receiveNow h.room with ⟨_, _, hr', _⟩ | ⟨_, s', hr', _, hs, hl⟩ <;> rw [hr] at hr' <;> cases hr'
    obtain ⟨n, r', hf, hs', hb, hn⟩ := ih ⟨hs, h.room⟩
    refine ⟨n, r', hf, hs', ?_, fun h0 => ?_⟩
    · rw [hb]
      simp only [backlog, hl]
    · rw [← hl]
      exact hn h0
  | case3 r error source hr hk =>
    rcases h.source.receiveNow h.room with ⟨_, _, hr', _⟩ | ⟨_, _, hr', hk', _⟩ <;> rw [hr] at hr' <;> cases hr'
    exact absurd hk' hk

theorem Steady.awaitText (h : r.Steady) : match Frame.split? r.backlog with
    | some (payload, rest) => ∃ r', r.awaitText = (Decoder.textOf payload, r') ∧ r'.Steady ∧ r'.backlog = rest
    | none => ∃ r', r.awaitText = (.error (.closed r.backlog.length), r') ∧ r'.Steady ∧ r'.backlog = r.backlog := by
  -- each pass receives at least one byte, so what is still to come shrinks
  induction hw : r.source.weight using Nat.strongRecOn generalizing r with | _ w ih
  cases hs : Frame.split? r.decoder.buffer with
  | some pair =>
    obtain ⟨payload, rest⟩ := pair
    rw [backlog, Frame.split?_append hs r.source.left]
    exact ⟨_, awaitText_of_split? hs, ⟨h.source, h.room⟩, rfl⟩
  | none =>
    have hb := Frame.split?_eq_none_iff.1 hs
    obtain ⟨n, r₁, hf, hs₁, hb₁, hn⟩ := h.fill
    have hr := awaitText_of_none hb
    rw [hf] at hr
    cases n with
    | zero =>
      have hbuf : r.backlog = r.decoder.buffer := by rw [backlog, hn rfl, List.append_nil]
      have hlen : r₁.buffered = r.backlog.length := by
        rw [hbuf]
        exact (fill_ok hf).2.1
      rw [hbuf, hs, ← hbuf, ← hlen]
      exact ⟨r₁, hr, hs₁, hb₁⟩
    | succ n =>
      have hlt := (fill_ok hf).1
      have hnext := ih r₁.source.weight (by omega) hs₁ rfl
      rw [hb₁] at hnext
      rw [hr]
      exact hnext

end

/-! ## All kinds of readings -/

def upcoming (payloads : List Bytes) (last : Bytes) (reading : Reading) : Except Fault reading.Result :=
  match payloads with
  | [] => .error (.closed last.length)
  | payload :: _ => reading.ofPayload payload

theorem Steady.await {r : Reader} {payloads : List Bytes} {last : Bytes} (h : r.Steady)
    (hb : Frame.splitAll r.backlog = (payloads, last)) (reading : Reading) :
    ∃ r', reading.await r = (upcoming payloads last reading, r') ∧ r'.Steady ∧
      Frame.splitAll r'.backlog = (payloads.tail, last) := by
  have ht := h.awaitText
  cases hs : Frame.split? r.backlog with
  | none =>
    rw [hs] at ht
    obtain ⟨r', ht, hr', hb'⟩ := ht
    rw [Frame.splitAll_none hs] at hb
    cases hb
    refine ⟨r', ?_, hr', ?_⟩
    · rw [reading.await_eq, ht, reading.ofFrame_error]
      rfl
    · rw [hb', Frame.splitAll_none hs]
      rfl
  | some pair =>
    obtain ⟨payload, rest⟩ := pair
    rw [hs] at ht
    obtain ⟨r', ht, hr', hb'⟩ := ht
    rw [Frame.splitAll_some hs] at hb
    cases hb
    refine ⟨r', ?_, hr', by rw [hb']; rfl⟩
    rw [reading.await_eq, ht, reading.ofFrame_textOf]
    rfl

theorem Steady.after {r : Reader} {payloads : List Bytes} {last : Bytes} (h : r.Steady)
    (hb : Frame.splitAll r.backlog = (payloads, last)) (readings : List Reading) :
    (r.after readings).Steady ∧ Frame.splitAll (r.after readings).backlog = (payloads.drop readings.length, last) := by
  induction readings generalizing r payloads with
  | nil => exact ⟨h, hb⟩
  | cons reading readings ih =>
    obtain ⟨r', hr, h', hb'⟩ := h.await hb reading
    have := ih h' hb'
    rw [List.drop_tail] at this
    simp only [Reader.after, List.foldl_cons, hr]
    exact this

/-- **Waiting gives the frames of the whole source,** however its data is cut into blocks, chunks and
receives, and then finds the connection closed. -/
theorem await_frames (source : Source) (h : source.Steady) (options : Options) :
    let payloads := (Frame.splitAll source.left).1
    let last := (Frame.splitAll source.left).2
    Frame.Cuts source.left payloads last ∧
      (∀ (earlier : List Reading) (reading : Reading),
        (reading.await ((ofSource source options).after earlier)).1 =
          match payloads[earlier.length]? with
          | some payload => reading.ofPayload payload
          | none => .error (.closed last.length)) ∧
      (∀ (reading : Reading) (payload : Bytes) (fault : Fault),
        reading.ofPayload payload = .error fault → ∃ reason, fault = .decoding payload reason) ∧
      ∀ (payload : Bytes) (text : String),
        Reading.text.ofPayload payload = .ok text ↔ Bytes.ofText text = payload := by
  intro payloads last
  refine ⟨Frame.cuts_splitAll source.left, fun earlier reading => ?_, fun reading _ _ => reading.ofPayload_fault,
    fun _ _ => Reading.ofPayload_text_iff⟩
  have hb : Frame.splitAll (ofSource source options).backlog = (payloads, last) := rfl
  obtain ⟨hr, hd⟩ := (steady_ofSource h options).after hb earlier
  obtain ⟨_, ha, _⟩ := hr.await hd reading
  rw [ha, ← List.head?_drop]
  cases payloads.drop earlier.length <;> rfl

theorem await_frames_interrupted :
    let source : Source :=
      ⟨[.data [1, 0], .failure ⟨.interrupted, none⟩, .data [0, 0, 0x37, 1, 0, 0, 0, 0xFF, 9]], 0, 0⟩
    let r := ofSource source (.ofChunkSize 0)
    source.Steady ∧
      (Reading.message.await (r.after [])).1 = .ok (.number (.int 7)) ∧
      (Reading.text.await (r.after [.message])).1 = .error (.decoding [0xFF] (.utf8 (.invalid 0 1))) ∧
      (Reading.message.await (r.after [.message, .text])).1 = .error (.closed 1) := by
  intro source r
  have hs : source.Steady := by
    intro event hm
    simp only [source, List.mem_cons, List.not_mem_nil, or_false] at hm
    rcases hm with rfl | rfl | rfl
    · exact List.cons_ne_nil _ _
    · rfl
    · exact List.cons_ne_nil _ _
  have hc : Frame.splitAll source.left = ([[0x37], [0xFF]], [9]) :=
    Frame.Cuts.splitAll_eq ⟨rfl, by decide, Frame.split?_eq_none_iff.1 rfl⟩
  obtain ⟨_, ha, _⟩ := await_frames source hs (.ofChunkSize 0)
  rw [hc] at ha
  exact ⟨hs, ha [] .message, ha [.message] .text, ha [.message, .text] .message⟩

end Telemetry.Reader
