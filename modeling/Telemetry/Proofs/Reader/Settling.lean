import Telemetry.Proofs.Reader.Calls
import Telemetry.Proofs.Reader.Pass
import Telemetry.Proofs.Source.Settled
import Telemetry.Proofs.Source.Steady

/-!
# Polling in step with waiting

A reader that polls is held against one that waits on the same source without the
moments of waiting. An answer takes both on together (`Settles.poll`). A call that
comes back pending leaves a reader that no call tells apart from the one before
(`Alike`), so it makes no difference whether it is repeated or dropped.
-/

namespace Telemetry.Reader

/-- `b` is `a` on a source without moments of waiting. -/
structure Settles (a b : Reader) : Prop where
  source : a.source.Settles b.source
  chunk : b.chunk = a.chunk
  decoder : b.decoder = a.decoder
  ended : b.ended = a.ended

/-- No call tells the readers apart. -/
structure Alike (b c : Reader) : Prop where
  text : b.awaitText = c.awaitText
  ended : b.ended = c.ended
  backlog : b.backlog = c.backlog

theorem Alike.refl (b : Reader) : Alike b b := ⟨rfl, rfl, rfl⟩

theorem Alike.symm {b c : Reader} (h : Alike b c) : Alike c b := ⟨h.text.symm, h.ended.symm, h.backlog.symm⟩

theorem Alike.trans {b c d : Reader} (h : Alike b c) (h' : Alike c d) : Alike b d :=
  ⟨h.text.trans h'.text, h.ended.trans h'.ended, h.backlog.trans h'.backlog⟩

section
variable {a a' b : Reader}

theorem Settles.backlog (h : Settles a b) : b.backlog = a.backlog := by
  rw [Reader.backlog, h.decoder, h.source.left]
  rfl

theorem Settles.buffered (h : Settles a b) : b.buffered = a.buffered := by
  rw [Reader.buffered, h.decoder]
  rfl

/-! ## What a poll moves -/

theorem backlog_pollFill {n : Poll (Except Fault Nat)} (h : a.pollFill = (n, a')) : a'.backlog = a.backlog := by
  fun_induction Reader.pollFill a generalizing n with
  | case1 a source hr =>
    cases h
    simp only [Reader.backlog, Source.left_pending hr]
  | case2 a bytes source hr =>
    cases h
    rw [Reader.backlog, decoder_store a (Source.length_received hr), Reader.backlog, Source.left_received hr]
    exact List.append_assoc ..
  | case3 a error source hr hk ih =>
    rw [ih h]
    simp only [Reader.backlog, Source.left_failed hr]
  | case4 a error source hr hk =>
    cases h
    simp only [Reader.backlog, Source.left_failed hr]

theorem backlog_pollText_pending (h : a.pollText = (.pending, a')) : a'.backlog = a.backlog := by
  fun_induction Reader.pollText a with
  | case3 a _ _ r hf =>
    cases h
    exact backlog_pollFill hf
  | case6 a _ _ n r hf ih => rw [ih h, backlog_pollFill hf]
  | _ => cases h

/-! ## One call -/

theorem Settles.receive (h : Settles a b) : match a.source.receive a.chunk.size with
    | (.received bytes, s) => ∃ t, b.source.receiveNow b.chunk.size = (.ok bytes, t) ∧ s.Settles t
    | (.failed error, s) => ∃ t, b.source.receiveNow b.chunk.size = (.error error, t) ∧ s.Settles t
    | (.pending, s) => s.Settles b.source := by
  rw [h.chunk]
  exact h.source.receive a.chunk.size

theorem Settles.pollFill (h : Settles a b) : match a.pollFill with
    | (.ready n, a') => ∃ b', b.fill = (n, b') ∧ Settles a' b'
    | (.pending, a') => ∃ b', b.fill = b'.fill ∧ b'.decoder = b.decoder ∧ Settles a' b' := by
  have hs := h.receive
  fun_induction Reader.pollFill a generalizing b with
  | case1 a source hr =>
    rw [hr] at hs
    exact ⟨b, rfl, rfl, hs, h.chunk, h.decoder, h.ended⟩
  | case2 a bytes source hr =>
    rw [hr] at hs
    obtain ⟨t, ht, hs⟩ := hs
    rw [fill_eq, ht]
    refine ⟨_, rfl, hs, ?_, ?_, h.ended⟩
    · rw [store, h.chunk]
      rfl
    · rw [store, store, h.decoder, h.chunk]
  | case3 a error source hr hk ih =>
    rw [hr] at hs
    obtain ⟨t, ht, hs⟩ := hs
    have h' : Settles { a with source } { b with source := t } := ⟨hs, h.chunk, h.decoder, h.ended⟩
    rw [fill_eq, ht]
    simp only [if_pos hk]
    exact ih h' h'.receive
  | case4 a error source hr hk =>
    rw [hr] at hs
    obtain ⟨t, ht, hs⟩ := hs
    rw [fill_eq, ht]
    simp only [if_neg hk]
    exact ⟨_, rfl, hs, h.chunk, h.decoder, h.ended⟩

theorem Settles.pollText (h : Settles a b) : match a.pollText with
    | (.ready text, a') => ∃ b', b.awaitText = (text, b') ∧ Settles a' b'
    | (.pending, a') => ∃ b', b.awaitText = b'.awaitText ∧ Settles a' b' := by
  -- a pass that receives something leaves less to come
  induction hw : a.source.weight using Nat.strongRecOn generalizing a b with | _ w ih
  cases hs : Frame.split? a.decoder.buffer with
  | some pair =>
    obtain ⟨payload, rest⟩ := pair
    rw [pollText_of_split? hs]
    have hs' : Frame.split? b.decoder.buffer = some (payload, rest) := by rw [h.decoder, hs]
    exact ⟨_, awaitText_of_split? hs', h.source, h.chunk, rfl, h.ended⟩
  | none =>
    have ha : ¬ Frame.Begins a.decoder.buffer := Frame.split?_eq_none_iff.1 hs
    have hb : ¬ Frame.Begins b.decoder.buffer := by rwa [h.decoder]
    have hf := h.pollFill
    rw [pollText_of_none ha, awaitText_of_none hb]
    rcases hp : a.pollFill with ⟨(fault | _ | n) | _, a₁⟩ <;> rw [hp] at hf <;> obtain ⟨b₁, hf, hs₁⟩ := hf
    · rw [hf]
      exact ⟨b₁, rfl, hs₁⟩
    · have hl : b₁.buffered = a₁.buffered := hs₁.buffered
      simp only [hf]
      exact ⟨b₁, by rw [hl], hs₁⟩
    · rw [hf]
      have := pollFill_ok hp
      exact ih a₁.source.weight (by omega) hs₁ rfl
    · obtain ⟨hd, hs₁⟩ := hs₁
      refine ⟨b₁, ?_, hs₁⟩
      rw [hf, awaitText_of_none (by rwa [hd])]

theorem Settles.alike {b' : Reader} (h : Settles a b) (ha : a.pollText = (.pending, a'))
    (ht : b.awaitText = b'.awaitText) (h' : Settles a' b') : Alike b b' := by
  refine ⟨ht, ?_, ?_⟩
  · rw [h.ended, h'.ended, (pollText_pending ha).2.2]
  · rw [h.backlog, h'.backlog, backlog_pollText_pending ha]

theorem Settles.pollReading (h : Settles a b) (reading : Reading) : match reading.poll a with
    | (.ready answer, a') => ∃ b', reading.await b = (answer, b') ∧ Settles a' b'
    | (.pending, a') => ∃ b', reading.await b = reading.await b' ∧ Alike b b' ∧ Settles a' b' := by
  have ht := h.pollText
  rw [reading.poll_eq, reading.await_eq]
  rcases hp : a.pollText with ⟨text | _, a'⟩ <;> rw [hp] at ht <;> obtain ⟨b', ht, hs⟩ := ht
  · rw [ht]
    exact ⟨b', rfl, hs⟩
  · exact ⟨b', by rw [reading.await_eq, ht], h.alike hp ht hs, hs⟩

theorem Settles.poll (h : Settles a b) (call : Call) : match call.poll a with
    | (.ready answer, a') => ∃ b', call.await b = (answer, b') ∧ Settles a' b'
    | (.pending, a') => ∃ b', call.await b = call.await b' ∧ Alike b b' ∧ Settles a' b' := by
  cases call with
  | read reading =>
    have hr := h.pollReading reading
    rcases hp : reading.poll a with ⟨answer | _, a'⟩ <;> rw [hp] at hr
    · have hc : (Call.read reading).poll a = (.ready answer, a') := hp
      rw [hc]
      exact hr
    · have hc : (Call.read reading).poll a = (.pending, a') := hp
      rw [hc]
      exact hr
  | next =>
    have hm := h.pollReading .message
    unfold Call.poll Call.await pollNext Reader.next
    by_cases he : a.ended
    · simp only [if_pos he, if_pos (h.ended.trans he)]
      exact ⟨b, rfl, h⟩
    · have he' : ¬ b.ended := by rwa [h.ended]
      simp only [if_neg he, if_neg he']
      unfold Reading.poll Reading.await at hm
      rcases hp : a.pollMessage with ⟨item | _, a'⟩ <;> simp only [hp] at hm ⊢
      · obtain ⟨b', ha, hs⟩ := hm
        rw [ha]
        exact ⟨_, rfl, hs.source, hs.chunk, hs.decoder, rfl⟩
      · obtain ⟨b', ha, hl, hs⟩ := hm
        refine ⟨b', ?_, hl, hs⟩
        rw [if_neg (by rwa [← hl.ended]), ha]

end

theorem Alike.await {b c : Reader} (h : Alike b c) (call : Call) :
    (call.await b).1 = (call.await c).1 ∧ Alike (call.await b).2 (call.await c).2 := by
  cases call with
  | read reading =>
    have hr : (Call.read reading).await b = (Call.read reading).await c := by
      show reading.await b = reading.await c
      rw [reading.await_eq, reading.await_eq, h.text]
    rw [hr]
    exact ⟨rfl, .refl _⟩
  | next =>
    have hm : b.awaitMessage = c.awaitMessage := by rw [awaitMessage, awaitMessage, awaitAs, awaitAs, h.text]
    unfold Call.await Reader.next
    by_cases he : b.ended
    · simp only [if_pos he, if_pos (h.ended ▸ he)]
      exact ⟨rfl, h⟩
    · have he' : ¬ c.ended := by rwa [← h.ended]
      simp only [if_neg he, if_neg he', hm]
      exact ⟨rfl, .refl _⟩

theorem Settles.settle {a b : Reader} (h : Settles a b) (call : Call) :
    ∃ b', call.await b = ((call.settle a).1, b') ∧ Settles (call.settle a).2 b' := by
  unfold Call.settle
  fun_induction untilReady call.poll call.advances_poll a generalizing b with
  | case1 a answer a' hp =>
    have := h.poll call
    rw [hp] at this
    exact this
  | case2 a a' hp ih =>
    have := h.poll call
    rw [hp] at this
    obtain ⟨b', ha, _, hs⟩ := this
    rw [ha]
    exact ih hs

end Telemetry.Reader
