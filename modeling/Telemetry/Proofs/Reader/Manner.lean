import Telemetry.Proofs.Reader.Awaiting
import Telemetry.Proofs.Reader.Calls

/-!
# Waiting and polling as two manners of one call

The two manners differ in one receive only, the one that finds nothing yet
(`text_pass`). Neither looks at whether the sequence of messages has ended, nor at
what earlier receives have left in the chunk (`Level.text`).
-/

namespace Telemetry

inductive Manner where
  | waiting
  | polling

namespace Manner

open Reader

def atPending : Manner → Poll (Except Fault String)
  | .waiting => .ready (.error (.io ⟨.wouldBlock, none⟩))
  | .polling => .pending

def text : Manner → Reader → Poll (Except Fault String) × Reader
  | .waiting, r => (.ready r.awaitText.1, r.awaitText.2)
  | .polling, r => r.pollText

def call : Manner → (call : Call) → Reader → Poll call.Answer × Reader
  | .waiting, call, r => (.ready (call.await r).1, (call.await r).2)
  | .polling, call, r => call.poll r

/-! ## One pass -/

section
variable (manner : Manner) {r : Reader}

theorem pollFill_eq (r : Reader) : r.pollFill = match r.source.receive r.chunk.size with
    | (.pending, source) => (.pending, { r with source })
    | (.received bytes, source) => (.ready (.ok bytes.length), r.store bytes source)
    | (.failed error, source) =>
      if error.kind = .interrupted then pollFill { r with source }
      else (.ready (.error (.io error)), { r with source }) := by
  rw [pollFill]
  split <;> rename_i hr <;> rw [hr]

theorem pollText_pass (hb : ¬ Frame.Begins r.decoder.buffer) :
    r.pollText = match r.source.receive r.chunk.size with
      | (.received [], source) => (.ready (.error (.closed (r.store [] source).buffered)), r.store [] source)
      | (.received (b :: bytes), source) => (r.store (b :: bytes) source).pollText
      | (.failed error, source) =>
        if error.kind = .interrupted then ({ r with source } : Reader).pollText
        else (.ready (.error (.io error)), { r with source })
      | (.pending, source) => (.pending, { r with source }) := by
  rw [pollText_of_none hb, pollFill_eq]
  rcases r.source.receive r.chunk.size with ⟨(_ | ⟨b, bytes⟩) | error | _, source⟩
  · rfl
  · rfl
  · by_cases hk : error.kind = .interrupted
    · have hw : ({ r with source } : Reader).pollText = _ := pollText_of_none hb
      simp only [if_pos hk, hw]
    · simp only [if_neg hk]
  · rfl

theorem text_of_split? {payload rest : Bytes} (hs : Frame.split? r.decoder.buffer = some (payload, rest)) :
    manner.text r = (.ready (Decoder.textOf payload), { r with decoder := ⟨rest⟩ }) := by
  cases manner with
  | waiting => rw [text, awaitText_of_split? hs]
  | polling => exact pollText_of_split? hs

theorem text_pass (hb : ¬ Frame.Begins r.decoder.buffer) :
    manner.text r = match r.source.receive r.chunk.size with
      | (.received [], source) => (.ready (.error (.closed (r.store [] source).buffered)), r.store [] source)
      | (.received (b :: bytes), source) => manner.text (r.store (b :: bytes) source)
      | (.failed error, source) =>
        if error.kind = .interrupted then manner.text { r with source }
        else (.ready (.error (.io error)), { r with source })
      | (.pending, source) => (manner.atPending, { r with source }) := by
  cases manner with
  | waiting =>
    rw [text, awaitText_pass hb]
    rcases r.source.receive r.chunk.size with ⟨(_ | ⟨b, bytes⟩) | error | _, source⟩
    · rfl
    · rfl
    · by_cases hk : error.kind = .interrupted
      · simp only [if_pos hk, text]
      · simp only [if_neg hk]
    · rfl
  | polling => exact pollText_pass hb

/-! ## Calls by the text they get -/

theorem call_read (reading : Reading) (r : Reader) :
    manner.call (.read reading) r = ((manner.text r).1.map reading.ofFrame, (manner.text r).2) := by
  cases manner with
  | waiting =>
    show (Poll.ready (reading.await r).1, (reading.await r).2) = _
    rw [reading.await_eq]
    rfl
  | polling => exact reading.poll_eq r

theorem call_next_of_ended (h : r.ended = true) : manner.call .next r = (.ready none, r) := by
  cases manner with
  | waiting =>
    show (Poll.ready r.next.1, r.next.2) = _
    rw [Reader.next, if_pos h]
    rfl
  | polling =>
    show r.pollNext = _
    rw [pollNext, if_pos h]
    rfl

theorem call_next (h : r.ended = false) : manner.call .next r =
    match manner.call (.read .message) r with
    | (.pending, r') => (.pending, r')
    | (.ready item, r') => (.ready (some item), { r' with ended := !item.isOk }) := by
  have hn : ¬ r.ended = true := by simp [h]
  cases manner with
  | waiting =>
    show (Poll.ready r.next.1, r.next.2) = _
    rw [Reader.next, if_neg hn]
    rfl
  | polling =>
    show r.pollNext = _
    rw [pollNext, if_neg hn]
    rfl

end

end Manner

namespace Reader

/-- Readers that have received the same and have the same still to come. -/
structure Level (a b : Reader) : Prop where
  source : b.source = a.source
  decoder : b.decoder = a.decoder
  size : b.chunk.size = a.chunk.size

section
variable {a b : Reader}

theorem Level.store (h : Level a b) {bytes : Bytes} (hl : bytes.length ≤ a.chunk.size) (source : Source) :
    Level (a.store bytes source) (b.store bytes source) := by
  constructor
  · rfl
  · rw [decoder_store b (by rwa [h.size]), decoder_store a hl, h.decoder]
  · exact h.size

theorem Level.text (manner : Manner) (h : Level a b) :
    (manner.text b).1 = (manner.text a).1 ∧ Level (manner.text a).2 (manner.text b).2 ∧
      (manner.text a).2.ended = a.ended := by
  -- a pass that goes on has taken something off the source
  induction hw : a.source.weight using Nat.strongRecOn generalizing a b with | _ w ih
  cases hs : Frame.split? a.decoder.buffer with
  | some pair =>
    obtain ⟨payload, rest⟩ := pair
    have hs' : Frame.split? b.decoder.buffer = some (payload, rest) := by rw [h.decoder, hs]
    rw [manner.text_of_split? hs, manner.text_of_split? hs']
    exact ⟨rfl, ⟨h.source, rfl, h.size⟩, rfl⟩
  | none =>
    have ha : ¬ Frame.Begins a.decoder.buffer := Frame.split?_eq_none_iff.1 hs
    have hb : ¬ Frame.Begins b.decoder.buffer := by rwa [h.decoder]
    rw [manner.text_pass ha, manner.text_pass hb, h.source, h.size]
    rcases hr : a.source.receive a.chunk.size with ⟨(_ | ⟨c, bytes⟩) | error | _, source⟩
    · have hl := h.store (Source.length_received hr) source
      refine ⟨?_, hl, rfl⟩
      simp only [buffered, hl.decoder]
    · have hlt := Source.weight_received hr
      rw [List.length_cons] at hlt
      exact ih source.weight (by omega) (h.store (Source.length_received hr) source) rfl
    · have h' : Level { a with source } { b with source } := ⟨rfl, h.decoder, h.size⟩
      by_cases hk : error.kind = .interrupted
      · simp only [if_pos hk]
        exact ih source.weight (by have := Source.weight_failed hr; omega) h' rfl
      · simp only [if_neg hk, true_and, and_true]
        exact h'
    · exact ⟨rfl, ⟨rfl, h.decoder, h.size⟩, rfl⟩

theorem Level.read (manner : Manner) (h : Level a b) (reading : Reading) :
    (manner.call (.read reading) b).1 = (manner.call (.read reading) a).1 ∧
      Level (manner.call (.read reading) a).2 (manner.call (.read reading) b).2 := by
  obtain ⟨ht, hl, _⟩ := h.text manner
  have ha := manner.call_read reading a
  have hb := manner.call_read reading b
  constructor
  · have hb' := congrArg Prod.fst hb
    simp only [ht] at hb'
    exact hb'.trans (congrArg Prod.fst ha).symm
  · rw [congrArg Prod.snd ha, congrArg Prod.snd hb]
    exact hl

theorem Level.refl (a : Reader) : Level a a := ⟨rfl, rfl, rfl⟩

end

end Reader

end Telemetry
