import Telemetry.Proofs.Reader.Manner
import Telemetry.Proofs.Reader.Resuming

/-!
# What a call does

A call waits for one frame, in either manner, or it finds that the sequence has ended
(`does_call`). It receives only while it holds no complete frame (`Gathers`), and
`Does.outcome` tells apart what comes of it: the frame that its last receive has
completed, or no frame and nothing lost.
-/

namespace Telemetry

open Reader

namespace Call

def ofText : (call : Call) → Except Fault String → call.Answer
  | .read reading, text => reading.ofFrame text
  | .next, text => some (Reading.message.ofFrame text)

def ofPayload : (call : Call) → Bytes → call.Answer
  | .read reading, payload => reading.ofPayload payload
  | .next, payload => some (Reading.message.ofPayload payload)

def gotFrame : (call : Call) → Poll call.Answer → Bool
  | .read _, .ready result => isFrame result
  | .next, .ready (some item) => isFrame item
  | _, _ => false

def fault? : (call : Call) → Poll call.Answer → Option Fault
  | .read _, .ready (.error fault) => some fault
  | .next, .ready (some (.error fault)) => some fault
  | _, _ => none

theorem ofText_textOf (call : Call) (payload : Bytes) :
    call.ofText (Decoder.textOf payload) = call.ofPayload payload := by
  cases call with
  | read reading => exact reading.ofFrame_textOf payload
  | next => exact congrArg some (Reading.message.ofFrame_textOf payload)

theorem gotFrame_ofText (call : Call) (text : Except Fault String) :
    call.gotFrame (.ready (call.ofText text)) = isFrame text := by
  cases call with
  | read reading => exact (reading.ofFrame_isFrame text).1
  | next => exact (Reading.message.ofFrame_isFrame text).1

theorem fault?_ofText_error (call : Call) (fault : Fault) :
    call.fault? (.ready (call.ofText (.error fault))) = some fault := by
  cases call with
  | read reading =>
    rw [ofText, reading.ofFrame_error]
    rfl
  | next =>
    rw [ofText, Reading.message.ofFrame_error]
    rfl

end Call

/-! ## Receives and their answer -/

theorem Receipt.not_interrupted {receipt : Receipt} {error : IoError} (h : receipt.error? = some error) :
    error.kind ≠ .interrupted := by
  cases receipt with
  | received bytes => cases h
  | failed e => exact @Event.not_interrupted (.failure e) error h
  | pending => exact @Event.not_interrupted .pending error h

def Manner.answer : Manner → List Receipt → Except Fault String → Poll (Except Fault String)
  | .waiting, _, text => .ready text
  | .polling, receipts, text => if .pending ∈ receipts then .pending else .ready text

theorem Manner.answer_cons (manner : Manner) {receipt : Receipt} (h : receipt ≠ .pending) (receipts : List Receipt)
    (text : Except Fault String) : manner.answer (receipt :: receipts) text = manner.answer receipts text := by
  cases manner with
  | waiting => rfl
  | polling => simp [answer, h.symm]

theorem Manner.answer_cases (manner : Manner) (receipts : List Receipt) (text : Except Fault String) :
    manner.answer receipts text = .ready text ∨ manner.answer receipts text = .pending := by
  cases manner with
  | waiting => exact .inl rfl
  | polling =>
    rw [answer]
    by_cases hp : .pending ∈ receipts
    · exact .inr (if_pos hp)
    · exact .inl (if_neg hp)

namespace Reader

/-- Before each of these receives no frame is complete in what is there. -/
def Lacks (buffer : Bytes) (receipts : List Receipt) : Prop :=
  ∀ front, front <+: receipts → front ≠ receipts → ¬ Frame.Begins (buffer ++ front.flatMap Receipt.data)

theorem lacks_nil (buffer : Bytes) : Lacks buffer [] := by
  intro front hf hn
  exact absurd (List.prefix_nil.1 hf) hn

theorem Lacks.cons {buffer : Bytes} {receipt : Receipt} {receipts : List Receipt} (hb : ¬ Frame.Begins buffer)
    (h : Lacks (buffer ++ receipt.data) receipts) : Lacks buffer (receipt :: receipts) := by
  intro front hf hn
  rcases List.prefix_cons_iff.1 hf with rfl | ⟨others, rfl, ho⟩
  · simpa using hb
  · have := h others ho fun he => hn (congrArg _ he)
    rwa [List.append_assoc] at this

structure Gathers (r : Reader) (receipts : List Receipt) (r' : Reader) : Prop where
  receives : r.source.Receives r.chunk.size receipts r'.source
  size : r'.chunk.size = r.chunk.size
  lacks : Lacks r.decoder.buffer receipts

section
variable {r r' : Reader} {receipts : List Receipt} {result : Except Fault String}

theorem Awaits.text (h : Awaits r receipts result r') (manner : Manner) :
    manner.text r = (manner.answer receipts result, r') := by
  induction h with
  | @taken r payload rest hs =>
    rw [manner.text_of_split? hs]
    cases manner <;> rfl
  | closed hb hr =>
    rw [manner.text_pass hb, hr]
    cases manner <;> rfl
  | @failed r receipt error source hb hr he =>
    rw [manner.text_pass hb, hr]
    cases receipt with
    | received bytes => cases he
    | failed e =>
      rw [Receipt.error?] at he
      split at he
      · cases he
      · rename_i hk
        cases he
        simp only [if_neg hk]
        cases manner <;> rfl
    | pending =>
      cases he
      cases manner <;> rfl
  | @data r r' bytes source receipts result hb hr hn _ ih =>
    rw [manner.text_pass hb, hr, manner.answer_cons Receipt.noConfusion]
    cases bytes with
    | nil => exact absurd rfl hn
    | cons b bytes => exact ih
  | interrupted hb hr hk _ ih =>
    rw [manner.text_pass hb, hr, manner.answer_cons Receipt.noConfusion]
    simp only [if_pos hk]
    exact ih

theorem Awaits.gathers (h : Awaits r receipts result r') : Gathers r receipts r' := by
  refine ⟨h.receives.1, h.receives.2, ?_⟩
  induction h with
  | taken _ => exact lacks_nil _
  | closed hb _ => exact .cons hb (lacks_nil _)
  | failed hb _ _ => exact .cons hb (lacks_nil _)
  | data hb hr _ _ ih =>
    rw [buffer_store hr] at ih
    exact .cons hb ih
  | @interrupted r _ error _ _ _ hb _ _ _ ih =>
    have hd : r.decoder.buffer ++ (Receipt.failed error).data = r.decoder.buffer := List.append_nil _
    exact .cons hb (by rwa [hd])

theorem Awaits.taken_frame (h : Awaits r receipts result r') (hf : isFrame result = true) :
    .pending ∉ receipts ∧ ∃ payload, result = Decoder.textOf payload ∧
      Frame.split? (r.decoder.buffer ++ receipts.flatMap Receipt.data) = some (payload, r'.decoder.buffer) := by
  induction h with
  | @taken r payload rest hs =>
    refine ⟨List.not_mem_nil, payload, rfl, ?_⟩
    rwa [List.flatMap_nil, List.append_nil]
  | closed _ _ => cases hf
  | failed _ _ _ => cases hf
  | data _ hr _ _ ih =>
    obtain ⟨hp, payload, ht, hs⟩ := ih hf
    refine ⟨by simp [hp], payload, ht, ?_⟩
    rwa [buffer_store hr, List.append_assoc] at hs
  | interrupted _ _ _ _ ih =>
    obtain ⟨hp, payload, ht, hs⟩ := ih hf
    exact ⟨by simp [hp], payload, ht, hs⟩

theorem Awaits.fault (h : Awaits r receipts result r') (hf : isFrame result = false) :
    (∃ error, result = .error (.io error) ∧ error.kind ≠ .interrupted) ∨
      result = .error (.closed r'.buffered) ∧ ∃ front, receipts = front ++ [.received []] := by
  induction h with
  | @taken r payload rest _ =>
    rw [(textOf_isFrame payload).1] at hf
    cases hf
  | closed _ _ => exact .inr ⟨rfl, [], rfl⟩
  | failed _ _ he => exact .inl ⟨_, rfl, Receipt.not_interrupted he⟩
  | data _ _ _ _ ih =>
    refine (ih hf).imp_right ?_
    rintro ⟨ht, front, rfl⟩
    exact ⟨ht, _ :: front, rfl⟩
  | interrupted _ _ _ _ ih =>
    refine (ih hf).imp_right ?_
    rintro ⟨ht, front, rfl⟩
    exact ⟨ht, _ :: front, rfl⟩

end

end Reader

/-! ## One call -/

/-- A call waits once, or finds that the sequence has ended. -/
inductive Manner.Does (manner : Manner) (r : Reader) : (call : Call) → Poll call.Answer → Reader → Prop where
  | ended (h : r.ended = true) : Does manner r .next (.ready none) r
  | waits {call : Call} {receipts : List Receipt} {text : Except Fault String} {r₁ r' : Reader}
      (h : Awaits r receipts text r₁) (hl : Level r₁ r') :
      Does manner r call ((manner.answer receipts text).map call.ofText) r'

theorem Manner.does_call (manner : Manner) (r : Reader) (call : Call) :
    manner.Does r call (manner.call call r).1 (manner.call call r).2 := by
  obtain ⟨receipts, h⟩ := awaits_awaitText r
  have ht := h.text manner
  have hr (reading : Reading) : manner.call (.read reading) r =
      ((manner.answer receipts r.awaitText.1).map reading.ofFrame, r.awaitText.2) := by
    rw [manner.call_read, ht]
  cases call with
  | read reading =>
    rw [hr]
    exact .waits h (Level.refl _)
  | next =>
    by_cases he : r.ended = true
    · rw [manner.call_next_of_ended he]
      exact .ended he
    · have hw (r' : Reader) (hl : Level r.awaitText.2 r') : manner.Does r .next _ r' := .waits h hl
      rw [manner.call_next (by simpa using he), hr]
      cases ha : manner.answer receipts r.awaitText.1 with
      | ready text =>
        rw [ha] at hw
        exact hw _ ⟨rfl, rfl, rfl⟩
      | pending =>
        rw [ha] at hw
        exact hw _ (Level.refl _)

section
variable {manner : Manner} {call : Call} {answer : Poll call.Answer} {r r' : Reader}

theorem Call.gotFrame_ofPayload (call : Call) (payload : Bytes) :
    call.gotFrame (.ready (call.ofPayload payload)) = true := by
  rw [← call.ofText_textOf, call.gotFrame_ofText]
  exact (textOf_isFrame payload).1

theorem Manner.Does.outcome (h : manner.Does r call answer r') : ∃ receipts, Gathers r receipts r' ∧
    ((∃ payload, answer = .ready (call.ofPayload payload) ∧
      Frame.split? (r.decoder.buffer ++ receipts.flatMap Receipt.data) = some (payload, r'.decoder.buffer)) ∨
    call.gotFrame answer = false ∧ r'.decoder.buffer = r.decoder.buffer ++ receipts.flatMap Receipt.data ∧
      (receipts = [] ∧ r.ended = true ∨ ¬ Frame.Begins r'.decoder.buffer)) := by
  cases h with
  | ended h =>
    exact ⟨[], ⟨.nil, rfl, lacks_nil _⟩, .inr ⟨rfl, (List.append_nil _).symm, .inl ⟨rfl, h⟩⟩⟩
  | @waits call receipts text r₁ r' h hl =>
    have hg := h.gathers
    refine ⟨receipts, ⟨?_, hl.size.trans hg.size, hg.lacks⟩, ?_⟩
    · rw [hl.source]
      exact hg.receives
    · cases hf : isFrame text with
      | true =>
        obtain ⟨hp, payload, rfl, hs⟩ := h.taken_frame hf
        refine .inl ⟨payload, ?_, by rwa [hl.decoder]⟩
        rw [← call.ofText_textOf]
        cases manner with
        | waiting => rfl
        | polling =>
          rw [answer, if_neg hp]
          rfl
      | false =>
        obtain ⟨hb, hn⟩ := h.buffer hf
        rw [hl.decoder]
        refine .inr ⟨?_, hb, .inr hn⟩
        rcases manner.answer_cases receipts text with ha | ha <;> rw [ha]
        · exact (call.gotFrame_ofText text).trans hf
        · cases call <;> rfl

end

end Telemetry
