import Telemetry.Proofs.Frame.Encoding
import Telemetry.Proofs.Path.Selecting
import Telemetry.Proofs.Reader.Sparing
import Telemetry.Proofs.Sink.Writes
import Telemetry.Sink.Send

/-!
# Which faults come from where

Reading meets faults of the connection, its close, and payloads that do not decode.
Sending meets contents without a text, payloads that are too long, and faults of the
connection. Only following a path meets faults of paths. `Operation.Allows` says what
each operation may fail with, and what is known when it does (`faults_keep_apart`).
-/

namespace Telemetry

open Reader

/-! ## Payloads that do not decode -/

theorem Reading.ofPayload_reason (reading : Reading) {payload : Bytes} {fault : Fault}
    (h : reading.ofPayload payload = .error fault) : ∃ reason, fault = .decoding payload reason ∧
      ((∃ cause, reason = .utf8 cause) ↔ ¬ Utf8.WellFormed payload) ∧
      (reading = .text → ∃ cause, reason = .utf8 cause) := by
  rw [Utf8.wellFormed_iff]
  cases hd : Utf8.decode payload with
  | error cause =>
    rw [ofPayload, hd] at h
    cases h
    exact ⟨_, rfl, by simp, fun _ => ⟨cause, rfl⟩⟩
  | ok chars =>
    have hj : (reading.ofText chars).mapError (fun error => Fault.decoding payload (.json error)) = .error fault := by
      rwa [ofPayload, hd] at h
    cases ht : reading.ofText chars with
    | ok a =>
      rw [ht] at hj
      cases hj
    | error error =>
      rw [ht] at hj
      cases hj
      refine ⟨_, rfl, by simp, ?_⟩
      rintro rfl
      cases ht

namespace Call

def reading : Call → Reading
  | .read reading => reading
  | .next => .message

theorem fault?_ofPayload {call : Call} {payload : Bytes} {fault : Fault}
    (h : call.fault? (.ready (call.ofPayload payload)) = some fault) :
    call.reading.ofPayload payload = .error fault := by
  cases call with
  | read reading =>
    cases hp : reading.ofPayload payload <;> rw [ofPayload, hp] at h <;> cases h
    exact hp
  | next =>
    cases hp : Reading.message.ofPayload payload <;> rw [ofPayload, hp] at h <;> cases h
    exact hp

end Call

/-! ## Connections that close -/

/-- The last receive was empty, and what it found is too little for the frame that it begins. -/
structure Reader.Closes (r r' : Reader) (pending : Nat) : Prop where
  last : ∃ receipts, r.source.Receives r.chunk.size (receipts ++ [.received []]) r'.source
  count : pending = r'.buffered
  incomplete : ¬ Frame.Begins r'.decoder.buffer
  short : pending < Frame.headerSize ∨
    ∃ length, Frame.length? r'.decoder.buffer = some length ∧ pending < Frame.headerSize + length

theorem Manner.Does.fault {manner : Manner} {call : Call} {answer : Poll call.Answer} {r r' : Reader} {fault : Fault}
    (h : manner.Does r call answer r') (hn : call.gotFrame answer = false) (hf : call.fault? answer = some fault) :
    (∃ error, fault = .io error ∧ error.kind ≠ .interrupted) ∨
      ∃ pending, fault = .closed pending ∧ Closes r r' pending := by
  cases h with
  | ended _ => cases hf
  | @waits call receipts text r₁ r' h hl =>
    rcases manner.answer_cases receipts text with ha | ha <;> rw [ha] at hn hf
    · have ht : isFrame text = false := (call.gotFrame_ofText text).symm.trans hn
      have hf : call.fault? (.ready (call.ofText text)) = some fault := hf
      rcases h.fault ht with ⟨error, rfl, hk⟩ | ⟨rfl, front, rfl⟩ <;>
        rw [call.fault?_ofText_error] at hf <;> cases hf
      · exact .inl ⟨error, rfl, hk⟩
      · obtain ⟨_, hb⟩ := h.buffer ht
        rw [← hl.decoder] at hb
        refine .inr ⟨_, rfl, ⟨⟨front, ?_⟩, ?_, hb, ?_⟩⟩
        · rw [hl.source]
          exact h.receives.1
        · unfold buffered
          rw [hl.decoder]
        · have hs := Frame.not_begins_iff.1 hb
          rwa [hl.decoder] at hs ⊢
    · cases call <;> cases hf

/-! ## Receives into a decoder -/

def Manner.fill : Manner → Reader → Poll (Except Fault Nat)
  | .waiting, r => .ready r.fill.1
  | .polling, r => r.pollFill.1

theorem Reader.fill_fault {r : Reader} {fault : Fault} (h : r.fill.1 = .error fault) :
    ∃ error, fault = .io error ∧ error.kind ≠ .interrupted := by
  fun_induction fill r with
  | case1 r received source hr => cases h
  | case2 r error source hr hk ih => exact ih h
  | case3 r error source hr hk =>
    cases h
    exact ⟨error, rfl, hk⟩

theorem Reader.pollFill_fault {r : Reader} {fault : Fault} (h : r.pollFill.1 = .ready (.error fault)) :
    ∃ error, fault = .io error ∧ error.kind ≠ .interrupted := by
  fun_induction pollFill r with
  | case1 r source hr => cases h
  | case2 r bytes source hr => cases h
  | case3 r error source hr hk ih => exact ih h
  | case4 r error source hr hk =>
    cases h
    exact ⟨error, rfl, hk⟩

theorem Manner.fill_fault {manner : Manner} {r : Reader} {fault : Fault}
    (h : manner.fill r = .ready (.error fault)) : ∃ error, fault = .io error ∧ error.kind ≠ .interrupted := by
  cases manner with
  | waiting => exact Reader.fill_fault (Poll.ready.inj h)
  | polling => exact Reader.pollFill_fault h

/-! ## Operations -/

/-- The operations, each in any state that it can meet. -/
inductive Operation : Type 1 where
  | fill (manner : Manner) (r : Reader)
  | call (manner : Manner) (source : Source) (options : Options) (calls : List Call) (last : Call)
  | takeText (d : Decoder)
  | decodeAs {α : Type} (scan : Json.Scan α) (text : String)
  | append (payload out : Bytes)
  | sendPayload (sink : Sink) (payload : Bytes)
  | send (sink : Sink) (content : Message.Content)
  | resolve (path : Path) (m : Message)
  | select {σ : Type} [Feed σ] (s : Selection σ)

def faultOf {α : Type} : Except Fault α → Option Fault
  | .ok _ => none
  | .error fault => some fault

theorem faultOf_eq_some_iff {α : Type} {result : Except Fault α} {fault : Fault} :
    faultOf result = some fault ↔ result = .error fault := by
  cases result <;> simp [faultOf]

def Poll.faultOf {α : Type} : Poll (Except Fault α) → Option Fault
  | .ready (.error fault) => some fault
  | _ => none

theorem Poll.faultOf_eq_some_iff {α : Type} {poll : Poll (Except Fault α)} {fault : Fault} :
    poll.faultOf = some fault ↔ poll = .ready (.error fault) := by
  rcases poll with (_ | _) | _ <;> simp [faultOf]

namespace Operation

def fault? : Operation → Option Fault
  | .fill manner r => (manner.fill r).faultOf
  | .call manner source options calls last =>
    last.fault? (manner.call last (manner.run (ofSource source options) calls).2).1
  | .takeText d => faultOf d.takeText.1
  | .decodeAs scan text => faultOf (Message.decodeAs scan text)
  | .append payload out => faultOf (Frame.append payload out).1
  | .sendPayload sink payload => faultOf (sink.sendPayload payload).1
  | .send sink content => faultOf (sink.send content).1
  | .resolve path m => faultOf (path.resolve m)
  | @select _ _ s => s.next.bind fun (item, _) => item.bind faultOf

def followsPath : Operation → Bool
  | .resolve .. => true
  | @select .. => true
  | _ => false

def Allows : Operation → Fault → Prop
  | .fill .., .io error => error.kind ≠ .interrupted
  | .call .., .io error => error.kind ≠ .interrupted
  | .call manner source options calls last, .closed pending =>
    let r := (manner.run (ofSource source options) calls).2
    Closes r (manner.call last r).2 pending
  | .call manner source options calls last, .decoding payload reason =>
    (Frame.splitAll source.left).1[Manner.frames (manner.run (ofSource source options) calls).1]? = some payload ∧
      ((∃ cause, reason = .utf8 cause) ↔ ¬ Utf8.WellFormed payload) ∧
      (last = .read .text → ∃ cause, reason = .utf8 cause)
  | .takeText d, .decoding payload reason =>
    (∃ rest, Frame.split? d.buffer = some (payload, rest)) ∧ ¬ Utf8.WellFormed payload ∧
      ∃ cause, reason = .utf8 cause
  | .decodeAs _ text, .decoding payload reason => payload = Bytes.ofText text ∧ ∃ error, reason = .json error
  | .append payload _, .tooLarge length => length = payload.length ∧ 0x100000000 ≤ length
  | .sendPayload _ payload, .tooLarge length => length = payload.length ∧ 0x100000000 ≤ length
  | .sendPayload .., .io error => error.kind ≠ .interrupted
  | .send _ content, .encoding cause => content.print = .error cause
  | .send _ content, .tooLarge length =>
    ∃ payload, Message.payload content = .ok payload ∧ length = payload.length ∧ 0x100000000 ≤ length
  | .send .., .io error => error.kind ≠ .interrupted
  | .resolve path _, fault => fault.path? = some path.text
  | @select _ _ s, fault => ∃ n path, Feed.answer s.feed n = some path ∧ fault.path? = some path.text
  | _, _ => False

section
variable {fault : Fault}

theorem allows_fill {manner : Manner} {r : Reader} (h : (fill manner r).fault? = some fault) :
    (fill manner r).Allows fault := by
  obtain ⟨error, rfl, hk⟩ := Manner.fill_fault (Poll.faultOf_eq_some_iff.1 h)
  exact hk

theorem allows_call {manner : Manner} {source : Source} {options : Options} {calls : List Call} {last : Call}
    (h : (call manner source options calls last).fault? = some fault) :
    (call manner source options calls last).Allows fault := by
  obtain ⟨before, taken, hs, hn⟩ := (spared_ofSource source options).run manner calls
  have hd := manner.does_call (manner.run (ofSource source options) calls).2 last
  replace h : last.fault? (manner.call last (manner.run (ofSource source options) calls).2).1 = some fault := h
  obtain ⟨now, hg, ⟨payload, ha, hp⟩ | ⟨hf, _⟩⟩ := hd.outcome
  · rw [ha] at h
    obtain ⟨reason, rfl, hu, ht⟩ := last.reading.ofPayload_reason (Call.fault?_ofPayload h)
    refine ⟨?_, hu, ?_⟩
    · have hf := (hs.frame hg hp).1.getElem? (hs.receives_append hg)
      rwa [hn, List.length_nil, Nat.zero_add] at hf
    · rintro rfl
      exact ht rfl
  · rcases hd.fault hf h with ⟨error, rfl, hk⟩ | ⟨pending, rfl, hc⟩
    · exact hk
    · exact hc

theorem allows_takeText {d : Decoder} (h : (takeText d).fault? = some fault) : (takeText d).Allows fault := by
  replace h := faultOf_eq_some_iff.1 h
  rcases d.takeText_cases with ⟨_, ht⟩ | ⟨payload, rest, hs, ht⟩ <;> rw [ht] at h
  · cases h
  · rcases Decoder.textOf_cases payload with ⟨text, _, hp, _⟩ | ⟨cause, hd, hp⟩ <;> rw [hp] at h <;> cases h
    refine ⟨⟨rest, hs⟩, ?_, cause, rfl⟩
    rw [Utf8.wellFormed_iff, hd]
    rintro ⟨_, hc⟩
    cases hc

theorem allows_decodeAs {α : Type} {scan : Json.Scan α} {text : String} (h : (decodeAs scan text).fault? = some fault) :
    (decodeAs scan text).Allows fault := by
  replace h := faultOf_eq_some_iff.1 h
  unfold Message.decodeAs at h
  split at h <;> cases h
  exact ⟨rfl, _, rfl⟩

theorem append_fault {payload out : Bytes} (h : (Frame.append payload out).1 = .error fault) :
    fault = .tooLarge payload.length ∧ 0x100000000 ≤ payload.length := by
  by_cases hp : payload.length < 0x100000000
  · rw [Frame.append_of_short hp] at h
    cases h
  · rw [Frame.append_of_long hp] at h
    cases h
    exact ⟨rfl, Nat.le_of_not_lt hp⟩

theorem sendPayload_fault {sink : Sink} {payload : Bytes} (h : (sink.sendPayload payload).1 = .error fault) :
    (fault = .tooLarge payload.length ∧ 0x100000000 ≤ payload.length) ∨
      ∃ error, fault = .io error ∧ error.kind ≠ .interrupted := by
  unfold Sink.sendPayload at h
  split at h
  · rename_i cause out ha
    cases h
    exact .inl (append_fault (congrArg Prod.fst ha))
  · rename_i frame ha
    right
    obtain ⟨_, _, _, hc⟩ := sink.writeAll_writes frame
    cases hr : (sink.writeAll frame).1 with
    | ok _ =>
      simp only [hr] at h
      cases h
    | error error =>
      simp only [hr] at h
      cases h
      exact ⟨error, rfl, hc.not_interrupted hr⟩

theorem allows_send {sink : Sink} {content : Message.Content} (h : (send sink content).fault? = some fault) :
    (send sink content).Allows fault := by
  replace h := faultOf_eq_some_iff.1 h
  unfold Sink.send at h
  split at h
  · rename_i cause hp
    cases h
    unfold Message.payload at hp
    split at hp <;> cases hp
    assumption
  · rename_i payload hp
    rcases sendPayload_fault h with ⟨rfl, hl⟩ | ⟨error, rfl, hk⟩
    · exact ⟨payload, hp, rfl, hl⟩
    · exact hk

theorem allows_select {σ : Type} [Feed σ] {s : Selection σ} (h : (select s).fault? = some fault) :
    (select s).Allows fault := by
  obtain ⟨⟨item, s'⟩, hn, h⟩ := Option.bind_eq_some_iff.1 (show s.next.bind _ = some fault from h)
  obtain ⟨item, rfl, hi⟩ := Option.bind_eq_some_iff.1 h
  rw [faultOf_eq_some_iff] at hi
  subst hi
  obtain ⟨m, feed, failed⟩ := s
  cases failed with
  | true =>
    rw [Selection.next_of_failed rfl] at hn
    cases hn
  | false =>
    rcases Selection.next_cases m feed with ⟨hf, _⟩ | ⟨n, item, _, hs, hs'⟩
    · rw [hf] at hn
      cases hn
    · rw [hs'] at hn
      cases hn
      generalize hp : Feed.answer feed n = answer at hs
      rcases hs with _ | ⟨_ | hr⟩
      exact ⟨n, _, hp, Path.path?_of_follow hr⟩

theorem isPath_of_path? {path : String} (h : fault.path? = some path) : fault.isPath = true := by
  cases fault with
  | pathIndex _ _ _ => rfl
  | pathKind _ _ _ => rfl
  | _ => cases h

theorem followsPath_of_allows {op : Operation} (h : op.Allows fault) : fault.isPath = op.followsPath := by
  cases op with
  | resolve path m => exact isPath_of_path? h
  | select s =>
    obtain ⟨_, path, _, hf⟩ := h
    exact isPath_of_path? hf
  | _ =>
    -- no other operation allows a fault of a path
    cases fault with
    | pathIndex _ _ _ => exact h.elim
    | pathKind _ _ _ => exact h.elim
    | _ => rfl

end

end Operation

/-- **Faults keep apart.** An operation fails only with what it allows, and the fault lies in a path
exactly when the operation follows one. -/
theorem faults_keep_apart (op : Operation) {fault : Fault} (h : op.fault? = some fault) :
    op.Allows fault ∧ fault.isPath = op.followsPath := by
  have ha : op.Allows fault := by
    cases op with
    | fill manner r => exact Operation.allows_fill h
    | call manner source options calls last => exact Operation.allows_call h
    | takeText d => exact Operation.allows_takeText h
    | decodeAs scan text => exact Operation.allows_decodeAs h
    | append payload out =>
      obtain ⟨rfl, hl⟩ := Operation.append_fault (faultOf_eq_some_iff.1 h)
      exact ⟨rfl, hl⟩
    | sendPayload sink payload =>
      rcases Operation.sendPayload_fault (faultOf_eq_some_iff.1 h) with ⟨rfl, hl⟩ | ⟨error, rfl, hk⟩
      · exact ⟨rfl, hl⟩
      · exact hk
    | send sink content => exact Operation.allows_send h
    | resolve path m => exact Path.path?_of_follow (faultOf_eq_some_iff.1 h)
    | select s => exact Operation.allows_select h
  exact ⟨ha, Operation.followsPath_of_allows ha⟩

theorem faults_keep_apart_closed :
    let source : Source :=
      ⟨[.data [1, 0, 0, 0, 0x37, 5, 0], .failure ⟨.interrupted, none⟩, .data [0, 0, 0x37]], 0, 0⟩
    let op : Operation := .call .waiting source (.ofChunkSize 4) [.read .text] (.read .message)
    ∃ fault, op.fault? = some fault ∧ fault.message = (Fault.closed 5).message ∧ op.Allows fault ∧
      fault.isPath = false := by
  intro source op
  have hm : op.fault?.map Fault.message = some (Fault.closed 5).message := by decide +kernel
  obtain ⟨fault, hf, hm⟩ := Option.map_eq_some_iff.1 hm
  obtain ⟨ha, hp⟩ := faults_keep_apart op hf
  exact ⟨fault, hf, hm, ha, hp⟩

end Telemetry
