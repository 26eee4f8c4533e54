import Telemetry.Proofs.Decoder.Conservation
import Telemetry.Proofs.Decoder.Draining
import Telemetry.Proofs.Frame.Encoding
import Telemetry.Proofs.Sink.Open
import Telemetry.Proofs.Sink.Writes

/-!
# A send that fails leaves earlier frames whole

Payloads and messages are sent one after the other, up to the first that fails. What
the sink has accepted then are the frames of those that were sent and a part of the
one that failed, and a decoder gives the former and waits for the rest of the latter
(`sent_frames_whole`).
-/

namespace Telemetry

inductive Outgoing where
  | payload (bytes : Bytes)
  | message (m : Message)

namespace Outgoing

def bytes : Outgoing → Bytes
  | .payload bytes => bytes
  | .message m => m.bytes

def frame (item : Outgoing) : Bytes := Frame.wire item.bytes

def send : Outgoing → Sink → Except Fault Unit × Sink
  | .payload bytes, s => s.sendPayload bytes
  | .message m, s => s.send (.message m)

section
variable (item : Outgoing) (s : Sink)

theorem send_eq : item.send s = s.sendPayload item.bytes := by cases item <;> rfl

theorem send_short (h : item.bytes.length < 0x100000000) :
    item.send s = ((s.writeAll item.frame).1.mapError .io, (s.writeAll item.frame).2) := by
  rw [send_eq, Sink.sendPayload, Frame.append_of_short h]
  rfl

theorem send_long (h : ¬ item.bytes.length < 0x100000000) :
    item.send s = (.error (.tooLarge item.bytes.length), s) := by
  rw [send_eq, Sink.sendPayload, Frame.append_of_long h]

end

/-- What comes of sending an item: it is sent exactly when its whole frame is accepted. -/
structure Sends (item : Outgoing) (s : Sink) (result : Except Fault Unit) (s' : Sink) : Prop where
  whole : result = .ok () ↔ s'.accepted = s.accepted ++ item.frame
  long : ¬ item.bytes.length < 0x100000000 → result = .error (.tooLarge item.bytes.length) ∧ s' = s
  encoded : item.bytes.length < 0x100000000 → Frame.append item.bytes [] = (.ok (), item.frame)
  written : item.bytes.length < 0x100000000 → ∃ replies left outcome, s.Writes item.frame replies s' left ∧
    Sink.Concludes replies left outcome ∧ result = outcome.mapError .io ∧
    (.ok 0 ∈ replies → result = .error (.io ⟨.writeZero, none⟩))
  not_interrupted : ∀ error, result = .error (.io error) → error.kind ≠ .interrupted

section
variable (item : Outgoing) (s : Sink)

theorem send_cases :
    (∃ s', item.send s = (.ok (), s') ∧ item.bytes.length < 0x100000000 ∧
      s'.accepted = s.accepted ++ item.frame) ∨
    ∃ fault s' cut, item.send s = (.error fault, s') ∧ s'.accepted = s.accepted ++ cut ∧ cut <+: item.frame ∧
      cut ≠ item.frame ∧ ¬ Frame.Begins cut := by
  by_cases h : item.bytes.length < 0x100000000
  · obtain ⟨replies, left, hw, hc⟩ := s.writeAll_writes item.frame
    obtain ⟨front, hf, ha⟩ := hw.accepted
    rw [send_short item s h]
    rcases hr : (s.writeAll item.frame).1 with error | _
    · have hl : left ≠ [] := by
        rw [Ne, ← hc.ok_iff, hr]
        exact fun he => by cases he
      have hp : front <+: item.frame := ⟨left, hf.symm⟩
      have hne : front ≠ item.frame := fun he => hl (by simpa [he] using hf)
      exact .inr ⟨.io error, _, front, rfl, ha, hp, hne, Frame.not_begins_of_prefix h hp hne⟩
    · have hl : left = [] := hc.ok_iff.1 hr
      rw [hl, List.append_nil] at hf
      exact .inl ⟨_, rfl, h, by rw [ha, hf]⟩
  · -- the size is looked at before the first write
    have hne : ([] : Bytes) ≠ item.frame := fun he => by cases he
    exact .inr ⟨.tooLarge item.bytes.length, s, [], item.send_long s h, (List.append_nil _).symm,
      List.nil_prefix, hne, Frame.not_begins_nil⟩

theorem sends_send : Sends item s (item.send s).1 (item.send s).2 where
  whole := by
    rcases item.send_cases s with ⟨s', hs, _, ha⟩ | ⟨fault, s', cut, hs, ha, _, hne, _⟩ <;> rw [hs]
    · exact ⟨fun _ => ha, fun _ => rfl⟩
    · constructor
      · intro h
        cases h
      · intro h
        exact absurd (List.append_cancel_left (ha.symm.trans h)) hne
  long h := by
    rw [item.send_long s h]
    exact ⟨rfl, rfl⟩
  encoded h := Frame.append_of_short h []
  written h := by
    obtain ⟨replies, left, hw, hc⟩ := s.writeAll_writes item.frame
    rw [item.send_short s h]
    refine ⟨replies, left, _, hw, hc, rfl, fun hz => ?_⟩
    rw [hc.of_zero hz]
    rfl
  not_interrupted error hr := by
    by_cases h : item.bytes.length < 0x100000000
    · obtain ⟨replies, left, _, hc⟩ := s.writeAll_writes item.frame
      rw [item.send_short s h] at hr
      refine hc.not_interrupted ?_
      cases hw : (s.writeAll item.frame).1 with
      | ok _ => rw [hw] at hr; cases hr
      | error _ => rw [hw] at hr; cases hr; rfl
    · rw [item.send_long s h] at hr
      cases hr

end

end Outgoing

namespace Sink

def sendUntilFault (s : Sink) : List Outgoing → List (Except Fault Unit) × Sink
  | [] => ([], s)
  | item :: items =>
    match item.send s with
    | (.ok (), s) =>
      let (results, last) := sendUntilFault s items
      (.ok () :: results, last)
    | (.error fault, s) => ([.error fault], s)

/-- The sends have ended with every item sent, or at one of which only a part was accepted. -/
inductive Ended (items : List Outgoing) : List Outgoing → Bytes → List (Except Fault Unit) → Prop where
  | all : Ended items items [] (.replicate items.length (.ok ()))
  | failed {sent others : List Outgoing} {item : Outgoing} {cut : Bytes} {fault : Fault}
      (hi : items = sent ++ item :: others) (hp : cut <+: item.frame) (hne : cut ≠ item.frame) :
      Ended items sent cut (.replicate sent.length (.ok ()) ++ [.error fault])

theorem Ended.cons {items sent : List Outgoing} {cut : Bytes} {results : List (Except Fault Unit)}
    (item : Outgoing) (h : Ended items sent cut results) :
    Ended (item :: items) (item :: sent) cut (.ok () :: results) := by
  cases h with
  | all => exact .all
  | failed hi hp hne => exact .failed (by rw [hi]; rfl) hp hne

theorem sendUntilFault_ended (s : Sink) (items : List Outgoing) :
    ∃ sent cut, (s.sendUntilFault items).2.accepted =
        s.accepted ++ (Frame.wireAll (sent.map Outgoing.bytes) ++ cut) ∧
      Ended items sent cut (s.sendUntilFault items).1 ∧
      Frame.Cuts (Frame.wireAll (sent.map Outgoing.bytes) ++ cut) (sent.map Outgoing.bytes) cut := by
  induction items generalizing s with
  | nil =>
    refine ⟨[], [], (List.append_nil _).symm, .all, rfl, ?_, Frame.not_begins_nil⟩
    intro payload hm
    cases hm
  | cons item items ih =>
    rw [sendUntilFault]
    rcases item.send_cases s with ⟨s', hs, hl, ha⟩ | ⟨fault, s', cut, hs, ha, hp, hne, hb⟩ <;> rw [hs]
    · obtain ⟨sent, cut, hacc, he, hc⟩ := ih s'
      refine ⟨item :: sent, cut, ?_, he.cons item, rfl, List.forall_mem_cons.2 ⟨hl, hc.short⟩, hc.incomplete⟩
      rw [List.map_cons, Frame.wireAll_cons]
      simp only [hacc, ha, Outgoing.frame, List.append_assoc]
    · refine ⟨[], cut, ha, .failed rfl hp hne, rfl, ?_, hb⟩
      intro payload hm
      cases hm

/-- **Sent frames stay whole.** Whatever a sink makes of its writes, it has accepted the frames of the items
that were sent, and of the one that failed only a part. -/
theorem sent_frames_whole (s : Sink) (items : List Outgoing) :
    let (results, last) := s.sendUntilFault items
    (∃ sent cut, last.accepted = s.accepted ++ (Frame.wireAll (sent.map Outgoing.bytes) ++ cut) ∧
      Ended items sent cut results ∧
      ∀ capacity : Option Nat,
        ((Decoder.create capacity).feed (Frame.wireAll (sent.map Outgoing.bytes) ++ cut)).drain .payload =
          (sent.map Outgoing.bytes, ⟨cut⟩)) ∧
    ∀ (item : Outgoing) (s : Sink), item.Sends s (item.send s).1 (item.send s).2 := by
  obtain ⟨sent, cut, ha, he, hc⟩ := s.sendUntilFault_ended items
  refine ⟨⟨sent, cut, ha, he, fun capacity => ?_⟩, Outgoing.sends_send⟩
  rw [Decoder.drain_payload, Decoder.feed, Decoder.buffer_create, List.nil_append, hc.splitAll_eq]

end Sink

end Telemetry
