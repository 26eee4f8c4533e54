import Telemetry.Proofs.Frame.Encoding
import Telemetry.Proofs.Sink.Writes
import Telemetry.Sink.Send

/-!
# Sinks that go on accepting

A sink lasts when every write that it answers is accepted at least in part or is
interrupted; one with no answers left takes every write whole. Messages that are sent
into a sink that lasts stand there as frames, one after the other.
-/

namespace Telemetry

namespace Message

def bytes (m : Message) : Bytes := Utf8.encode m.print

end Message

/-- Accepts something, or is an interruption. -/
def Answer.Lasting : Answer → Prop
  | .accept limit => 0 < limit
  | .failure error => error.kind = .interrupted

namespace Sink

def sendAll (s : Sink) : List Message → List (Except Fault Unit) × Sink
  | [] => ([], s)
  | m :: messages =>
    let (result, s) := s.send (.message m)
    let (results, last) := sendAll s messages
    (result :: results, last)

def Lasting (s : Sink) : Prop := ∀ answer ∈ s.answers, answer.Lasting

theorem lasting_of_open {s : Sink} (h : s.answers = []) : s.Lasting := by
  intro answer hm
  rw [h] at hm
  cases hm

section
variable {s s' : Sink} {bytes : Bytes}

theorem Lasting.write (h : s.Lasting) {reply : Except IoError Nat} (hw : s.write bytes = (reply, s')) :
    s'.Lasting ∧ (reply = .ok 0 → bytes = []) ∧ ∀ error, reply = .error error → error.kind = .interrupted := by
  unfold Lasting at h
  unfold Sink.write at hw
  split at hw <;> rename_i ha <;> cases hw
  · refine ⟨lasting_of_open rfl, ?_, ?_⟩
    · intro he
      exact List.length_eq_zero_iff.1 (Except.ok.inj he)
    · intro error he
      cases he
  · rw [ha] at h
    obtain ⟨hl, ho⟩ := List.forall_mem_cons.1 h
    refine ⟨ho, ?_, ?_⟩
    · intro he
      have hl : 0 < _ := hl
      have he := Except.ok.inj he
      exact List.length_eq_zero_iff.1 (by omega)
    · intro error he
      cases he
  · rw [ha] at h
    obtain ⟨hk, ho⟩ := List.forall_mem_cons.1 h
    refine ⟨ho, ?_, ?_⟩
    · intro he
      cases he
    · intro error he
      cases he
      exact hk

theorem Lasting.writeAll (h : s.Lasting) (bytes : Bytes) :
    ∃ s', s.writeAll bytes = (.ok (), s') ∧ s'.Lasting ∧ s'.accepted = s.accepted ++ bytes := by
  fun_induction Sink.writeAll s bytes with
  | case1 s => exact ⟨s, rfl, h, (List.append_nil _).symm⟩
  | case2 s bytes hb s' hw => exact absurd ((h.write hw).2.1 rfl) hb
  | case3 s bytes hb n s' hw ih =>
    obtain ⟨last, hl, hs, ha⟩ := ih (h.write hw).1
    refine ⟨last, hl, hs, ?_⟩
    rw [ha, accepted_write hw, List.append_assoc, taken, List.take_append_drop]
  | case4 s bytes hb error s' hw hk ih =>
    obtain ⟨last, hl, hs, ha⟩ := ih (h.write hw).1
    refine ⟨last, hl, hs, ?_⟩
    rw [ha, accepted_write hw, taken, List.take_zero, List.append_nil]
  | case5 s bytes hb error s' hw hk => exact absurd ((h.write hw).2.2 error rfl) hk

theorem Lasting.send (h : s.Lasting) {m : Message} (hl : m.bytes.length < 0x100000000) :
    ∃ s', s.send (.message m) = (.ok (), s') ∧ s'.Lasting ∧ s'.accepted = s.accepted ++ Frame.wire m.bytes := by
  obtain ⟨s', hw, hs, ha⟩ := h.writeAll (Frame.wire m.bytes)
  refine ⟨s', ?_, hs, ha⟩
  show s.sendPayload m.bytes = _
  unfold sendPayload
  rw [Frame.append_of_short hl, List.nil_append]
  simp only [hw]
  rfl

theorem Lasting.sendAll (h : s.Lasting) {messages : List Message} (hl : ∀ m ∈ messages, m.bytes.length < 0x100000000) :
    (s.sendAll messages).1 = .replicate messages.length (.ok ()) ∧
      (s.sendAll messages).2.accepted = s.accepted ++ Frame.wireAll (messages.map Message.bytes) := by
  induction messages generalizing s with
  | nil => exact ⟨rfl, (List.append_nil _).symm⟩
  | cons m messages ih =>
    obtain ⟨hm, hms⟩ := List.forall_mem_cons.1 hl
    obtain ⟨s', hs, hlast, hacc⟩ := h.send hm
    obtain ⟨hr, hacc'⟩ := ih hlast hms
    unfold Sink.sendAll
    simp only [hs, hr, hacc', hacc]
    exact ⟨rfl, List.append_assoc ..⟩

theorem sendAll_open (h : s.answers = []) {messages : List Message}
    (hl : ∀ m ∈ messages, m.bytes.length < 0x100000000) :
    (s.sendAll messages).1 = .replicate messages.length (.ok ()) ∧
      (s.sendAll messages).2.accepted = s.accepted ++ Frame.wireAll (messages.map Message.bytes) :=
  (lasting_of_open h).sendAll hl

end

end Sink

end Telemetry
