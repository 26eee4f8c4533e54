import Telemetry.Proofs.Json.RoundTrip
import Telemetry.Proofs.Reader.Waiting
import Telemetry.Proofs.Sink.Open

/-!
# Messages arrive

Messages that are sent into a sink, whose bytes then come through any steady source,
are read back one by one (`messages_arrive`). A message that is nested more deeply
than can be read comes back as its payload, and does not stand in the way of others.
-/

namespace Telemetry

/-- A message that is nested at most 127 deep arrives, and any other as a fault that holds its bytes. -/
structure Arrives (m : Message) (result : Except Fault Message) : Prop where
  whole : m.depth ≤ 127 → result = .ok m
  deep : 127 < m.depth → ∃ error, result = .error (.decoding m.bytes (.json error)) ∧ error.cause = .tooDeep

theorem arrives_bytes {m : Message} (hc : m.Canonical) : Arrives m (Reading.message.ofPayload m.bytes) := by
  obtain ⟨hw, hd⟩ := Json.Value.decode_print hc
  unfold Reading.ofPayload Message.bytes
  rw [Utf8.decode_encode]
  show Arrives m ((Json.decode Json.Value.scan (Json.Value.print m)).mapError _)
  constructor
  · intro h
    rw [hw h]
    rfl
  · intro h
    obtain ⟨error, he, ht⟩ := hd h
    refine ⟨error, ?_, ht⟩
    rw [he]
    rfl

theorem cuts_sent {messages : List Message} (hl : ∀ m ∈ messages, m.bytes.length < 0x100000000) :
    Frame.Cuts (({ answers := [] } : Sink).sendAll messages).2.accepted (messages.map Message.bytes) [] := by
  refine ⟨?_, ?_, ?_⟩
  · rw [(Sink.sendAll_open rfl hl).2, List.append_nil]
    rfl
  · intro payload hp
    obtain ⟨m, hm, rfl⟩ := List.mem_map.1 hp
    exact hl m hm
  · rw [← Frame.split?_eq_none_iff]
    rfl

/-- **Messages arrive.** However the bytes come, the readings give the messages that were sent, in
order, and then find the connection closed with nothing left. -/
theorem messages_arrive (messages : List Message) (hc : ∀ m ∈ messages, m.Canonical)
    (hl : ∀ m ∈ messages, m.bytes.length < 0x100000000) :
    let sent := ({ answers := [] } : Sink).sendAll messages
    sent.1 = .replicate messages.length (.ok ()) ∧
      ∀ source : Source, source.Steady → source.left = sent.2.accepted → ∀ size : Nat,
        let read (i : Nat) :=
          (Reading.message.await ((Reader.ofSource source (.ofChunkSize size)).after (.replicate i .message))).1
        (∀ (i : Nat) (h : i < messages.length), Arrives messages[i] (read i)) ∧
          read messages.length = .error (.closed 0) := by
  refine ⟨(Sink.sendAll_open rfl hl).1, ?_⟩
  intro source hs ha size read
  have hb : Frame.splitAll (Reader.ofSource source (.ofChunkSize size)).backlog = (messages.map Message.bytes, []) := by
    rw [Reader.backlog_ofSource, ha]
    exact (cuts_sent hl).splitAll_eq
  have hread (i : Nat) : read i = Reader.upcoming ((messages.map Message.bytes).drop i) [] .message := by
    obtain ⟨hr, hd⟩ := (Reader.steady_ofSource hs (.ofChunkSize size)).after hb (.replicate i .message)
    rw [List.length_replicate] at hd
    obtain ⟨_, he, _⟩ := hr.await hd .message
    exact congrArg Prod.fst he
  constructor
  · intro i h
    rw [hread, ← List.map_drop, List.drop_eq_getElem_cons h]
    exact arrives_bytes (hc _ (List.getElem_mem h))
  · rw [hread, ← List.map_drop, List.drop_length]
    rfl

def nested : (depth : Nat) → Message
  | 0 => .null
  | depth + 1 => .array [nested depth]

theorem canonical_nested (depth : Nat) : (nested depth).Canonical := by
  induction depth with
  | zero => trivial
  | succ depth ih => exact ⟨ih, trivial⟩

theorem depth_nested (depth : Nat) : (nested depth).depth = depth := by
  induction depth with
  | zero => rfl
  | succ depth ih =>
    show max (nested depth).depth 0 + 1 = depth + 1
    rw [ih, Nat.max_zero]

theorem messages_arrive_nested :
    let messages : List Message := [nested 127, nested 128, .number (.int 7)]
    let sink := (({ answers := [] } : Sink).sendAll messages).2
    let source : Source := ⟨.failure ⟨.interrupted, none⟩ :: sink.accepted.map fun b => .data [b], 0, 0⟩
    let read (i : Nat) :=
      (Reading.message.await ((Reader.ofSource source (.ofChunkSize 0)).after (.replicate i .message))).1
    source.Steady ∧ source.left = sink.accepted ∧
      read 0 = .ok (nested 127) ∧
      (∃ error, read 1 = .error (.decoding (nested 128).bytes (.json error)) ∧ error.cause = .tooDeep) ∧
      read 2 = .ok (.number (.int 7)) ∧ read 3 = .error (.closed 0) := by
  intro messages sink source read
  have hc : ∀ m ∈ messages, m.Canonical := by
    intro m hm
    simp only [messages, List.mem_cons, List.not_mem_nil, or_false] at hm
    rcases hm with rfl | rfl | rfl
    · exact canonical_nested 127
    · exact canonical_nested 128
    · exact ⟨by decide, by decide⟩
  have hl : ∀ m ∈ messages, m.bytes.length < 0x100000000 := by decide +kernel
  have hs : source.Steady := List.forall_mem_cons.2 ⟨rfl, Source.steady_bytewise sink.accepted⟩
  have ha (bytes : Bytes) :
      (⟨.failure ⟨.interrupted, none⟩ :: bytes.map fun b => .data [b], 0, 0⟩ : Source).left = bytes :=
    Source.left_bytewise bytes
  replace ha : source.left = sink.accepted := ha sink.accepted
  obtain ⟨_, hread⟩ := messages_arrive messages hc hl
  obtain ⟨hi, hlast⟩ := hread source hs ha 0
  have h0 : Arrives (nested 127) (read 0) := hi 0 (by decide)
  have h1 : Arrives (nested 128) (read 1) := hi 1 (by decide)
  have h2 : Arrives (.number (.int 7)) (read 2) := hi 2 (by decide)
  refine ⟨hs, ha, h0.whole ?_, h1.deep ?_, h2.whole (Nat.zero_le 127), hlast⟩
  · exact Nat.le_of_eq (depth_nested 127)
  · exact Nat.le_of_eq (depth_nested 128).symm

end Telemetry
