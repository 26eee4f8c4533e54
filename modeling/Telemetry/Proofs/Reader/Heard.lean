import Telemetry.Proofs.Reader.Awaiting
import Telemetry.Proofs.Reader.Polling
import Telemetry.Proofs.Source.Carried

/-!
# What the sequence of messages comes to

The items that a reader gives are settled by the data that its source carries up to the
end: the messages of the frames, up to the first frame that holds none or else up to
the end, and one fault. Waiting and polling give the same (`items_ofSource`).
-/

namespace Telemetry

def Ending.fault : Ending → Nat → Fault
  | .closed, pending => .closed pending
  | .failed error, _ => .io error

/-- The messages of the payloads up to the first that holds none, and the fault there, or
the one at the end. -/
def messagesOf (last : Fault) : List Bytes → List Message × Fault
  | [] => ([], last)
  | payload :: payloads =>
    match Reading.message.ofPayload payload with
    | .ok m => (m :: (messagesOf last payloads).1, (messagesOf last payloads).2)
    | .error fault => ([], fault)

namespace Source

def heard (s : Source) : List Message × Fault :=
  let (payloads, last) := Frame.splitAll s.carried.1
  messagesOf (s.carried.2.fault last.length) payloads

end Source

namespace Reader

/-- What a reader has received and has still to receive makes up the data, and it waits
for nothing. -/
structure Hears (r : Reader) (data : Bytes) (ending : Ending) : Prop where
  prompt : r.source.Prompt
  room : 0 < r.chunk.size
  data : r.decoder.buffer ++ r.source.carried.1 = data
  ending : r.source.carried.2 = ending

section
variable {r r' : Reader} {data : Bytes} {ending : Ending}

theorem Hears.store (h : r.Hears data ending) {b : UInt8} {bytes : Bytes} {source : Source}
    (hr : r.source.receive r.chunk.size = (.received (b :: bytes), source)) :
    (r.store (b :: bytes) source).Hears data ending := by
  have hc : r.source.carried = (b :: bytes ++ source.carried.1, source.carried.2) := Source.carried_receive hr h.room
  refine ⟨(h.prompt.receive hr).2, h.room, ?_, ?_⟩
  · rw [← h.data, hc, buffer_store hr]
    exact List.append_assoc ..
  · rw [← h.ending, hc]
    rfl

theorem Hears.interrupted (h : r.Hears data ending) {error : IoError} {source : Source}
    (hr : r.source.receive r.chunk.size = (.failed error, source)) (hk : error.kind = .interrupted) :
    ({ r with source } : Reader).Hears data ending := by
  have hc : r.source.carried = source.carried := (Source.carried_receive hr h.room).trans (if_pos hk)
  refine ⟨(h.prompt.receive hr).2, h.room, ?_, ?_⟩
  · rw [← h.data, hc]
  · rw [← h.ending, hc]

theorem Awaits.hears {receipts : List Receipt} {result : Except Fault String} (ha : Awaits r receipts result r')
    (h : r.Hears data ending) : match Frame.split? data with
    | some (payload, rest) => result = Decoder.textOf payload ∧ r'.Hears rest ending
    | none => result = .error (ending.fault data.length) := by
  induction ha with
  | @taken r payload rest hs =>
    rw [← h.data, Frame.split?_append hs]
    exact ⟨rfl, h.prompt, h.room, rfl, h.ending⟩
  | @closed r source hb hr =>
    have hc : r.source.carried = ([], .closed) := Source.carried_receive hr h.room
    have hd : data = r.decoder.buffer := by rw [← h.data, hc, List.append_nil]
    rw [hd, Frame.split?_eq_none_iff.2 hb, ← h.ending, hc, buffered, Decoder.buffered, buffer_store hr,
      List.append_nil]
    rfl
  | @failed r receipt error source hb hr he =>
    cases receipt with
    | received bytes => cases he
    | failed e =>
      rw [Receipt.error?] at he
      split at he <;> cases he
      rename_i hk
      have hc : r.source.carried = ([], .failed error) := (Source.carried_receive hr h.room).trans (if_neg hk)
      have hd : data = r.decoder.buffer := by rw [← h.data, hc, List.append_nil]
      rw [hd, Frame.split?_eq_none_iff.2 hb, ← h.ending, hc]
      rfl
    | pending => exact absurd rfl (h.prompt.receive hr).1
  | @data r r' bytes source receipts result hb hr hn _ ih =>
    cases bytes with
    | nil => exact absurd rfl hn
    | cons b bytes => exact ih (h.store hr)
  | interrupted hb hr hk _ ih => exact ih (h.interrupted hr hk)

/-! ## All items -/

section
variable {next : Reader → Option (Except Fault Message) × Reader}
  {load_next : ∀ {r item r'}, next r = (some item, r') → r'.load < r.load}

theorem collect_none (h : next r = (none, r')) : (r.collect next load_next).1 = [] := by
  rw [collect]
  split
  · rfl
  · rename_i hn
    rw [h] at hn
    cases hn

theorem collect_some {item : Except Fault Message} (h : next r = (some item, r')) :
    (r.collect next load_next).1 = item :: (r'.collect next load_next).1 := by
  rw [collect]
  split <;> rename_i hn <;> rw [h] at hn <;> cases hn
  rfl

end

theorem items_of_ended (h : r.ended = true) : r.items.1 = [] := by
  have hn : r.next = (none, r) := by rw [next, if_pos h]
  exact collect_none hn

theorem next_of_awaitText (he : r.ended = false) {text : Except Fault String} (ht : r.awaitText = (text, r')) :
    r.next = (some (Reading.message.ofFrame text), { r' with ended := !(Reading.message.ofFrame text).isOk }) := by
  have hm : r.awaitMessage = (Reading.message.ofFrame text, r') := by
    have hm := Reading.message.await_eq r
    rwa [ht] at hm
  rw [Reader.next, if_neg (by rw [he]; exact Bool.false_ne_true), hm]
  rfl

theorem Hears.awaitText (h : r.Hears data ending) : match Frame.split? data with
    | some (payload, rest) => ∃ r', r.awaitText = (Decoder.textOf payload, r') ∧ r'.Hears rest ending
    | none => ∃ r', r.awaitText = (.error (ending.fault data.length), r') := by
  obtain ⟨receipts, ha⟩ := awaits_awaitText r
  have ht := ha.hears h
  cases hd : Frame.split? data with
  | some pair =>
    rw [hd] at ht
    exact ⟨_, Prod.ext ht.1 rfl, ht.2⟩
  | none =>
    rw [hd] at ht
    exact ⟨_, Prod.ext ht rfl⟩

theorem Hears.items (h : r.Hears data ending) (he : r.ended = false) {payloads : List Bytes} {last : Bytes}
    (hs : Frame.splitAll data = (payloads, last)) :
    r.items.1 = (messagesOf (ending.fault last.length) payloads).1.map .ok ++
      [.error (messagesOf (ending.fault last.length) payloads).2] := by
  induction payloads generalizing r data with
  | nil =>
    have ht := h.awaitText
    cases hd : Frame.split? data with
    | some pair =>
      rw [Frame.splitAll_some hd] at hs
      cases hs
    | none =>
      rw [Frame.splitAll_none hd] at hs
      cases hs
      rw [hd] at ht
      obtain ⟨r', ht⟩ := ht
      have hn := next_of_awaitText he ht
      rw [Reading.ofFrame_error] at hn
      rw [Reader.items, collect_some hn]
      exact congrArg (_ :: ·) (items_of_ended rfl)
  | cons payload payloads ih =>
    have ht := h.awaitText
    cases hd : Frame.split? data with
    | none =>
      rw [Frame.splitAll_none hd] at hs
      cases hs
    | some pair =>
      obtain ⟨_, rest⟩ := pair
      rw [Frame.splitAll_some hd] at hs
      cases hs
      rw [hd] at ht
      obtain ⟨r', ht, h'⟩ := ht
      have hn := next_of_awaitText he ht
      rw [Reading.ofFrame_textOf] at hn
      rw [Reader.items, collect_some hn, messagesOf]
      -- a fault ends the items here, whatever frames follow
      cases hp : Reading.message.ofPayload payload with
      | error fault => exact congrArg (_ :: ·) (items_of_ended rfl)
      | ok m =>
        have h' : ({ r' with ended := false } : Reader).Hears rest ending := ⟨h'.prompt, h'.room, h'.data, h'.ending⟩
        exact congrArg (_ :: ·) (ih h' rfl rfl)

end

theorem Settles.settledItems {a b : Reader} (h : Settles a b) : a.settledItems.1 = b.items.1 := by
  -- an item leaves less to work through
  induction hl : a.load using Nat.strongRecOn generalizing a b with | _ n ih
  obtain ⟨b', hb, hs⟩ := h.settle .next
  have hb : b.next = (a.settledNext.1, b') := hb
  have hs : Settles a.settledNext.2 b' := hs
  rcases ha : a.settledNext with ⟨_ | item, a'⟩ <;> rw [ha] at hb hs
  · exact (collect_none ha).trans (collect_none hb).symm
  · have hlt := load_settledNext ha
    have hi := ih a'.load (by omega) hs rfl
    exact (collect_some ha).trans ((congrArg (item :: ·) hi).trans (collect_some hb).symm)

/-- **What is heard.** Waiting or polling, a reader gives the messages of the frames that its source
carries, up to a fault, and then that fault. -/
theorem items_ofSource (s : Source) (options : Options) :
    (ofSource s.settled options).items.1 = s.heard.1.map .ok ++ [.error s.heard.2] ∧
      (ofSource s options).settledItems.1 = s.heard.1.map .ok ++ [.error s.heard.2] := by
  have h : (ofSource s.settled options).Hears s.carried.1 s.carried.2 := by
    refine ⟨s.prompt_settled, options.chunkSize_pos, ?_, ?_⟩
    · exact congrArg Prod.fst s.carried_settled
    · exact congrArg Prod.snd s.carried_settled
  have hi := h.items rfl rfl
  exact ⟨hi, (settles_ofSource s options).settledItems.trans hi⟩

end Reader

end Telemetry
