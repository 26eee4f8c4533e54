import Mathlib
import Telemetry.Proofs.Delivery
import Telemetry.Proofs.Json.Scanned
import Telemetry.Proofs.Reader.Polling
import Telemetry.Proofs.Text.Pieces
import Telemetry.Replay

/-!
# A replayed capture arrives

The messages of a capture are those of its lines that hold one. A replay sends them all
(`Replay.run_lasting`), and what it sends is read back message by message
(`replayed_messages_arrive`): what was read off a line is never nested too deeply for
the other end, and no line that is passed over as blank holds a message.
-/

namespace Telemetry

/-! ## Blank lines -/

namespace Json.Value

theorem startsNumber_of_isWhite {c : Char} (h : Text.isWhite c = true) : startsNumber c = false := by
  have hn : ¬ (48 ≤ c.toNat ∧ c.toNat ≤ 57) := by
    rintro ⟨hl, hu⟩
    simp only [Text.isWhite, Bool.or_eq_true, Bool.and_eq_true, decide_eq_true_eq] at h
    omega
  have hd : ¬ ('0' ≤ c ∧ c ≤ '9') := hn
  have hm : c ≠ '-' := by
    rintro rfl
    cases h
  unfold startsNumber Decimal.digit?
  rw [if_neg hd, decide_eq_false hm]
  rfl

theorem scanScalar_of_isWhite {c : Char} (h : Text.isWhite c = true) (text : List Char) :
    scanScalar (c :: text) = .error (.past .expectedValue (c :: text)) := by
  have hne {d : Char} (hd : Text.isWhite d = false) {rest : List Char} : c :: text ≠ d :: rest := by
    intro he
    rw [(List.cons.inj he).1, hd] at h
    cases h
  unfold scanScalar
  split
  · rename_i he
    cases he
  · rename_i he
    exact absurd he (hne rfl)
  · rename_i he
    exact absurd he (hne rfl)
  · rename_i he
    exact absurd he (hne rfl)
  · rename_i he
    exact absurd he (hne rfl)
  · rename_i he
    cases he
    rw [if_neg (by rw [startsNumber_of_isWhite h]; exact Bool.false_ne_true)]

theorem scanWithin_of_isWhite (limit : Nat) {text : List Char} (h : ∀ c ∈ text, Text.isWhite c = true) :
    ∃ stop, scanWithin limit text = .error stop := by
  have hb : ∀ c ∈ skipBlanks text, Text.isWhite c = true := by
    intro c hc
    exact h c ((List.dropWhile_suffix _).mem hc)
  have hn {c : Char} (hc : Text.isWhite c = false) (rest : List Char) : skipBlanks text ≠ c :: rest := by
    intro ht
    have hw := hb c (by rw [ht]; exact List.mem_cons_self ..)
    rw [hc] at hw
    cases hw
  rw [scanWithin_scalar limit (hn rfl) (hn rfl)]
  cases ht : skipBlanks text with
  | nil => exact ⟨_, rfl⟩
  | cons c rest =>
    rw [ht] at hb
    exact ⟨_, scanScalar_of_isWhite (hb c (List.mem_cons_self ..)) rest⟩

end Json.Value

namespace Message

theorem decode_of_trim_nil {text : List Char} (h : Text.trim text = []) :
    ∃ fault, decode (String.ofList text) = .error fault := by
  obtain ⟨front, back, rfl, hf, hb⟩ := (Text.trims_iff.2 h).around
  have hw : ∀ c ∈ front ++ [] ++ back, Text.isWhite c = true := by
    rw [List.append_nil]
    intro c hc
    rcases List.mem_append.1 hc with hc | hc
    · exact hf c hc
    · exact hb c hc
  obtain ⟨stop, hs⟩ := Json.Value.scanWithin_of_isWhite Json.Value.depthLimit hw
  have hs : Json.Value.scan (front ++ [] ++ back) = .error stop := hs
  unfold decode decodeAs Json.decode Json.whole
  rw [String.toList_ofList, hs]
  exact ⟨_, rfl⟩

theorem kept_decode {text : String} {m : Message} (h : decode text = .ok m) : m.Kept Json.Value.depthLimit := by
  unfold decode decodeAs at h
  split at h <;> cases h
  exact Json.Value.kept_decode (by assumption)

end Message

/-! ## Lines and their messages -/

namespace Replay

def message? (line : Bytes) : Option Message :=
  match Utf8.decode line with
  | .ok text => (Message.decode (String.ofList text)).toOption
  | .error _ => none

def messages (input : Bytes) : List Message := (lines input).filterMap message?

theorem ofText_cases (text : List Char) :
    (∃ m, Message.decode (String.ofList text) = .ok m ∧ Line.ofText text = .message m) ∨
    ∃ fault, Message.decode (String.ofList text) = .error fault ∧
      (Line.ofText text = .blank ∨ Line.ofText text = .skipped fault) := by
  unfold Line.ofText
  by_cases ht : Text.trim text = []
  · obtain ⟨fault, hf⟩ := Message.decode_of_trim_nil ht
    rw [if_pos ht]
    exact .inr ⟨fault, hf, .inl rfl⟩
  · rw [if_neg ht]
    cases hd : Message.decode (String.ofList text) with
    | ok m => exact .inl ⟨m, rfl, rfl⟩
    | error fault => exact .inr ⟨fault, rfl, .inr rfl⟩

theorem run_cons {sink : Sink} (hs : sink.Lasting) (skipped : Nat) {text : List Char} (rest : List Bytes)
    (hl : ∀ m ∈ message? (Utf8.encode text), m.bytes.length < 0x100000000) :
    ∃ sink' skipped', run sink skipped (Utf8.encode text :: rest) = run sink' skipped' rest ∧ sink'.Lasting ∧
      sink'.accepted =
        sink.accepted ++ Frame.wireAll ((message? (Utf8.encode text)).toList.map Message.bytes) := by
  rw [run, Utf8.decode_encode]
  unfold message? at hl ⊢
  rw [Utf8.decode_encode] at hl ⊢
  simp only at hl ⊢
  rcases ofText_cases text with ⟨m, hd, ht⟩ | ⟨fault, hd, ht | ht⟩ <;> rw [hd] at hl ⊢ <;> rw [ht]
  · obtain ⟨sink', hsend, hs', ha⟩ := hs.send (hl m rfl)
    simp only [hsend]
    refine ⟨sink', skipped, rfl, hs', ?_⟩
    rw [ha]
    simp [Except.toOption, Frame.wireAll]
  · exact ⟨sink, skipped, rfl, hs, (List.append_nil _).symm⟩
  · exact ⟨sink, skipped + 1, rfl, hs, (List.append_nil _).symm⟩

theorem run_lasting {sink : Sink} (hs : sink.Lasting) (skipped : Nat) {lines : List Bytes}
    (ht : ∀ line ∈ lines, Utf8.WellFormed line)
    (hl : ∀ m ∈ lines.filterMap message?, m.bytes.length < 0x100000000) :
    (run sink skipped lines).outcome = .finished ∧ (run sink skipped lines).sink.accepted =
      sink.accepted ++ Frame.wireAll ((lines.filterMap message?).map Message.bytes) := by
  induction lines generalizing sink skipped with
  | nil => exact ⟨rfl, (List.append_nil _).symm⟩
  | cons line lines ih =>
    obtain ⟨⟨text, rfl⟩, hrest⟩ := List.forall_mem_cons.1 ht
    have hf : (Utf8.encode text :: lines).filterMap message? =
        (message? (Utf8.encode text)).toList ++ lines.filterMap message? := by
      rw [List.filterMap_cons]
      cases message? (Utf8.encode text) <;> rfl
    rw [hf] at hl ⊢
    obtain ⟨sink', skipped', hr, hs', ha⟩ := run_cons hs skipped lines fun m hm =>
      hl m (List.mem_append_left _ (Option.mem_toList.2 hm))
    obtain ⟨ho, hacc⟩ := ih hs' skipped' hrest fun m hm => hl m (List.mem_append_right _ hm)
    rw [hr]
    refine ⟨ho, ?_⟩
    rw [hacc, ha, List.map_append, Frame.wireAll_append, List.append_assoc]

end Replay

/-! ## Arrival -/

namespace Reader

theorem Steady.awaitAll {r : Reader} {payloads : List Bytes} {last : Bytes} (h : r.Steady)
    (hb : Frame.splitAll r.backlog = (payloads, last)) (reading : Reading) (n : Nat) :
    (r.awaitAll (.replicate n (.read reading))).1.map Entry.answered =
      (List.range n).map fun i => ⟨.read reading, upcoming (payloads.drop i) last reading⟩ := by
  unfold Reader.awaitAll
  induction n generalizing r payloads with
  | zero => rfl
  | succ n ih =>
    obtain ⟨r', ha, h', hb'⟩ := h.await hb reading
    have ha : (Call.read reading).await r = (upcoming payloads last reading, r') := ha
    have hi := ih h' hb'
    simp only [List.drop_tail] at hi
    rw [List.replicate_succ, callAll, ha, List.range_succ_eq_map, List.map_cons, List.map_cons, hi, List.map_map]
    rfl

end Reader

theorem Message.ofPayload_bytes {m : Message} (hk : m.Kept Json.Value.depthLimit) (hi : m.Integral) :
    Reading.message.ofPayload m.bytes = .ok m :=
  (arrives_bytes (Json.Value.canonical_of_tidy hk.tidy hi)).whole hk.depth

theorem Replay.kept_messages {input : Bytes} {m : Message} (h : m ∈ messages input) :
    m.Kept Json.Value.depthLimit := by
  obtain ⟨line, _, hm⟩ := List.mem_filterMap.1 h
  unfold message? at hm
  split at hm
  · rename_i text _
    cases hd : Message.decode (String.ofList text) with
    | ok v =>
      rw [hd] at hm
      cases hm
      exact Message.kept_decode hd
    | error fault =>
      rw [hd] at hm
      cases hm
  · cases hm

/-- **A replayed capture arrives.** However the bytes of the replay come, waiting or polling, the readings
give the messages of its lines in order, and then find the connection closed. -/
theorem replayed_messages_arrive (answers : List Answer) (input : Bytes) (hs : ∀ answer ∈ answers, answer.Lasting)
    (ht : ∀ line ∈ Replay.lines input, Utf8.WellFormed line)
    (hm : ∀ m ∈ Replay.messages input, m.Integral ∧ m.bytes.length < 0x100000000) :
    let result := Replay.replay { answers } input
    result.outcome = .finished ∧
      ∀ source : Source, source.settled.Steady → source.left = result.sink.accepted → ∀ size n : Nat,
        let calls := List.replicate n (Call.read .message)
        let told := (List.range n).map fun i => (⟨.read .message,
          match (Replay.messages input)[i]? with
          | some m => .ok m
          | none => .error (.closed 0)⟩ : (call : Call) × call.Answer)
        ((Reader.ofSource source.settled (.ofChunkSize size)).awaitAll calls).1.map Entry.answered = told ∧
          ((Reader.ofSource source (.ofChunkSize size)).settleAll calls).1.map Entry.answered = told := by
  have hlasting : ({ answers } : Sink).Lasting := hs
  obtain ⟨ho, ha⟩ := Replay.run_lasting hlasting 0 ht fun m h => (hm m h).2
  refine ⟨ho, ?_⟩
  intro source hsteady hleft size n calls told
  have hshort : ∀ payload ∈ (Replay.messages input).map Message.bytes, payload.length < 0x100000000 := by
    intro payload hp
    obtain ⟨m, h, rfl⟩ := List.mem_map.1 hp
    exact (hm m h).2
  have hb : Frame.splitAll (Reader.ofSource source.settled (.ofChunkSize size)).backlog =
      ((Replay.messages input).map Message.bytes, []) := by
    rw [Reader.backlog_ofSource, source.settles_settled.left, hleft]
    exact (congrArg Frame.splitAll ha).trans (Frame.splitAll_wireAll hshort)
  have hw := (Reader.steady_ofSource hsteady (.ofChunkSize size)).awaitAll hb .message n
  have hnext (i : Nat) : Reader.upcoming (((Replay.messages input).map Message.bytes).drop i) [] .message =
      match (Replay.messages input)[i]? with
      | some m => .ok m
      | none => .error (.closed 0) := by
    rw [← List.map_drop, ← List.head?_drop]
    cases hd : (Replay.messages input).drop i with
    | nil => rfl
    | cons m rest =>
      have hmem : m ∈ Replay.messages input := List.mem_of_mem_drop (by rw [hd]; exact List.mem_cons_self ..)
      exact Message.ofPayload_bytes (Replay.kept_messages hmem) (hm m hmem).1
  have htold : ((Reader.ofSource source.settled (.ofChunkSize size)).awaitAll calls).1.map Entry.answered = told := by
    rw [hw]
    exact List.map_congr_left fun i _ => congrArg (Sigma.mk _) (hnext i)
  refine ⟨htold, ?_⟩
  rw [(Reader.settles_ofSource source (.ofChunkSize size)).settleAll calls]
  exact htold

/-- A key that stands twice, a carriage return, white space that is not the grammar's, and no value. The
first write is interrupted and the second one is short. -/
theorem replayed_messages_arrive_lines :
    let answers : List Answer := [.failure ⟨.interrupted, none⟩, .accept 3]
    let input := Bytes.ofText "\x7b\"a\":1,\"\\u0061\":[2]\x7d\r\n\u00a0 \nno\n 7"
    let result := Replay.replay { answers } input
    let source : Source :=
      ⟨.pending :: .failure ⟨.interrupted, none⟩ :: result.sink.accepted.map fun b => .data [b], 0, 0⟩
    let told : List ((call : Call) × call.Answer) :=
      [⟨.read .message, .ok (.object [("a", .array [.number (.int 2)])])⟩, ⟨.read .message, .ok (.number (.int 7))⟩,
        ⟨.read .message, .error (.closed 0)⟩]
    (∀ answer ∈ answers, answer.Lasting) ∧ source.settled.Steady ∧ source.left = result.sink.accepted ∧
      result.outcome = .finished ∧
      ((Reader.ofSource source.settled (.ofChunkSize 0)).awaitAll (.replicate 3 (.read .message))).1.map
        Entry.answered = told ∧
      ((Reader.ofSource source (.ofChunkSize 0)).settleAll (.replicate 3 (.read .message))).1.map
        Entry.answered = told := by
  have hv : Replay.messages (Bytes.ofText "\x7b\"a\":1,\"\\u0061\":[2]\x7d\r\n\u00a0 \nno\n 7") =
      [.object [("a", .array [.number (.int 2)])], .number (.int 7)] := by cbv
  intro answers input
  have hs : ∀ answer ∈ answers, answer.Lasting := by
    intro answer h
    simp only [answers, List.mem_cons, List.not_mem_nil, or_false] at h
    rcases h with rfl | rfl
    · rfl
    · exact Nat.zero_lt_succ 2
  replace hv : Replay.messages input = _ := hv
  have ht : ∀ line ∈ Replay.lines input, Utf8.WellFormed line := by
    have hd : ∀ line ∈ Replay.lines input, (Utf8.decode line).isOk := by decide +kernel
    intro line h
    cases ht : Utf8.decode line with
    | ok text => exact ⟨text, Utf8.encode_of_decode ht⟩
    | error fault =>
      have := hd line h
      rw [ht] at this
      cases this
  have hm : ∀ m ∈ Replay.messages input, m.Integral ∧ m.bytes.length < 0x100000000 := by
    rw [hv]
    intro m h
    simp only [List.mem_cons, List.not_mem_nil, or_false] at h
    rcases h with rfl | rfl
    · refine ⟨Json.Value.integral_of_canonical ?_, ?_⟩
      · exact ⟨by decide, ⟨⟨by decide, by decide⟩, trivial⟩, trivial⟩
      · cbv
    · refine ⟨Json.Value.integral_of_canonical ?_, ?_⟩
      · exact ⟨by decide, by decide⟩
      · cbv
  obtain ⟨ho, hr⟩ := replayed_messages_arrive answers input hs ht hm
  generalize Replay.replay { answers } input = result at ho hr ⊢
  intro _ source told
  have hsteady : source.settled.Steady := by
    intro event h
    obtain ⟨h, hp⟩ := List.mem_filter.1 h
    rcases List.mem_cons.1 h with rfl | h
    · cases hp
    · rcases List.mem_cons.1 h with rfl | h
      · rfl
      · exact Source.steady_bytewise result.sink.accepted event h
  have hleft : source.left = result.sink.accepted := Source.left_bytewise result.sink.accepted
  obtain ⟨hwaiting, hpolling⟩ := hr source hsteady hleft 0 3
  rw [hv] at hwaiting hpolling
  exact ⟨hs, hsteady, hleft, ho, hwaiting, hpolling⟩

end Telemetry
