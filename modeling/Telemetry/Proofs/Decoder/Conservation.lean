import Telemetry.Proofs.Decoder.Take
import Telemetry.Proofs.Frame.Cut

/-!
# A decoder keeps every byte

However a decoder is used, the bytes it was fed are the frames that were taken
off it and its buffer, in this order (`bytes_conserved`). `Accounts` is what one
operation preserves.
-/

namespace Telemetry.Decoder

/-! ## Uses of a decoder -/

inductive Operation where
  | feed (bytes : Bytes)
  | takePayload
  | takeText
  | clear

inductive Outcome where
  | done
  | payload (taken : Option Bytes)
  | text (result : Except Fault (Option String))

def create : (capacity : Option Nat) → Decoder
  | none => {}
  | some capacity => .ofCapacity capacity

@[simp] theorem buffer_create (capacity : Option Nat) : (create capacity).buffer = [] := by cases capacity <;> rfl

def Operation.run : Operation → Decoder → Outcome × Decoder
  | .feed bytes, d => (.done, d.feed bytes)
  | .takePayload, d => (.payload d.takePayload.1, d.takePayload.2)
  | .takeText, d => (.text d.takeText.1, d.takeText.2)
  | .clear, d => (.done, d.clear)

def Operation.isClear : Operation → Bool
  | .clear => true
  | _ => false

def Operation.fed : Operation → Bytes
  | .feed bytes => bytes
  | _ => []

def Outcome.taken : Outcome → List Bytes
  | .payload (some bytes) => [bytes]
  | .text (.ok (some string)) => [.ofText string]
  | .text (.error (.decoding bytes _)) => [bytes]
  | _ => []

def Outcome.isNothing : Outcome → Bool
  | .payload none => true
  | .text (.ok none) => true
  | _ => false

abbrev Log := List (Operation × Outcome)

def runAll : List Operation → Decoder → Log × Decoder
  | [], d => ([], d)
  | operation :: operations, d =>
    let (outcome, d) := operation.run d
    let (log, d) := runAll operations d
    ((operation, outcome) :: log, d)

namespace Log

def sinceClear (log : Log) : Log := (log.reverse.takeWhile fun entry => !entry.1.isClear).reverse

def fed (log : Log) : Bytes := log.flatMap fun entry => entry.1.fed

def taken (log : Log) : List Bytes := log.flatMap fun entry => entry.2.taken

theorem sinceClear_concat (log : Log) (operation : Operation) (outcome : Outcome) :
    sinceClear (log ++ [(operation, outcome)]) =
      if operation.isClear then [] else sinceClear log ++ [(operation, outcome)] := by
  simp only [sinceClear, List.reverse_append, List.reverse_cons, List.reverse_nil, List.nil_append,
    List.cons_append, List.takeWhile_cons]
  cases operation.isClear <;> simp

theorem fed_concat (log : Log) (operation : Operation) (outcome : Outcome) :
    fed (log ++ [(operation, outcome)]) = fed log ++ operation.fed := by
  simp [fed]

theorem taken_concat (log : Log) (operation : Operation) (outcome : Outcome) :
    taken (log ++ [(operation, outcome)]) = taken log ++ outcome.taken := by
  simp [taken]

end Log

/-! ## What a take does -/

/-- A take gives the complete frame in front; without one it gives nothing and leaves the decoder alone. -/
structure TakesFront (d : Decoder) (outcome : Outcome) (d' : Decoder) : Prop where
  nothing_iff : outcome.isNothing = true ↔ ¬ Frame.Begins d.buffer
  unchanged : outcome.isNothing = true → d' = d
  frame : Frame.Begins d.buffer → ∃ payload, outcome.taken = [payload] ∧
    payload.length < 0x100000000 ∧ d.buffer = Frame.wire payload ++ d'.buffer

section
variable {d d' : Decoder} {outcome : Outcome}

theorem takesFront_of_none (hb : ¬ Frame.Begins d.buffer) (ho : outcome.isNothing = true) :
    TakesFront d outcome d where
  nothing_iff := ⟨fun _ => hb, fun _ => ho⟩
  unchanged _ := rfl
  frame h := absurd h hb

theorem takesFront_of_some {payload rest : Bytes} (hs : Frame.split? d.buffer = some (payload, rest))
    (hn : outcome.isNothing = false) (ho : outcome.taken = [payload]) : TakesFront d outcome ⟨rest⟩ where
  nothing_iff := by
    obtain ⟨hp, hb⟩ := Frame.split?_iff.1 hs
    simp only [hn, Bool.false_eq_true, false_iff]
    exact fun h => h ⟨payload, rest, hp, hb⟩
  unchanged h := by rw [hn] at h; cases h
  frame _ := ⟨payload, ho, Frame.split?_iff.1 hs⟩

end

theorem takesFront_takePayload (d : Decoder) :
    TakesFront d (Operation.takePayload.run d).1 (Operation.takePayload.run d).2 := by
  simp only [Operation.run]
  rcases d.takePayload_cases with ⟨hb, ht⟩ | ⟨payload, rest, hs, ht⟩
  · rw [ht]; exact takesFront_of_none hb rfl
  · rw [ht]; exact takesFront_of_some hs rfl rfl

theorem takesFront_takeText (d : Decoder) :
    TakesFront d (Operation.takeText.run d).1 (Operation.takeText.run d).2 := by
  simp only [Operation.run]
  rcases d.takeText_cases with ⟨hb, ht⟩ | ⟨payload, rest, hs, ht⟩
  · rw [ht]; exact takesFront_of_none hb rfl
  rw [ht]
  rcases textOf_cases payload with ⟨text, _, ho, hp⟩ | ⟨fault, _, ho⟩
  · rw [ho]; exact takesFront_of_some hs rfl (congrArg (fun p => [p]) hp)
  · rw [ho]; exact takesFront_of_some hs rfl rfl

/-! ## The account -/

/-- What was fed since the last `clear` is what was taken off since then, as
frames, and what is buffered. -/
structure Accounts (log : Log) (d : Decoder) : Prop where
  bytes : log.sinceClear.fed = Frame.wireAll log.sinceClear.taken ++ d.buffer
  short : ∀ payload ∈ log.sinceClear.taken, payload.length < 0x100000000

theorem accounts_create (capacity : Option Nat) : Accounts [] (create capacity) := by
  cases capacity <;> exact ⟨rfl, fun _ h => by cases h⟩

theorem Accounts.take {log : Log} {d d' : Decoder} {operation : Operation} {outcome : Outcome}
    (h : Accounts log d) (hc : operation.isClear = false) (hf : operation.fed = [])
    (ht : TakesFront d outcome d') (hn : outcome.isNothing = true → outcome.taken = []) :
    Accounts (log ++ [(operation, outcome)]) d' := by
  have hs := log.sinceClear_concat operation outcome
  rw [hc, if_neg Bool.false_ne_true] at hs
  by_cases hb : Frame.Begins d.buffer
  · obtain ⟨payload, ho, hp, hw⟩ := ht.frame hb
    constructor
    · rw [hs, Log.fed_concat, Log.taken_concat, hf, ho, Frame.wireAll_append, h.bytes, hw]
      simp [Frame.wireAll]
    · rw [hs, Log.taken_concat, ho]
      intro p hm
      rcases List.mem_append.1 hm with hm | hm
      · exact h.short p hm
      · rw [List.mem_singleton.1 hm]; exact hp
  · have hnothing := ht.nothing_iff.2 hb
    obtain rfl := ht.unchanged hnothing
    constructor
    · rw [hs, Log.fed_concat, Log.taken_concat, hf, hn hnothing, List.append_nil, List.append_nil, h.bytes]
    · rw [hs, Log.taken_concat, hn hnothing, List.append_nil]
      exact h.short

theorem Accounts.run {log : Log} {d : Decoder} (h : Accounts log d) (operation : Operation) :
    Accounts (log ++ [(operation, (operation.run d).1)]) (operation.run d).2 := by
  cases operation with
  | feed bytes =>
    have hs := log.sinceClear_concat (.feed bytes) .done
    constructor
    · simp only [Operation.run, hs, Operation.isClear, Bool.false_eq_true, if_false, Log.fed_concat,
        Log.taken_concat, Operation.fed, Outcome.taken, List.append_nil, feed, h.bytes, List.append_assoc]
    · simp only [Operation.run, hs, Operation.isClear, Bool.false_eq_true, if_false, Log.taken_concat,
        Outcome.taken, List.append_nil]
      exact h.short
  | takePayload =>
    refine h.take rfl rfl (takesFront_takePayload d) fun hn => ?_
    simp only [Operation.run] at hn ⊢
    cases ht : d.takePayload.1 with
    | none => rfl
    | some payload => rw [ht] at hn; cases hn
  | takeText =>
    refine h.take rfl rfl (takesFront_takeText d) fun hn => ?_
    simp only [Operation.run] at hn ⊢
    cases ht : d.takeText.1 with
    | error fault => rw [ht] at hn; cases hn
    | ok text =>
      cases text with
      | none => rfl
      | some text => rw [ht] at hn; cases hn
  | clear =>
    have hs := log.sinceClear_concat .clear .done
    constructor
    · simp only [Operation.run, hs, Operation.isClear, if_true]
      rfl
    · simp only [Operation.run, hs, Operation.isClear, if_true]
      intro p hm
      cases hm

theorem Accounts.runAll {log : Log} {d : Decoder} (h : Accounts log d) (operations : List Operation) :
    Accounts (log ++ (runAll operations d).1) (runAll operations d).2 := by
  induction operations generalizing log d with
  | nil => rw [Decoder.runAll, List.append_nil]; exact h
  | cons operation operations ih =>
    have := ih (h.run operation)
    rwa [List.append_assoc] at this

/-- **Every byte is kept.** The bytes fed since the last `clear` are the frames taken off since then, and
behind them the buffer. -/
theorem bytes_conserved (capacity : Option Nat) (operations : List Operation) :
    let log := (runAll operations (create capacity)).1
    let d := (runAll operations (create capacity)).2
    Accounts log d ∧
      log.sinceClear.fed.length = (Frame.wireAll log.sinceClear.taken).length + d.buffered ∧
      (d.isEmpty = true ↔ log.sinceClear.fed = Frame.wireAll log.sinceClear.taken) ∧
      TakesFront d (Operation.takePayload.run d).1 (Operation.takePayload.run d).2 ∧
      TakesFront d (Operation.takeText.run d).1 (Operation.takeText.run d).2 := by
  intro log d
  have h : Accounts log d := (accounts_create capacity).runAll operations
  refine ⟨h, ?_, ?_, takesFront_takePayload d, takesFront_takeText d⟩
  · rw [h.bytes, List.length_append, buffered]
  · rw [h.bytes, isEmpty, List.isEmpty_iff]
    simp

end Telemetry.Decoder
