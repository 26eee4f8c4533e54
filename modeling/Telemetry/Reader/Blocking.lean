import Telemetry.Reader.Basic

/-!
# Reading and waiting

Each call receives until a frame is complete, the peer closes, or the connection fails. An
interrupted receive is repeated.
-/

namespace Telemetry.Reader

/-- Receives once into the chunk and feeds the decoder; gives the number of bytes. -/
def fill (r : Reader) : Except Fault Nat × Reader :=
  match _ : r.source.receiveNow r.chunk.size with
  | (.ok received, source) => (.ok received.length, r.store received source)
  | (.error error, source) =>
    if error.kind = .interrupted then fill { r with source }
    else (.error (.io error), { r with source })
termination_by r.source.weight
decreasing_by exact Source.weight_receiveNow_error ‹_›

theorem fill_ok {r r' : Reader} {n : Nat} (h : r.fill = (.ok n, r')) :
    r'.source.weight + n ≤ r.source.weight ∧ r'.decoder.buffered = r.decoder.buffered + n ∧
      r'.ended = r.ended := by
  fun_induction fill r with
  | case1 r received source hr =>
    simp only [Prod.mk.injEq, Except.ok.injEq] at h
    obtain ⟨rfl, rfl⟩ := h
    refine ⟨Source.weight_receiveNow_ok hr, ?_, rfl⟩
    rw [decoder_store r (Source.length_receiveNow hr), Decoder.buffered_feed]
  | case2 r error source hr _ ih =>
    have := Source.weight_receiveNow_error hr
    obtain ⟨h₁, h₂, h₃⟩ := ih h
    exact ⟨by simp only at h₁; omega, h₂, h₃⟩
  | case3 => simp at h

def awaitText (r : Reader) : Except Fault String × Reader :=
  match r.decoder.takeText with
  | (.ok (some text), decoder) => (.ok text, { r with decoder })
  | (.error fault, decoder) => (.error fault, { r with decoder })
  | (.ok none, _) =>
    match _ : r.fill with
    | (.error fault, r') => (.error fault, r')
    | (.ok 0, r') => (.error (.closed r'.buffered), r')
    | (.ok (_ + 1), r') => awaitText r'
termination_by r.source.weight
decreasing_by have := fill_ok ‹_›; omega

theorem awaitText_ok {r r' : Reader} {text : String} (h : r.awaitText = (.ok text, r')) :
    r'.decoder.buffered + r'.source.weight < r.decoder.buffered + r.source.weight ∧
      r'.ended = r.ended := by
  fun_induction awaitText r with
  | case1 r text decoder ht =>
    simp only [Prod.mk.injEq] at h
    obtain ⟨_, rfl⟩ := h
    have := Decoder.buffered_takeText ht
    exact ⟨by simp only; omega, rfl⟩
  | case5 r _ _ _ r₁ hf ih =>
    obtain ⟨h₁, h₂⟩ := ih h
    have := fill_ok hf
    exact ⟨by omega, h₂.trans this.2.2⟩
  | _ => simp at h

def awaitAs {α : Type} (scan : Json.Scan α) (r : Reader) : Except Fault α × Reader :=
  match r.awaitText with
  | (.ok text, r) => (Message.decodeAs scan text, r)
  | (.error fault, r) => (.error fault, r)

def awaitMessage (r : Reader) : Except Fault Message × Reader := r.awaitAs Json.Value.scan

/-! ## The sequence of messages -/

/-- The next item of the sequence, which a fault ends. -/
def next (r : Reader) : Option (Except Fault Message) × Reader :=
  if r.ended then (none, r)
  else
    let (item, r) := r.awaitMessage
    (some item, { r with ended := !item.isOk })

theorem load_next {r r' : Reader} {item : Except Fault Message} (h : r.next = (some item, r')) :
    r'.load < r.load := by
  unfold next at h
  split at h
  · simp at h
  · rename_i hr
    simp only [Prod.mk.injEq, Option.some.injEq] at h
    obtain ⟨rfl, rfl⟩ := h
    simp only [load, hr]
    cases hi : r.awaitMessage.1 with
    | error fault => simp [Except.isOk, Except.toBool]
    | ok m =>
      simp only [Except.isOk, Except.toBool, Bool.not_true]
      unfold awaitMessage awaitAs at hi ⊢
      split at hi
      · rename_i ht
        have := awaitText_ok ht
        simp only [Bool.false_eq_true, if_false]
        omega
      · cases hi

def items (r : Reader) : List (Except Fault Message) × Reader := r.collect next load_next

end Telemetry.Reader
