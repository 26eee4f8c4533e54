import Telemetry.Reader.Basic

/-!
# Reading without waiting

Each call does what it can with what has come and otherwise comes back pending. All that it has
received by then is in the receive buffer, so a call that came back pending can be repeated,
dropped, or followed by another one.
-/

namespace Telemetry

/-- The outcome of a call that does not wait. -/
inductive Poll (α : Type) where
  | ready (a : α)
  | pending

namespace Poll

def map {α β : Type} (f : α → β) : Poll α → Poll β
  | .ready a => .ready (f a)
  | .pending => .pending

end Poll

namespace Reader

/-- Receives once into the chunk and feeds the decoder; gives the number of bytes. An interrupted
receive is repeated. -/
def pollFill (r : Reader) : Poll (Except Fault Nat) × Reader :=
  match _ : r.source.receive r.chunk.size with
  | (.pending, source) => (.pending, { r with source })
  | (.received bytes, source) => (.ready (.ok bytes.length), r.store bytes source)
  | (.failed error, source) =>
    if error.kind = .interrupted then pollFill { r with source }
    else (.ready (.error (.io error)), { r with source })
termination_by r.source.weight
decreasing_by exact Source.weight_failed ‹_›

theorem pollFill_ok {r r' : Reader} {n : Nat} (h : r.pollFill = (.ready (.ok n), r')) :
    r'.source.weight + n ≤ r.source.weight ∧ r'.decoder.buffered = r.decoder.buffered + n ∧
      r'.ended = r.ended := by
  fun_induction pollFill r with
  | case2 r bytes source hr =>
    simp only [Prod.mk.injEq, Poll.ready.injEq, Except.ok.injEq] at h
    obtain ⟨rfl, rfl⟩ := h
    refine ⟨Source.weight_received hr, ?_, rfl⟩
    rw [decoder_store r (Source.length_received hr), Decoder.buffered_feed]
  | case3 r error source hr _ ih =>
    have := Source.weight_failed hr
    obtain ⟨h₁, h₂, h₃⟩ := ih h
    exact ⟨by simp only at h₁; omega, h₂, h₃⟩
  | _ => simp at h

theorem pollFill_pending {r r' : Reader} (h : r.pollFill = (.pending, r')) :
    r'.source.weight < r.source.weight ∧ r'.decoder = r.decoder ∧ r'.ended = r.ended := by
  fun_induction pollFill r with
  | case1 r source hr =>
    simp only [Prod.mk.injEq, true_and] at h
    subst h
    exact ⟨Source.weight_pending hr, rfl, rfl⟩
  | case3 r error source hr _ ih =>
    have := Source.weight_failed hr
    obtain ⟨h₁, h₂, h₃⟩ := ih h
    exact ⟨by simp only at h₁; omega, h₂, h₃⟩
  | _ => simp at h

def pollText (r : Reader) : Poll (Except Fault String) × Reader :=
  match r.decoder.takeText with
  | (.ok (some text), decoder) => (.ready (.ok text), { r with decoder })
  | (.error fault, decoder) => (.ready (.error fault), { r with decoder })
  | (.ok none, _) =>
    match _ : r.pollFill with
    | (.pending, r') => (.pending, r')
    | (.ready (.error fault), r') => (.ready (.error fault), r')
    | (.ready (.ok 0), r') => (.ready (.error (.closed r'.buffered)), r')
    | (.ready (.ok (_ + 1)), r') => pollText r'
termination_by r.source.weight
decreasing_by have := pollFill_ok ‹_›; omega

theorem pollText_ok {r r' : Reader} {text : String} (h : r.pollText = (.ready (.ok text), r')) :
    r'.decoder.buffered + r'.source.weight < r.decoder.buffered + r.source.weight ∧
      r'.ended = r.ended := by
  fun_induction pollText r with
  | case1 r text decoder ht =>
    simp only [Prod.mk.injEq] at h
    obtain ⟨_, rfl⟩ := h
    have := Decoder.buffered_takeText ht
    exact ⟨by simp only; omega, rfl⟩
  | case6 r _ _ _ r₁ hf ih =>
    obtain ⟨h₁, h₂⟩ := ih h
    have := pollFill_ok hf
    exact ⟨by omega, h₂.trans this.2.2⟩
  | _ => simp at h

theorem pollText_pending {r r' : Reader} (h : r.pollText = (.pending, r')) :
    r'.source.weight < r.source.weight ∧
      r'.decoder.buffered + r'.source.weight < r.decoder.buffered + r.source.weight ∧
      r'.ended = r.ended := by
  fun_induction pollText r with
  | case3 r _ _ r₁ hf =>
    simp only [Prod.mk.injEq, true_and] at h
    subst h
    obtain ⟨h₁, h₂, h₃⟩ := pollFill_pending hf
    rw [h₂]
    exact ⟨h₁, by omega, h₃⟩
  | case6 r _ _ _ r₁ hf ih =>
    obtain ⟨h₁, h₂, h₃⟩ := ih h
    have := pollFill_ok hf
    exact ⟨by omega, by omega, h₃.trans this.2.2⟩
  | _ => simp at h

def pollAs {α : Type} (scan : Json.Scan α) (r : Reader) : Poll (Except Fault α) × Reader :=
  let (text, r) := r.pollText
  (text.map fun
    | .ok text => Message.decodeAs scan text
    | .error fault => .error fault, r)

def pollMessage (r : Reader) : Poll (Except Fault Message) × Reader := r.pollAs Json.Value.scan

/-! ## The sequence of messages -/

/-- The next item of the sequence, which a fault ends; `none` after the end. -/
def pollNext (r : Reader) : Poll (Option (Except Fault Message)) × Reader :=
  if r.ended then (.ready none, r)
  else
    match r.pollMessage with
    | (.pending, r) => (.pending, r)
    | (.ready item, r) => (.ready (some item), { r with ended := !item.isOk })

/-! ## Until ready -/

/-- A way to poll that comes back pending only when the source has moved on. -/
def Advances {α : Type} (poll : Reader → Poll α × Reader) : Prop :=
  ∀ {r r'}, poll r = (.pending, r') → r'.source.weight < r.source.weight

/-- Polls again until the outcome is there. -/
def untilReady {α : Type} (poll : Reader → Poll α × Reader) (advances : Advances poll) (r : Reader) :
    α × Reader :=
  match _ : poll r with
  | (.ready a, r') => (a, r')
  | (.pending, r') => untilReady poll advances r'
termination_by r.source.weight
decreasing_by exact advances ‹_›

theorem advances_pollText : Advances pollText := fun h => (pollText_pending h).1

theorem pollAs_pending {α : Type} {scan : Json.Scan α} {r r' : Reader}
    (h : r.pollAs scan = (.pending, r')) : r.pollText = (.pending, r') := by
  unfold pollAs at h
  simp only [Prod.mk.injEq] at h
  obtain ⟨h₁, rfl⟩ := h
  cases hp : r.pollText.1 with
  | ready text => simp [hp, Poll.map] at h₁
  | pending => exact Prod.ext hp rfl

theorem advances_pollAs {α : Type} (scan : Json.Scan α) : Advances (pollAs scan) :=
  fun h => advances_pollText (pollAs_pending h)

theorem advances_pollNext : Advances pollNext := by
  intro r r' h
  unfold pollNext at h
  split at h
  · simp at h
  · split at h <;> simp at h
    subst h
    exact advances_pollAs _ ‹_›

def settledNext (r : Reader) : Option (Except Fault Message) × Reader :=
  r.untilReady pollNext advances_pollNext

theorem load_pollNext_pending {r r' : Reader} (h : r.pollNext = (.pending, r')) :
    r'.load < r.load := by
  unfold pollNext at h
  split at h
  · simp at h
  · rename_i hr
    split at h <;> simp at h
    subst h
    rename_i hp
    obtain ⟨_, h₁, h₂⟩ := pollText_pending (pollAs_pending hp)
    simp only [load, h₂, hr, Bool.false_eq_true, if_false]
    omega

theorem load_pollNext_ready {r r' : Reader} {item : Except Fault Message}
    (h : r.pollNext = (.ready (some item), r')) : r'.load < r.load := by
  unfold pollNext at h
  split at h
  · simp at h
  · rename_i hr
    split at h <;> simp only [Prod.mk.injEq, Poll.ready.injEq, Option.some.injEq, reduceCtorEq, false_and] at h
    rename_i hp
    obtain ⟨rfl, rfl⟩ := h
    simp only [load, hr, Bool.false_eq_true, if_false]
    rename_i item _
    cases item with
    | error fault => simp [Except.isOk, Except.toBool]
    | ok m =>
      rcases ht : r.pollText with ⟨poll, r₁⟩
      simp only [pollMessage, pollAs, ht, Prod.mk.injEq] at hp
      obtain ⟨hp, rfl⟩ := hp
      cases poll with
      | pending => simp [Poll.map] at hp
      | ready text =>
        cases text with
        | error fault => simp [Poll.map] at hp
        | ok text =>
          have := pollText_ok ht
          simp only [Except.isOk, Except.toBool, Bool.not_true, Bool.false_eq_true, if_false]
          omega

theorem load_settledNext {r r' : Reader} {item : Except Fault Message}
    (h : r.settledNext = (some item, r')) : r'.load < r.load := by
  unfold settledNext at h
  fun_induction untilReady pollNext advances_pollNext r with
  | case1 r a r₁ hp =>
    simp only [Prod.mk.injEq] at h
    obtain ⟨rfl, rfl⟩ := h
    exact load_pollNext_ready hp
  | case2 r r₁ hp ih => exact Nat.lt_trans (ih h) (load_pollNext_pending hp)

def settledItems (r : Reader) : List (Except Fault Message) × Reader :=
  r.collect settledNext load_settledNext

end Reader

end Telemetry
