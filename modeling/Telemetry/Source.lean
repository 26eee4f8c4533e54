import Telemetry.Fault

/-!
# Byte sources

What a connection delivers, receive by receive: data, failures, and moments when nothing has come
yet. After the last event the peer has closed, and every receive yields no bytes.

`weight` counts what is still to come. No receive makes it grow, and only one that yields nothing
may leave it as it is.
-/

namespace Telemetry

inductive Event where
  | data (bytes : Bytes)
  | failure (error : IoError)
  | pending
deriving DecidableEq, Repr

/-- What an event counts for in what is still to come. -/
def Event.weight : Event → Nat
  | .data bytes => bytes.length + 1
  | _ => 1

/-- A connection's events to come, the number of receives so far and the size that the latest one
asked for. -/
structure Source where
  events : List Event
  receives : Nat := 0
  asked : Nat := 0
deriving DecidableEq, Repr

inductive Receipt where
  | received (bytes : Bytes)
  | failed (error : IoError)
  | pending
deriving DecidableEq, Repr

namespace Source

def counted (s : Source) (size : Nat) (events : List Event) : Source :=
  ⟨events, s.receives + 1, size⟩

/-- Receives at most `size` bytes. Data that is longer stays for the next receive. -/
def receive (s : Source) (size : Nat) : Receipt × Source :=
  match s.events with
  | [] => (.received [], s.counted size [])
  | .data bytes :: events =>
    if bytes.length ≤ size then (.received bytes, s.counted size events)
    else (.received (bytes.take size), s.counted size (.data (bytes.drop size) :: events))
  | .failure error :: events => (.failed error, s.counted size events)
  | .pending :: events => (.pending, s.counted size events)

/-- Receives without waiting: when nothing has come yet, that is a failure. -/
def receiveNow (s : Source) (size : Nat) : Except IoError Bytes × Source :=
  match s.receive size with
  | (.received bytes, s) => (.ok bytes, s)
  | (.failed error, s) => (.error error, s)
  | (.pending, s) => (.error ⟨.wouldBlock, none⟩, s)

def left (s : Source) : Bytes :=
  s.events.flatMap fun
    | .data bytes => bytes
    | _ => []

def push (s : Source) (events : List Event) : Source := { s with events := s.events ++ events }

/-! ## What is still to come -/

def weightOf : List Event → Nat
  | [] => 0
  | e :: events => e.weight + weightOf events

def weight (s : Source) : Nat := weightOf s.events

section
variable {s s' : Source} {size : Nat}

theorem weight_received {bytes : Bytes} (h : s.receive size = (.received bytes, s')) :
    s'.weight + bytes.length ≤ s.weight := by
  obtain ⟨_ | ⟨_ | _ | _, events⟩, receives, asked⟩ := s
  · simp only [receive, Prod.mk.injEq, Receipt.received.injEq] at h
    obtain ⟨rfl, rfl⟩ := h
    simp [weight, weightOf, counted]
  · simp only [receive] at h
    split at h <;> simp only [Prod.mk.injEq, Receipt.received.injEq] at h <;> obtain ⟨rfl, rfl⟩ := h <;>
      simp [weight, weightOf, counted, Event.weight] <;> omega
  all_goals simp [receive] at h

theorem length_received {bytes : Bytes} (h : s.receive size = (.received bytes, s')) : bytes.length ≤ size := by
  obtain ⟨_ | ⟨_ | _ | _, events⟩, receives, asked⟩ := s <;> simp only [receive] at h
  · cases h
    exact Nat.zero_le size
  · split at h <;> cases h
    · assumption
    · exact List.length_take_le ..
  all_goals cases h

theorem weight_failed {error : IoError} (h : s.receive size = (.failed error, s')) :
    s'.weight < s.weight := by
  obtain ⟨_ | ⟨_ | _ | _, events⟩, receives, asked⟩ := s <;> simp only [receive] at h
  · simp at h
  · split at h <;> simp at h
  · simp only [Prod.mk.injEq] at h
    obtain ⟨_, rfl⟩ := h
    simp [weight, weightOf, counted, Event.weight]
  · simp at h

theorem weight_pending (h : s.receive size = (.pending, s')) : s'.weight < s.weight := by
  obtain ⟨_ | ⟨_ | _ | _, events⟩, receives, asked⟩ := s <;> simp only [receive] at h
  · simp at h
  · split at h <;> simp at h
  · simp at h
  · simp only [Prod.mk.injEq] at h
    obtain ⟨_, rfl⟩ := h
    simp [weight, weightOf, counted, Event.weight]

theorem weight_receiveNow_ok {bytes : Bytes} (h : s.receiveNow size = (.ok bytes, s')) :
    s'.weight + bytes.length ≤ s.weight := by
  unfold receiveNow at h
  split at h <;> simp only [Prod.mk.injEq, Except.ok.injEq, reduceCtorEq, false_and] at h
  obtain ⟨rfl, rfl⟩ := h
  exact weight_received (by assumption)

theorem length_receiveNow {bytes : Bytes} (h : s.receiveNow size = (.ok bytes, s')) : bytes.length ≤ size := by
  unfold receiveNow at h
  split at h <;> cases h
  exact length_received (by assumption)

theorem weight_receiveNow_error {error : IoError} (h : s.receiveNow size = (.error error, s')) :
    s'.weight < s.weight := by
  unfold receiveNow at h
  split at h <;> simp only [Prod.mk.injEq, Except.error.injEq, reduceCtorEq, false_and] at h
  · obtain ⟨_, rfl⟩ := h
    exact weight_failed (by assumption)
  · obtain ⟨_, rfl⟩ := h
    exact weight_pending (by assumption)

end

end Source

end Telemetry
