import Telemetry.Proofs.Frame.Cut

/-!
# Payloads appended as frames

Payloads that are appended in order stand as their frames behind what was there
(`appendAll_eq`). The frames tell the payloads: where those of one list stand in front
of those of another, the one list stands in front of the other
(`prefix_of_wireAll_prefix`).
-/

namespace Telemetry.Frame

section
variable {payload : Bytes}

theorem append_of_short (h : payload.length < 0x100000000) (out : Bytes) :
    append payload out = (.ok (), out ++ wire payload) := by
  unfold append header
  rw [if_pos h]
  exact Prod.ext rfl (List.append_assoc ..)

theorem append_of_long (h : ¬ payload.length < 0x100000000) (out : Bytes) :
    append payload out = (.error (.tooLarge payload.length), out) := by
  unfold append header
  rw [if_neg h]

end

def appendAll : List Bytes → Bytes → List (Except Fault Unit) × Bytes
  | [], out => ([], out)
  | payload :: payloads, out =>
    let (result, out) := append payload out
    let (results, last) := appendAll payloads out
    (result :: results, last)

section
variable {payloads others : List Bytes}

theorem appendAll_eq (hs : ∀ payload ∈ payloads, payload.length < 0x100000000) (out : Bytes) :
    appendAll payloads out = (.replicate payloads.length (.ok ()), out ++ wireAll payloads) := by
  induction payloads generalizing out with
  | nil => exact Prod.ext rfl (List.append_nil out).symm
  | cons payload payloads ih =>
    obtain ⟨hp, hps⟩ := List.forall_mem_cons.1 hs
    simp only [appendAll, append_of_short hp, ih hps, wireAll_cons, List.append_assoc]
    rfl

theorem prefix_of_wireAll_prefix (hs : ∀ payload ∈ payloads, payload.length < 0x100000000)
    (ho : ∀ payload ∈ others, payload.length < 0x100000000) (h : wireAll payloads <+: wireAll others) :
    payloads <+: others := by
  have := splitAll_fst_prefix h
  rwa [splitAll_wireAll hs, splitAll_wireAll ho] at this

theorem eq_of_wireAll_eq (hs : ∀ payload ∈ payloads, payload.length < 0x100000000)
    (ho : ∀ payload ∈ others, payload.length < 0x100000000) (h : wireAll payloads = wireAll others) :
    payloads = others := by
  have := splitAll_wireAll hs
  rw [h, splitAll_wireAll ho] at this
  exact (congrArg Prod.fst this).symm

end

end Telemetry.Frame
