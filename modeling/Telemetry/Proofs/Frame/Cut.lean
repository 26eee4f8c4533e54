import Telemetry.Frame.Stream
import Telemetry.Proofs.Frame.Front

/-!
# The one way to cut bytes into frames

`Cuts` says that bytes are some frames and a rest with no complete frame in
front. There is exactly one such cut, the one that `splitAll` finds. Bytes that come
later leave the frames of the earlier ones as they are (`splitAll_append`).
-/

namespace Telemetry.Frame

theorem wireAll_cons (payload : Bytes) (payloads : List Bytes) :
    wireAll (payload :: payloads) = wire payload ++ wireAll payloads := rfl

theorem wireAll_append (payloads more : List Bytes) :
    wireAll (payloads ++ more) = wireAll payloads ++ wireAll more := by
  simp [wireAll]

theorem wireAll_prefix {payloads others : List Bytes} (h : payloads <+: others) :
    wireAll payloads <+: wireAll others := by
  obtain ⟨more, rfl⟩ := h
  rw [wireAll_append]
  exact List.prefix_append ..

/-- The bytes are the frames of the payloads, and no frame is complete in what is
left behind them. -/
structure Cuts (bytes : Bytes) (payloads : List Bytes) (last : Bytes) : Prop where
  eq : bytes = wireAll payloads ++ last
  short : ∀ payload ∈ payloads, payload.length < 0x100000000
  incomplete : ¬ Begins last

section
variable {bytes payload rest : Bytes}

theorem splitAll_none (h : split? bytes = none) : splitAll bytes = ([], bytes) := by
  rw [splitAll]
  split
  · rfl
  · rename_i hs
    rw [h] at hs
    cases hs

theorem splitAll_some (h : split? bytes = some (payload, rest)) :
    splitAll bytes = (payload :: (splitAll rest).1, (splitAll rest).2) := by
  rw [splitAll]
  split
  · rename_i hs
    rw [h] at hs
    cases hs
  · rename_i hs
    rw [h] at hs
    cases hs
    rfl

end

theorem cuts_splitAll (bytes : Bytes) : Cuts bytes (splitAll bytes).1 (splitAll bytes).2 := by
  fun_induction splitAll bytes with
  | case1 bytes h => exact ⟨rfl, fun _ hm => (List.not_mem_nil hm).elim, split?_eq_none_iff.1 h⟩
  | case2 bytes payload rest hs payloads last h ih =>
    rw [h] at ih
    obtain ⟨hp, hb⟩ := split?_iff.1 hs
    refine ⟨?_, List.forall_mem_cons.2 ⟨hp, ih.short⟩, ih.incomplete⟩
    rw [hb, ih.eq, wireAll_cons, List.append_assoc]

theorem Cuts.splitAll_eq {bytes last : Bytes} {payloads : List Bytes} (h : Cuts bytes payloads last) :
    splitAll bytes = (payloads, last) := by
  induction payloads generalizing bytes with
  | nil =>
    obtain ⟨rfl, _, hl⟩ := h
    exact splitAll_none (split?_eq_none_iff.2 hl)
  | cons payload payloads ih =>
    obtain ⟨hp, hps⟩ := List.forall_mem_cons.1 h.short
    have hs : split? bytes = some (payload, wireAll payloads ++ last) := by
      rw [split?_iff]
      exact ⟨hp, by rw [h.eq, wireAll_cons, List.append_assoc]⟩
    rw [splitAll_some hs, ih ⟨rfl, hps, h.incomplete⟩]

/-! ## More bytes -/

theorem not_begins_nil : ¬ Begins [] := split?_eq_none_iff.1 rfl

theorem splitAll_of_not_begins {bytes : Bytes} (h : ¬ Begins bytes) : splitAll bytes = ([], bytes) :=
  splitAll_none (split?_eq_none_iff.2 h)

theorem splitAll_wireAll {payloads : List Bytes} (hs : ∀ payload ∈ payloads, payload.length < 0x100000000) :
    splitAll (wireAll payloads) = (payloads, []) :=
  Cuts.splitAll_eq ⟨(List.append_nil _).symm, hs, not_begins_nil⟩

theorem splitAll_append (bytes more : Bytes) :
    splitAll (bytes ++ more) =
      ((splitAll bytes).1 ++ (splitAll ((splitAll bytes).2 ++ more)).1, (splitAll ((splitAll bytes).2 ++ more)).2) := by
  have h := cuts_splitAll bytes
  have h' := cuts_splitAll ((splitAll bytes).2 ++ more)
  refine Cuts.splitAll_eq ⟨?_, ?_, h'.incomplete⟩
  · rw [wireAll_append, List.append_assoc, ← h'.eq, ← List.append_assoc, ← h.eq]
  · intro payload hm
    rcases List.mem_append.1 hm with hm | hm
    · exact h.short payload hm
    · exact h'.short payload hm

theorem splitAll_wireAll_append {payloads : List Bytes} (hs : ∀ payload ∈ payloads, payload.length < 0x100000000)
    (bytes : Bytes) : splitAll (wireAll payloads ++ bytes) = (payloads ++ (splitAll bytes).1, (splitAll bytes).2) := by
  rw [splitAll_append, splitAll_wireAll hs, List.nil_append]

theorem length_splitAll (bytes : Bytes) :
    (wireAll (splitAll bytes).1).length + (splitAll bytes).2.length = bytes.length := by
  rw [← List.length_append, ← (cuts_splitAll bytes).eq]

theorem splitAll_fst_prefix {bytes bytes' : Bytes} (h : bytes <+: bytes') :
    (splitAll bytes).1 <+: (splitAll bytes').1 := by
  obtain ⟨more, rfl⟩ := h
  rw [splitAll_append]
  exact List.prefix_append ..

/-! ## Where frames end -/

theorem wireAll_splitAll (bytes : Bytes) : wireAll (splitAll bytes).1 <+: bytes :=
  ⟨(splitAll bytes).2, (cuts_splitAll bytes).eq.symm⟩

def extent (bytes : Bytes) (n : Nat) : Nat := (wireAll ((splitAll bytes).1.take n)).length

theorem le_length_splitAll_iff {cut bytes : Bytes} {n : Nat} (h : cut <+: bytes) (hn : n ≤ (splitAll bytes).1.length) :
    n ≤ (splitAll cut).1.length ↔ extent bytes n ≤ cut.length := by
  have hlen : ((splitAll bytes).1.take n).length = n := List.length_take_of_le hn
  have hsplit := splitAll_fst_prefix h
  constructor
  · intro hc
    have ht : (splitAll bytes).1.take n <+: (splitAll cut).1 :=
      List.prefix_of_prefix_length_le (List.take_prefix ..) hsplit (by omega)
    have hw := wireAll_prefix ht
    exact (hw.trans (wireAll_splitAll cut)).length_le
  · intro hc
    have hw := wireAll_prefix (List.take_prefix n (splitAll bytes).1)
    have hb := hw.trans (wireAll_splitAll bytes)
    have hp := splitAll_fst_prefix (List.prefix_of_prefix_length_le hb h hc)
    rw [splitAll_wireAll fun payload hm => (cuts_splitAll bytes).short payload (List.mem_of_mem_take hm)] at hp
    exact Nat.le_trans (Nat.le_of_eq hlen.symm) hp.length_le

end Telemetry.Frame
