import Telemetry.Proofs.Decoder.Conservation
import Telemetry.Proofs.Decoder.Draining
import Telemetry.Proofs.Frame.Encoding

/-!
# Frames that are cut off

Encoded payloads may be cut off anywhere: in a header, in a body, or between frames.
A decoder gives the payloads whose frames are whole and keeps the bytes behind them,
and goes on from there when the others come (`cut_anywhere`).
-/

namespace Telemetry.Decoder

/-- Of the first payloads of the list, the most whose frames fit into `size` bytes. -/
structure LongestWithin (payloads : List Bytes) (size : Nat) (whole : List Bytes) : Prop where
  initial : whole <+: payloads
  fits : (Frame.wireAll whole).length ≤ size
  longest : ∀ other, other <+: payloads → (Frame.wireAll other).length ≤ size → other <+: whole

section
variable {payloads : List Bytes} (hs : ∀ payload ∈ payloads, payload.length < 0x100000000)
include hs

theorem splitAll_take_drop (k : Nat) :
    let (whole, rest) := Frame.splitAll ((Frame.wireAll payloads).take k)
    let (others, last) := Frame.splitAll (rest ++ (Frame.wireAll payloads).drop k)
    whole ++ others = payloads ∧ last = [] := by
  have h := Frame.splitAll_append ((Frame.wireAll payloads).take k) ((Frame.wireAll payloads).drop k)
  rw [List.take_append_drop, Frame.splitAll_wireAll hs] at h
  exact ⟨(congrArg Prod.fst h).symm, (congrArg Prod.snd h).symm⟩

theorem longestWithin_splitAll_take {k : Nat} (hk : k ≤ (Frame.wireAll payloads).length) :
    LongestWithin payloads k (Frame.splitAll ((Frame.wireAll payloads).take k)).1 where
  initial := ⟨_, (splitAll_take_drop hs k).1⟩
  fits := by
    have h := Frame.length_splitAll ((Frame.wireAll payloads).take k)
    rw [List.length_take] at h
    omega
  longest other ho hl := by
    -- the frames of the other list lie in front of the cut, so they are found there
    have hp : Frame.wireAll other <+: (Frame.wireAll payloads).take k :=
      List.prefix_of_prefix_length_le (Frame.wireAll_prefix ho) (List.take_prefix ..)
        (by rw [List.length_take]; omega)
    have := Frame.splitAll_fst_prefix hp
    rwa [Frame.splitAll_wireAll fun payload hm => hs payload (ho.mem hm)] at this

end

/-- **A cut may be anywhere.** A decoder gives the payloads whose frames are whole in front of the cut,
and the others when it has what is behind. -/
theorem cut_anywhere (payloads : List Bytes) (hs : ∀ payload ∈ payloads, payload.length < 0x100000000) :
    (∀ out : Bytes, Frame.appendAll payloads out =
      (.replicate payloads.length (.ok ()), out ++ Frame.wireAll payloads)) ∧
    (∀ (capacity : Option Nat) (k : Nat), k ≤ (Frame.wireAll payloads).length →
      let (whole, d) := ((create capacity).feed ((Frame.wireAll payloads).take k)).drain .payload
      let (others, last) := (d.feed ((Frame.wireAll payloads).drop k)).drain .payload
      LongestWithin payloads k whole ∧ d.buffered = k - (Frame.wireAll whole).length ∧
        whole ++ others = payloads ∧ last.isEmpty = true) ∧
    ∀ others : List Bytes, (∀ payload ∈ others, payload.length < 0x100000000) →
      (Frame.wireAll payloads = Frame.wireAll others → payloads = others) ∧
        (Frame.wireAll payloads <+: Frame.wireAll others → payloads <+: others) := by
  refine ⟨Frame.appendAll_eq hs, ?_, fun others ho =>
    ⟨Frame.eq_of_wireAll_eq hs ho, Frame.prefix_of_wireAll_prefix hs ho⟩⟩
  intro capacity k hk
  obtain ⟨happ, hlast⟩ := splitAll_take_drop hs k
  have hlen := Frame.length_splitAll ((Frame.wireAll payloads).take k)
  rw [List.length_take, Nat.min_eq_left hk] at hlen
  simp only [drain_payload, feed, buffer_create, List.nil_append]
  refine ⟨longestWithin_splitAll_take hs hk, ?_, happ, ?_⟩
  · exact Nat.eq_sub_of_add_eq' hlen
  · rw [isEmpty, hlast]
    rfl

theorem cut_anywhere_header :
    let payloads : List Bytes := [[], [1, 2], []]
    let bytes := Frame.wireAll payloads
    let (whole, d) := ((create none).feed (bytes.take 7)).drain .payload
    let (others, last) := (d.feed (bytes.drop 7)).drain .payload
    (∀ payload ∈ payloads, payload.length < 0x100000000) ∧ 7 ≤ bytes.length ∧
      LongestWithin payloads 7 whole ∧ whole ++ others = payloads ∧ last.isEmpty = true ∧
      whole = [[]] ∧ d.buffered = 3 := by
  have hs : ∀ payload ∈ ([[], [1, 2], []] : List Bytes), payload.length < 0x100000000 := by decide
  have hk : 7 ≤ (Frame.wireAll [[], [1, 2], []]).length := by decide
  obtain ⟨_, hcut, _⟩ := cut_anywhere [[], [1, 2], []] hs
  obtain ⟨hl, hd, happ, hlast⟩ := hcut none 7 hk
  have hc : Frame.Cuts ((Frame.wireAll [[], [1, 2], []]).take 7) [[]] [2, 0, 0] :=
    ⟨rfl, by decide, Frame.split?_eq_none_iff.1 rfl⟩
  have hw : ((create none).feed ((Frame.wireAll [[], [1, 2], []]).take 7)).drain .payload = ([[]], ⟨[2, 0, 0]⟩) :=
    drain_of_cuts .payload hc
  refine ⟨hs, hk, hl, happ, hlast, ?_, ?_⟩
  · rw [hw]
  · rw [hd, hw]
    rfl

end Telemetry.Decoder
