import Telemetry.Proofs.Reader.Fusing
import Telemetry.Proofs.Reader.Gathering
import Telemetry.Proofs.Source.Brimming

/-!
# Reading no more than it takes

A reader does not receive while it holds a complete frame. When a frame comes, the
receives up to then are the fewest whose bytes hold it (`Completes`), and less than one
chunk is left behind it. What carries this over a run of calls is `Spared`: an
incomplete frame may be longer than a chunk, but not what stands behind a complete one.
-/

namespace Telemetry

open Reader

/-- Of all that was received, these are the fewest receives that hold `n` frames and then this
one. -/
structure Completes (receipts : List Receipt) (n : Nat) (payload : Bytes) : Prop where
  holds : (Frame.splitAll (receipts.flatMap Receipt.data)).1[n]? = some payload
  fewest : ∀ front, front <+: receipts → front ≠ receipts →
    (Frame.splitAll (front.flatMap Receipt.data)).1.length ≤ n

def Manner.frames (answers : List ((call : Call) × Poll call.Answer)) : Nat :=
  answers.countP fun answer => answer.1.gotFrame answer.2

/-! ## Which frame, and how many receives -/

section
variable {size : Nat} {source last : Source} {receipts : List Receipt} {n : Nat} {payload : Bytes}

theorem Completes.getElem? (h : Completes receipts n payload) (hr : source.Receives size receipts last) :
    (Frame.splitAll source.left).1[n]? = some payload := by
  have hdata : receipts.flatMap Receipt.data <+: source.left := ⟨last.left, hr.left.symm⟩
  obtain ⟨others, ho⟩ := Frame.splitAll_fst_prefix hdata
  rw [← ho, List.getElem?_append_left (List.getElem?_eq_some_iff.1 h.holds).1, h.holds]

theorem Completes.length (h : Completes receipts n payload) (hs : source.Brims size)
    (hr : source.Receives size receipts last) (room : 0 < size) :
    receipts.length = (Frame.extent source.left (n + 1) + size - 1) / size := by
  have hleft := hr.left
  have hdata : receipts.flatMap Receipt.data <+: source.left := ⟨last.left, hleft.symm⟩
  have hn : n + 1 ≤ (Frame.splitAll (receipts.flatMap Receipt.data)).1.length :=
    (List.getElem?_eq_some_iff.1 h.holds).1
  have hall : n + 1 ≤ (Frame.splitAll source.left).1.length :=
    Nat.le_trans hn (Frame.splitAll_fst_prefix hdata).length_le
  have he := (Frame.le_length_splitAll_iff hdata hall).1 hn
  have hd := hs.length hr
  rcases List.eq_nil_or_concat receipts with rfl | ⟨front, receipt, rfl⟩
  · rw [List.flatMap_nil, Frame.splitAll_of_not_begins Frame.not_begins_nil] at hn
    cases hn
  · rw [List.concat_eq_append] at *
    -- without its last receive it was not there yet
    have hf := h.fewest front (List.prefix_append ..) (by simp)
    have hfront : front.flatMap Receipt.data <+: source.left := by
      refine List.IsPrefix.trans ?_ hdata
      rw [List.flatMap_append]
      exact List.prefix_append ..
    have hlt : ¬ Frame.extent source.left (n + 1) ≤ (front.flatMap Receipt.data).length := by
      rw [← Frame.le_length_splitAll_iff hfront hall]
      omega
    obtain ⟨s₁, hr₁, _⟩ := hr.of_append
    rw [hs.length hr₁] at hlt
    rw [List.length_append, List.length_singleton] at hd ⊢
    rw [Nat.succ_mul] at hd
    symm
    apply Nat.div_eq_of_lt_le <;> simp only [Nat.succ_mul] <;> omega

end

theorem Reader.Gathers.length_rest {r r' : Reader} {now : List Receipt} {payload rest : Bytes} (h : Gathers r now r')
    (hn : now ≠ [])
    (hs : Frame.split? (r.decoder.buffer ++ now.flatMap Receipt.data) = some (payload, rest)) :
    rest.length < r.chunk.size := by
  obtain ⟨front, receipt, rfl⟩ : ∃ front receipt, now = front ++ [receipt] := by
    simpa [hn] using List.eq_nil_or_concat now
  have hb := h.lacks front (List.prefix_append ..) (by simp)
  rw [List.flatMap_append, List.flatMap_singleton, ← List.append_assoc] at hs
  obtain ⟨_, _, hr⟩ := h.receives.of_append
  cases hr with
  | cons first _ => exact Nat.lt_of_lt_of_le (Frame.length_rest_lt hb hs) (Source.length_data_receive first)

/-! ## What a run keeps -/

/-- The receives so far have brought the frames that were taken and what is buffered, and none of them
was made in vain. -/
structure Spared (size : Nat) (source : Source) (r : Reader) (receipts : List Receipt) (taken : List Bytes) :
    Prop where
  receives : source.Receives size receipts r.source
  chunk : r.chunk.size = size
  short : ∀ payload ∈ taken, payload.length < 0x100000000
  stands : receipts.flatMap Receipt.data = Frame.wireAll taken ++ r.decoder.buffer
  fewest : ∀ front, front <+: receipts → front ≠ receipts →
    (Frame.splitAll (front.flatMap Receipt.data)).1.length ≤ taken.length
  room : ¬ Frame.Begins r.decoder.buffer ∨ r.buffered < size

theorem spared_ofSource (source : Source) (options : Options) :
    Spared options.chunkSize source (ofSource source options) [] [] where
  receives := .nil
  chunk := rfl
  short := fun _ hm => by cases hm
  stands := rfl
  fewest := fun _ hf hn => absurd (List.prefix_nil.1 hf) hn
  room := .inl Frame.not_begins_nil

namespace Spared

section
variable {size : Nat} {source : Source} {r r' : Reader} {receipts now : List Receipt} {taken : List Bytes}
  {payload : Bytes}

theorem stands_append (h : Spared size source r receipts taken) (front : List Receipt) :
    (receipts ++ front).flatMap Receipt.data =
      Frame.wireAll taken ++ (r.decoder.buffer ++ front.flatMap Receipt.data) := by
  rw [List.flatMap_append, h.stands, List.append_assoc]

theorem receives_append (h : Spared size source r receipts taken) (hg : Gathers r now r') :
    source.Receives size (receipts ++ now) r'.source := by
  have hr := hg.receives
  rw [h.chunk] at hr
  exact h.receives.append hr

theorem fewest_append (h : Spared size source r receipts taken) (hg : Gathers r now r') :
    ∀ front, front <+: receipts ++ now → front ≠ receipts ++ now →
      (Frame.splitAll (front.flatMap Receipt.data)).1.length ≤ taken.length := by
  intro front hf hn
  by_cases hp : receipts <+: front
  · obtain ⟨others, rfl⟩ := hp
    have ho : others <+: now := (List.prefix_append_right_inj receipts).1 hf
    have hb := hg.lacks others ho fun he => hn (congrArg _ he)
    rw [h.stands_append, Frame.splitAll_wireAll_append h.short, Frame.splitAll_of_not_begins hb]
    simp
  · have hp' := (List.prefix_or_prefix_of_prefix hf (List.prefix_append receipts now)).resolve_right hp
    refine h.fewest front hp' ?_
    rintro rfl
    exact hp List.prefix_rfl

theorem frame (h : Spared size source r receipts taken) (hg : Gathers r now r')
    (hs : Frame.split? (r.decoder.buffer ++ now.flatMap Receipt.data) = some (payload, r'.decoder.buffer)) :
    Completes (receipts ++ now) taken.length payload ∧ r'.buffered < size ∧
      Spared size source r' (receipts ++ now) (taken ++ [payload]) := by
  have hd := h.stands_append now
  have hf := h.fewest_append hg
  have hlt : r'.buffered < size := by
    by_cases hn : now = []
    · subst hn
      rw [List.flatMap_nil, List.append_nil] at hs
      have hlen := Frame.length_split? hs
      have hr := h.room.resolve_left fun hb => hb ⟨payload, _, Frame.split?_iff.1 hs⟩
      unfold buffered Decoder.buffered at hr ⊢
      omega
    · rw [← h.chunk]
      exact hg.length_rest hn hs
  obtain ⟨hp, hw⟩ := Frame.split?_iff.1 hs
  refine ⟨⟨?_, hf⟩, hlt, ⟨h.receives_append hg, hg.size.trans h.chunk, ?_, ?_, ?_, .inr hlt⟩⟩
  · rw [hd, Frame.splitAll_wireAll_append h.short, Frame.splitAll_some hs]
    simp
  · intro p hm
    rcases List.mem_append.1 hm with hm | hm
    · exact h.short p hm
    · cases List.mem_singleton.1 hm
      exact hp
  · rw [hd, hw, Frame.wireAll_append]
    simp [Frame.wireAll]
  · intro front hfront hn
    have := hf front hfront hn
    rw [List.length_append]
    omega

theorem kept (h : Spared size source r receipts taken) (hg : Gathers r now r')
    (hd : r'.decoder.buffer = r.decoder.buffer ++ now.flatMap Receipt.data)
    (hb : now = [] ∧ r.ended = true ∨ ¬ Frame.Begins r'.decoder.buffer) :
    Spared size source r' (receipts ++ now) taken where
  receives := h.receives_append hg
  chunk := hg.size.trans h.chunk
  short := h.short
  stands := by rw [h.stands_append, hd]
  fewest := h.fewest_append hg
  room := by
    rcases hb with ⟨rfl, _⟩ | hb
    · have hb : r'.decoder.buffer = r.decoder.buffer := by rw [hd, List.flatMap_nil, List.append_nil]
      rw [buffered, Decoder.buffered, hb]
      exact h.room
    · exact .inl hb

end

section
variable {size : Nat} {source : Source} {r : Reader} {receipts : List Receipt} {taken : List Bytes}

theorem call (h : Spared size source r receipts taken) (manner : Manner) (call : Call) :
    ∃ now more, Spared size source (manner.call call r).2 (receipts ++ now) (taken ++ more) ∧
      more.length = if call.gotFrame (manner.call call r).1 then 1 else 0 := by
  obtain ⟨now, hg, ⟨payload, ha, hs⟩ | ⟨hf, hd, hb⟩⟩ := (manner.does_call r call).outcome
  · refine ⟨now, [payload], (h.frame hg hs).2.2, ?_⟩
    rw [ha, call.gotFrame_ofPayload]
    rfl
  · refine ⟨now, [], ?_, ?_⟩
    · rw [List.append_nil]
      exact h.kept hg hd hb
    · rw [hf]
      rfl

theorem run (h : Spared size source r receipts taken) (manner : Manner) (calls : List Call) :
    ∃ receipts' taken', Spared size source (manner.run r calls).2 receipts' taken' ∧
      taken'.length = taken.length + Manner.frames (manner.run r calls).1 := by
  induction calls generalizing r receipts taken with
  | nil => exact ⟨receipts, taken, h, rfl⟩
  | cons c calls ih =>
    obtain ⟨now, more, h', hm⟩ := h.call manner c
    obtain ⟨receipts', taken', hr, hl⟩ := ih h'
    refine ⟨receipts', taken', hr, ?_⟩
    rw [hl, Manner.run_cons, Manner.frames, Manner.frames, List.countP_cons, List.length_append, hm]
    simp only
    omega

end

end Spared

namespace Reader

/-- **Reading is sparing.** A call receives only while no frame is complete, so all receives up to a frame
are the fewest that hold it, and less than a chunk is left behind it. -/
theorem reads_sparingly (manner : Manner) (source : Source) (options : Options) (calls : List Call) (call : Call) :
    let (answers, r) := manner.run (ofSource source options) calls
    let answer := (manner.call call r).1
    let r' := (manner.call call r).2
    let size := options.chunkSize
    let n := Manner.frames answers
    (¬ Frame.Begins r.decoder.buffer ∨ r.buffered < size) ∧
      ∃ before now : List Receipt, source.Receives size before r.source ∧ r.source.Receives size now r'.source ∧
        (∀ front, front <+: now → front ≠ now →
          ¬ Frame.Begins (r.decoder.buffer ++ front.flatMap Receipt.data)) ∧
        ((call.gotFrame answer = false ∧
            r'.decoder.buffer = r.decoder.buffer ++ now.flatMap Receipt.data ∧
            (now = [] ∧ r.ended = true ∨ ¬ Frame.Begins r'.decoder.buffer)) ∨
          ∃ payload, call.gotFrame answer = true ∧ answer = .ready (call.ofPayload payload) ∧
            Frame.split? (r.decoder.buffer ++ now.flatMap Receipt.data) = some (payload, r'.decoder.buffer) ∧
            Completes (before ++ now) n payload ∧ r'.buffered < size ∧
            (source.Brims size →
              r'.source.receives = source.receives + (Frame.extent source.left (n + 1) + size - 1) / size)) := by
  obtain ⟨before, taken, h, hn⟩ := (spared_ofSource source options).run manner calls
  rcases hr : manner.run (ofSource source options) calls with ⟨answers, r⟩
  rw [hr] at h hn
  rw [List.length_nil, Nat.zero_add] at hn
  obtain ⟨now, hg, hc⟩ := (manner.does_call r call).outcome
  have hnow := hg.receives
  rw [h.chunk] at hnow
  refine ⟨h.room, before, now, h.receives, hnow, hg.lacks, ?_⟩
  rcases hc with ⟨payload, ha, hs⟩ | hkept
  · obtain ⟨hcomp, hlt, _⟩ := h.frame hg hs
    rw [hn] at hcomp
    refine .inr ⟨payload, ?_, ha, hs, hcomp, hlt, ?_⟩
    · show call.gotFrame (manner.call call r).1 = true
      rw [ha]
      exact call.gotFrame_ofPayload payload
    · intro hb
      have hall := h.receives_append hg
      rw [hall.count, hcomp.length hb hall options.chunkSize_pos]
  · exact .inl hkept

/-- Two frames in one block, received three bytes at a time: the first ends at the sixth byte,
the second at the eleventh. -/
theorem reads_sparingly_block :
    let source : Source := ⟨[.data [2, 0, 0, 0, 0x34, 0x32, 1, 0, 0, 0, 0x37, 9]], 0, 0⟩
    let run := Manner.waiting.run (ofSource source (.ofChunkSize 3)) [.read .text]
    let r' := (Manner.waiting.call .next run.2).2
    source.Brims 3 ∧ run.2.source.receives = 2 ∧ r'.source.receives = 4 ∧ r'.buffered < 3 := by
  intro source run r'
  have hb : source.Brims 3 := Source.Whole.brims (.inr ⟨_, rfl⟩) 3
  have hg : Call.next.gotFrame (Manner.waiting.call .next run.2).1 = true := by decide +kernel
  have he : (Frame.extent source.left (Manner.frames run.1 + 1) + 3 - 1) / 3 = 4 := by decide +kernel
  obtain ⟨_, _, _, _, _, _, ⟨hf, _⟩ | ⟨_, _, _, _, _, hlt, hr⟩⟩ :=
    reads_sparingly .waiting source (.ofChunkSize 3) [.read .text] .next
  · cases hg.symm.trans hf
  · exact ⟨hb, by decide +kernel, (hr hb).trans ((Nat.zero_add _).trans he), hlt⟩

end Reader

end Telemetry
