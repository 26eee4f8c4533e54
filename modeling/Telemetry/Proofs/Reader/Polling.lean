import Telemetry.Proofs.Reader.Served
import Telemetry.Proofs.Reader.Settling

/-!
# Polling gives what waiting gives

Calls that are polled to their answers leave the entries that waiting leaves
(`settleAll_eq`). When calls are dropped while they are pending, those that do come
to an answer have the answers that waiting gives to them alone (`Lags.pollAll`).
-/

namespace Telemetry

namespace Entry

def result (entry : Entry) : ((call : Call) × call.Answer) × Bool := (entry.answered, entry.ended)

end Entry

namespace Reader

theorem settles_ofSource (source : Source) (options : Options) :
    Settles (ofSource source options) (ofSource source.settled options) :=
  ⟨source.settles_settled, rfl, rfl, rfl⟩

theorem Settles.settleAll {a b : Reader} (h : Settles a b) (calls : List Call) :
    (a.settleAll calls).1 = (b.awaitAll calls).1 := by
  unfold Reader.settleAll awaitAll
  induction calls generalizing a b with
  | nil => rfl
  | cons call calls ih =>
    obtain ⟨b', ha, hs⟩ := h.settle call
    simp only [callAll, ha, ih hs]
    congr 1
    unfold Entry.of
    rw [hs.buffered, hs.ended]

/-! ## Dropped calls -/

/-- `c` waits on what `a` polls, and may have received less of it. -/
def Lags (a c : Reader) : Prop := ∃ b, Settles a b ∧ Alike b c

section
variable {a a' c : Reader} {call : Call}

theorem Lags.ended (h : Lags a c) : a.ended = c.ended := by
  obtain ⟨b, hs, hl⟩ := h
  rw [← hs.ended, hl.ended]

theorem Lags.backlog (h : Lags a c) : a.backlog = c.backlog := by
  obtain ⟨b, hs, hl⟩ := h
  rw [← hs.backlog, hl.backlog]

theorem Lags.pending (h : Lags a c) (hp : call.poll a = (.pending, a')) : Lags a' c := by
  obtain ⟨b, hs, hl⟩ := h
  have hb := hs.poll call
  rw [hp] at hb
  obtain ⟨b', _, hl', hs'⟩ := hb
  exact ⟨b', hs', hl'.symm.trans hl⟩

theorem Lags.ready {answer : call.Answer} (h : Lags a c) (hp : call.poll a = (.ready answer, a')) :
    ∃ c', call.await c = (answer, c') ∧ Lags a' c' := by
  obtain ⟨b, hs, hl⟩ := h
  have hb := hs.poll call
  rw [hp] at hb
  obtain ⟨b', ha, hs'⟩ := hb
  obtain ⟨hr, hl'⟩ := hl.await call
  rw [ha] at hr hl'
  exact ⟨(call.await c).2, Prod.ext hr.symm rfl, b', hs', hl'⟩

end

theorem Lags.pollAll {a c : Reader} (h : Lags a c) (polls : List Call) :
    (a.pollAll polls).1.map Entry.result =
        (c.awaitAll ((a.pollAll polls).1.map Entry.call)).1.map Entry.result ∧
      Lags (a.pollAll polls).2 (c.awaitAll ((a.pollAll polls).1.map Entry.call)).2 := by
  induction polls generalizing a c with
  | nil => exact ⟨rfl, h⟩
  | cons call polls ih =>
    rw [Reader.pollAll]
    rcases hp : call.poll a with ⟨answer | _, a'⟩
    · obtain ⟨c', ha, h'⟩ := h.ready hp
      obtain ⟨he, hl⟩ := ih h'
      unfold awaitAll at he hl ⊢
      simp only [List.map_cons, callAll, Entry.call, Entry.of, ha]
      refine ⟨?_, hl⟩
      rw [he]
      congr 1
      unfold Entry.result
      rw [h'.ended]
    · exact ih (h.pending hp)

theorem size_pollAll (r : Reader) (polls : List Call) : (r.pollAll polls).2.chunk.size = r.chunk.size := by
  induction polls generalizing r with
  | nil => rfl
  | cons call polls ih =>
    rw [pollAll]
    rcases hp : call.poll r with ⟨answer | _, r'⟩
    · exact (ih r').trans (poll_serves call hp).2
    · exact (ih r').trans (poll_serves call hp).2

/-- **Polling gives what waiting gives** on the source without the moments of waiting, also when calls are
dropped on the way, and a poll is pending only when its last receive was. -/
theorem polls_await (source : Source) (options : Options) :
    let polled := ofSource source options
    let waited := ofSource source.settled options
    (∀ calls : List Call, (polled.settleAll calls).1 = (waited.awaitAll calls).1) ∧
      (∀ polls : List Call,
        let (entries, r) := polled.pollAll polls
        let (entries', r') := waited.awaitAll (entries.map Entry.call)
        entries.map Entry.result = entries'.map Entry.result ∧ r.ended = r'.ended ∧ r.backlog = r'.backlog) ∧
      ∀ (polls : List Call) (call : Call),
        let r := (polled.pollAll polls).2
        let (answer, r') := call.poll r
        ∃ receipts, Receipt.pending ∉ receipts ∧
          r.source.Receives options.chunkSize (receipts ++ answer.waits) r'.source := by
  intro polled waited
  have hs : Settles polled waited := settles_ofSource source options
  refine ⟨hs.settleAll, ?_, ?_⟩
  · intro polls
    obtain ⟨he, hl⟩ := Lags.pollAll ⟨waited, hs, .refl waited⟩ polls
    exact ⟨he, hl.ended, hl.backlog⟩
  · intro polls call r
    obtain ⟨hr, _⟩ := poll_serves (r := r) call rfl
    rwa [size_pollAll] at hr

end Reader

end Telemetry
