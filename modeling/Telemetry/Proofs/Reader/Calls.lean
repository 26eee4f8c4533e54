import Telemetry.Proofs.Reader.Reading

/-!
# Calls on a reader

A call reads the next frame or asks for the next item of the sequence of messages.
`awaitAll` and `settleAll` run calls to their answers, waiting and polling.
`pollAll` polls each call once: one that comes back pending is dropped there, and a
call that is polled on is the same call again.
-/

namespace Telemetry

inductive Call : Type 1 where
  | read (reading : Reading)
  | next

namespace Call

def Answer : Call → Type
  | .read reading => Except Fault reading.Result
  | .next => Option (Except Fault Message)

def await : (call : Call) → Reader → call.Answer × Reader
  | .read reading, r => reading.await r
  | .next, r => r.next

def poll : (call : Call) → Reader → Poll call.Answer × Reader
  | .read reading, r => reading.poll r
  | .next, r => r.pollNext

theorem advances_poll (call : Call) : Reader.Advances call.poll := by
  cases call with
  | read reading =>
    cases reading with
    | text => exact Reader.advances_pollText
    | message => exact Reader.advances_pollAs Json.Value.scan
    | typed scan => exact Reader.advances_pollAs scan
  | next => exact Reader.advances_pollNext

def settle (call : Call) (r : Reader) : call.Answer × Reader := r.untilReady call.poll call.advances_poll

end Call

structure Entry : Type 1 where
  answered : (call : Call) × call.Answer
  buffered : Nat
  ended : Bool

namespace Entry

def of (call : Call) (answer : call.Answer) (r : Reader) : Entry := ⟨⟨call, answer⟩, r.buffered, r.ended⟩

def call (entry : Entry) : Call := entry.answered.1

end Entry

namespace Reader

def callAll (run : (call : Call) → Reader → call.Answer × Reader) (r : Reader) : List Call → List Entry × Reader
  | [] => ([], r)
  | call :: calls =>
    let (answer, r) := run call r
    let (entries, last) := callAll run r calls
    (.of call answer r :: entries, last)

def awaitAll : Reader → List Call → List Entry × Reader := callAll Call.await

def settleAll : Reader → List Call → List Entry × Reader := callAll Call.settle

/-- Polls each call once. Only those that are ready leave an entry. -/
def pollAll (r : Reader) : List Call → List Entry × Reader
  | [] => ([], r)
  | call :: calls =>
    match call.poll r with
    | (.pending, r) => pollAll r calls
    | (.ready answer, r) =>
      let (entries, last) := pollAll r calls
      (.of call answer r :: entries, last)

end Reader

end Telemetry
