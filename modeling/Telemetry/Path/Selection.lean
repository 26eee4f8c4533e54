import Telemetry.Path.Resolve

/-!
# Selections

A selection resolves paths in a message one after the other, as it is asked for items. Absent
paths are passed over, and the first fault is the last item.

The paths come from a feed, which is asked for one path at a time. That a feed has no path does
not mean that it has none later.
-/

namespace Telemetry

class Feed (σ : Type) where
  ask : σ → Option Path × σ

instance : Feed (List Path) where
  ask
    | [] => (none, [])
    | path :: paths => (some path, paths)

structure Selection (σ : Type) where
  message : Message
  feed : σ
  failed : Bool := false

namespace Selection

def ofPaths (message : Message) (paths : List Path) : Selection (List Path) := { message, feed := paths }

/-- A selected path's text and what it leads to. -/
abbrev Item := Except Fault (String × Message)

/-- The next item. After a fault there is none, and the feed is not asked again. It never returns,
which is `none`, from a feed that goes on with absent paths for ever. -/
def next {σ : Type} [Feed σ] (s : Selection σ) : Option (Option Item × Selection σ) :=
  if s.failed then some (none, s)
  else
    match Feed.ask s.feed with
    | (none, feed) => some (none, { s with feed })
    | (some path, feed) =>
      match path.resolve s.message with
      | .ok (some value) => some (some (.ok (path.text, value)), { s with feed })
      | .ok none => { s with feed } |>.next
      | .error fault => some (some (.error fault), { s with feed, failed := true })
partial_fixpoint

theorem length_next {s s' : Selection (List Path)} {item : Item} (h : s.next = some (some item, s')) :
    s'.feed.length < s.feed.length := by
  obtain ⟨m, paths, failed⟩ := s
  induction paths with
  | nil =>
    rw [next] at h
    split at h <;> cases h
  | cons path paths ih =>
    rw [next] at h
    split at h
    · cases h
    simp only [Feed.ask] at h
    split at h
    · cases h
      exact Nat.lt_succ_self _
    · exact Nat.lt_succ_of_lt (ih h)
    · cases h
      exact Nat.lt_succ_self _

def items (s : Selection (List Path)) : List Item :=
  match _ : s.next with
  | some (some item, s') => item :: s'.items
  | _ => []
termination_by s.feed.length
decreasing_by exact length_next ‹_›

end Selection

end Telemetry
