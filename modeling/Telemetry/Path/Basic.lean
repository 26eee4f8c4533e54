import Telemetry.Text.Blank

/-!
# Paths

A path names a place in a message by segments: keys of objects and indexes of arrays. In text the
segments are joined by dots, and the entries of a list of paths by commas.
-/

namespace Telemetry

structure Path where
  segments : List String
deriving DecidableEq, Repr, Inhabited

namespace Path

def separator : Char := '.'

/-- The path that a text writes: a segment more than it has dots. -/
def ofString (s : String) : Path := ⟨(s.toList.splitOn separator).map String.ofList⟩

def text (p : Path) : String :=
  String.ofList ([separator].intercalate (p.segments.map String.toList))

/-- The entries of a list in text, without the white space around them; blank ones are left out. -/
def entries (s : String) : List String :=
  (((s.toList.splitOn ',').map Text.trim).filter (· ≠ [])).map String.ofList

def listOfString (s : String) : List Path := (entries s).map ofString

end Path

end Telemetry
