import Telemetry.Monitor.Basic
import Telemetry.Reader.Blocking

/-!
# The field monitor

Writes a line for every selected field of every message, and on request keeps the running average
of a numeric field.
-/

namespace Telemetry.Monitor

structure FieldOptions where
  fields : List Path
  average : Option Path

namespace FieldOptions

def defaultFields : String := "Ubx.Nav.RelPosNed.i_tow"

def ofStrings (fields : Option String) (average : Option String) : FieldOptions :=
  ⟨Path.listOfString (fields.getD defaultFields), average.map Path.ofString⟩

end FieldOptions

structure Tally where
  sum : Float := 0
  count : Nat := 0

def fieldLine : Selection.Item → Report
  | .ok (key, value) => { out := [s!"{key}: {value.text}"] }
  | .error fault => { err := [s!"Error extracting field: {fault.message}"] }

def fieldLines (fields : List Path) (m : Message) : Report :=
  (Selection.ofPaths m fields).items.foldl (fun report item => report ++ fieldLine item) {}

def numberAt? (path : Path) (m : Message) : Option Float :=
  match path.resolve m with
  | .ok (some (.number n)) => some n.toFloat
  | _ => none

/-- Adds the number at the path to the tally and writes the average. A message without a number
there changes nothing. -/
def average (path : Path) (tally : Tally) (m : Message) : Tally × Report :=
  match numberAt? path m with
  | none => (tally, {})
  | some x =>
    let tally : Tally := ⟨tally.sum + x, tally.count + 1⟩
    let mean := tally.sum / (UInt64.ofNat tally.count).toFloat
    (tally, { out := [s!"{path.text} average over {tally.count}: {String.ofList (Decimal.fixed 3 mean)}"] })

def fieldStep (options : FieldOptions) (tally : Tally) (m : Message) : Tally × Report :=
  let lines := fieldLines options.fields m
  match options.average with
  | none => (tally, lines)
  | some path =>
    let (tally, averaged) := average path tally m
    (tally, lines ++ averaged)

def fieldReport (options : FieldOptions) : Tally → List (Except Fault Message) → Report
  | _, [] => {}
  | _, .error fault :: _ => stopped fault
  | tally, .ok m :: items =>
    let (tally, report) := fieldStep options tally m
    report ++ fieldReport options tally items

def fieldMonitor (options : FieldOptions) (source : Source) : Report :=
  fieldReport options {} (Reader.ofSource source).items.1

end Telemetry.Monitor
