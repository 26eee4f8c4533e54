import Telemetry.Path.Selection

/-!
# Monitors

A monitor writes lines about the messages it receives, some of them to standard output and some to
standard error.
-/

namespace Telemetry.Monitor

structure Report where
  out : List String := []
  err : List String := []
deriving DecidableEq, Repr

namespace Report

def append (a b : Report) : Report := ⟨a.out ++ b.out, a.err ++ b.err⟩

instance : Append Report := ⟨append⟩

def unlines (lines : List String) : String := String.join (lines.map (· ++ "\n"))

end Report

def stopped (fault : Fault) : Report := { err := [s!"Error receiving message: {fault.message}"] }

end Telemetry.Monitor
