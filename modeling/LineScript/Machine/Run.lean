/-
LineScript/Machine/Run.lean

Running a script: its lines are executed one after the other, without the white
space around them.  Empty lines do nothing.  Where a condition does not hold,
lines are skipped up to the next one that is a closing brace.  What goes wrong
with a line is written to the output, and the script goes on.
-/
import LineScript.Machine.Execute

namespace LineScript

open Text

/-- A run in progress. -/
structure Run where
  machine : Machine
  skipping : Bool := false
  /-- The number of faults that were more than warnings. -/
  errors : Nat := 0

namespace Run

/-- Write what went wrong with a line, and count it. -/
def report (r : Run) : Option Fault → Run
  | none => r
  | some f =>
      { r with
        machine := r.machine.write f.message
        errors := if f.isWarning then r.errors else r.errors + 1 }

/-- The run after a line without white space around it. -/
def step (r : Run) (line : Text) : Run :=
  if line.isEmpty then r
  else if r.skipping then
    { r with skipping := !(line == Text.ofString "\x7d") }
  else
    let o := r.machine.execute line
    Run.report { r with machine := o.machine, skipping := o.skipping } o.fault

end Run

/-- The lines of a script. -/
def scriptLines (source : Text) : List Text := (split "\n" source).map trim

namespace Machine

/-- Run a script from the beginning, without the variables and the output of
earlier runs. -/
def run (m : Machine) (source : Text) : Run :=
  (scriptLines source).foldl Run.step { machine := m.startRun }

end Machine

end LineScript
