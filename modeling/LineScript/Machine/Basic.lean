/-
LineScript/Machine/Basic.lean

The machine that executes scripts: its variables, the lines it has written, and
the answers to questions that input statements ask.
-/
import LineScript.Expression.Mode
import LineScript.Store.Basic

namespace LineScript

open Text

/-- Prepared answers, and the questions asked so far. -/
structure Answers where
  pending : List Text
  prompts : List Text := []
  deriving DecidableEq

namespace Answers

/-- Ask a question: the next answer, if there is one. -/
def ask (a : Answers) (prompt : Text) : Option Text × Answers :=
  (a.pending.head?, ⟨a.pending.tail, a.prompts ++ [prompt]⟩)

/-- Answers given as a list with commas between them. -/
def ofList (t : Text) : Answers :=
  ⟨if t.isEmpty then [] else (split "," t).map trim, []⟩

end Answers

/-- The state of a machine.  Without answers, no question is ever asked. -/
structure Machine where
  mode : Mode
  answers : Option Answers := none
  environment : Environment := {}
  output : List Text := []

namespace Machine

/-- The variables. -/
abbrev store (m : Machine) : Store := m.environment.store

/-- Write a line. -/
def write (m : Machine) (line : Text) : Machine :=
  { m with output := m.output ++ [line] }

/-- Bind a variable. -/
def declare (m : Machine) (name : Text) (v : Value) : Machine :=
  { m with
    environment := { m.environment with store := m.store.declare name v } }

/-- Ask a question. -/
def ask (m : Machine) (prompt : Text) : Option Text × Machine :=
  match m.answers with
  | none => (none, m)
  | some a =>
      let (answer, a) := a.ask prompt
      (answer, { m with answers := some a })

/-- Forget all lines and variables, and count a new run. -/
def startRun (m : Machine) : Machine :=
  { m with output := [], environment := m.environment.startRun }

end Machine

end LineScript
