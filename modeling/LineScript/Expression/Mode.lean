/-
LineScript/Expression/Mode.lean

The two ways to evaluate an expression, and how one of them is chosen.
-/
import LineScript.Expression.Arithmetic
import LineScript.Expression.Substitution

namespace LineScript

open Text

/-- How expressions are evaluated.  A mode that is only a number works like
`legacy`. -/
inductive Mode where
  /-- By substitution in the text of the expression. -/
  | legacy
  /-- By the usual rules of arithmetic. -/
  | precedence
  /-- A mode without a name. -/
  | numbered (code : Int)
  deriving DecidableEq

/-- A name that no mode has. -/
structure UnknownMode where
  name : Text
  deriving DecidableEq

/-- The message for a name that no mode has. -/
def UnknownMode.message (e : UnknownMode) : Text :=
  "unknown reducer mode " ++ quoted e.name

namespace Mode

/-- The name of a mode. -/
def name : Mode → Text
  | legacy => "legacy"
  | precedence => "precedence"
  | numbered code => "mode(" ++ Text.ofInt code ++ ")"

/-- The number of a mode. -/
def code : Mode → Int
  | legacy => 0
  | precedence => 1
  | numbered code => code

/-- The mode with a given number. -/
def ofCode (n : Int) : Mode :=
  if n = 0 then legacy
  else if n = 1 then precedence
  else numbered n

/-- The mode with a given name, in upper or lower case and with white space
around it or not. -/
def ofName (t : Text) : Except UnknownMode Mode :=
  let name := lowerAscii (trim t)
  if name = legacy.name then .ok legacy
  else if name = precedence.name then .ok precedence
  else .error ⟨t⟩

/-- The mode that a configuration asks for: `legacy` unless the name of another
mode is configured. -/
def configured (setting : Text) : Mode :=
  match ofName setting with
  | .ok m => m
  | .error _ => legacy

/-- The value of an expression. -/
def evaluate (m : Mode) (store : Store) (source : Text) :
    Except EvalError Float :=
  match m with
  | precedence => Arithmetic.evaluate store source
  | _ => Substitution.evaluate store source

end Mode

end LineScript
