/-
LineScript/Value/Literal.lean

Literals: the texts that stand for integers, doubles and booleans in a script,
and quoted strings.
-/
import LineScript.Number.Spelling
import LineScript.Text.Quoted

namespace LineScript

open Text

/-- Why a text is not a literal of the wanted kind. -/
inductive LiteralError where
  /-- The text is not a number. -/
  | number (text : Text)
  /-- The text is not a boolean. -/
  | boolean (text : Text)
  deriving DecidableEq

/-- The message of a literal error. -/
def LiteralError.message : LiteralError → Text
  | .number t => "invalid number format: " ++ quoted t
  | .boolean t => "invalid boolean value: " ++ quoted t

namespace Literal

/-- Integers have 64 bits. -/
def inRange (n : Int) : Bool :=
  Int64.minValue.toInt ≤ n && n ≤ Int64.maxValue.toInt

/-- Read an integer: decimal digits after an optional sign. -/
def int (t : Text) : Except LiteralError Int64 :=
  match Numeral.readInt? t with
  | some n => if inRange n then .ok (Int64.ofInt n) else .error (.number t)
  | none => .error (.number t)

/-- Read a double, with white space around it or not. -/
def double (t : Text) : Except LiteralError Float :=
  match Double.read? t with
  | some f => .ok f
  | none => .error (.number (trim t))

/-- Read a boolean. -/
def bool (t : Text) : Except LiteralError Bool :=
  if t = Text.ofString "true" then .ok true
  else if t = Text.ofString "false" then .ok false
  else .error (.boolean t)

/-- The text between a pair of double quotes. -/
def unquoted? (t : Text) : Option Text := between? "\"" "\"" t

/-- A text without the pair of double quotes around it, if it has one. -/
def unquote (t : Text) : Text := (unquoted? t).getD t

end Literal

end LineScript
