/-
LineScript/Machine/Fault.lean

What can go wrong with a statement.  The message of a fault is the line that is
written to the output in its place.
-/
import LineScript.Expression.Error
import LineScript.Statement.Condition
import LineScript.Statement.Interpolation

namespace LineScript

open Text

/-! ### Kinds of faults -/

/-- The kinds of faults. -/
inductive FaultKind where
  | reservedKeyword
  | undefinedVariable
  | parseError
  | unsupportedType
  | listOverflow
  | unknownStatement
  | noInput
  deriving DecidableEq

namespace FaultKind

/-- The name of a kind of faults. -/
def name : FaultKind → Text
  | reservedKeyword => "ReservedKeyword"
  | undefinedVariable => "UndefinedVariable"
  | parseError => "ParseError"
  | unsupportedType => "UnsupportedType"
  | listOverflow => "ListOverflow"
  | unknownStatement => "UnknownStatement"
  | noInput => "NoInput"

/-- All kinds of faults, numbered from one in this order. -/
def all : List FaultKind :=
  [reservedKeyword, undefinedVariable, parseError, unsupportedType,
    listOverflow, unknownStatement, noInput]

/-- The kind of faults with a given number. -/
def ofCode? (n : Int) : Option FaultKind :=
  if 1 ≤ n then all[(n - 1).toNat]? else none

/-- The text for a kind of faults given by its number. -/
def describe (n : Int) : Text :=
  match ofCode? n with
  | some k => k.name
  | none => "ErrorKind(" ++ Text.ofInt n ++ ")"

/-- Whether faults of a kind are only warnings: the statement has been executed
nevertheless. -/
def isWarning (k : FaultKind) : Bool := k == listOverflow

end FaultKind

/-! ### Faults -/

/-- What caused a fault. -/
inductive Cause where
  | literal (e : LiteralError)
  | list (e : ListError)
  | interpolation (e : InterpolationError)
  | evaluation (e : EvalError)
  | assignment (e : UndefinedVariable)
  | undefined

/-- The message of a cause. -/
def Cause.message : Cause → Text
  | .literal e => e.message
  | .list e => e.message
  | .interpolation e => e.message
  | .evaluation e => e.message
  | .assignment e => e.message
  | .undefined => "undefined variable"

/-- What can go wrong with a statement. -/
inductive Fault where
  /-- A variable is to have the name of a keyword. -/
  | reserved (name : Text)
  /-- A declaration has no name, or its literal cannot be read. -/
  | declaration (line : Text) (cause : Option LiteralError)
  /-- The literal of a boolean declaration cannot be read. -/
  | boolean (literal : Text) (cause : LiteralError)
  /-- A list has no name, or its capacity is not one. -/
  | listDeclaration (line : Text) (cause : Option Cause)
  /-- A list has more elements than its capacity allows. -/
  | listOverflow
  /-- An input statement has no name, or the answer cannot be read. -/
  | input (line : Text) (cause : Option LiteralError)
  /-- The same for input of a given type. -/
  | typedInput (line : Text) (cause : Option LiteralError)
  /-- There is no type of the given name to read an answer as. -/
  | unsupportedType (type : Text)
  /-- There is no answer. -/
  | noInput (name : Text)
  /-- A variable that is to be shown does not exist. -/
  | undefined (name : Text)
  /-- A variable that is to be bound again does not exist. -/
  | assignUndefined (cause : UndefinedVariable)
  /-- An assignment does not have two sides. -/
  | assignment (line : Text)
  /-- A condition cannot be decided. -/
  | condition (cause : ConditionError)
  /-- A text with expressions cannot be written. -/
  | inlinePrint (line : Text) (cause : Cause)
  /-- A line lacks the rest of its form. -/
  | malformed (what line : Text)
  /-- A line has no known form. -/
  | unknown (line : Text)

namespace Fault

/-- The kind of a fault. -/
def kind : Fault → FaultKind
  | reserved _ => .reservedKeyword
  | undefined _ | assignUndefined _ => .undefinedVariable
  | unsupportedType _ => .unsupportedType
  | listOverflow => .listOverflow
  | unknown _ => .unknownStatement
  | noInput _ => .noInput
  | declaration _ _ | boolean _ _ | listDeclaration _ _ | input _ _
  | typedInput _ _ | assignment _ | condition _ | inlinePrint _ _
  | malformed _ _ => .parseError

/-- The message of a fault. -/
def message : Fault → Text
  | reserved name => "Error: " ++ name ++ " is a reserved keyword."
  | declaration line _ => "Error parsing line: " ++ line
  | boolean literal _ => "Error: Invalid boolean value: " ++ literal
  | listDeclaration line _ => "Error parsing list command: " ++ line
  | listOverflow =>
      "Warning: List exceeded max size. Remaining elements ignored."
  | input line _ => "Error parsing input command: " ++ line
  | typedInput line _ => "Error parsing type casting input command: " ++ line
  | unsupportedType type => "Error: Unsupported target type " ++ type ++ "."
  | noInput name => "No input provided for " ++ name
  | undefined name => "Undefined variable: " ++ name
  | assignUndefined cause => "Undefined variable: " ++ cause.name
  | assignment line => "Invalid assignment: " ++ line
  | condition cause => cause.message
  | inlinePrint line _ => "Error in inline print: " ++ line
  | malformed what line => "Error parsing " ++ what ++ ": " ++ line
  | unknown line => "Unknown command: " ++ line

/-- What caused a fault, if it is more than the form of the statement. -/
def cause? : Fault → Option Cause
  | declaration _ cause | input _ cause | typedInput _ cause =>
      cause.map .literal
  | boolean _ cause => some (.literal cause)
  | listDeclaration _ cause => cause
  | undefined _ => some .undefined
  | assignUndefined cause => some (.assignment cause)
  | inlinePrint _ cause => some cause
  | reserved _ | listOverflow | unsupportedType _ | noInput _ | assignment _
  | condition _ | malformed _ _ | unknown _ => none

/-- Whether a fault is only a warning. -/
def isWarning (f : Fault) : Bool := f.kind.isWarning

end Fault

end LineScript
