/-
LineScript/Machine/Execute.lean

Executing a single line.  What comes out is the machine afterwards, what went
wrong, if anything, and whether the lines that follow are to be skipped.
-/
import LineScript.Machine.Basic
import LineScript.Machine.Fault
import LineScript.Statement.Basic

namespace LineScript

open Text

/-- What comes out of a line. -/
structure Outcome where
  machine : Machine
  fault : Option Fault := none
  skipping : Bool := false

namespace Machine

/-! ### Declarations -/

/-- What is wrong with the name of a variable: it is empty, which is the fault
`malformed`, or it is reserved. -/
def nameFault? (name : Text) (malformed : Fault) : Option Fault :=
  if name.isEmpty then some malformed
  else if isReserved name then some (.reserved name)
  else none

/-- The fault of a declaration whose literal cannot be read. -/
def literalFault (type : ScalarType) (literal line : Text)
    (e : LiteralError) : Fault :=
  match type with
  | .bool => .boolean literal e
  | _ => .declaration line (some e)

/-- Declare a variable. -/
def declareScalar (m : Machine) (line : Text) (type : ScalarType)
    (name literal : Text) : Outcome :=
  match nameFault? name (.declaration line none) with
  | some f => ⟨m, some f, false⟩
  | none =>
      match type.read literal with
      | .error e => ⟨m, some (literalFault type literal line e), false⟩
      | .ok v => ⟨m.declare name v, none, false⟩

/-- An empty list with the capacity that a text denotes. -/
def emptyList (capacity : Text) : Except Cause BoundedList :=
  match Literal.int capacity with
  | .error e => .error (.literal e)
  | .ok n =>
      match BoundedList.empty n.toInt with
      | .error e => .error (.list e)
      | .ok l => .ok l

/-- The elements of a list: the fields between commas, as strings. -/
def elementsOf (t : Text) : List Value :=
  (split "," t).map fun e => .string (trim e)

/-- Declare a list.  Elements for which there is no room are left out. -/
def declareList (m : Machine) (line name capacity elements : Text) :
    Outcome :=
  match nameFault? name (.listDeclaration line none) with
  | some f => ⟨m, some f, false⟩
  | none =>
      match emptyList capacity with
      | .error cause => ⟨m, some (.listDeclaration line (some cause)), false⟩
      | .ok l =>
          let (l, rest) := l.fill (elementsOf elements)
          let fault := if rest.isEmpty then none else some .listOverflow
          ⟨m.declare name l.value, fault, false⟩

/-! ### Input -/

/-- The question for a number. -/
def promptFor (name : Text) : Text := "Enter value for " ++ name ++ ":"

/-- The question for a value of a type. -/
def typedPromptFor (name type : Text) : Text :=
  "Enter value for " ++ name ++ " (type: " ++ type ++ "):"

/-- Read an answer as a number: a double if there is a point in it, or else an
integer. -/
def readNumber (answer : Text) : Except LiteralError Value :=
  let t := trim answer
  if occursIn "." t then ScalarType.double.read t else ScalarType.int.read t

/-- Read an answer as a value of a type.  White space around a string counts. -/
def readAnswer (type : ScalarType) (answer : Text) :
    Except LiteralError Value :=
  match type with
  | .string => type.read answer
  | _ => type.read (trim answer)

/-- Ask for a value and bind a variable to it. -/
def inputWith (m : Machine) (name prompt : Text)
    (read : Text → Except LiteralError Value)
    (malformed : LiteralError → Fault) : Outcome :=
  match m.ask prompt with
  | (none, m) => ⟨m, some (.noInput name), false⟩
  | (some answer, m) =>
      match read answer with
      | .error e => ⟨m, some (malformed e), false⟩
      | .ok v => ⟨m.declare name v, none, false⟩

/-- Ask for a number. -/
def input (m : Machine) (line name : Text) : Outcome :=
  match nameFault? name (.input line none) with
  | some f => ⟨m, some f, false⟩
  | none =>
      m.inputWith name (promptFor name) readNumber fun e => .input line (some e)

/-- Ask for a value of a type. -/
def typedInput (m : Machine) (line name type : Text) : Outcome :=
  match nameFault? name (.typedInput line none) with
  | some f => ⟨m, some f, false⟩
  | none =>
      match ScalarType.ofName? type with
      | none => ⟨m, some (.unsupportedType type), false⟩
      | some s =>
          m.inputWith name (typedPromptFor name type) (readAnswer s) fun e =>
            .typedInput line (some e)

/-- The question that executing a line asks, if it asks one. -/
def question? (line : Text) : Option Text :=
  match Statement.ofLine line with
  | .input name =>
      if (nameFault? name (.input line none)).isSome then none
      else some (promptFor name)
  | .typedInput name type =>
      if (nameFault? name (.typedInput line none)).isSome then none
      else (ScalarType.ofName? type).map fun _ => typedPromptFor name type
  | _ => none

/-! ### Output -/

/-- Write the kind of a variable. -/
def typeQuery (m : Machine) (name : Text) : Outcome :=
  match m.store.get? name with
  | none => ⟨m, some (.undefined name), false⟩
  | some v => ⟨m.write (name ++ " is of type: " ++ v.kind.name), none, false⟩

/-- Write a quoted text or the value of a variable. -/
def print (m : Machine) (content : Text) : Outcome :=
  match Literal.unquoted? content with
  | some t => ⟨m.write t, none, false⟩
  | none =>
      match m.store.get? content with
      | none => ⟨m, some (.undefined content), false⟩
      | some v => ⟨m.write v.text, none, false⟩

/-- The text of a segment. -/
def segmentText (m : Machine) : Segment → Except EvalError Text
  | .literal t => .ok t
  | .expression t => (m.mode.evaluate m.store t).map Double.spell

/-- The text of segments, the first expression without a value being the
error. -/
def segmentsText (m : Machine) : List Segment → Except EvalError Text
  | [] => .ok []
  | s :: rest => do
      let t ← m.segmentText s
      let more ← m.segmentsText rest
      return t ++ more

/-- Write a text with expressions in it, if all of them have a value. -/
def inlinePrint (m : Machine) (line content : Text) : Outcome :=
  match Interpolation.segments content with
  | .error e => ⟨m, some (.inlinePrint line (.interpolation e)), false⟩
  | .ok segments =>
      match m.segmentsText segments with
      | .error e => ⟨m, some (.inlinePrint line (.evaluation e)), false⟩
      | .ok t => ⟨m.write t, none, false⟩

/-! ### Assignments and conditions -/

/-- Bind a declared variable to another value. -/
def assign (m : Machine) (line : Text) : Outcome :=
  match fields "=" line with
  | [name, operand] =>
      match m.store.assign (trim name) (m.store.resolve (trim operand)) with
      | .error e => ⟨m, some (.assignUndefined e), false⟩
      | .ok store =>
          ⟨{ m with environment := { m.environment with store } }, none, false⟩
  | _ => ⟨m, some (.assignment line), false⟩

/-- Decide a condition.  The block that follows is skipped unless it holds. -/
def conditional (m : Machine) (condition : Text) : Outcome :=
  match Condition.holds m.store condition with
  | .error e => ⟨m, some (.condition e), true⟩
  | .ok b => ⟨m, none, !b⟩

/-! ### Lines -/

/-- Execute a recognised line. -/
def perform (m : Machine) : SourceLine → Outcome
  | ⟨line, .declaration type name literal⟩ =>
      m.declareScalar line type name literal
  | ⟨line, .listDeclaration name capacity elements⟩ =>
      m.declareList line name capacity elements
  | ⟨line, .input name⟩ => m.input line name
  | ⟨line, .typedInput name type⟩ => m.typedInput line name type
  | ⟨_, .typeQuery name⟩ => m.typeQuery name
  | ⟨_, .conditional condition⟩ => m.conditional condition
  | ⟨_, .print content⟩ => m.print content
  | ⟨line, .inlinePrint content⟩ => m.inlinePrint line content
  | ⟨line, .assignment⟩ => m.assign line
  | ⟨line, .malformed what⟩ => ⟨m, some (.malformed what line), false⟩
  | ⟨line, .unknown⟩ => ⟨m, some (.unknown line), false⟩

/-- Execute a line. -/
def execute (m : Machine) (line : Text) : Outcome :=
  m.perform (.recognise line)

/-- A line is executed as the statement that it is. -/
theorem execute_eq_perform (m : Machine) {line : Text} {s : Statement}
    (h : Statement.ofLine line = s) : m.execute line = m.perform ⟨line, s⟩ := by
  rw [execute, SourceLine.recognise, h]

end Machine

end LineScript
