/-
LineScript/Statement/Basic.lean

Statements, and how a line is recognised as one.  A recognised line keeps its
source, which is what messages quote.  The forms are tried in a fixed order, and
the first that fits decides:

    int<x>5   double<x>1.5   string<x>"s"   bool<x>true
    <in>(x)   <in>(x).to<type>
    type<x>
    list<x>capacity(element, element, …)
    if (left op right) {
    (x)   ("text")
    f(text {expression} text)
    x = value
-/
import LineScript.Text.Blank
import LineScript.Text.Character
import LineScript.Value.Basic

namespace LineScript

open Text

/-! ### Scalar types -/

/-- The types that have literals. -/
inductive ScalarType where
  | int
  | double
  | string
  | bool
  deriving DecidableEq

namespace ScalarType

/-- The kind of the values of a type. -/
def kind : ScalarType → Kind
  | int => .int
  | double => .double
  | string => .string
  | bool => .bool

/-- The scalar types in the order in which declarations are tried. -/
def all : List ScalarType := [int, double, string, bool]

/-- The name of a scalar type. -/
def name (s : ScalarType) : Text := s.kind.name

/-- The scalar type with a given name. -/
def ofName? (t : Text) : Option ScalarType :=
  all.find? fun s => s.name == t

/-- The value that a text stands for as a literal of a type.  A string may have
double quotes around it. -/
def read : ScalarType → Text → Except LiteralError Value
  | int, t => (Literal.int t).map .int
  | double, t => (Literal.double t).map .double
  | string, t => .ok (.string (Literal.unquote t))
  | bool, t => (Literal.bool t).map .bool

end ScalarType

/-! ### Statements -/

/-- The forms of statements. -/
inductive Statement where
  /-- Declare a variable with a literal. -/
  | declaration (type : ScalarType) (name literal : Text)
  /-- Declare a list with a capacity and its elements. -/
  | listDeclaration (name capacity elements : Text)
  /-- Ask for a number. -/
  | input (name : Text)
  /-- Ask for a value of a type. -/
  | typedInput (name type : Text)
  /-- Write the kind of a variable. -/
  | typeQuery (name : Text)
  /-- Skip the lines of a block unless a condition holds. -/
  | conditional (condition : Text)
  /-- Write a quoted text or the value of a variable. -/
  | print (content : Text)
  /-- Write a text with expressions in it. -/
  | inlinePrint (content : Text)
  /-- Bind a declared variable to another value. -/
  | assignment
  /-- A line that begins like the named form, but lacks the rest of it. -/
  | malformed (what : Text)
  /-- A line of no known form. -/
  | unknown
  deriving DecidableEq

namespace Statement

/-! ### Recognition -/

/-- `int<x>5` and the like.  The name ends at the first `>`. -/
def declaration? (line : Text) : Option Statement :=
  ScalarType.all.findSome? fun type => do
    let rest ← after? (type.name ++ "<") line
    let (name, literal) ← cut? ">" rest
    return .declaration type name (trim literal)

/-- `<in>(x)`, or else `<in>(x).to<type>`. -/
def input? (line : Text) : Option Statement := do
  let rest ← after? "<in>(" line
  match before? ")" rest with
  | some name => return .input (trim name)
  | none =>
      let (name, rest) ← cut? ").to<" rest
      let type ← before? ">" rest
      return .typedInput (trim name) (trim type)

/-- `type<x>`, whatever follows. -/
def typeQuery? (line : Text) : Option Statement := do
  let rest ← after? "type<" line
  let (name, _) ← cut? ">" rest
  return .typeQuery name

/-- `list<x>capacity(elements)`.  The last byte of the line is taken for the
closing bracket. -/
def listDeclaration? (line : Text) : Option Statement := do
  let rest ← after? "list<" line
  if !occursIn ")" rest then none
  else
    let declared : Option Statement := do
      let (name, rest) ← cut? ">" rest
      let (capacity, rest) ← cut? "(" rest
      if rest.isEmpty then none
      else return .listDeclaration name (trim capacity) rest.dropLast
    return declared.getD (.malformed "list command")

/-- `if (condition) {`, whatever follows.  The condition ends at the first
closing bracket, and `=<` in it is another spelling of `<=`. -/
def conditional? (line : Text) : Option Statement := do
  let _ ← after? "if (" line
  if !occursIn ") \x7b" line then none
  else
    let (_, rest) ← cut? "(" (replace "=<" "<=" line)
    let (condition, _) ← cut? ")" rest
    return .conditional (trim condition)

/-- `(content)`. -/
def print? (line : Text) : Option Statement :=
  (between? "(" ")" line).map fun content => .print (trim content)

/-- `f(content)`. -/
def inlinePrint? (line : Text) : Option Statement :=
  (between? "f(" ")" line).map fun content => .inlinePrint (trim content)

/-- Any line with an equals sign in it. -/
def assignment? (line : Text) : Option Statement :=
  if occursIn "=" line then some .assignment else none

/-- The statement that a line is. -/
def ofLine (line : Text) : Statement :=
  (declaration? line <|> input? line <|> typeQuery? line <|>
    listDeclaration? line <|> conditional? line <|> print? line <|>
    inlinePrint? line <|> assignment? line).getD .unknown

end Statement

/-! ### Recognised lines -/

/-- A line of a script together with the statement that it is. -/
structure SourceLine where
  source : Text
  statement : Statement
  deriving DecidableEq

/-- Recognise a line. -/
def SourceLine.recognise (line : Text) : SourceLine := ⟨line, .ofLine line⟩

end LineScript
