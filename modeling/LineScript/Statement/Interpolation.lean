/-
LineScript/Statement/Interpolation.lean

Texts with expressions in braces.  Outside of expressions, a brace after a
backslash stands for itself, and so does a pair of braces with nothing between
them.  Braces do not nest.
-/
import LineScript.Text.Basic

namespace LineScript

open Text

/-- A part of a text with expressions in it. -/
inductive Segment where
  | literal (text : Text)
  | expression (text : Text)
  deriving DecidableEq

/-- Why a text cannot be divided into segments. -/
inductive InterpolationError where
  /-- An expression contains an opening brace. -/
  | nestedBrace
  /-- An expression has no closing brace. -/
  | unterminated
  deriving DecidableEq

/-- The message of an interpolation error. -/
def InterpolationError.message : InterpolationError → Text
  | .nestedBrace => "'\x7b' within expression"
  | .unterminated => "unterminated expression"

namespace Interpolation

/-- The byte of an opening brace. -/
@[match_pattern] abbrev openBrace : UInt8 := 0x7B

/-- The byte of a closing brace. -/
@[match_pattern] abbrev closeBrace : UInt8 := 0x7D

/-- The byte of a backslash. -/
@[match_pattern] abbrev backslash : UInt8 := 0x5C

/-- A literal segment, unless it is empty. -/
def literalSegment (t : Text) : List Segment :=
  if t.isEmpty then [] else [.literal t]

mutual

/-- The segments of what follows the literal text `acc`. -/
def afterLiteral (acc : Text) :
    Text → Except InterpolationError (List Segment)
  | [] => .ok (literalSegment acc)
  | backslash :: openBrace :: t => afterLiteral (acc ++ [openBrace]) t
  | backslash :: closeBrace :: t => afterLiteral (acc ++ [closeBrace]) t
  | openBrace :: closeBrace :: t =>
      afterLiteral (acc ++ [openBrace, closeBrace]) t
  | openBrace :: t =>
      (inExpression [] t).map fun segments => literalSegment acc ++ segments
  | b :: t => afterLiteral (acc ++ [b]) t

/-- The segments of what follows an opening brace and the expression text
`acc`. -/
def inExpression (acc : Text) :
    Text → Except InterpolationError (List Segment)
  | [] => .error .unterminated
  | openBrace :: _ => .error .nestedBrace
  | closeBrace :: t =>
      (afterLiteral [] t).map fun segments => .expression acc :: segments
  | b :: t => inExpression (acc ++ [b]) t

end

/-- The segments of a text. -/
def segments (t : Text) : Except InterpolationError (List Segment) :=
  afterLiteral [] t

/-- A literal text with a backslash before each brace. -/
def escaped (t : Text) : Text :=
  t.flatMap fun b =>
    if b = openBrace ∨ b = closeBrace then [backslash, b] else [b]

/-- A text that has the given segments. -/
def render (segments : List Segment) : Text :=
  segments.flatMap fun
    | .literal t => escaped t
    | .expression t => openBrace :: t ++ [closeBrace]

end Interpolation

end LineScript
