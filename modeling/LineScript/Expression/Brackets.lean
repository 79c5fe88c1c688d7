/-
LineScript/Expression/Brackets.lean

Brackets in the text of an expression: the bracket that closes an open one, and
commas that stand in no bracket.
-/
import LineScript.Text.Blank

namespace LineScript

open Text

namespace Brackets

/-- What stands in a bracket that is open already, and what follows the bracket
that closes it.  Brackets of the same shape inside of it, of which `depth` are
open, have their own closing ones. -/
def enclosed? (opening closing : UInt8) : (depth : Nat) → Text →
    Option (Text × Text)
  | _, [] => none
  | depth, b :: t =>
      if b = opening then
        (enclosed? opening closing (depth + 1) t).map fun (i, r) => (b :: i, r)
      else if b = closing then
        match depth with
        | 0 => some ([], t)
        | d + 1 => (enclosed? opening closing d t).map fun (i, r) => (b :: i, r)
      else
        (enclosed? opening closing depth t).map fun (i, r) => (b :: i, r)

/-- Divide a text at the first `sep` where as many round and square brackets
have been opened as closed.  `depth` is the number of those opened before, less
those closed. -/
def cutOutside? (sep : UInt8) : (depth : Int) → Text → Option (Text × Text)
  | _, [] => none
  | depth, b :: t =>
      let next? : Option Int :=
        if b = byte '(' ∨ b = byte '[' then some (depth + 1)
        else if b = byte ')' ∨ b = byte ']' then some (depth - 1)
        else if b = sep ∧ depth = 0 then none
        else some depth
      match next? with
      | none => some ([], t)
      | some next => (cutOutside? sep next t).map fun (l, r) => (b :: l, r)

end Brackets

end LineScript
