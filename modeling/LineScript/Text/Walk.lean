/-
LineScript/Text/Walk.lean

Walking through a text in strides.  A walk starts at the beginning and, at each
place it visits, asks how far to go from there; it ends with the text.  Each
place is a position together with the text that is left there.

Everything that reads a text from left to right in one go is such a walk: the
characters of a text, the names in an expression, the tokens of a scanner.
-/
import LineScript.Text.Basic

namespace LineScript

namespace Text

/-- The places that a walk still visits when it stands at position `pos` and
the next `skip` bytes belong to the stride it is making. -/
def walkFrom (stride : Text → Nat) :
    (skip pos : Nat) → Text → List (Nat × Text)
  | _, _, [] => []
  | n + 1, pos, _ :: t => walkFrom stride n (pos + 1) t
  | 0, pos, b :: t =>
      (pos, b :: t) :: walkFrom stride (stride (b :: t) - 1) (pos + 1) t

/-- The places that a walk through a text visits: at a place where `r` is left,
the stride is `stride r` bytes, or one byte if that is zero. -/
def walk (stride : Text → Nat) (t : Text) : List (Nat × Text) :=
  walkFrom stride 0 0 t

end Text

end LineScript
