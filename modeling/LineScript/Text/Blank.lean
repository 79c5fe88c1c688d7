/-
LineScript/Text/Blank.lean

White space, and taking it off both ends of a text.  The blanks are the
characters of Unicode's `White_Space` property.  Each is encoded by a leading
byte and continuation bytes, so a text ends with a blank exactly if its last
bytes are the bytes of one, whatever precedes them.
-/
import LineScript.Text.Basic

namespace LineScript

namespace Text

/-- The code points of the blanks, as closed intervals. -/
def blankRanges : List (Nat × Nat) :=
  [(0x09, 0x0D), (0x20, 0x20), (0x85, 0x85), (0xA0, 0xA0), (0x1680, 0x1680),
   (0x2000, 0x200A), (0x2028, 0x2029), (0x202F, 0x202F), (0x205F, 0x205F),
   (0x3000, 0x3000)]

/-- The bytes of each blank. -/
def blanks : List Text :=
  blankRanges.flatMap fun (lo, hi) =>
    (List.range (hi + 1 - lo)).map fun i =>
      String.utf8EncodeChar (Char.ofNat (lo + i))

/-- The number of bytes of the member of `marks` that a text begins with, or
zero if there is none. -/
def markWidth (marks : List Text) (t : Text) : Nat :=
  match marks.find? (·.isPrefixOf t) with
  | some m => m.length
  | none => 0

/-- Skip `skip` bytes and then the members of `marks` that follow. -/
def dropMarksFrom (marks : List Text) : (skip : Nat) → Text → Text
  | _, [] => []
  | n + 1, _ :: t => dropMarksFrom marks n t
  | 0, b :: t =>
      match markWidth marks (b :: t) with
      | 0 => b :: t
      | n + 1 => dropMarksFrom marks n t

/-- A text without the blanks it begins with. -/
def trimLeft (t : Text) : Text := dropMarksFrom blanks 0 t

/-- A text without the blanks it ends with. -/
def trimRight (t : Text) : Text :=
  (dropMarksFrom (blanks.map List.reverse) 0 t.reverse).reverse

/-- A text without the blanks around it. -/
def trim (t : Text) : Text := trimRight (trimLeft t)

end Text

end LineScript
