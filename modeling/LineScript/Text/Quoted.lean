/-
LineScript/Text/Quoted.lean

Quoted texts, as error messages show them: double quotes around the text,
short escapes for the usual control characters, and hexadecimal escapes for
stray bytes and for characters that cannot be printed.
-/
import LineScript.Text.Character
import LineScript.Text.Printable

namespace LineScript

namespace Text

/-- The last `width` lower-case hexadecimal digits of `n`. -/
def hex : (width n : Nat) → Text
  | 0, _ => []
  | w + 1, n => hex w (n / 16) ++ [byte (Nat.digitChar (n % 16))]

/-- The letter of a short escape. -/
def escapeLetter? (c : Char) : Option Char :=
  match c.toNat with
  | 0x07 => some 'a'
  | 0x08 => some 'b'
  | 0x09 => some 't'
  | 0x0A => some 'n'
  | 0x0B => some 'v'
  | 0x0C => some 'f'
  | 0x0D => some 'r'
  | 0x22 => some '"'
  | 0x5C => some '\\'
  | _ => none

/-- How a character is written in a quoted text. -/
def quotedCharacter : Character → Text
  | .stray b => "\\x" ++ hex 2 b.toNat
  | .valid c =>
      match escapeLetter? c with
      | some l => [byte '\\', byte l]
      | none =>
          if isPrintable c then String.utf8EncodeChar c
          else if c.toNat < 0x80 then "\\x" ++ hex 2 c.toNat
          else if c.toNat < 0x10000 then "\\u" ++ hex 4 c.toNat
          else "\\U" ++ hex 8 c.toNat

/-- A text in double quotes. -/
def quoted (t : Text) : Text :=
  "\"" ++ t.characters.flatMap quotedCharacter ++ "\""

end Text

end LineScript
