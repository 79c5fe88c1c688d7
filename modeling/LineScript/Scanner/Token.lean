/-
LineScript/Scanner/Token.lean

Tokens: pieces of a text with a kind and the place where they stand.
-/
import LineScript.Text.Basic

namespace LineScript

open Text

/-- A run of positions in a text, from a first one to the one just behind the
last. -/
structure Span where
  first : Nat
  behind : Nat
  deriving DecidableEq

/-- A span as shown in reports. -/
def Span.describe (s : Span) : Text :=
  "(" ++ Text.ofNat s.first ++ "…" ++ Text.ofNat s.behind ++ ")"

/-- The kinds of tokens.  A literal token has its character as its kind. -/
inductive TokenKind where
  | endOfText
  | identifier
  | number
  | symbol (c : Char)
  deriving DecidableEq

namespace TokenKind

/-- The name of a kind of tokens, as error messages show it. -/
def name : TokenKind → Text
  | endOfText => "end of expression"
  | identifier => "identifier"
  | number => "number"
  | symbol c => "'" ++ String.utf8EncodeChar c ++ "'"

/-- The number that stands for a kind of tokens. -/
def code : TokenKind → Int
  | endOfText => -1
  | identifier => -2
  | number => -3
  | symbol c => c.toNat

/-- The character with a given code, of which only the low 32 bits count, or
U+FFFD if there is none. -/
def charOfCode (n : Int) : Char :=
  let m := n.bmod 0x100000000
  if 0 ≤ m ∧ m.toNat.isValidChar then Char.ofNat m.toNat else '�'

/-- The kind of tokens that a number stands for. -/
def ofCode (n : Int) : TokenKind :=
  if n = -1 then endOfText
  else if n = -2 then identifier
  else if n = -3 then number
  else symbol (charOfCode n)

end TokenKind

/-- A token. -/
structure Token where
  kind : TokenKind
  lexeme : Text
  span : Span
  deriving DecidableEq

/-- The end token at a position. -/
def Token.endAt (position : Nat) : Token :=
  ⟨.endOfText, [], ⟨position, position⟩⟩

end LineScript
