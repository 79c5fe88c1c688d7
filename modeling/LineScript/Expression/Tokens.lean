/-
LineScript/Expression/Tokens.lean

The tokens of arithmetic expressions: identifiers, numbers, and the characters
of `( ) [ ] , + - * /`.
-/
import LineScript.Scanner.Lexer

namespace LineScript

open Text

namespace Expression

/-- Identifiers are ASCII letters, digits and underscores, not beginning with
a digit. -/
def identifier : Pattern := .seq (.one isNameStart) (.star (.one isNamePart))

/-- The exponent of a number, which may be missing. -/
def numberExponent : Pattern :=
  .opt (.seq (.one fun b => b == byte 'e' || b == byte 'E')
    (.seq (.opt (.one fun b => b == byte '+' || b == byte '-'))
      (.plus (.one isDigit))))

/-- Numbers that begin with a digit. -/
def number : Pattern :=
  .seq (.plus (.one isDigit))
    (.seq (.opt (.seq (.literal ".") (.star (.one isDigit)))) numberExponent)

/-- Numbers that begin with the point. -/
def pointNumber : Pattern :=
  .seq (.literal ".") (.seq (.plus (.one isDigit)) numberExponent)

/-- What separates tokens. -/
def whiteSpace : Pattern :=
  .plus (.one fun b =>
    b == byte ' ' || b == byte '\t' || b == byte '\r' || b == byte '\n')

/-- The characters that are tokens by themselves. -/
def symbols : List Char := ['(', ')', '[', ']', ',', '+', '-', '*', '/']

/-- The lexer for expressions. -/
def lexer : Lexer :=
  Lexer.withLiterals
    ⟨[⟨identifier, some .identifier⟩, ⟨number, some .number⟩,
      ⟨pointNumber, some .number⟩, ⟨whiteSpace, none⟩]⟩
    (symbols.map fun c => ([byte c], .symbol c))

/-- The tokens of an expression. -/
def tokenize (t : Text) : Except ScanError (List Token) := lexer.tokens t

/-- The message for a text that has no tokens. -/
def tokenizeMessage (e : ScanError) : Text :=
  "cannot tokenize " ++ quoted e.source ++ ": " ++ e.message

end Expression

end LineScript
