/-
LineScript/Number/Numeral.lean

Numerals in base ten, and the exact numbers they denote:

    sign? (digits ('.' digits?)? | '.' digits) (('e' | 'E') sign? digits)?

A numeral denotes `± coefficient * 10 ^ exponent`.
-/
import LineScript.Number.Binary64
import LineScript.Text.Basic

namespace LineScript

open Text

/-- A decimal number. -/
structure Numeral where
  negative : Bool
  coefficient : Nat
  exponent : Int
  deriving DecidableEq

namespace Numeral

/-- The double nearest to a decimal number. -/
def toDouble (x : Numeral) : Float :=
  let (n, d) := Double.scaled x.coefficient 10 x.exponent
  Double.nearest x.negative n d

/-- Whether a text starts with a minus sign, and what follows its sign, if it
has one. -/
def sign : Text → Bool × Text
  | [] => (false, [])
  | b :: t =>
      if b = byte '-' then (true, t)
      else if b = byte '+' then (false, t)
      else (false, b :: t)

/-- Digits, at least one of them and nothing else. -/
def isDigits (t : Text) : Bool := !t.isEmpty && t.all isDigit

/-- The number denoted by the digits of an exponent.  Once it has reached ten
thousand, further digits do not change it, so that a long exponent does not
lead to a huge power. -/
def exponentOf (digits : Text) : Nat :=
  digits.foldl
    (fun e b => if e < 10000 then 10 * e + (b.toNat - 48) else e) 0

/-- The exponent part of a numeral, which may be missing. -/
def readExponent? : Text → Option Int
  | [] => some 0
  | b :: t =>
      if b = byte 'e' ∨ b = byte 'E' then
        let (negative, digits) := sign t
        if isDigits digits then
          some (if negative then -exponentOf digits else exponentOf digits)
        else none
      else none

/-- The digits after the point, if there is one, and what follows them. -/
def fraction : Text → Text × Text
  | [] => ([], [])
  | b :: t =>
      if b = byte '.' then (t.takeWhile isDigit, t.dropWhile isDigit)
      else ([], b :: t)

/-- Read a numeral. -/
def read? (t : Text) : Option Numeral :=
  let (negative, t) := sign t
  let whole := t.takeWhile isDigit
  let (decimals, t) := fraction (t.dropWhile isDigit)
  if (whole ++ decimals).isEmpty then none
  else
    (readExponent? t).map fun e =>
      { negative, coefficient := Text.toNat (whole ++ decimals),
        exponent := e - decimals.length }

/-- Read a whole number: digits after an optional sign. -/
def readInt? (t : Text) : Option Int :=
  let (negative, digits) := sign t
  if isDigits digits then
    some (if negative then -Text.toNat digits else Text.toNat digits)
  else none

end Numeral

end LineScript
