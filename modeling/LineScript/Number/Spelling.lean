/-
LineScript/Number/Spelling.lean

How doubles are spelled in scripts and in their output.

Written: the fewest digits that read back, always with a point; positional for
magnitudes from `10 ^ -3` up to `10 ^ 7`, otherwise with one digit before the
point and an exponent after `E`, as in `1.0E7` and `2.5E-4`.

Read: a numeral, `NaN`, or `Infinity` after any number of signs, the first of
which counts; white space around it is ignored.
-/
import LineScript.Number.Shortest
import LineScript.Text.Blank

namespace LineScript

open Text

namespace Double

/-! ### Writing -/

/-- The digits of a positive finite magnitude without zeros at their end, and
the position of the point relative to their beginning. -/
def spellDigits (m : Nat) : Text × Int :=
  let (c, e) := shortest m
  let digits := Text.ofNat c
  (dropTrailing (· == byte '0') digits, digits.length + e)

/-- Decimals after a point: at least one. -/
def decimals (digits : Text) : Text :=
  if digits.isEmpty then "0" else digits

/-- Positional notation of `0.digits * 10 ^ point`. -/
def positional (digits : Text) (point : Int) : Text :=
  if point ≤ 0 then
    "0." ++ List.replicate (-point).toNat (byte '0') ++ digits
  else
    let n := point.toNat
    digits.take n ++ List.replicate (n - digits.length) (byte '0') ++ "." ++
      decimals (digits.drop n)

/-- Notation of `0.digits * 10 ^ point` with an exponent. -/
def scientific (digits : Text) (point : Int) : Text :=
  digits.take 1 ++ "." ++ decimals (digits.drop 1) ++ "E" ++
    Text.ofInt (point - 1)

/-- The magnitude of `10 ^ -3`, where positional notation begins. -/
def positionalFrom : Nat := magnitude 1 1000

/-- The magnitude of `10 ^ 7`, where positional notation ends. -/
def positionalBelow : Nat := magnitude 10000000 1

/-- The text of a magnitude. -/
def spellMagnitude (m : Nat) : Text :=
  if m = infinite then "Infinity"
  else if m = 0 then "0.0"
  else
    let (digits, point) := spellDigits m
    if positionalFrom ≤ m ∧ m < positionalBelow then positional digits point
    else scientific digits point

/-- The text of a double. -/
def spell (f : Float) : Text :=
  if infinite < magnitudeOf f then "NaN"
  else if isNegative f then "-" ++ spellMagnitude (magnitudeOf f)
  else spellMagnitude (magnitudeOf f)

/-! ### Reading -/

/-- A sign byte. -/
def isSign (b : UInt8) : Bool := b == byte '+' || b == byte '-'

/-- Read a double that has no white space around it. -/
def readTrimmed? (t : Text) : Option Float :=
  if t = Text.ofString "NaN" then some nan
  else if t.dropWhile isSign = Text.ofString "Infinity" then
    some (ofMagnitude (t.head? = some (byte '-')) infinite)
  else (Numeral.read? t).map Numeral.toDouble

/-- Read a double. -/
def read? (t : Text) : Option Float := readTrimmed? (trim t)

end Double

end LineScript
