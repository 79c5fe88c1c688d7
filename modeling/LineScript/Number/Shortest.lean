/-
LineScript/Number/Shortest.lean

The shortest decimal number that reads back as a given double.  Around the
exact value `v` of the double, the decimal numbers with `k` digits form a
grid; if any point of the grid reads back as the double, then so does one of
the two that enclose `v`.  The first grid with such a point decides, and of
two of them the nearer is taken, a tie going to the even one.
-/
import LineScript.Number.Numeral

namespace LineScript

namespace Double

/-- The number of digits of a natural number. -/
def digitCount (n : Nat) : Nat := (Nat.toDigits 10 n).length

/-- The least `k` with `n / d < 10 ^ k`, for positive `n` and `d`. -/
def pointPosition (n d : Nat) : Int :=
  if d ≤ n then digitCount (n / d)
  else 1 - (digitCount ((d - 1) / n) : Int)

/-- The magnitude that `c * 10 ^ e` reads as. -/
def decimalMagnitude (c : Nat) (e : Int) : Nat :=
  let (n, d) := scaled c 10 e
  magnitude n d

/-- The exact value of a finite magnitude as a decimal number. -/
def exactDecimal (m : Nat) : Nat × Int :=
  let e := exponent m
  if 0 ≤ e then (significand m * Nat.pow 2 e.toNat, 0)
  else (significand m * Nat.pow 5 (-e).toNat, e)

/-- The decimal number on the grid of multiples of `10 ^ e` that reads as the
magnitude `m` and is nearest to it. -/
def onGrid? (m : Nat) (e : Int) : Option (Nat × Int) :=
  let (n, d) := scaled (significand m) 2 (exponent m)
  let (n, d) := (n * Nat.pow 10 (-e).toNat, d * Nat.pow 10 e.toNat)
  let c := n / d
  let r := n % d
  let low := decimalMagnitude c e = m
  let high := decimalMagnitude (c + 1) e = m
  if low ∧ high then
    if 2 * r < d ∨ 2 * r = d ∧ c % 2 = 0 then some (c, e)
    else some (c + 1, e)
  else if low then some (c, e)
  else if high then some (c + 1, e)
  else none

/-- The shortest decimal number `c * 10 ^ e` that reads as a positive finite
magnitude.  Seventeen digits are always enough. -/
def shortest (m : Nat) : Nat × Int :=
  let (n, d) := scaled (significand m) 2 (exponent m)
  let p := pointPosition n d
  let grids := (List.range 17).map fun k : Nat => p - (k + 1)
  (grids.findSome? (onGrid? m)).getD (exactDecimal m)

end Double

end LineScript
