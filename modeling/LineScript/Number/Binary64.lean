/-
LineScript/Number/Binary64.lean

Doubles and exact fractions.  The bits of a double without its sign, read as a
natural number, are its *magnitude*: magnitudes are ordered as the numbers
they stand for, and the infinite one comes next after the finite ones.

* `magnitude n d` is the magnitude nearest to `n / d`, a tie going to the even
  one; a fraction beyond the finite range gives the infinite magnitude;
* `significand` and `exponent` take a finite magnitude apart again: it stands
  for `significand m * 2 ^ exponent m`.

Both directions are exact arithmetic on natural numbers.
-/

namespace LineScript

namespace Double

/-! ### Fractions -/

/-- The numerator and the denominator of `c * base ^ e`. -/
def scaled (c base : Nat) (e : Int) : Nat × Nat :=
  (c * Nat.pow base e.toNat, Nat.pow base (-e).toNat)

/-- The integer nearest to `n / d`, a tie going to the even one. -/
def roundDiv (n d : Nat) : Nat :=
  let q := n / d
  let r := n % d
  if 2 * r < d then q
  else if d < 2 * r then q + 1
  else q + q % 2

/-- The greatest `k` with `2 ^ k ≤ n / d`, for positive `n` and `d`. -/
def log2Div (n d : Nat) : Int :=
  let k : Int := n.log2 - d.log2
  if d * Nat.pow 2 k.toNat ≤ n * Nat.pow 2 (-k).toNat then k else k - 1

/-! ### Magnitudes -/

/-- The least significand of a normal number, `2 ^ 52`. -/
def leastNormal : Nat := 0x10000000000000

/-- The magnitude of infinity. -/
def infinite : Nat := 0x7FF * leastNormal

/-- The magnitude nearest to `n / d`.  With `2 ^ e` the distance of the doubles
around `n / d`, the quotient rounded to a multiple of it is the significand,
and a significand of `2 ^ 53` carries into the exponent by itself. -/
def magnitude (n d : Nat) : Nat :=
  if n = 0 then 0
  else
    let e := max (log2Div n d - 52) (-1074)
    let s := roundDiv (n * Nat.pow 2 (-e).toNat) (d * Nat.pow 2 e.toNat)
    min ((e + 1074).toNat * leastNormal + s) infinite

/-- The biased exponent of a magnitude; the numbers below the normal ones share
that of the least normal ones. -/
def biased (m : Nat) : Nat := max 1 (m / leastNormal)

/-- The significand of a finite magnitude. -/
def significand (m : Nat) : Nat := m - (biased m - 1) * leastNormal

/-- The power of two that the significand of a finite magnitude is multiplied
by. -/
def exponent (m : Nat) : Int := biased m - 1075

/-! ### Doubles -/

/-- The sign bit of a double, `2 ^ 63`. -/
def signBit : Nat := 0x8000000000000000

/-- The double with a given sign and magnitude. -/
def ofMagnitude (negative : Bool) (m : Nat) : Float :=
  Float.ofBits (UInt64.ofNat (if negative then signBit + m else m))

/-- The magnitude of a double. -/
def magnitudeOf (f : Float) : Nat := f.toBits.toNat % signBit

/-- Whether the sign bit of a double is set. -/
def isNegative (f : Float) : Bool := signBit ≤ f.toBits.toNat

/-- The double nearest to `n / d`, or to its negative. -/
def nearest (negative : Bool) (n d : Nat) : Float :=
  ofMagnitude negative (magnitude n d)

/-- The double nearest to an integer. -/
def ofInt (n : Int) : Float := nearest (n < 0) n.natAbs 1

/-- The double that is not a number. -/
def nan : Float := Float.ofBits 0x7FF8000000000000

end Double

end LineScript
