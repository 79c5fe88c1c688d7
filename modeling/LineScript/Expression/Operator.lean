/-
LineScript/Expression/Operator.lean

The operators and the functions of expressions.
-/
import LineScript.Text.Basic

namespace LineScript

/-- The binary operators. -/
inductive Operator where
  | add
  | sub
  | mul
  | div
  deriving DecidableEq

namespace Operator

/-- The character of an operator. -/
def symbol : Operator → Char
  | add => '+'
  | sub => '-'
  | mul => '*'
  | div => '/'

/-- What an operator computes. -/
def apply : Operator → Float → Float → Float
  | add, x, y => x + y
  | sub, x, y => x - y
  | mul, x, y => x * y
  | div, x, y => x / y

end Operator

/-- The functions: powers, square roots, and logarithms to a given base. -/
inductive Builtin where
  | pow
  | sqrt
  | log
  deriving DecidableEq

namespace Builtin

/-- The name of a function. -/
def name : Builtin → Text
  | pow => "pow"
  | sqrt => "sqrt"
  | log => "log"

/-- The function with a given name. -/
def ofName? (t : Text) : Option Builtin :=
  [pow, sqrt, log].find? (fun f => f.name == t)

/-- The logarithm of `x` to a base. -/
def logBase (base x : Float) : Float := x.log / base.log

end Builtin

end LineScript
