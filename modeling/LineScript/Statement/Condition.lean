/-
LineScript/Statement/Condition.lean

Conditions: two operands with a comparison between them, compared as doubles.
-/
import LineScript.Store.Basic

namespace LineScript

open Text

/-- The comparisons. -/
inductive Comparison where
  | ge
  | le
  | eq
  | gt
  | lt
  deriving DecidableEq

namespace Comparison

/-- How a comparison is written. -/
def symbol : Comparison → Text
  | ge => ">="
  | le => "<="
  | eq => "=="
  | gt => ">"
  | lt => "<"

/-- The comparisons in the order in which they are looked for. -/
def all : List Comparison := [ge, le, eq, gt, lt]

/-- Whether a comparison holds between two doubles. -/
def holds : Comparison → Float → Float → Bool
  | ge, x, y => y ≤ x
  | le, x, y => x ≤ y
  | eq, x, y => x == y
  | gt, x, y => y < x
  | lt, x, y => x < y

end Comparison

/-- Why a condition is neither true nor false. -/
inductive ConditionError where
  /-- It has no comparison in it. -/
  | noComparison (condition : Text)
  /-- It does not have two operands. -/
  | operands (condition : Text)
  /-- One of its operands is not a number. -/
  | notNumbers (left right : Value)

/-- The message of a condition error. -/
def ConditionError.message : ConditionError → Text
  | .noComparison c => "Invalid condition: " ++ c
  | .operands c => "Error parsing condition: " ++ c
  | .notNumbers l r => "Error comparing values: " ++ l.text ++ " and " ++ r.text

namespace Condition

/-- Compare two values as doubles. -/
def compare (c : Comparison) (left right : Value) :
    Except ConditionError Bool :=
  match left.toDouble, right.toDouble with
  | .ok x, .ok y => .ok (c.holds x y)
  | _, _ => .error (.notNumbers left right)

/-- Whether a condition holds for the variables of a store. -/
def holds (store : Store) (condition : Text) : Except ConditionError Bool :=
  match Comparison.all.find? fun c => occursIn c.symbol condition with
  | none => .error (.noComparison condition)
  | some c =>
      match fields c.symbol condition with
      | [l, r] => compare c (store.resolve (trim l)) (store.resolve (trim r))
      | _ => .error (.operands condition)

end Condition

end LineScript
