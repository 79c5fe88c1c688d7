/-
LineScript/Expression/Substitution.lean

Evaluation of expressions by working on their text.

* A call of `pow`, `sqrt` or `log` anywhere in the text, looked for in this
  order, stands for the whole expression; what is around it is ignored.
* Otherwise names of variables are replaced by the texts of their values, first
  where they are whole identifiers and then wherever they occur.
* Of the operators `+ - * /`, the first that occurs divides the text, and its
  first two fields are the operands.  They are reduced in the same way.
* A text without operators is a number.

Substitution can bring a name back, so calls and operators may be nested only
to a given number of levels.
-/
import LineScript.Expression.Brackets
import LineScript.Expression.Error
import LineScript.Expression.Operator

namespace LineScript

open Text

namespace Substitution

/-! ### Replacing names -/

/-- The length of the identifier that a text begins with, zero if it begins
with none. -/
def identifierWidth : Text → Nat
  | [] => 0
  | b :: t =>
      if isNameStart b then 1 + (t.takeWhile isNamePart).length else 0

/-- Replace each identifier that names a variable by the text of its value. -/
def replaceIdentifiers (store : Store) (t : Text) : Text :=
  (walk identifierWidth t).flatMap fun (_, rest) =>
    match identifierWidth rest with
    | 0 => rest.take 1
    | w =>
        match store.get? (rest.take w) with
        | some v => v.text
        | none => rest.take w

/-- Replace each occurrence of a variable's name by the text of its value, for
one variable after the other. -/
def replaceNames (store : Store) (t : Text) : Text :=
  store.toList.foldl (fun t v => replace v.name v.value.text t) t

/-! ### Reducing a text to a number -/

/-- The operators in the order in which they are looked for. -/
def operators : List Operator := [.add, .sub, .mul, .div]

/-- Reduce a text to a number in at most `levels` levels of operators. -/
def reduce (store : Store) : (levels : Nat) → Text → Except EvalError Float
  | 0, _ => .error (.invalid .tooDeep)
  | levels + 1, t =>
      let t := replaceNames store t
      match operators.find? fun op => occursIn [byte op.symbol] t with
      | some op =>
          match fields [byte op.symbol] t with
          | l :: r :: _ => do
              let x ← reduce store levels (trim l)
              let y ← reduce store levels (trim r)
              return op.apply x y
          | _ => .error (.invalid (.missingOperand op.symbol t))
      | none =>
          match Double.read? t with
          | some x => .ok x
          | none => .error (.invalid (.notANumber t))

/-! ### Calls -/

/-- The call that an expression stands for, and the text from the bracket after
the name of its function. -/
def callIn? (t : Text) : Option (Builtin × Text) :=
  [(Builtin.pow, byte '('), (.sqrt, byte '('), (.log, byte '[')].findSome?
    fun (f, bracket) =>
      (cut? (f.name ++ [bracket]) t).map fun (_, rest) => (f, bracket :: rest)

/-- What stands in the brackets that `t` begins with, and what follows them.
`t` is the end of the expression `source`. -/
def group (opening closing : Char) (source t : Text) :
    Except EvalError (Text × Text) :=
  match after? [byte opening] t with
  | none =>
      .error (.invalid (.noOpening opening (source.length - t.length) source))
  | some rest =>
      match Brackets.enclosed? (byte opening) (byte closing) 0 rest with
      | none => .error (.invalid (.noClosing closing source))
      | some r => .ok r

/-- The two arguments of a power, `t` beginning with its bracket. -/
def powArguments (source t : Text) : Except EvalError (Text × Text) := do
  let (arguments, _) ← group '(' ')' source t
  match Brackets.cutOutside? (byte ',') 0 arguments with
  | some (l, r) => return (trim l, trim r)
  | none => .error (.invalid (.powArguments source))

/-- The argument of a square root, `t` beginning with its bracket. -/
def sqrtArgument (source t : Text) : Except EvalError Text := do
  let (argument, _) ← group '(' ')' source t
  return trim argument

/-- The base and the argument of a logarithm, `t` beginning with the bracket of
the base. -/
def logArguments (source t : Text) : Except EvalError (Text × Text) := do
  let (base, t) ← group '[' ']' source t
  let (argument, _) ← group '(' ')' source t
  return (trim base, trim argument)

/-- The value of an expression without white space around it, with at most
`levels` levels of calls and operators. -/
def evaluateNested (store : Store) :
    (levels : Nat) → Text → Except EvalError Float
  | 0, _ => .error (.invalid .tooDeep)
  | levels + 1, t =>
      match callIn? t with
      | some (.pow, rest) => do
          let (l, r) ← powArguments t rest
          let x ← evaluateNested store levels l
          let y ← evaluateNested store levels r
          return x.pow y
      | some (.sqrt, rest) => do
          let argument ← sqrtArgument t rest
          let x ← evaluateNested store levels argument
          return x.sqrt
      | some (.log, rest) => do
          let (base, argument) ← logArguments t rest
          let b ← evaluateNested store levels base
          let x ← evaluateNested store levels argument
          return Builtin.logBase b x
      | none => reduce store (levels + 1) (replaceIdentifiers store t)

/-- How deeply calls and operators may be nested. -/
def maxDepth : Nat := 64

/-- The value of an expression, with a limit for the depth of nesting. -/
def evaluateWithin (limit : Nat) (store : Store) (source : Text) :
    Except EvalError Float :=
  evaluateNested store (limit + 1) (trim source)

/-- The value of an expression. -/
def evaluate (store : Store) (source : Text) : Except EvalError Float :=
  evaluateWithin maxDepth store source

end Substitution

end LineScript
