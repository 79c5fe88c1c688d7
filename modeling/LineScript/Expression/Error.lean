/-
LineScript/Expression/Error.lean

Why an expression has no value: it uses a variable that is not declared, or it
is invalid, because it is malformed or because an operand is not a number.
-/
import LineScript.Expression.Tokens
import LineScript.Store.Basic

namespace LineScript

open Text

/-- What makes an expression invalid. -/
inductive InvalidExpression where
  /-- The text has no tokens. -/
  | tokens (e : ScanError)
  /-- A token stands where it cannot stand. -/
  | unexpected (found : TokenKind) (position : Nat) (source : Text)
  /-- An operand is not a number. -/
  | notANumber (operand : Text)
  /-- A variable is of a kind that has no number. -/
  | wrongKind (name : Text) (kind : Kind)
  /-- The text of a variable is not a number. -/
  | notNumeric (name text : Text)
  /-- Calls or operators are nested beyond the limit. -/
  | tooDeep
  /-- An opening bracket is missing. -/
  | noOpening (bracket : Char) (position : Nat) (source : Text)
  /-- A closing bracket is missing. -/
  | noClosing (bracket : Char) (source : Text)
  /-- A power has only one argument. -/
  | powArguments (source : Text)
  /-- An operator has only one operand. -/
  | missingOperand (operator : Char) (source : Text)
  deriving DecidableEq

/-- What exactly is wrong with an expression. -/
def InvalidExpression.detail : InvalidExpression → Text
  | .tokens e => Expression.tokenizeMessage e
  | .unexpected found position source =>
      "unexpected " ++ found.name ++ " at position " ++ Text.ofNat position ++
        " of " ++ quoted source
  | .notANumber operand => "not a number: " ++ quoted operand
  | .wrongKind name kind =>
      "variable " ++ name ++ " of type " ++ kind.name ++ " is not a number"
  | .notNumeric name text =>
      "variable " ++ name ++ " is not a number: " ++ quoted text
  | .tooDeep => "expression nested too deeply"
  | .noOpening bracket position source =>
      "expected '" ++ [byte bracket] ++ "' at position " ++
        Text.ofNat position ++ " of " ++ quoted source
  | .noClosing bracket source =>
      "missing '" ++ [byte bracket] ++ "' in " ++ quoted source
  | .powArguments source => "pow needs 2 arguments: " ++ quoted source
  | .missingOperand operator source =>
      "missing operand for '" ++ [byte operator] ++ "' in " ++ quoted source

/-- Why an expression has no value. -/
inductive EvalError where
  | invalid (cause : InvalidExpression)
  | undefined (cause : UndefinedVariable)
  deriving DecidableEq

/-- The message of an evaluation error. -/
def EvalError.message : EvalError → Text
  | .invalid cause => "invalid expression: " ++ cause.detail
  | .undefined cause => cause.message

end LineScript
