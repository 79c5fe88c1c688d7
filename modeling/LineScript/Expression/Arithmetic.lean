/-
LineScript/Expression/Arithmetic.lean

Evaluation of expressions by the usual rules of arithmetic.  An expression is

    sum     = product { ('+' | '-') product }
    product = unary { ('*' | '/') unary }
    unary   = ('+' | '-') unary | primary
    primary = number | identifier | '(' sum ')'
            | 'pow' '(' sum ',' sum ')' | 'sqrt' '(' sum ')'
            | 'log' '[' sum ']' '(' sum ')'

where the operators group to the left.  The name of a function is a variable
like any other unless a bracket follows it.

Each of the functions below reads one of these from the front of a list of
tokens and gives its value and the tokens that are left, of which there are
fewer.  Variables are looked up when they are reached, so that an operand which
has no value is reported before anything that is wrong to the right of it.
-/
import LineScript.Expression.Error
import LineScript.Expression.Operator

namespace LineScript

open Text

namespace Arithmetic

/-- What an expression is evaluated in: the variables, and the text of the
expression for error messages. -/
structure Context where
  store : Store
  source : Text

/-- Fewer tokens than in a given list. -/
abbrev Fewer (ts : List Token) := { rest : List Token // rest.length < ts.length }

/-- A value read from the front of a list of tokens, and what is left of it. -/
abbrev Reading (ts : List Token) := Except EvalError (Float × Fewer ts)

/-! ### Single tokens -/

/-- The error at the first of the tokens that are left. -/
def unexpected (ctx : Context) : List Token → EvalError
  | [] => .invalid (.unexpected .endOfText 0 ctx.source)
  | t :: _ => .invalid (.unexpected t.kind t.span.first ctx.source)

/-- Take a given character off the front. -/
def expect (ctx : Context) (c : Char) :
    (ts : List Token) → Except EvalError (Fewer ts)
  | [] => .error (unexpected ctx [])
  | t :: rest =>
      if t.kind = .symbol c then .ok ⟨rest, Nat.lt_succ_self _⟩
      else .error (unexpected ctx (t :: rest))

/-- The value of a number. -/
def numberValue (lexeme : Text) : Except EvalError Float :=
  match Double.read? lexeme with
  | some f => .ok f
  | none => .error (.invalid (.notANumber lexeme))

/-- The value of a variable. -/
def variableValue (store : Store) (name : Text) : Except EvalError Float :=
  match store.get? name with
  | none => .error (.undefined ⟨name⟩)
  | some v =>
      if v.kind = .bool ∨ v.kind = .list then
        .error (.invalid (.wrongKind name v.kind))
      else
        match v.toDouble with
        | .ok f => .ok f
        | .error _ => .error (.invalid (.notNumeric name v.text))

/-- The operators between the operands of a sum. -/
def sumOperator? (k : TokenKind) : Option Operator :=
  if k = .symbol '+' then some .add
  else if k = .symbol '-' then some .sub
  else none

/-- The operators between the operands of a product. -/
def productOperator? (k : TokenKind) : Option Operator :=
  if k = .symbol '*' then some .mul
  else if k = .symbol '/' then some .div
  else none

/-- Whether a bracket is the first of the tokens. -/
def startsWithBracket : List Token → Bool
  | [] => false
  | t :: _ => t.kind == .symbol '(' || t.kind == .symbol '['

/-- The function that an identifier calls when the tokens `rest` follow it. -/
def called? (name : Text) (rest : List Token) : Option Builtin :=
  if startsWithBracket rest then Builtin.ofName? name else none

/-! ### Sums, products and their operands -/

mutual

/-- Read a sum. -/
def sum (ctx : Context) (ts : List Token) : Reading ts := do
  let (x, ⟨rest, h⟩) ← product ctx ts
  let (y, ⟨rest', h'⟩) ← sumTail ctx x rest
  return (y, ⟨rest', Nat.lt_of_le_of_lt h' h⟩)
termination_by (ts.length, 3)

/-- Read the operands that are added to `x` or subtracted from it. -/
def sumTail (ctx : Context) (x : Float) (ts : List Token) :
    Except EvalError
      (Float × { rest : List Token // rest.length ≤ ts.length }) :=
  match ts with
  | [] => .ok (x, ⟨[], Nat.le_refl _⟩)
  | t :: rest =>
      match sumOperator? t.kind with
      | none => .ok (x, ⟨t :: rest, Nat.le_refl _⟩)
      | some op => do
          let (y, ⟨rest₁, h₁⟩) ← product ctx rest
          let (z, ⟨rest₂, h₂⟩) ← sumTail ctx (op.apply x y) rest₁
          return (z, ⟨rest₂, by simp only [List.length_cons]; omega⟩)
termination_by (ts.length, 0)

/-- Read a product. -/
def product (ctx : Context) (ts : List Token) : Reading ts := do
  let (x, ⟨rest, h⟩) ← unary ctx ts
  let (y, ⟨rest', h'⟩) ← productTail ctx x rest
  return (y, ⟨rest', Nat.lt_of_le_of_lt h' h⟩)
termination_by (ts.length, 2)

/-- Read the operands that `x` is multiplied with or divided by. -/
def productTail (ctx : Context) (x : Float) (ts : List Token) :
    Except EvalError
      (Float × { rest : List Token // rest.length ≤ ts.length }) :=
  match ts with
  | [] => .ok (x, ⟨[], Nat.le_refl _⟩)
  | t :: rest =>
      match productOperator? t.kind with
      | none => .ok (x, ⟨t :: rest, Nat.le_refl _⟩)
      | some op => do
          let (y, ⟨rest₁, h₁⟩) ← unary ctx rest
          let (z, ⟨rest₂, h₂⟩) ← productTail ctx (op.apply x y) rest₁
          return (z, ⟨rest₂, by simp only [List.length_cons]; omega⟩)
termination_by (ts.length, 0)

/-- Read an operand with its signs. -/
def unary (ctx : Context) (ts : List Token) : Reading ts :=
  match ts with
  | [] => .error (unexpected ctx [])
  | t :: rest =>
      if t.kind = .symbol '-' then do
        let (x, ⟨rest', h⟩) ← unary ctx rest
        return (-x, ⟨rest', Nat.lt_succ_of_lt h⟩)
      else if t.kind = .symbol '+' then do
        let (x, ⟨rest', h⟩) ← unary ctx rest
        return (x, ⟨rest', Nat.lt_succ_of_lt h⟩)
      else primary ctx (t :: rest)
termination_by (ts.length, 1)

/-- Read an operand. -/
def primary (ctx : Context) (ts : List Token) : Reading ts :=
  match ts with
  | [] => .error (unexpected ctx [])
  | t :: rest =>
      match t.kind with
      | .number => do
          let x ← numberValue t.lexeme
          return (x, ⟨rest, Nat.lt_succ_self _⟩)
      | .identifier =>
          match called? t.lexeme rest with
          | some f => do
              let (x, ⟨rest', h⟩) ← call ctx f rest
              return (x, ⟨rest', Nat.lt_succ_of_lt h⟩)
          | none => do
              let x ← variableValue ctx.store t.lexeme
              return (x, ⟨rest, Nat.lt_succ_self _⟩)
      | .symbol '(' => do
          let (x, ⟨rest₁, h₁⟩) ← sum ctx rest
          let ⟨rest₂, h₂⟩ ← expect ctx ')' rest₁
          return (x, ⟨rest₂, by simp only [List.length_cons]; omega⟩)
      | _ => .error (unexpected ctx (t :: rest))
termination_by (ts.length, 0)

/-- Read the arguments of a function and apply it. -/
def call (ctx : Context) (f : Builtin) (ts : List Token) : Reading ts :=
  match f with
  | .pow => do
      let ⟨rest₁, h₁⟩ ← expect ctx '(' ts
      let (x, ⟨rest₂, h₂⟩) ← sum ctx rest₁
      let ⟨rest₃, h₃⟩ ← expect ctx ',' rest₂
      let (y, ⟨rest₄, h₄⟩) ← sum ctx rest₃
      let ⟨rest₅, h₅⟩ ← expect ctx ')' rest₄
      return (x.pow y, ⟨rest₅, by omega⟩)
  | .sqrt => do
      let (x, rest) ← bracketed ctx '(' ')' ts
      return (x.sqrt, rest)
  | .log => do
      let (base, ⟨rest₁, h₁⟩) ← bracketed ctx '[' ']' ts
      let (x, ⟨rest₂, h₂⟩) ← bracketed ctx '(' ')' rest₁
      return (Builtin.logBase base x, ⟨rest₂, by omega⟩)
termination_by (ts.length, 1)

/-- Read a sum between brackets. -/
def bracketed (ctx : Context) (opening closing : Char) (ts : List Token) :
    Reading ts := do
  let ⟨rest₁, h₁⟩ ← expect ctx opening ts
  let (x, ⟨rest₂, h₂⟩) ← sum ctx rest₁
  let ⟨rest₃, h₃⟩ ← expect ctx closing rest₂
  return (x, ⟨rest₃, by omega⟩)
termination_by (ts.length, 0)

end

/-! ### Expressions -/

/-- Check that nothing is left but the end. -/
def expectEnd (ctx : Context) : List Token → Except EvalError Unit
  | [] => .ok ()
  | t :: rest =>
      if t.kind = .endOfText then .ok ()
      else .error (unexpected ctx (t :: rest))

/-- The value of an expression. -/
def evaluate (store : Store) (source : Text) : Except EvalError Float :=
  match Expression.tokenize source with
  | .error e => .error (.invalid (.tokens e))
  | .ok ts => do
      let (x, ⟨rest, _⟩) ← sum ⟨store, source⟩ ts
      expectEnd ⟨store, source⟩ rest
      return x

end Arithmetic

end LineScript
