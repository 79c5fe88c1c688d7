/-
LineScript/Expression/Grammar.lean

The grammar of expressions and their meaning, apart from how they are read.
`Derives level ts e` says that the tokens `ts`, without the end token, spell
the tree `e` at one of four levels:

    sum     = sum ('+' | '-') product | product
    product = product ('*' | '/') unary | unary
    unary   = ('+' | '-') unary | primary
    primary = number | identifier | '(' sum ')'
            | 'pow' '(' sum ',' sum ')' | 'sqrt' '(' sum ')'
            | 'log' '[' sum ']' '(' sum ')'
-/
import LineScript.Expression.Arithmetic

namespace LineScript

/-- The tree of an expression: one node for each rule of the grammar that does
more than pass on to the next level, brackets included, so that a tree at a
level is a derivation. -/
inductive Expr where
  | number (lexeme : Text)
  | name (name : Text)
  | group (inner : Expr)
  | plus (operand : Expr)
  | minus (operand : Expr)
  | binary (op : Operator) (left right : Expr)
  | pow (base exponent : Expr)
  | sqrt (argument : Expr)
  | log (base argument : Expr)
  deriving DecidableEq

namespace Expr

/-- The value of an expression.  Operands are evaluated from left to right, and
the first without a value is the error. -/
def value (store : Store) : Expr → Except EvalError Float
  | number lexeme => Arithmetic.numberValue lexeme
  | name n => Arithmetic.variableValue store n
  | group e => e.value store
  | plus e => e.value store
  | minus e => do
      let x ← e.value store
      return -x
  | binary op l r => do
      let x ← l.value store
      let y ← r.value store
      return op.apply x y
  | pow b e => do
      let x ← b.value store
      let y ← e.value store
      return x.pow y
  | sqrt e => do
      let x ← e.value store
      return x.sqrt
  | log b e => do
      let x ← b.value store
      let y ← e.value store
      return Builtin.logBase x y

/-- The levels of the grammar. -/
inductive Level where
  | sum
  | product
  | unary
  | primary
  deriving DecidableEq

/-- A token that is the name of a function. -/
def IsName (f : Builtin) (t : Token) : Prop :=
  t.kind = .identifier ∧ t.lexeme = f.name

/-- The tokens that spell a tree. -/
inductive Derives : Level → List Token → Expr → Prop where
  | sumOfProduct {ts : List Token} {e : Expr} :
      Derives .product ts e → Derives .sum ts e
  | add {l r : List Token} {t : Token} {x y : Expr} :
      Derives .sum l x → t.kind = .symbol '+' → Derives .product r y →
      Derives .sum (l ++ t :: r) (.binary .add x y)
  | sub {l r : List Token} {t : Token} {x y : Expr} :
      Derives .sum l x → t.kind = .symbol '-' → Derives .product r y →
      Derives .sum (l ++ t :: r) (.binary .sub x y)
  | productOfUnary {ts : List Token} {e : Expr} :
      Derives .unary ts e → Derives .product ts e
  | mul {l r : List Token} {t : Token} {x y : Expr} :
      Derives .product l x → t.kind = .symbol '*' → Derives .unary r y →
      Derives .product (l ++ t :: r) (.binary .mul x y)
  | div {l r : List Token} {t : Token} {x y : Expr} :
      Derives .product l x → t.kind = .symbol '/' → Derives .unary r y →
      Derives .product (l ++ t :: r) (.binary .div x y)
  | unaryOfPrimary {ts : List Token} {e : Expr} :
      Derives .primary ts e → Derives .unary ts e
  | plus {ts : List Token} {t : Token} {e : Expr} :
      t.kind = .symbol '+' → Derives .unary ts e →
      Derives .unary (t :: ts) (.plus e)
  | minus {ts : List Token} {t : Token} {e : Expr} :
      t.kind = .symbol '-' → Derives .unary ts e →
      Derives .unary (t :: ts) (.minus e)
  | number {t : Token} :
      t.kind = .number → Derives .primary [t] (.number t.lexeme)
  | name {t : Token} :
      t.kind = .identifier → Derives .primary [t] (.name t.lexeme)
  | brackets {ts : List Token} {o c : Token} {e : Expr} :
      o.kind = .symbol '(' → Derives .sum ts e → c.kind = .symbol ')' →
      Derives .primary (o :: ts ++ [c]) (.group e)
  | pow {l r : List Token} {f o s c : Token} {x y : Expr} :
      IsName .pow f → o.kind = .symbol '(' → Derives .sum l x →
      s.kind = .symbol ',' → Derives .sum r y → c.kind = .symbol ')' →
      Derives .primary (f :: o :: l ++ s :: r ++ [c]) (.pow x y)
  | sqrt {ts : List Token} {f o c : Token} {e : Expr} :
      IsName .sqrt f → o.kind = .symbol '(' → Derives .sum ts e →
      c.kind = .symbol ')' →
      Derives .primary (f :: o :: ts ++ [c]) (.sqrt e)
  | log {l r : List Token} {f o c o' c' : Token} {x y : Expr} :
      IsName .log f → o.kind = .symbol '[' → Derives .sum l x →
      c.kind = .symbol ']' → o'.kind = .symbol '(' → Derives .sum r y →
      c'.kind = .symbol ')' →
      Derives .primary (f :: o :: l ++ c :: o' :: r ++ [c']) (.log x y)

end Expr

end LineScript
