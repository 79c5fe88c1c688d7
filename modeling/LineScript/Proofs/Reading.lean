/-
LineScript/Proofs/Reading.lean

The runs of the readers of expressions.  `Reads item ts e rest` says that
reading an item from the front of the tokens `ts` finds the tree `e` and leaves
`rest`; it has one rule for each way through the readers, and a place where a
decision is made on the next token says so in its premises.

* Reading is deterministic (`Reads.unique`).
* Where an item can be read, its reader gives the value of the tree and what is
  left, or the error of the value (`run_of_reads`).
* Whatever a reader gives without an error has been read (`accounted`).
-/
import LineScript.Expression.Grammar
import Mathlib.Data.List.Basic

namespace LineScript

/-- A computation in two steps succeeds if both do. -/
theorem Except.bind_eq_ok_iff {ε α β : Type} {x : Except ε α} {f : α → Except ε β}
    {b : β} : (x >>= f) = .ok b ↔ ∃ a, x = .ok a ∧ f a = .ok b := by
  cases x with
  | error e => simp [bind, Except.bind]
  | ok a => simp [bind, Except.bind]

theorem Except.map_eq_ok_iff {ε α β : Type} {x : Except ε α} {f : α → β} {b : β} :
    x.map f = .ok b ↔ ∃ a, x = .ok a ∧ f a = b := by
  cases x with
  | error e => simp [Except.map]
  | ok a => simp [Except.map]

namespace Arithmetic

/-! ### The readers without their proofs -/

/-- What is read, without the proof that tokens have been used up. -/
def plain {P : List Token → Prop}
    (r : Except EvalError (Float × { rest : List Token // P rest })) :
    Except EvalError (Float × List Token) :=
  r.map fun (x, rest) => (x, rest.1)

/-- What is left is what the reader promised. -/
theorem of_plain_eq_ok {P : List Token → Prop}
    {r : Except EvalError (Float × { rest : List Token // P rest })} {x : Float}
    {rest : List Token} (h : plain r = .ok (x, rest)) : P rest := by
  rcases r with e | ⟨y, rest', h'⟩
  · cases h
  · cases h
    exact h'

/-- What follows a character that is taken off the front. -/
def plainExpect (ctx : Context) (c : Char) (ts : List Token) :
    Except EvalError (List Token) :=
  (expect ctx c ts).map Subtype.val

/-- A symbol is read if it is the next token. -/
theorem plainExpect_eq_ok_iff {ctx : Context} {c : Char} {ts rest : List Token} :
    plainExpect ctx c ts = .ok rest ↔ ∃ t, t.kind = .symbol c ∧ ts = t :: rest := by
  cases ts with
  | nil => simp [plainExpect, expect, Except.map]
  | cons t ts =>
      by_cases ht : t.kind = .symbol c
      · simp [plainExpect, expect, ht, Except.map]
      · simp [plainExpect, expect, ht, Except.map]

theorem plainExpect_cons {ctx : Context} {c : Char} {t : Token}
    (ht : t.kind = .symbol c) (ts : List Token) :
    plainExpect ctx c (t :: ts) = .ok ts :=
  plainExpect_eq_ok_iff.2 ⟨t, ht, rfl⟩

/-! What goes on behind a reader goes on behind it without its proof. -/

section Bind

variable {P Q : List Token → Prop}
  {r : Except EvalError (Float × { rest : List Token // P rest })}
  {k : Float × { rest : List Token // P rest } →
    Except EvalError (Float × { rest : List Token // Q rest })}

/-- Readers in a row, without the proofs about what is left. -/
theorem plain_bind {k' : Float × List Token → Except EvalError (Float × List Token)}
    (h : ∀ x rest hrest, plain (k (x, ⟨rest, hrest⟩)) = k' (x, rest)) :
    plain (r >>= k) = (plain r >>= k') := by
  rcases r with e | ⟨x, rest, hrest⟩
  · rfl
  · exact h x rest hrest

/-- The same if the second one reads nothing. -/
theorem plain_map {f : Float → Float}
    (h : ∀ x rest hrest, plain (k (x, ⟨rest, hrest⟩)) = .ok (f x, rest)) :
    plain (r >>= k) = (plain r).map fun (x, rest) => (f x, rest) := by
  rcases r with e | ⟨x, rest, hrest⟩
  · rfl
  · exact h x rest hrest

theorem plain_same (h : ∀ x rest hrest, plain (k (x, ⟨rest, hrest⟩)) = .ok (x, rest)) :
    plain (r >>= k) = plain r := by
  rcases r with e | ⟨x, rest, hrest⟩
  · rfl
  · exact h x rest hrest

variable {ctx : Context} {c : Char} {ts : List Token}

/-- The same for a symbol and a reader behind it. -/
theorem plain_expect_bind
    {k : { rest : List Token // rest.length < ts.length } →
      Except EvalError (Float × { rest : List Token // Q rest })}
    {k' : List Token → Except EvalError (Float × List Token)}
    (h : ∀ rest hrest, plain (k ⟨rest, hrest⟩) = k' rest) :
    plain (expect ctx c ts >>= k) = (plainExpect ctx c ts >>= k') := by
  unfold plainExpect
  rcases expect ctx c ts with e | ⟨rest, hrest⟩
  · rfl
  · exact h rest hrest

theorem plain_expect_map
    {k : { rest : List Token // rest.length < ts.length } →
      Except EvalError (Float × { rest : List Token // Q rest })} {x : Float}
    (h : ∀ rest hrest, plain (k ⟨rest, hrest⟩) = .ok (x, rest)) :
    plain (expect ctx c ts >>= k) =
      (plainExpect ctx c ts).map fun rest => (x, rest) := by
  unfold plainExpect
  rcases expect ctx c ts with e | ⟨rest, hrest⟩
  · rfl
  · exact h rest hrest

end Bind

variable (ctx : Context)

/-- A sum begins with a product. -/
theorem plain_sum (ts : List Token) :
    plain (sum ctx ts) = (do
      let (x, rest) ← plain (product ctx ts)
      plain (sumTail ctx x rest)) := by
  rw [sum]
  exact plain_bind fun x rest h => plain_same fun y rest' h' => rfl

theorem plain_sumTail_nil (x : Float) : plain (sumTail ctx x []) = .ok (x, []) := by
  rw [sumTail]
  rfl

/-- A sum ends before a token that is no sum operator. -/
theorem plain_sumTail_end (x : Float) {t : Token} (ts : List Token)
    (ht : sumOperator? t.kind = none) :
    plain (sumTail ctx x (t :: ts)) = .ok (x, t :: ts) := by
  rw [sumTail]
  simp only [ht]
  rfl

/-- What has been read so far is the left side of the next sum operator. -/
theorem plain_sumTail_more (x : Float) {t : Token} (ts : List Token)
    {op : Operator} (ht : sumOperator? t.kind = some op) :
    plain (sumTail ctx x (t :: ts)) = (do
      let (y, rest) ← plain (product ctx ts)
      plain (sumTail ctx (op.apply x y) rest)) := by
  rw [sumTail]
  simp only [ht]
  exact plain_bind fun y rest h => plain_same fun z rest' h' => rfl

/-- A product begins with a signed operand. -/
theorem plain_product (ts : List Token) :
    plain (product ctx ts) = (do
      let (x, rest) ← plain (unary ctx ts)
      plain (productTail ctx x rest)) := by
  rw [product]
  exact plain_bind fun x rest h => plain_same fun y rest' h' => rfl

theorem plain_productTail_nil (x : Float) :
    plain (productTail ctx x []) = .ok (x, []) := by
  rw [productTail]
  rfl

/-- A product ends before a token that is no product operator. -/
theorem plain_productTail_end (x : Float) {t : Token} (ts : List Token)
    (ht : productOperator? t.kind = none) :
    plain (productTail ctx x (t :: ts)) = .ok (x, t :: ts) := by
  rw [productTail]
  simp only [ht]
  rfl

/-- What has been read so far is the left side of the next product operator. -/
theorem plain_productTail_more (x : Float) {t : Token} (ts : List Token)
    {op : Operator} (ht : productOperator? t.kind = some op) :
    plain (productTail ctx x (t :: ts)) = (do
      let (y, rest) ← plain (unary ctx ts)
      plain (productTail ctx (op.apply x y) rest)) := by
  rw [productTail]
  simp only [ht]
  exact plain_bind fun y rest h => plain_same fun z rest' h' => rfl

theorem plain_unary_nil : plain (unary ctx []) = .error (unexpected ctx []) := by
  rw [unary]
  rfl

/-- A sign applies to the signed operand behind it, so there may be several. -/
theorem plain_unary_minus {t : Token} (ts : List Token)
    (ht : t.kind = .symbol '-') :
    plain (unary ctx (t :: ts)) =
      (plain (unary ctx ts)).map fun (x, rest) => (-x, rest) := by
  rw [unary, if_pos ht]
  exact plain_map fun x rest h => rfl

theorem plain_unary_plus {t : Token} (ts : List Token)
    (ht : t.kind = .symbol '+') :
    plain (unary ctx (t :: ts)) = plain (unary ctx ts) := by
  rw [unary, if_neg (by simp [ht]), if_pos ht]
  exact plain_same fun x rest h => rfl

/-- Without a sign there is an operand. -/
theorem plain_unary_primary {t : Token} (ts : List Token)
    (hminus : t.kind ≠ .symbol '-') (hplus : t.kind ≠ .symbol '+') :
    plain (unary ctx (t :: ts)) = plain (primary ctx (t :: ts)) := by
  rw [unary, if_neg hminus, if_neg hplus]

theorem plain_primary_nil : plain (primary ctx []) = .error (unexpected ctx []) := by
  rw [primary]
  rfl

theorem plain_primary_number {t : Token} (ts : List Token)
    (ht : t.kind = .number) :
    plain (primary ctx (t :: ts)) = (numberValue t.lexeme).map fun x => (x, ts) := by
  rw [primary]
  simp only [ht]
  rcases numberValue t.lexeme with e | x <;> rfl

/-- A name calls a function if a bracket follows. -/
theorem plain_primary_call {t : Token} (ts : List Token) {f : Builtin}
    (ht : t.kind = .identifier) (hf : called? t.lexeme ts = some f) :
    plain (primary ctx (t :: ts)) = plain (call ctx f ts) := by
  rw [primary]
  simp only [ht, hf]
  exact plain_same fun x rest h => rfl

/-- Otherwise it is a variable. -/
theorem plain_primary_name {t : Token} (ts : List Token)
    (ht : t.kind = .identifier) (hf : called? t.lexeme ts = none) :
    plain (primary ctx (t :: ts)) =
      (variableValue ctx.store t.lexeme).map fun x => (x, ts) := by
  rw [primary]
  simp only [ht, hf]
  rcases variableValue ctx.store t.lexeme with e | x <;> rfl

/-- Brackets hold a sum. -/
theorem plain_primary_group {t : Token} (ts : List Token)
    (ht : t.kind = .symbol '(') :
    plain (primary ctx (t :: ts)) = (do
      let (x, rest) ← plain (sum ctx ts)
      (plainExpect ctx ')' rest).map fun rest' => (x, rest')) := by
  rw [primary]
  simp only [ht]
  exact plain_bind fun x rest h => plain_expect_map fun rest' h' => rfl

/-- No operand begins with any other token. -/
theorem plain_primary_other {t : Token} (ts : List Token)
    (hnumber : t.kind ≠ .number) (hidentifier : t.kind ≠ .identifier)
    (hopening : t.kind ≠ .symbol '(') :
    plain (primary ctx (t :: ts)) = .error (unexpected ctx (t :: ts)) := by
  rw [primary]
  split
  · exact absurd ‹_› hnumber
  · exact absurd ‹_› hidentifier
  · exact absurd ‹_› hopening
  · rfl

/-- An argument is a sum between its own brackets. -/
theorem plain_bracketed (opening closing : Char) (ts : List Token) :
    plain (bracketed ctx opening closing ts) = (do
      let rest ← plainExpect ctx opening ts
      let (x, rest') ← plain (sum ctx rest)
      (plainExpect ctx closing rest').map fun rest'' => (x, rest'')) := by
  rw [bracketed]
  refine plain_expect_bind fun rest h => ?_
  exact plain_bind fun x rest' h' => plain_expect_map fun rest'' h'' => rfl

theorem plain_call_sqrt (ts : List Token) :
    plain (call ctx .sqrt ts) =
      (plain (bracketed ctx '(' ')' ts)).map fun (x, rest) => (x.sqrt, rest) := by
  rw [call]
  exact plain_map fun x rest h => rfl

/-- The base of a logarithm comes first, in square brackets. -/
theorem plain_call_log (ts : List Token) :
    plain (call ctx .log ts) = (do
      let (base, rest) ← plain (bracketed ctx '[' ']' ts)
      (plain (bracketed ctx '(' ')' rest)).map fun (x, rest') =>
        (Builtin.logBase base x, rest')) := by
  rw [call]
  exact plain_bind fun base rest h => plain_map fun x rest' h' => rfl

/-- The arguments of a power have one pair of brackets in common. -/
theorem plain_call_pow (ts : List Token) :
    plain (call ctx .pow ts) = (do
      let rest₁ ← plainExpect ctx '(' ts
      let (x, rest₂) ← plain (sum ctx rest₁)
      let rest₃ ← plainExpect ctx ',' rest₂
      let (y, rest₄) ← plain (sum ctx rest₃)
      (plainExpect ctx ')' rest₄).map fun rest₅ => (x.pow y, rest₅)) := by
  rw [call]
  refine plain_expect_bind fun rest₁ h₁ => ?_
  refine plain_bind fun x rest₂ h₂ => ?_
  refine plain_expect_bind fun rest₃ h₃ => ?_
  exact plain_bind fun y rest₄ h₄ => plain_expect_map fun rest₅ h₅ => rfl

/-! ### What can be read -/

/-- The items that are read.  A tail is read behind its left operand. -/
inductive Item where
  | sum
  | sumTail (left : Expr)
  | product
  | productTail (left : Expr)
  | unary
  | primary
  | call (f : Builtin)
  | bracketed (opening closing : Char)

/-- What the reader of an item gives.  The reader of a tail starts from the
value of the left operand. -/
def run (ctx : Context) : Item → List Token → Except EvalError (Float × List Token)
  | .sum, ts => plain (sum ctx ts)
  | .sumTail left, ts => do
      let x ← left.value ctx.store
      plain (sumTail ctx x ts)
  | .product, ts => plain (product ctx ts)
  | .productTail left, ts => do
      let x ← left.value ctx.store
      plain (productTail ctx x ts)
  | .unary, ts => plain (unary ctx ts)
  | .primary, ts => plain (primary ctx ts)
  | .call f, ts => plain (call ctx f ts)
  | .bracketed opening closing, ts => plain (bracketed ctx opening closing ts)

/-- Reading an item from the front of `ts` finds a tree and leaves `rest`. -/
inductive Reads : Item → List Token → Expr → List Token → Prop where
  | sum {ts mid rest : List Token} {x e : Expr} :
      Reads .product ts x mid → Reads (.sumTail x) mid e rest →
      Reads .sum ts e rest
  | sumEnd {ts : List Token} {x : Expr} :
      (∀ t ∈ ts.head?, sumOperator? t.kind = none) →
      Reads (.sumTail x) ts x ts
  | sumMore {t : Token} {op : Operator} {ts mid rest : List Token} {x y e : Expr} :
      sumOperator? t.kind = some op → Reads .product ts y mid →
      Reads (.sumTail (.binary op x y)) mid e rest →
      Reads (.sumTail x) (t :: ts) e rest
  | product {ts mid rest : List Token} {x e : Expr} :
      Reads .unary ts x mid → Reads (.productTail x) mid e rest →
      Reads .product ts e rest
  | productEnd {ts : List Token} {x : Expr} :
      (∀ t ∈ ts.head?, productOperator? t.kind = none) →
      Reads (.productTail x) ts x ts
  | productMore {t : Token} {op : Operator} {ts mid rest : List Token}
      {x y e : Expr} :
      productOperator? t.kind = some op → Reads .unary ts y mid →
      Reads (.productTail (.binary op x y)) mid e rest →
      Reads (.productTail x) (t :: ts) e rest
  | minus {t : Token} {ts rest : List Token} {e : Expr} :
      t.kind = .symbol '-' → Reads .unary ts e rest →
      Reads .unary (t :: ts) (.minus e) rest
  | plus {t : Token} {ts rest : List Token} {e : Expr} :
      t.kind = .symbol '+' → Reads .unary ts e rest →
      Reads .unary (t :: ts) (.plus e) rest
  | unary {t : Token} {ts rest : List Token} {e : Expr} :
      t.kind ≠ .symbol '-' → t.kind ≠ .symbol '+' →
      Reads .primary (t :: ts) e rest → Reads .unary (t :: ts) e rest
  | number {t : Token} {ts : List Token} :
      t.kind = .number → Reads .primary (t :: ts) (.number t.lexeme) ts
  | name {t : Token} {ts : List Token} :
      t.kind = .identifier → called? t.lexeme ts = none →
      Reads .primary (t :: ts) (.name t.lexeme) ts
  | call {t : Token} {f : Builtin} {ts rest : List Token} {e : Expr} :
      t.kind = .identifier → called? t.lexeme ts = some f →
      Reads (.call f) ts e rest → Reads .primary (t :: ts) e rest
  | group {o c : Token} {ts rest : List Token} {e : Expr} :
      o.kind = .symbol '(' → Reads .sum ts e (c :: rest) →
      c.kind = .symbol ')' → Reads .primary (o :: ts) (.group e) rest
  | pow {o s c : Token} {ts mid rest : List Token} {x y : Expr} :
      o.kind = .symbol '(' → Reads .sum ts x (s :: mid) → s.kind = .symbol ',' →
      Reads .sum mid y (c :: rest) → c.kind = .symbol ')' →
      Reads (.call .pow) (o :: ts) (.pow x y) rest
  | sqrt {ts rest : List Token} {e : Expr} :
      Reads (.bracketed '(' ')') ts e rest →
      Reads (.call .sqrt) ts (.sqrt e) rest
  | log {ts mid rest : List Token} {x y : Expr} :
      Reads (.bracketed '[' ']') ts x mid →
      Reads (.bracketed '(' ')') mid y rest →
      Reads (.call .log) ts (.log x y) rest
  | bracketed {opening closing : Char} {o c : Token} {ts rest : List Token}
      {e : Expr} :
      o.kind = .symbol opening → Reads .sum ts e (c :: rest) →
      c.kind = .symbol closing →
      Reads (.bracketed opening closing) (o :: ts) e rest

/-- The next token decides at every place how reading goes on. -/
theorem Reads.unique {i : Item} {ts rest rest' : List Token} {e e' : Expr}
    (h : Reads i ts e rest) (h' : Reads i ts e' rest') :
    e = e' ∧ rest = rest' := by
  -- Where two rules read the same item, what they ask of the next token excludes one.
  induction h generalizing e' rest' with
  | sum _ _ ih₁ ih₂ =>
      cases h' with
      | sum h₁ h₂ =>
          obtain ⟨rfl, rfl⟩ := ih₁ h₁
          exact ih₂ h₂
  | sumEnd hend =>
      cases h' with
      | sumEnd _ => exact ⟨rfl, rfl⟩
      | sumMore hop _ _ => exact absurd ((hend _ rfl).symm.trans hop) (by simp)
  | sumMore hop _ _ ih₁ ih₂ =>
      cases h' with
      | sumEnd hend => exact absurd ((hend _ rfl).symm.trans hop) (by simp)
      | sumMore hop' h₁ h₂ =>
          obtain rfl := Option.some.inj (hop.symm.trans hop')
          obtain ⟨rfl, rfl⟩ := ih₁ h₁
          exact ih₂ h₂
  | product _ _ ih₁ ih₂ =>
      cases h' with
      | product h₁ h₂ =>
          obtain ⟨rfl, rfl⟩ := ih₁ h₁
          exact ih₂ h₂
  | productEnd hend =>
      cases h' with
      | productEnd _ => exact ⟨rfl, rfl⟩
      | productMore hop _ _ => exact absurd ((hend _ rfl).symm.trans hop) (by simp)
  | productMore hop _ _ ih₁ ih₂ =>
      cases h' with
      | productEnd hend => exact absurd ((hend _ rfl).symm.trans hop) (by simp)
      | productMore hop' h₁ h₂ =>
          obtain rfl := Option.some.inj (hop.symm.trans hop')
          obtain ⟨rfl, rfl⟩ := ih₁ h₁
          exact ih₂ h₂
  | minus ht _ ih =>
      cases h' with
      | minus _ h₁ =>
          obtain ⟨rfl, rfl⟩ := ih h₁
          exact ⟨rfl, rfl⟩
      | plus ht' _ => simp [ht] at ht'
      | unary hm _ _ => exact absurd ht hm
  | plus ht _ ih =>
      cases h' with
      | minus ht' _ => simp [ht] at ht'
      | plus _ h₁ =>
          obtain ⟨rfl, rfl⟩ := ih h₁
          exact ⟨rfl, rfl⟩
      | unary _ hp _ => exact absurd ht hp
  | unary hm hp _ ih =>
      cases h' with
      | minus ht' _ => exact absurd ht' hm
      | plus ht' _ => exact absurd ht' hp
      | unary _ _ h₁ => exact ih h₁
  | number ht =>
      cases h' with
      | number _ => exact ⟨rfl, rfl⟩
      | name ht' _ => simp [ht] at ht'
      | call ht' _ _ => simp [ht] at ht'
      | group ht' _ _ => simp [ht] at ht'
  | name ht hf =>
      cases h' with
      | number ht' => simp [ht] at ht'
      | name _ _ => exact ⟨rfl, rfl⟩
      | call _ hf' _ => simp [hf] at hf'
      | group ht' _ _ => simp [ht] at ht'
  | call ht hf _ ih =>
      cases h' with
      | number ht' => simp [ht] at ht'
      | name _ hf' => simp [hf] at hf'
      | call _ hf' h₁ =>
          obtain rfl := Option.some.inj (hf.symm.trans hf')
          exact ih h₁
      | group ht' _ _ => simp [ht] at ht'
  | group ht _ _ ih =>
      cases h' with
      | number ht' => simp [ht] at ht'
      | name ht' _ => simp [ht] at ht'
      | call ht' _ _ => simp [ht] at ht'
      | group _ h₁ _ =>
          obtain ⟨rfl, he⟩ := ih h₁
          exact ⟨rfl, (List.cons.inj he).2⟩
  | pow _ _ _ _ _ ih₁ ih₂ =>
      cases h' with
      | pow _ h₁ _ h₂ _ =>
          obtain ⟨rfl, he⟩ := ih₁ h₁
          obtain ⟨rfl, rfl⟩ := List.cons.inj he
          obtain ⟨rfl, he⟩ := ih₂ h₂
          exact ⟨rfl, (List.cons.inj he).2⟩
  | sqrt _ ih =>
      cases h' with
      | sqrt h₁ =>
          obtain ⟨rfl, rfl⟩ := ih h₁
          exact ⟨rfl, rfl⟩
  | log _ _ ih₁ ih₂ =>
      cases h' with
      | log h₁ h₂ =>
          obtain ⟨rfl, rfl⟩ := ih₁ h₁
          obtain ⟨rfl, rfl⟩ := ih₂ h₂
          exact ⟨rfl, rfl⟩
  | bracketed _ _ _ ih =>
      cases h' with
      | bracketed _ h₁ _ =>
          obtain ⟨rfl, he⟩ := ih h₁
          exact ⟨rfl, (List.cons.inj he).2⟩

/-! ### From what can be read to the readers -/

variable {ctx}

/-- The reader of an item that can be read gives the value of the tree, or the
error that the tree has instead of a value. -/
theorem run_of_reads {i : Item} {ts rest : List Token} {e : Expr}
    (h : Reads i ts e rest) :
    run ctx i ts = (e.value ctx.store).map fun x => (x, rest) := by
  -- The tree is evaluated in the order in which it is read, so that the first error is
  -- the same on both sides.
  induction h with
  | @sum ts mid rest x e _ _ ih₁ ih₂ =>
      rw [← ih₂, run, plain_sum, ← run, ih₁, run]
      cases x.value ctx.store <;> rfl
  | @sumEnd ts x hend =>
      have htail : ∀ v, plain (sumTail ctx v ts) = .ok (v, ts) := by
        intro v
        cases ts with
        | nil => exact plain_sumTail_nil ctx v
        | cons t ts => exact plain_sumTail_end ctx v ts (hend t rfl)
      rw [run]
      cases x.value ctx.store with
      | error err => rfl
      | ok v => exact htail v
  | @sumMore t op ts mid rest x y e hop _ _ ih₁ ih₂ =>
      rw [← ih₂, run, run, Expr.value]
      cases x.value ctx.store with
      | error err => rfl
      | ok v =>
          show plain (sumTail ctx v (t :: ts)) = _
          rw [plain_sumTail_more ctx v ts hop, ← run, ih₁]
          cases y.value ctx.store <;> rfl
  | @product ts mid rest x e _ _ ih₁ ih₂ =>
      rw [← ih₂, run, plain_product, ← run, ih₁, run]
      cases x.value ctx.store <;> rfl
  | @productEnd ts x hend =>
      have htail : ∀ v, plain (productTail ctx v ts) = .ok (v, ts) := by
        intro v
        cases ts with
        | nil => exact plain_productTail_nil ctx v
        | cons t ts => exact plain_productTail_end ctx v ts (hend t rfl)
      rw [run]
      cases x.value ctx.store with
      | error err => rfl
      | ok v => exact htail v
  | @productMore t op ts mid rest x y e hop _ _ ih₁ ih₂ =>
      rw [← ih₂, run, run, Expr.value]
      cases x.value ctx.store with
      | error err => rfl
      | ok v =>
          show plain (productTail ctx v (t :: ts)) = _
          rw [plain_productTail_more ctx v ts hop, ← run, ih₁]
          cases y.value ctx.store <;> rfl
  | @minus t ts rest e ht _ ih =>
      rw [run, plain_unary_minus ctx ts ht, ← run, ih, Expr.value]
      cases e.value ctx.store <;> rfl
  | @plus t ts rest e ht _ ih =>
      rw [run, plain_unary_plus ctx ts ht, ← run, ih, Expr.value]
  | @unary t ts rest e hm hp _ ih =>
      rw [run, plain_unary_primary ctx ts hm hp, ← run, ih]
  | @number t ts ht =>
      rw [run, plain_primary_number ctx ts ht, Expr.value]
  | @name t ts ht hf =>
      rw [run, plain_primary_name ctx ts ht hf, Expr.value]
  | @call t f ts rest e ht hf _ ih =>
      rw [run, plain_primary_call ctx ts ht hf, ← run, ih]
  | @group o c ts rest e ho _ hc ih =>
      rw [run, plain_primary_group ctx ts ho, ← run, ih, Expr.value]
      cases e.value ctx.store with
      | error err => rfl
      | ok v =>
          show (plainExpect ctx ')' (c :: rest)).map _ = _
          rw [plainExpect_cons hc]
          rfl
  | @pow o s c ts mid rest x y ho _ hs _ hc ih₁ ih₂ =>
      rw [run] at ih₁ ih₂
      rw [run, plain_call_pow, plainExpect_cons ho, Expr.value]
      show (plain (sum ctx ts) >>= _) = _
      rw [ih₁]
      cases x.value ctx.store with
      | error err => rfl
      | ok v =>
          show (plainExpect ctx ',' (s :: mid) >>= _) = _
          rw [plainExpect_cons hs]
          show (plain (sum ctx mid) >>= _) = _
          rw [ih₂]
          cases y.value ctx.store with
          | error err => rfl
          | ok w =>
              show (plainExpect ctx ')' (c :: rest)).map _ = _
              rw [plainExpect_cons hc]
              rfl
  | @sqrt ts rest e _ ih =>
      rw [run, plain_call_sqrt, ← run, ih, Expr.value]
      cases e.value ctx.store <;> rfl
  | @log ts mid rest x y _ _ ih₁ ih₂ =>
      rw [run] at ih₂
      rw [run, plain_call_log, ← run, ih₁, Expr.value]
      cases x.value ctx.store with
      | error err => rfl
      | ok v =>
          show (plain (bracketed ctx '(' ')' mid)).map _ = _
          rw [ih₂]
          cases y.value ctx.store <;> rfl
  | @bracketed opening closing o c ts rest e ho _ hc ih =>
      rw [run] at ih
      rw [run, plain_bracketed, plainExpect_cons ho]
      show (plain (sum ctx ts) >>= _) = _
      rw [ih]
      cases e.value ctx.store with
      | error err => rfl
      | ok v =>
          show (plainExpect ctx closing (c :: rest)).map _ = _
          rw [plainExpect_cons hc]
          rfl

/-- The value of a tree that has been read, from what its reader gave. -/
theorem value_of_reads {i : Item} {ts rest rest' : List Token} {e : Expr} {x : Float}
    (h : Reads i ts e rest) (hrun : run ctx i ts = .ok (x, rest')) :
    e.value ctx.store = .ok x ∧ rest = rest' := by
  rw [run_of_reads h] at hrun
  cases he : e.value ctx.store with
  | error err => simp [he, Except.map] at hrun
  | ok y =>
      simp only [he, Except.map, Except.ok.injEq, Prod.mk.injEq] at hrun
      exact ⟨by rw [hrun.1], hrun.2⟩

/-! ### From the readers to what can be read -/

/-- Whatever the reader of an item gives for these tokens has been read. -/
def Accounted (ctx : Context) (i : Item) (ts : List Token) : Prop :=
  ∀ x rest, run ctx i ts = .ok (x, rest) → ∃ e, Reads i ts e rest

/-- An item whose reader gives something has been read, and its tree has the
value that was given. -/
theorem Accounted.reads {i : Item} {ts rest : List Token} {x : Float}
    (h : Accounted ctx i ts) (hrun : run ctx i ts = .ok (x, rest)) :
    ∃ e, Reads i ts e rest ∧ e.value ctx.store = .ok x := by
  obtain ⟨e, he⟩ := h x rest hrun
  exact ⟨e, he, (value_of_reads he hrun).1⟩

/-- Reading on behind a left side only depends on the value of that side. -/
theorem run_sumTail {left : Expr} {x : Float} (hx : left.value ctx.store = .ok x)
    (ts : List Token) : run ctx (.sumTail left) ts = plain (sumTail ctx x ts) := by
  rw [run, hx]
  rfl

theorem run_productTail {left : Expr} {x : Float}
    (hx : left.value ctx.store = .ok x) (ts : List Token) :
    run ctx (.productTail left) ts = plain (productTail ctx x ts) := by
  rw [run, hx]
  rfl

/-- A sum is accounted for if the product at its beginning and all tails behind it are. -/
theorem accounted_sum {ts : List Token} (hproduct : Accounted ctx .product ts)
    (htail : ∀ x rest, rest.length < ts.length →
      ∀ left, left.value ctx.store = .ok x → Accounted ctx (.sumTail left) rest) :
    Accounted ctx .sum ts := by
  intro z rest hrun
  rw [run, plain_sum] at hrun
  obtain ⟨⟨x, mid⟩, hx, hz⟩ := Except.bind_eq_ok_iff.1 hrun
  obtain ⟨left, hleft, hvalue⟩ := hproduct.reads hx
  have hmid : run ctx (.sumTail left) mid = .ok (z, rest) :=
    (run_sumTail hvalue mid).trans hz
  obtain ⟨e, he⟩ := htail x mid (of_plain_eq_ok hx) left hvalue z rest hmid
  exact ⟨e, .sum hleft he⟩

/-- A tail is accounted for with what it has read as its new left side. -/
theorem accounted_sumTail_more {t : Token} {op : Operator} {ts : List Token}
    {x : Float} {left : Expr} (hop : sumOperator? t.kind = some op)
    (hleft : left.value ctx.store = .ok x) (hproduct : Accounted ctx .product ts)
    (htail : ∀ y rest, rest.length < ts.length → ∀ left',
      left'.value ctx.store = .ok (op.apply x y) →
        Accounted ctx (.sumTail left') rest) :
    Accounted ctx (.sumTail left) (t :: ts) := by
  intro z rest hrun
  rw [run_sumTail hleft, plain_sumTail_more ctx x ts hop] at hrun
  obtain ⟨⟨y, mid⟩, hy, hz⟩ := Except.bind_eq_ok_iff.1 hrun
  obtain ⟨right, hright, hvalue⟩ := hproduct.reads hy
  have hboth : (Expr.binary op left right).value ctx.store = .ok (op.apply x y) := by
    simp [Expr.value, hleft, hvalue, bind, Except.bind, pure, Except.pure]
  have hmid : run ctx (.sumTail (.binary op left right)) mid = .ok (z, rest) :=
    (run_sumTail hboth mid).trans hz
  obtain ⟨e, he⟩ := htail y mid (of_plain_eq_ok hy) _ hboth z rest hmid
  exact ⟨e, .sumMore hop hright he⟩

/-- A product is accounted for if the operand at its beginning and all tails behind it are. -/
theorem accounted_product {ts : List Token} (hunary : Accounted ctx .unary ts)
    (htail : ∀ x rest, rest.length < ts.length →
      ∀ left, left.value ctx.store = .ok x → Accounted ctx (.productTail left) rest) :
    Accounted ctx .product ts := by
  intro z rest hrun
  rw [run, plain_product] at hrun
  obtain ⟨⟨x, mid⟩, hx, hz⟩ := Except.bind_eq_ok_iff.1 hrun
  obtain ⟨left, hleft, hvalue⟩ := hunary.reads hx
  have hmid : run ctx (.productTail left) mid = .ok (z, rest) :=
    (run_productTail hvalue mid).trans hz
  obtain ⟨e, he⟩ := htail x mid (of_plain_eq_ok hx) left hvalue z rest hmid
  exact ⟨e, .product hleft he⟩

/-- The same for the tail of a product. -/
theorem accounted_productTail_more {t : Token} {op : Operator} {ts : List Token}
    {x : Float} {left : Expr} (hop : productOperator? t.kind = some op)
    (hleft : left.value ctx.store = .ok x) (hunary : Accounted ctx .unary ts)
    (htail : ∀ y rest, rest.length < ts.length → ∀ left',
      left'.value ctx.store = .ok (op.apply x y) →
        Accounted ctx (.productTail left') rest) :
    Accounted ctx (.productTail left) (t :: ts) := by
  intro z rest hrun
  rw [run_productTail hleft, plain_productTail_more ctx x ts hop] at hrun
  obtain ⟨⟨y, mid⟩, hy, hz⟩ := Except.bind_eq_ok_iff.1 hrun
  obtain ⟨right, hright, hvalue⟩ := hunary.reads hy
  have hboth : (Expr.binary op left right).value ctx.store = .ok (op.apply x y) := by
    simp [Expr.value, hleft, hvalue, bind, Except.bind, pure, Except.pure]
  have hmid : run ctx (.productTail (.binary op left right)) mid = .ok (z, rest) :=
    (run_productTail hboth mid).trans hz
  obtain ⟨e, he⟩ := htail y mid (of_plain_eq_ok hy) _ hboth z rest hmid
  exact ⟨e, .productMore hop hright he⟩

/-- A sign is a node of the tree if it is a minus. -/
theorem accounted_minus {t : Token} {ts : List Token} (ht : t.kind = .symbol '-')
    (hunary : Accounted ctx .unary ts) : Accounted ctx .unary (t :: ts) := by
  intro z rest hrun
  rw [run, plain_unary_minus ctx ts ht] at hrun
  obtain ⟨⟨x, rest'⟩, hx, hz⟩ := Except.map_eq_ok_iff.1 hrun
  obtain ⟨e, he⟩ := hunary x rest' hx
  cases hz
  exact ⟨.minus e, .minus ht he⟩

/-- A plus leaves no trace in the tree. -/
theorem accounted_plus {t : Token} {ts : List Token} (ht : t.kind = .symbol '+')
    (hunary : Accounted ctx .unary ts) : Accounted ctx .unary (t :: ts) := by
  intro z rest hrun
  rw [run, plain_unary_plus ctx ts ht] at hrun
  obtain ⟨e, he⟩ := hunary z rest hrun
  exact ⟨.plus e, .plus ht he⟩

theorem accounted_number {t : Token} {ts : List Token} (ht : t.kind = .number) :
    Accounted ctx .primary (t :: ts) := by
  intro z rest hrun
  rw [run, plain_primary_number ctx ts ht] at hrun
  obtain ⟨x, -, hz⟩ := Except.map_eq_ok_iff.1 hrun
  cases hz
  exact ⟨_, .number ht⟩

/-- A name without a call is a node of its own, whatever its value. -/
theorem accounted_name {t : Token} {ts : List Token} (ht : t.kind = .identifier)
    (hf : called? t.lexeme ts = none) : Accounted ctx .primary (t :: ts) := by
  intro z rest hrun
  rw [run, plain_primary_name ctx ts ht hf] at hrun
  obtain ⟨x, -, hz⟩ := Except.map_eq_ok_iff.1 hrun
  cases hz
  exact ⟨_, .name ht hf⟩

theorem accounted_call {t : Token} {ts : List Token} {f : Builtin}
    (ht : t.kind = .identifier) (hf : called? t.lexeme ts = some f)
    (hcall : Accounted ctx (.call f) ts) : Accounted ctx .primary (t :: ts) := by
  intro z rest hrun
  rw [run, plain_primary_call ctx ts ht hf] at hrun
  obtain ⟨e, he⟩ := hcall z rest hrun
  exact ⟨e, .call ht hf he⟩

/-- Brackets leave no trace in the tree. -/
theorem accounted_group {t : Token} {ts : List Token} (ht : t.kind = .symbol '(')
    (hsum : Accounted ctx .sum ts) : Accounted ctx .primary (t :: ts) := by
  intro z rest hrun
  rw [run, plain_primary_group ctx ts ht] at hrun
  obtain ⟨⟨x, mid⟩, hx, hmid⟩ := Except.bind_eq_ok_iff.1 hrun
  obtain ⟨rest', hclose, hz⟩ := Except.map_eq_ok_iff.1 hmid
  obtain ⟨c, hc, rfl⟩ := plainExpect_eq_ok_iff.1 hclose
  obtain ⟨e, he⟩ := hsum x _ hx
  cases hz
  exact ⟨_, .group ht he hc⟩

/-- Both arguments of a power are sums of their own. -/
theorem accounted_pow {ts : List Token}
    (hsum : ∀ rest, rest.length < ts.length → Accounted ctx .sum rest) :
    Accounted ctx (.call .pow) ts := by
  intro z rest hrun
  rw [run, plain_call_pow] at hrun
  obtain ⟨rest₁, hopen, hrun₁⟩ := Except.bind_eq_ok_iff.1 hrun
  obtain ⟨o, ho, rfl⟩ := plainExpect_eq_ok_iff.1 hopen
  obtain ⟨⟨x, rest₂⟩, hx, hrun₂⟩ := Except.bind_eq_ok_iff.1 hrun₁
  obtain ⟨rest₃, hcomma, hrun₃⟩ := Except.bind_eq_ok_iff.1 hrun₂
  obtain ⟨s, hs, rfl⟩ := plainExpect_eq_ok_iff.1 hcomma
  obtain ⟨⟨y, rest₄⟩, hy, hrun₄⟩ := Except.bind_eq_ok_iff.1 hrun₃
  obtain ⟨rest₅, hclose, hz⟩ := Except.map_eq_ok_iff.1 hrun₄
  obtain ⟨c, hc, rfl⟩ := plainExpect_eq_ok_iff.1 hclose
  have hfewer : (s :: rest₃).length < rest₁.length := of_plain_eq_ok hx
  obtain ⟨base, hbase⟩ := hsum rest₁ (by simp) x _ hx
  obtain ⟨exponent, hexponent⟩ :=
    hsum rest₃ (by simp only [List.length_cons] at hfewer ⊢; omega) y _ hy
  cases hz
  exact ⟨_, .pow ho hbase hs hexponent hc⟩

theorem accounted_sqrt {ts : List Token}
    (hargument : Accounted ctx (.bracketed '(' ')') ts) :
    Accounted ctx (.call .sqrt) ts := by
  intro z rest hrun
  rw [run, plain_call_sqrt] at hrun
  obtain ⟨⟨x, rest'⟩, hx, hz⟩ := Except.map_eq_ok_iff.1 hrun
  obtain ⟨e, he⟩ := hargument x rest' hx
  cases hz
  exact ⟨_, .sqrt he⟩

/-- Base and argument of a logarithm are sums of their own. -/
theorem accounted_log {ts : List Token}
    (hbase : Accounted ctx (.bracketed '[' ']') ts)
    (hargument : ∀ rest, rest.length < ts.length →
      Accounted ctx (.bracketed '(' ')') rest) :
    Accounted ctx (.call .log) ts := by
  intro z rest hrun
  rw [run, plain_call_log] at hrun
  obtain ⟨⟨x, mid⟩, hx, hmid⟩ := Except.bind_eq_ok_iff.1 hrun
  obtain ⟨⟨y, rest'⟩, hy, hz⟩ := Except.map_eq_ok_iff.1 hmid
  obtain ⟨base, hbase⟩ := hbase x mid hx
  obtain ⟨argument, hargument⟩ := hargument mid (of_plain_eq_ok hx) y rest' hy
  cases hz
  exact ⟨_, .log hbase hargument⟩

/-- An argument is accounted for if all sums that are shorter are. -/
theorem accounted_bracketed {opening closing : Char} {ts : List Token}
    (hsum : ∀ rest, rest.length < ts.length → Accounted ctx .sum rest) :
    Accounted ctx (.bracketed opening closing) ts := by
  intro z rest hrun
  rw [run, plain_bracketed] at hrun
  obtain ⟨rest₁, hopen, hrun₁⟩ := Except.bind_eq_ok_iff.1 hrun
  obtain ⟨o, ho, rfl⟩ := plainExpect_eq_ok_iff.1 hopen
  obtain ⟨⟨x, rest₂⟩, hx, hrun₂⟩ := Except.bind_eq_ok_iff.1 hrun₁
  obtain ⟨rest₃, hclose, hz⟩ := Except.map_eq_ok_iff.1 hrun₂
  obtain ⟨c, hc, rfl⟩ := plainExpect_eq_ok_iff.1 hclose
  obtain ⟨e, he⟩ := hsum rest₁ (by simp) x _ hx
  cases hz
  exact ⟨e, .bracketed ho he hc⟩

/-- A sum that the reader finds has been read. -/
theorem accounted (ctx : Context) (ts : List Token) : Accounted ctx .sum ts := by
  -- The cases are those of the readers; a tail is accounted for behind every
  -- left operand that has the value it starts from.
  refine (sum.mutual_induct
    (fun ts => Accounted ctx .sum ts)
    (fun x ts => ∀ left, left.value ctx.store = .ok x →
      Accounted ctx (.sumTail left) ts)
    (fun ts => Accounted ctx .product ts)
    (fun x ts => ∀ left, left.value ctx.store = .ok x →
      Accounted ctx (.productTail left) ts)
    (fun ts => Accounted ctx .unary ts)
    (fun ts => Accounted ctx .primary ts)
    (fun f ts => Accounted ctx (.call f) ts)
    (fun opening closing ts => Accounted ctx (.bracketed opening closing) ts)
    ?sum ?sumNil ?sumEnd ?sumMore ?product ?productNil ?productEnd ?productMore
    ?unaryNil ?minus ?plus ?unary ?primaryNil ?number ?call ?name ?group ?other
    ?pow ?sqrt ?log ?bracketed).1 ts
  case sum => exact fun ts h₁ h₂ => accounted_sum h₁ h₂
  case sumNil =>
    intro x left hx z rest hrun
    rw [run_sumTail hx, plain_sumTail_nil] at hrun
    cases hrun
    exact ⟨left, .sumEnd (by simp)⟩
  case sumEnd =>
    intro x t ts hop left hx z rest hrun
    rw [run_sumTail hx, plain_sumTail_end ctx x ts hop] at hrun
    cases hrun
    exact ⟨left, .sumEnd (by simpa using hop)⟩
  case sumMore =>
    exact fun x t ts op hop h₁ h₂ left hx => accounted_sumTail_more hop hx h₁ h₂
  case product => exact fun ts h₁ h₂ => accounted_product h₁ h₂
  case productNil =>
    intro x left hx z rest hrun
    rw [run_productTail hx, plain_productTail_nil] at hrun
    cases hrun
    exact ⟨left, .productEnd (by simp)⟩
  case productEnd =>
    intro x t ts hop left hx z rest hrun
    rw [run_productTail hx, plain_productTail_end ctx x ts hop] at hrun
    cases hrun
    exact ⟨left, .productEnd (by simpa using hop)⟩
  case productMore =>
    exact fun x t ts op hop h₁ h₂ left hx => accounted_productTail_more hop hx h₁ h₂
  case unaryNil =>
    intro z rest hrun
    rw [run, plain_unary_nil] at hrun
    cases hrun
  case minus => exact fun t ts ht h => accounted_minus ht h
  case plus => exact fun t ts _ ht h => accounted_plus ht h
  case unary =>
    intro t ts hminus hplus h z rest hrun
    rw [run, plain_unary_primary ctx ts hminus hplus] at hrun
    obtain ⟨e, he⟩ := h z rest hrun
    exact ⟨e, .unary hminus hplus he⟩
  case primaryNil =>
    intro z rest hrun
    rw [run, plain_primary_nil] at hrun
    cases hrun
  case number => exact fun t ts ht => accounted_number ht
  case call => exact fun t ts ht f hf h => accounted_call ht hf h
  case name => exact fun t ts ht hf => accounted_name ht hf
  case group => exact fun t ts ht h => accounted_group ht h
  case other =>
    intro t ts hnumber hidentifier hopening z rest hrun
    rw [run, plain_primary_other ctx ts hnumber hidentifier hopening] at hrun
    cases hrun
  case pow => exact fun ts h _ => accounted_pow h
  case sqrt => exact fun ts h => accounted_sqrt h
  case log => exact fun ts h₁ h₂ => accounted_log h₁ h₂
  case bracketed => exact fun opening closing ts h => accounted_bracketed h

/-- A sum that the reader finds has a tree, which has the value that the reader
gives. -/
theorem reads_of_sum {ts rest : List Token} {x : Float}
    (h : plain (sum ctx ts) = .ok (x, rest)) :
    ∃ e, Reads .sum ts e rest ∧ e.value ctx.store = .ok x :=
  (accounted ctx ts).reads h

end Arithmetic

end LineScript
