/-
LineScript/Proofs/Precedence.lean

Evaluation by the rules of arithmetic against the grammar of expressions.

* What can be read as a sum in front of a token that cannot go on with it is
  exactly what the grammar derives (`reads_sum_iff`), so that a list of tokens
  has at most one derivation.
* `Expr.Means` says what a tree means: doubles combined in the order of the tree,
  numbers by their spelling and variables by their values.  A tree means
  something exactly if its variables are bound to numbers and its numbers can be
  read (`value_eq_ok_iff`, `exists_means`).
* The names in a tree are the identifiers among its tokens that do not call a
  function, `variableNames`.

Together they give `precedence_evaluate_eq_ok_iff`.
-/
import LineScript.Proofs.Lexemes
import LineScript.Proofs.Reading
import LineScript.Expression.Mode

namespace LineScript

/-! ### Operators and calls -/

/-- A function is found by its name. -/
theorem Builtin.ofName?_eq_some_iff {t : Text} {f : Builtin} :
    Builtin.ofName? t = some f ↔ t = f.name := by
  constructor
  · intro h
    have hname := List.find?_some h
    exact (beq_iff_eq.1 hname).symm
  · rintro rfl
    cases f <;> decide

namespace Arithmetic

open LineScript.Expr

theorem sumOperator?_eq_some_iff {k : TokenKind} {op : Operator} :
    sumOperator? k = some op ↔
      (k = .symbol '+' ∧ op = .add) ∨ (k = .symbol '-' ∧ op = .sub) := by
  unfold sumOperator?
  split
  · next h => simp [h, eq_comm]
  · next h =>
      split
      · next h' => simp [h', eq_comm]
      · next h' => simp [h, h']

theorem productOperator?_eq_some_iff {k : TokenKind} {op : Operator} :
    productOperator? k = some op ↔
      (k = .symbol '*' ∧ op = .mul) ∨ (k = .symbol '/' ∧ op = .div) := by
  unfold productOperator?
  split
  · next h => simp [h, eq_comm]
  · next h =>
      split
      · next h' => simp [h', eq_comm]
      · next h' => simp [h, h']

/-- A name calls a function if a bracket follows. -/
theorem called?_eq_some_iff {name : Text} {rest : List Token} {f : Builtin} :
    called? name rest = some f ↔ startsWithBracket rest = true ∧ name = f.name := by
  unfold called?
  split
  · next h => simp [h, Builtin.ofName?_eq_some_iff]
  · next h => simp [h]

theorem called?_of_not_startsWithBracket {rest : List Token}
    (h : startsWithBracket rest = false) (name : Text) : called? name rest = none := by
  simp [called?, h]

theorem startsWithBracket_cons {t : Token} {c : Char} (ht : t.kind = .symbol c)
    (hc : c ≠ '(' ∧ c ≠ '[') (ts : List Token) :
    startsWithBracket (t :: ts) = false := by
  simp [startsWithBracket, ht, hc]

/-! ### What has been read is derived -/

/-- The tokens `us` spell an item with the tree `e`.  A tail goes on with its
left operand, and the arguments of a function go on with its name. -/
def Spells : Item → List Token → Expr → Prop
  | .sum, us, e => Derives .sum us e
  | .sumTail left, us, e =>
      ∀ us₀, Derives .sum us₀ left → Derives .sum (us₀ ++ us) e
  | .product, us, e => Derives .product us e
  | .productTail left, us, e =>
      ∀ us₀, Derives .product us₀ left → Derives .product (us₀ ++ us) e
  | .unary, us, e => Derives .unary us e
  | .primary, us, e => Derives .primary us e
  | .call f, us, e => ∀ t, IsName f t → Derives .primary (t :: us) e
  | .bracketed opening closing, us, e =>
      ∃ o ts c, o.kind = .symbol opening ∧ Derives .sum ts e ∧
        c.kind = .symbol closing ∧ us = o :: ts ++ [c]

/-- Both sum operators have a sum on the left and a product on the right. -/
theorem Derives.sumOperator {l r : List Token} {t : Token} {op : Operator}
    {x y : Expr} (hl : Derives .sum l x) (ht : sumOperator? t.kind = some op)
    (hr : Derives .product r y) : Derives .sum (l ++ t :: r) (.binary op x y) := by
  rcases sumOperator?_eq_some_iff.1 ht with ⟨hadd, rfl⟩ | ⟨hsub, rfl⟩
  · exact .add hl hadd hr
  · exact .sub hl hsub hr

/-- Both product operators have a product on the left and a signed operand on the right. -/
theorem Derives.productOperator {l r : List Token} {t : Token} {op : Operator}
    {x y : Expr} (hl : Derives .product l x)
    (ht : productOperator? t.kind = some op) (hr : Derives .unary r y) :
    Derives .product (l ++ t :: r) (.binary op x y) := by
  rcases productOperator?_eq_some_iff.1 ht with ⟨hmul, rfl⟩ | ⟨hdiv, rfl⟩
  · exact .mul hl hmul hr
  · exact .div hl hdiv hr

/-- What is read from the front of a list of tokens is a spelling of the item
that was found. -/
theorem Reads.spells {i : Item} {ts rest : List Token} {e : Expr}
    (h : Reads i ts e rest) : ∃ us, ts = us ++ rest ∧ Spells i us e := by
  -- The tails of sums and products spell nothing by themselves: they turn what stands on
  -- their left into a longer phrase, which is why operators group to the left.
  induction h with
  | sum _ _ ih₁ ih₂ =>
      obtain ⟨us, rfl, hus⟩ := ih₁
      obtain ⟨vs, rfl, hvs⟩ := ih₂
      exact ⟨us ++ vs, by simp, hvs us (.sumOfProduct hus)⟩
  | sumEnd _ => exact ⟨[], rfl, fun us hus => by simpa using hus⟩
  | @sumMore t op ts mid rest x y e hop _ _ ih₁ ih₂ =>
      obtain ⟨us, rfl, hus⟩ := ih₁
      obtain ⟨vs, rfl, hvs⟩ := ih₂
      refine ⟨t :: us ++ vs, by simp, fun us₀ hus₀ => ?_⟩
      have hleft := Derives.sumOperator hus₀ hop hus
      simpa using hvs _ hleft
  | product _ _ ih₁ ih₂ =>
      obtain ⟨us, rfl, hus⟩ := ih₁
      obtain ⟨vs, rfl, hvs⟩ := ih₂
      exact ⟨us ++ vs, by simp, hvs us (.productOfUnary hus)⟩
  | productEnd _ => exact ⟨[], rfl, fun us hus => by simpa using hus⟩
  | @productMore t op ts mid rest x y e hop _ _ ih₁ ih₂ =>
      obtain ⟨us, rfl, hus⟩ := ih₁
      obtain ⟨vs, rfl, hvs⟩ := ih₂
      refine ⟨t :: us ++ vs, by simp, fun us₀ hus₀ => ?_⟩
      have hleft := Derives.productOperator hus₀ hop hus
      simpa using hvs _ hleft
  | @minus t _ _ _ ht _ ih =>
      obtain ⟨us, rfl, hus⟩ := ih
      exact ⟨t :: us, rfl, Derives.minus ht hus⟩
  | @plus t _ _ _ ht _ ih =>
      obtain ⟨us, rfl, hus⟩ := ih
      exact ⟨t :: us, rfl, Derives.plus ht hus⟩
  | unary _ _ _ ih =>
      obtain ⟨us, hts, hus⟩ := ih
      exact ⟨us, hts, Derives.unaryOfPrimary hus⟩
  | @number t _ ht => exact ⟨[t], rfl, Derives.number ht⟩
  | @name t _ ht _ => exact ⟨[t], rfl, Derives.name ht⟩
  | @call t f _ _ _ ht hf _ ih =>
      obtain ⟨us, rfl, hus⟩ := ih
      exact ⟨t :: us, rfl, hus t ⟨ht, (called?_eq_some_iff.1 hf).2⟩⟩
  | @group o c _ _ _ ho _ hc ih =>
      obtain ⟨us, rfl, hus⟩ := ih
      exact ⟨o :: us ++ [c], by simp, Derives.brackets ho hus hc⟩
  | @pow o s c _ _ _ _ _ ho _ hs _ hc ih₁ ih₂ =>
      obtain ⟨us, rfl, hus⟩ := ih₁
      obtain ⟨vs, rfl, hvs⟩ := ih₂
      refine ⟨o :: us ++ s :: vs ++ [c], by simp, fun t ht => ?_⟩
      exact Derives.pow ht ho hus hs hvs hc
  | sqrt _ ih =>
      obtain ⟨us, rfl, o, vs, c, ho, hvs, hc, rfl⟩ := ih
      exact ⟨_, rfl, fun t ht => Derives.sqrt ht ho hvs hc⟩
  | log _ _ ih₁ ih₂ =>
      obtain ⟨us, rfl, o, vs, c, ho, hvs, hc, rfl⟩ := ih₁
      obtain ⟨us', rfl, o', vs', c', ho', hvs', hc', rfl⟩ := ih₂
      refine ⟨(o :: vs ++ [c]) ++ (o' :: vs' ++ [c']), by simp, fun t ht => ?_⟩
      simpa using Derives.log ht ho hvs hc ho' hvs' hc'
  | @bracketed _ _ o c _ _ _ ho _ hc ih =>
      obtain ⟨us, rfl, hus⟩ := ih
      exact ⟨o :: us ++ [c], by simp, o, us, c, ho, hus, hc, rfl⟩

/-! ### What is derived can be read -/

/-- Tokens that cannot go on with a sum: none at all, or first one that is no
operator and no opening bracket. -/
def Ends (ts : List Token) : Prop :=
  ∀ t ∈ ts.head?, sumOperator? t.kind = none ∧ productOperator? t.kind = none ∧
    startsWithBracket ts = false

/-- The tokens `ts` are read as `e` at a level, whatever comes behind them that
does not belong to that level.  A sum or a product is read as the left operand of
its tail. -/
def Continues : Level → List Token → Expr → Prop
  | .sum, ts, e =>
      ∀ mid e' rest, (∀ t ∈ mid.head?, productOperator? t.kind = none) →
        startsWithBracket mid = false → Reads (.sumTail e) mid e' rest →
        Reads .sum (ts ++ mid) e' rest
  | .product, ts, e =>
      ∀ mid e' rest, startsWithBracket mid = false →
        Reads (.productTail e) mid e' rest → Reads .product (ts ++ mid) e' rest
  | .unary, ts, e =>
      ∀ rest, startsWithBracket rest = false → Reads .unary (ts ++ rest) e rest
  | .primary, ts, e =>
      (∀ t ∈ ts.head?, t.kind ≠ .symbol '-' ∧ t.kind ≠ .symbol '+') ∧ ts ≠ [] ∧
        ∀ rest, startsWithBracket rest = false → Reads .primary (ts ++ rest) e rest

/-- A sum with another product behind it goes on as a sum. -/
theorem continues_sumOperator {l r : List Token} {t : Token} {c : Char}
    {op : Operator} {x y : Expr} (hl : Continues .sum l x) (ht : t.kind = .symbol c)
    (hop : sumOperator? (.symbol c) = some op) (hr : Continues .product r y) :
    Continues .sum (l ++ t :: r) (.binary op x y) := by
  intro mid e rest hmid hbracket htail
  have hright : Reads .product (r ++ mid) y mid := hr mid y mid hbracket (.productEnd hmid)
  have hchar : c = '+' ∨ c = '-' := by
    rcases sumOperator?_eq_some_iff.1 hop with ⟨h, -⟩ | ⟨h, -⟩
    · exact .inl (by simpa using h)
    · exact .inr (by simpa using h)
  rw [← ht] at hop
  rw [List.append_assoc, List.cons_append]
  refine hl (t :: (r ++ mid)) e rest ?_ ?_ (.sumMore hop hright htail)
  · rcases hchar with rfl | rfl <;> simp [ht, productOperator?]
  · rcases hchar with rfl | rfl <;> exact startsWithBracket_cons ht (by decide) _

/-- A product with another operand behind it goes on as a product. -/
theorem continues_productOperator {l r : List Token} {t : Token} {c : Char}
    {op : Operator} {x y : Expr} (hl : Continues .product l x)
    (ht : t.kind = .symbol c) (hop : productOperator? (.symbol c) = some op)
    (hr : Continues .unary r y) :
    Continues .product (l ++ t :: r) (.binary op x y) := by
  intro mid e rest hbracket htail
  have hright : Reads .unary (r ++ mid) y mid := hr mid hbracket
  have hchar : c = '*' ∨ c = '/' := by
    rcases productOperator?_eq_some_iff.1 hop with ⟨h, -⟩ | ⟨h, -⟩
    · exact .inl (by simpa using h)
    · exact .inr (by simpa using h)
  rw [← ht] at hop
  rw [List.append_assoc, List.cons_append]
  refine hl (t :: (r ++ mid)) e rest ?_ (.productMore hop hright htail)
  rcases hchar with rfl | rfl <;> exact startsWithBracket_cons ht (by decide) _

/-- A sum is read up to a token that cannot go on with it. -/
theorem Continues.reads {ts rest : List Token} {e : Expr}
    (h : Continues .sum ts e) (hrest : Ends rest) : Reads .sum (ts ++ rest) e rest := by
  refine h rest e rest (fun t ht => (hrest t ht).2.1) ?_
    (.sumEnd fun t ht => (hrest t ht).1)
  cases rest with
  | nil => rfl
  | cons t rest => exact (hrest t rfl).2.2

/-- A comma or a closing bracket ends whatever stands before it. -/
theorem ends_cons {t : Token} {c : Char} (ht : t.kind = .symbol c)
    (hc : c = ',' ∨ c = ')' ∨ c = ']') (ts : List Token) : Ends (t :: ts) := by
  intro u hu
  obtain rfl : t = u := by simpa using hu
  rcases hc with rfl | rfl | rfl <;>
    exact ⟨by simp [ht, sumOperator?], by simp [ht, productOperator?],
      startsWithBracket_cons ht (by decide) ts⟩

theorem called?_of_isName {t o : Token} {f : Builtin} (ht : IsName f t)
    (ho : o.kind = .symbol '(' ∨ o.kind = .symbol '[') (ts : List Token) :
    called? t.lexeme (o :: ts) = some f := by
  refine called?_eq_some_iff.2 ⟨?_, ht.2⟩
  rcases ho with ho | ho <;> simp [startsWithBracket, ho]

/-- What the grammar derives is read, at every level. -/
theorem continues_of_derives {l : Level} {ts : List Token} {e : Expr}
    (h : Derives l ts e) : Continues l ts e := by
  -- The arguments of a call are read from the last one to the first, since each of
  -- them is read in front of what follows it.
  induction h with
  | sumOfProduct _ ih =>
      intro mid e' rest hmid hbracket htail
      exact .sum (ih mid _ mid hbracket (.productEnd hmid)) htail
  | add _ ht _ ih₁ ih₂ | sub _ ht _ ih₁ ih₂ => exact continues_sumOperator ih₁ ht rfl ih₂
  | productOfUnary _ ih =>
      intro mid e' rest hbracket htail
      exact .product (ih mid hbracket) htail
  | mul _ ht _ ih₁ ih₂ | div _ ht _ ih₁ ih₂ => exact continues_productOperator ih₁ ht rfl ih₂
  | @unaryOfPrimary ts e _ ih =>
      intro rest hbracket
      obtain ⟨hfirst, hne, hread⟩ := ih
      obtain ⟨t, us, rfl⟩ := List.exists_cons_of_ne_nil hne
      exact .unary (hfirst t rfl).1 (hfirst t rfl).2 (hread rest hbracket)
  | plus ht _ ih => exact fun rest hbracket => .plus ht (ih rest hbracket)
  | minus ht _ ih => exact fun rest hbracket => .minus ht (ih rest hbracket)
  | number ht => exact ⟨by simp [ht], by simp, fun rest _ => .number ht⟩
  | @name t ht =>
      refine ⟨by simp [ht], by simp, fun rest hbracket => .name ht ?_⟩
      exact called?_of_not_startsWithBracket hbracket t.lexeme
  | @brackets ts o c e ho _ hc ih =>
      refine ⟨by simp [ho], by simp, fun rest _ => ?_⟩
      have hinner := Continues.reads ih (ends_cons hc (by simp) rest)
      simpa using Reads.group ho hinner hc
  | @pow l r f o s c x y hf ho _ hs _ hc ih₁ ih₂ =>
      refine ⟨by simp [hf.1], by simp, fun rest _ => ?_⟩
      have hsecond := Continues.reads ih₂ (ends_cons hc (by simp) rest)
      have hfirst :=
        Continues.reads ih₁ (ends_cons hs (by simp) (r ++ c :: rest))
      have hcall := Reads.pow ho hfirst hs hsecond hc
      simpa using Reads.call hf.1 (called?_of_isName hf (.inl ho) _) hcall
  | @sqrt ts f o c e hf ho _ hc ih =>
      refine ⟨by simp [hf.1], by simp, fun rest _ => ?_⟩
      have hinner := Continues.reads ih (ends_cons hc (by simp) rest)
      have hcall := Reads.sqrt (.bracketed ho hinner hc)
      simpa using Reads.call hf.1 (called?_of_isName hf (.inl ho) _) hcall
  | @log l r f o c o' c' x y hf ho _ hc ho' _ hc' ih₁ ih₂ =>
      refine ⟨by simp [hf.1], by simp, fun rest _ => ?_⟩
      have hsecond := Continues.reads ih₂ (ends_cons hc' (by simp) rest)
      have hfirst :=
        Continues.reads ih₁ (ends_cons hc (by simp) (o' :: r ++ c' :: rest))
      have hcall := Reads.log (.bracketed ho hfirst hc) (.bracketed ho' hsecond hc')
      simpa using Reads.call hf.1 (called?_of_isName hf (.inr ho) _) hcall

/-- In front of tokens that cannot go on with a sum, reading one and deriving one
is the same. -/
theorem reads_sum_iff {ts rest : List Token} {e : Expr} (hrest : Ends rest) :
    Reads .sum (ts ++ rest) e rest ↔ Derives .sum ts e := by
  constructor
  · intro h
    obtain ⟨us, hus, hspells⟩ := h.spells
    rw [List.append_cancel_right hus]
    exact hspells
  · intro h
    exact (continues_of_derives h).reads hrest

/-- A list of tokens has at most one derivation. -/
theorem derives_unique {ts : List Token} {e e' : Expr} (h : Derives .sum ts e)
    (h' : Derives .sum ts e') : e = e' := by
  have hend : Ends [] := by simp [Ends]
  exact ((reads_sum_iff hend).2 h).unique ((reads_sum_iff hend).2 h') |>.1

end Arithmetic

/-! ### What trees mean -/

/-- The values that have a number: integers, doubles, and strings that spell
one. -/
def Value.isNumeric : Value → Bool
  | int _ => true
  | double _ => true
  | string t => (Double.read? t).isSome
  | _ => false

namespace Expr

/-- The meaning of a tree with the variables of a store. -/
inductive Means (store : Store) : Expr → Float → Prop where
  | number {lexeme : Text} {x : Float} :
      Double.read? lexeme = some x → Means store (.number lexeme) x
  | name {n : Text} {v : Value} {x : Float} :
      store.get? n = some v → v.isNumeric = true → v.toDouble = .ok x →
      Means store (.name n) x
  | group {e : Expr} {x : Float} : Means store e x → Means store (.group e) x
  | plus {e : Expr} {x : Float} : Means store e x → Means store (.plus e) x
  | minus {e : Expr} {x : Float} : Means store e x → Means store (.minus e) (-x)
  | add {l r : Expr} {x y : Float} :
      Means store l x → Means store r y → Means store (.binary .add l r) (x + y)
  | sub {l r : Expr} {x y : Float} :
      Means store l x → Means store r y → Means store (.binary .sub l r) (x - y)
  | mul {l r : Expr} {x y : Float} :
      Means store l x → Means store r y → Means store (.binary .mul l r) (x * y)
  | div {l r : Expr} {x y : Float} :
      Means store l x → Means store r y → Means store (.binary .div l r) (x / y)
  | pow {l r : Expr} {x y : Float} :
      Means store l x → Means store r y → Means store (.pow l r) (x.pow y)
  | sqrt {e : Expr} {x : Float} : Means store e x → Means store (.sqrt e) x.sqrt
  | log {l r : Expr} {x y : Float} :
      Means store l x → Means store r y → Means store (.log l r) (y.log / x.log)

/-- The names of the variables in a tree, from left to right. -/
def names : Expr → List Text
  | number _ => []
  | name n => [n]
  | group e => e.names
  | plus e => e.names
  | minus e => e.names
  | binary _ l r => l.names ++ r.names
  | pow l r => l.names ++ r.names
  | sqrt e => e.names
  | log l r => l.names ++ r.names

/-- The numbers in a tree, from left to right. -/
def numbers : Expr → List Text
  | number lexeme => [lexeme]
  | name _ => []
  | group e => e.numbers
  | plus e => e.numbers
  | minus e => e.numbers
  | binary _ l r => l.numbers ++ r.numbers
  | pow l r => l.numbers ++ r.numbers
  | sqrt e => e.numbers
  | log l r => l.numbers ++ r.numbers

variable {store : Store}

/-- A number has the value that it is read with. -/
theorem numberValue_eq_ok_iff {lexeme : Text} {x : Float} :
    Arithmetic.numberValue lexeme = .ok x ↔ Double.read? lexeme = some x := by
  unfold Arithmetic.numberValue
  split
  · next h => simp [h]
  · next h => simp [h]

/-- The values that count as numbers, by their kind and by what they can be read as. -/
theorem toDouble_isNumeric {v : Value} :
    ¬ (v.kind = .bool ∨ v.kind = .list) ∧ (∃ x, v.toDouble = .ok x) ↔
      v.isNumeric = true := by
  cases v with
  | undefined =>
      have hnull : Double.read? (Value.text .undefined) = none := by decide
      simp [Value.kind, Value.toDouble, Value.isNumeric, Literal.double, hnull]
  | int n => simp [Value.kind, Value.toDouble, Value.isNumeric]
  | double f => simp [Value.kind, Value.toDouble, Value.isNumeric]
  | string t =>
      cases ht : Double.read? t with
      | none => simp [Value.toDouble, Value.isNumeric, Literal.double, Value.text, ht]
      | some f =>
          simp [Value.kind, Value.toDouble, Value.isNumeric, Literal.double, Value.text, ht]
  | bool b => simp [Value.kind, Value.isNumeric]
  | list c vs => simp [Value.kind, Value.isNumeric]

/-- A variable has the value of its number, if it is one. -/
theorem variableValue_eq_ok_iff {n : Text} {x : Float} :
    Arithmetic.variableValue store n = .ok x ↔
      ∃ v, store.get? n = some v ∧ v.isNumeric = true ∧ v.toDouble = .ok x := by
  unfold Arithmetic.variableValue
  cases hn : store.get? n with
  | none => simp
  | some v =>
      have hnumeric := toDouble_isNumeric (v := v)
      by_cases hkind : v.kind = .bool ∨ v.kind = .list
      · have hno : v.isNumeric ≠ true := fun h => (hnumeric.2 h).1 hkind
        simp [hkind, hno]
      · cases hx : v.toDouble with
        | error err =>
            have hno : v.isNumeric ≠ true := by
              intro h
              obtain ⟨-, y, hy⟩ := hnumeric.2 h
              simp [hx] at hy
            simp [hkind, hno, hx]
        | ok y =>
            have hyes : v.isNumeric = true := hnumeric.1 ⟨hkind, y, hx⟩
            simp [hkind, hyes, hx]

/-- The value of a tree is what it means. -/
theorem value_eq_ok_iff {e : Expr} {x : Float} :
    e.value store = .ok x ↔ e.Means store x := by
  constructor
  · intro h
    induction e generalizing x with
    | number lexeme => exact .number (numberValue_eq_ok_iff.1 h)
    | name n =>
        obtain ⟨v, hv, hnumeric, hx⟩ := variableValue_eq_ok_iff.1 h
        exact .name hv hnumeric hx
    | group e ih => exact .group (ih h)
    | plus e ih => exact .plus (ih h)
    | minus e ih =>
        obtain ⟨y, hy, hx⟩ := Except.bind_eq_ok_iff.1 h
        cases hx
        exact .minus (ih hy)
    | binary op l r ihl ihr =>
        obtain ⟨y, hy, h⟩ := Except.bind_eq_ok_iff.1 h
        obtain ⟨z, hz, hx⟩ := Except.bind_eq_ok_iff.1 h
        cases hx
        cases op with
        | add => exact .add (ihl hy) (ihr hz)
        | sub => exact .sub (ihl hy) (ihr hz)
        | mul => exact .mul (ihl hy) (ihr hz)
        | div => exact .div (ihl hy) (ihr hz)
    | pow l r ihl ihr =>
        obtain ⟨y, hy, h⟩ := Except.bind_eq_ok_iff.1 h
        obtain ⟨z, hz, hx⟩ := Except.bind_eq_ok_iff.1 h
        cases hx
        exact .pow (ihl hy) (ihr hz)
    | sqrt e ih =>
        obtain ⟨y, hy, hx⟩ := Except.bind_eq_ok_iff.1 h
        cases hx
        exact .sqrt (ih hy)
    | log l r ihl ihr =>
        obtain ⟨y, hy, h⟩ := Except.bind_eq_ok_iff.1 h
        obtain ⟨z, hz, hx⟩ := Except.bind_eq_ok_iff.1 h
        cases hx
        exact .log (ihl hy) (ihr hz)
  · intro h
    induction h with
    | number hx => exact numberValue_eq_ok_iff.2 hx
    | name hv hnumeric hx => exact variableValue_eq_ok_iff.2 ⟨_, hv, hnumeric, hx⟩
    | group _ ih | plus _ ih => exact ih
    | minus _ ih | sqrt _ ih =>
        rw [value, ih]
        rfl
    | add _ _ ihl ihr | sub _ _ ihl ihr | mul _ _ ihl ihr | div _ _ ihl ihr
    | pow _ _ ihl ihr | log _ _ ihl ihr =>
        rw [value, ihl, ihr]
        rfl

/-- The names in a tree that means something are bound to numbers. -/
theorem Means.names_numeric {e : Expr} {x : Float} (h : e.Means store x) :
    ∀ n ∈ e.names, ∃ v, store.get? n = some v ∧ v.isNumeric = true := by
  induction h with
  | number _ => simp [names]
  | @name n v x hv hnumeric hx =>
      intro m hm
      obtain rfl : m = n := by simpa [names] using hm
      exact ⟨v, hv, hnumeric⟩
  | group _ ih | plus _ ih | minus _ ih | sqrt _ ih => exact ih
  | add _ _ ihl ihr | sub _ _ ihl ihr | mul _ _ ihl ihr | div _ _ ihl ihr
  | pow _ _ ihl ihr | log _ _ ihl ihr => exact List.forall_mem_append.2 ⟨ihl, ihr⟩

/-- Operators never fail on two numbers. -/
theorem exists_means_binary (op : Operator) {l r : Expr} (hl : ∃ x, l.Means store x)
    (hr : ∃ y, r.Means store y) : ∃ z, (binary op l r).Means store z := by
  obtain ⟨x, hx⟩ := hl
  obtain ⟨y, hy⟩ := hr
  cases op with
  | add => exact ⟨_, .add hx hy⟩
  | sub => exact ⟨_, .sub hx hy⟩
  | mul => exact ⟨_, .mul hx hy⟩
  | div => exact ⟨_, .div hx hy⟩

/-- A tree of numbers that can be read and of variables that are bound to numbers
means something. -/
theorem exists_means {e : Expr}
    (hnumbers : ∀ l ∈ e.numbers, (Double.read? l).isSome = true)
    (hnames : ∀ n ∈ e.names, ∃ v, store.get? n = some v ∧ v.isNumeric = true) :
    ∃ x, e.Means store x := by
  -- No operation fails on doubles, so that values are missing only at the leaves.
  induction e with
  | number lexeme =>
      obtain ⟨x, hx⟩ := Option.isSome_iff_exists.1 (hnumbers lexeme (by simp [numbers]))
      exact ⟨x, .number hx⟩
  | name n =>
      obtain ⟨v, hv, hnumeric⟩ := hnames n (by simp [names])
      obtain ⟨-, x, hx⟩ := toDouble_isNumeric.2 hnumeric
      exact ⟨x, .name hv hnumeric hx⟩
  | group e ih =>
      obtain ⟨x, hx⟩ := ih hnumbers hnames
      exact ⟨x, .group hx⟩
  | plus e ih =>
      obtain ⟨x, hx⟩ := ih hnumbers hnames
      exact ⟨x, .plus hx⟩
  | minus e ih =>
      obtain ⟨x, hx⟩ := ih hnumbers hnames
      exact ⟨_, .minus hx⟩
  | sqrt e ih =>
      obtain ⟨x, hx⟩ := ih hnumbers hnames
      exact ⟨_, .sqrt hx⟩
  | binary op l r ihl ihr =>
      rw [numbers, List.forall_mem_append] at hnumbers
      rw [names, List.forall_mem_append] at hnames
      exact exists_means_binary op (ihl hnumbers.1 hnames.1) (ihr hnumbers.2 hnames.2)
  | pow l r ihl ihr =>
      rw [numbers, List.forall_mem_append] at hnumbers
      rw [names, List.forall_mem_append] at hnames
      obtain ⟨x, hx⟩ := ihl hnumbers.1 hnames.1
      obtain ⟨y, hy⟩ := ihr hnumbers.2 hnames.2
      exact ⟨_, .pow hx hy⟩
  | log l r ihl ihr =>
      rw [numbers, List.forall_mem_append] at hnumbers
      rw [names, List.forall_mem_append] at hnames
      obtain ⟨x, hx⟩ := ihl hnumbers.1 hnames.1
      obtain ⟨y, hy⟩ := ihr hnumbers.2 hnames.2
      exact ⟨_, .log hx hy⟩

/-! ### The leaves of a tree among its tokens -/

/-- Whether a token in front of the tokens `rest` is a variable: an identifier,
but not the name of a function in front of a bracket. -/
def isVariable (t : Token) (rest : List Token) : Bool :=
  t.kind == .identifier &&
    !(t.lexeme ∈ [Text.ofString "pow", "sqrt", "log"] &&
      rest.head?.any fun next => next.kind == .symbol '(' || next.kind == .symbol '[')

/-- The names of the variables among tokens, from left to right. -/
def variableNames : List Token → List Text
  | [] => []
  | t :: rest =>
      if isVariable t rest then t.lexeme :: variableNames rest
      else variableNames rest

/-- An identifier is a variable unless it calls one of the three functions. -/
theorem isVariable_eq (t : Token) (rest : List Token) :
    isVariable t rest = (t.kind == .identifier &&
      !(t.lexeme ∈ [Text.ofString "pow", "sqrt", "log"] &&
        Arithmetic.startsWithBracket rest)) := by
  cases rest <;> rfl

theorem variableNames_cons_of_ne {t : Token} (ht : t.kind ≠ .identifier)
    (ts : List Token) : variableNames (t :: ts) = variableNames ts := by
  simp [variableNames, isVariable, ht]

theorem variableNames_symbol {t : Token} {c : Char} (ht : t.kind = .symbol c)
    (ts : List Token) : variableNames (t :: ts) = variableNames ts :=
  variableNames_cons_of_ne (by simp [ht]) ts

/-- The name of a function that is called is no variable. -/
theorem variableNames_call {t o : Token} {f : Builtin} (ht : IsName f t)
    (ho : o.kind = .symbol '(' ∨ o.kind = .symbol '[') (ts : List Token) :
    variableNames (t :: o :: ts) = variableNames ts := by
  have hname : t.lexeme ∈ [Text.ofString "pow", "sqrt", "log"] := by
    rw [ht.2]
    cases f <;> decide
  have hbracket : Arithmetic.startsWithBracket (o :: ts) = true := by
    rcases ho with ho | ho <;> simp [Arithmetic.startsWithBracket, ho]
  have hcall : isVariable t (o :: ts) = false := by
    simp only [isVariable_eq, hname, hbracket, decide_true, Bool.and_self, Bool.not_true,
      Bool.and_false]
  rw [variableNames, hcall, if_neg Bool.false_ne_true]
  rcases ho with ho | ho <;> exact variableNames_symbol ho ts

/-- The variables among the tokens `ts` are `ns`, unless a bracket behind them
turns the last one into a call. -/
def Lists (ts : List Token) (ns : List Text) : Prop :=
  ∀ rest, Arithmetic.startsWithBracket rest = false →
    variableNames (ts ++ rest) = ns ++ variableNames rest

/-- A symbol that is no bracket cuts tokens in two. -/
theorem Lists.cut {ts : List Token} {ns : List Text} (h : Lists ts ns) {t : Token}
    {c : Char} (ht : t.kind = .symbol c) (hc : c ≠ '(' ∧ c ≠ '[') (rest : List Token) :
    variableNames (ts ++ t :: rest) = ns ++ variableNames rest := by
  rw [h (t :: rest) (Arithmetic.startsWithBracket_cons ht hc rest),
    variableNames_symbol ht]

/-- The names of two texts with a symbol between them are those of both. -/
theorem Lists.join {l r : List Token} {ns ms : List Text} (hl : Lists l ns)
    (hr : Lists r ms) {t : Token} {c : Char} (ht : t.kind = .symbol c)
    (hc : c ≠ '(' ∧ c ≠ '[') : Lists (l ++ t :: r) (ns ++ ms) := by
  intro rest hrest
  rw [List.append_assoc, List.cons_append, hl.cut ht hc, hr rest hrest,
    List.append_assoc]

theorem lists_variable {t : Token} (ht : t.kind = .identifier) : Lists [t] [t.lexeme] := by
  intro rest hrest
  have hvariable : isVariable t rest = true := by simp [isVariable_eq, ht, hrest]
  rw [List.singleton_append, variableNames, if_pos hvariable]
  rfl

/-- The tokens of a tree have the names of the tree for variables. -/
theorem lists_of_derives {l : Level} {ts : List Token} {e : Expr}
    (h : Derives l ts e) : Lists ts e.names := by
  -- Every opening bracket in a tree stands behind the name of its function or behind
  -- no name at all, so it never changes what the tokens before it are.
  induction h with
  | sumOfProduct _ ih => exact ih
  | productOfUnary _ ih => exact ih
  | unaryOfPrimary _ ih => exact ih
  | add _ ht _ ih₁ ih₂ | sub _ ht _ ih₁ ih₂ | mul _ ht _ ih₁ ih₂
  | div _ ht _ ih₁ ih₂ => exact ih₁.join ih₂ ht (by decide)
  | plus ht _ ih | minus ht _ ih =>
      intro rest hrest
      rw [List.cons_append, variableNames_symbol ht, ih rest hrest, names]
  | number ht => exact fun rest _ => variableNames_cons_of_ne (by simp [ht]) rest
  | name ht => exact lists_variable ht
  | brackets ho _ hc ih =>
      intro rest _
      rw [List.append_assoc, List.cons_append, variableNames_symbol ho,
        List.singleton_append, ih.cut hc (by decide), names]
  | pow hf ho _ hs _ hc ih₁ ih₂ =>
      intro rest _
      simp only [List.append_assoc, List.cons_append, List.nil_append]
      rw [variableNames_call hf (.inl ho), ih₁.cut hs (by decide),
        ih₂.cut hc (by decide), names, List.append_assoc]
  | sqrt hf ho _ hc ih =>
      intro rest _
      simp only [List.append_assoc, List.cons_append, List.nil_append]
      rw [variableNames_call hf (.inl ho), ih.cut hc (by decide), names]
  | log hf ho _ hc ho' _ hc' ih₁ ih₂ =>
      intro rest _
      simp only [List.append_assoc, List.cons_append, List.nil_append]
      rw [variableNames_call hf (.inr ho), ih₁.cut hc (by decide),
        variableNames_symbol ho', ih₂.cut hc' (by decide), names, List.append_assoc]

/-- The names in a tree are the variables among its tokens, in their order. -/
theorem names_eq_variableNames {ts : List Token} {e : Expr} (h : Derives .sum ts e) :
    e.names = variableNames ts := by
  have hlists := lists_of_derives h [] rfl
  simpa [variableNames] using hlists.symm

/-- The texts of the numbers among tokens. -/
def numberLexemes (ts : List Token) : List Text :=
  (ts.filter fun t => t.kind == .number).map Token.lexeme

/-- The numbers in a tree are the numbers among its tokens. -/
theorem numbers_eq_numberLexemes {l : Level} {ts : List Token} {e : Expr}
    (h : Derives l ts e) : e.numbers = numberLexemes ts := by
  induction h with
  | sumOfProduct _ ih | productOfUnary _ ih | unaryOfPrimary _ ih => exact ih
  | add _ ht _ ih₁ ih₂ | sub _ ht _ ih₁ ih₂ | mul _ ht _ ih₁ ih₂
  | div _ ht _ ih₁ ih₂ =>
      simp_all [numbers, numberLexemes]
  | plus ht _ ih | minus ht _ ih => simp_all [numbers, numberLexemes]
  | number ht | name ht => simp [numbers, numberLexemes, ht]
  | brackets ho _ hc ih => simp_all [numbers, numberLexemes]
  | pow hf ho _ hs _ hc ih₁ ih₂ => simp_all [numbers, numberLexemes, hf.1]
  | sqrt hf ho _ hc ih => simp_all [numbers, numberLexemes, hf.1]
  | log hf ho _ hc ho' _ hc' ih₁ ih₂ => simp_all [numbers, numberLexemes, hf.1]

/-- The end of the text is no part of an expression. -/
theorem kind_ne_of_derives {l : Level} {ts : List Token} {e : Expr}
    (h : Derives l ts e) : ∀ t ∈ ts, t.kind ≠ .endOfText := by
  induction h with
  | sumOfProduct _ ih | productOfUnary _ ih | unaryOfPrimary _ ih => exact ih
  | add _ ht _ ih₁ ih₂ | sub _ ht _ ih₁ ih₂ | mul _ ht _ ih₁ ih₂
  | div _ ht _ ih₁ ih₂ => grind
  | plus ht _ ih | minus ht _ ih => grind
  | number ht | name ht => grind
  | brackets ho _ hc ih => grind
  | pow hf ho _ hs _ hc ih₁ ih₂ => grind [IsName]
  | sqrt hf ho _ hc ih => grind [IsName]
  | log hf ho _ hc ho' _ hc' ih₁ ih₂ => grind [IsName]

/-- The numbers of a tree that is spelled by the tokens of a text can be read. -/
theorem read?_of_mem_numbers {source : Text} {us : List Token} {e : Expr}
    (htokens : Expression.tokenize source = .ok (us ++ [.endOf source]))
    (h : Derives .sum us e) :
    ∀ lexeme ∈ e.numbers, (Double.read? lexeme).isSome = true := by
  intro lexeme hlexeme
  rw [numbers_eq_numberLexemes h, numberLexemes] at hlexeme
  obtain ⟨t, ht, rfl⟩ := List.mem_map.1 hlexeme
  obtain ⟨hmem, hkind⟩ := List.mem_filter.1 ht
  exact Expression.read?_of_mem_tokens htokens hmem (beq_iff_eq.1 hkind)

end Expr

/-! ### Evaluation -/

namespace Arithmetic

open LineScript.Expr

theorem expectEnd_eq_ok_iff {ctx : Context} {ts : List Token} :
    expectEnd ctx ts = .ok () ↔ ∀ t ∈ ts.head?, t.kind = .endOfText := by
  cases ts with
  | nil => simp [expectEnd]
  | cons t ts => simp [expectEnd]

/-- A text has a value if a sum can be read that goes up to the end. -/
theorem evaluate_eq_ok_iff_sum {store : Store} {source : Text} {x : Float} :
    evaluate store source = .ok x ↔
      ∃ ts rest, Expression.tokenize source = .ok ts ∧
        plain (sum ⟨store, source⟩ ts) = .ok (x, rest) ∧
        ∀ t ∈ rest.head?, t.kind = .endOfText := by
  unfold evaluate
  cases htokens : Expression.tokenize source with
  | error err => simp
  | ok ts =>
      simp only [Except.ok.injEq, plain, Except.map_eq_ok_iff, Except.bind_eq_ok_iff]
      constructor
      · rintro ⟨⟨y, rest, hrest⟩, hsum, u, hend, hx⟩
        cases hx
        exact ⟨ts, rest, rfl, ⟨⟨y, rest, hrest⟩, hsum, rfl⟩, expectEnd_eq_ok_iff.1 hend⟩
      · rintro ⟨ts, rest, rfl, ⟨⟨y, rest', hrest⟩, hsum, hpair⟩, hend⟩
        cases hpair
        exact ⟨⟨y, rest', hrest⟩, hsum, (), expectEnd_eq_ok_iff.2 hend, rfl⟩

/-- The tokens that a whole expression is made of: what a sum was read from, if
only the end of the text is left. -/
theorem eq_of_append_endOf {source : Text} {us vs rest : List Token}
    (htokens : Expression.tokenize source = .ok (us ++ [.endOf source]))
    (hvs : ∀ t ∈ vs, t.kind ≠ .endOfText) (h : us ++ [.endOf source] = vs ++ rest)
    (hrest : ∀ t ∈ rest.head?, t.kind = .endOfText) :
    vs = us ∧ rest = [.endOf source] := by
  rcases List.append_eq_append_iff.1 h with ⟨ws, rfl, hend⟩ | ⟨ws, rfl, hend⟩
  · -- The sum would reach into the end of the text.
    cases ws with
    | nil => exact ⟨by simp, by simpa using hend.symm⟩
    | cons w ws =>
        obtain ⟨rfl, -⟩ := List.cons.inj hend
        exact absurd rfl (hvs (Token.endOf source) (by simp))
  · -- The end of the text would stand among the tokens before it.
    cases ws with
    | nil => exact ⟨by simp, by simpa using hend⟩
    | cons w ws =>
        have hw : w.kind = .endOfText := hrest w (by simp [hend])
        exact absurd hw (Expression.kind_ne_endOfText htokens (by simp))

theorem ends_endOf (source : Text) : Ends [.endOf source] := by
  simp [Ends, Token.endOf, sumOperator?, productOperator?, startsWithBracket]

/-- An expression has a value exactly if its tokens have a tree with this value. -/
theorem evaluate_eq_ok_iff {store : Store} {source : Text} {x : Float} :
    evaluate store source = .ok x ↔
      ∃ us e, Expression.tokenize source = .ok (us ++ [.endOf source]) ∧
        Derives .sum us e ∧ e.Means store x := by
  rw [evaluate_eq_ok_iff_sum]
  constructor
  · rintro ⟨ts, rest, htokens, hsum, hrest⟩
    obtain ⟨us, rfl, -⟩ := Lexer.tokens_eq_ok_iff.1 htokens
    obtain ⟨e, hreads, hvalue⟩ := reads_of_sum hsum
    obtain ⟨vs, hsplit, hderives⟩ := hreads.spells
    obtain ⟨rfl, -⟩ :=
      eq_of_append_endOf htokens (kind_ne_of_derives hderives) hsplit hrest
    exact ⟨vs, e, htokens, hderives, value_eq_ok_iff.1 hvalue⟩
  · rintro ⟨us, e, htokens, hderives, hmeans⟩
    have hrun : run ⟨store, source⟩ .sum (us ++ [.endOf source]) = _ :=
      run_of_reads ((reads_sum_iff (ends_endOf source)).2 hderives)
    rw [run, value_eq_ok_iff.2 hmeans] at hrun
    exact ⟨_, _, htokens, hrun, by simp [Token.endOf]⟩

end Arithmetic

/-- Expressions are evaluated by the rules of arithmetic exactly if they are
well-formed and their variables are bound to numbers, and their value is what
their only tree means.  The names in the tree are the identifiers that are not
the name of a function in front of a bracket. -/
theorem precedence_evaluate_eq_ok_iff (store : Store) (source : Text) :
    (∀ x, Mode.precedence.evaluate store source = .ok x ↔
      ∃ ts e, Expression.tokenize source = .ok (ts ++ [.endOf source]) ∧
        Expr.Derives .sum ts e ∧
        (∀ n ∈ e.names, ∃ v, store.get? n = some v ∧ v.isNumeric = true) ∧
        e.Means store x) ∧
    ((∃ x, Mode.precedence.evaluate store source = .ok x) ↔
      ∃ ts e, Expression.tokenize source = .ok (ts ++ [.endOf source]) ∧
        Expr.Derives .sum ts e ∧
        ∀ n ∈ e.names, ∃ v, store.get? n = some v ∧ v.isNumeric = true) ∧
    (∀ ts e e', Expr.Derives .sum ts e → Expr.Derives .sum ts e' → e = e') ∧
    (∀ ts e, Expr.Derives .sum ts e → e.names = Expr.variableNames ts) := by
  refine ⟨fun x => ?_, ?_, fun ts e e' => Arithmetic.derives_unique,
    fun ts e => Expr.names_eq_variableNames⟩
  · rw [Mode.evaluate, Arithmetic.evaluate_eq_ok_iff]
    constructor
    · rintro ⟨ts, e, htokens, hderives, hmeans⟩
      exact ⟨ts, e, htokens, hderives, hmeans.names_numeric, hmeans⟩
    · rintro ⟨ts, e, htokens, hderives, -, hmeans⟩
      exact ⟨ts, e, htokens, hderives, hmeans⟩
  · simp only [Mode.evaluate, Arithmetic.evaluate_eq_ok_iff]
    constructor
    · rintro ⟨x, ts, e, htokens, hderives, hmeans⟩
      exact ⟨ts, e, htokens, hderives, hmeans.names_numeric⟩
    · rintro ⟨ts, e, htokens, hderives, hnames⟩
      -- The numbers of a tree come from tokens, and all of those can be read.
      obtain ⟨x, hmeans⟩ :=
        Expr.exists_means (Expr.read?_of_mem_numbers htokens hderives) hnames
      exact ⟨x, ts, e, htokens, hderives, hmeans⟩

end LineScript
