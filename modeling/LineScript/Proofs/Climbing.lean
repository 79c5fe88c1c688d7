/-
LineScript/Proofs/Climbing.lean

Reading expressions by positions.

The readers of `Arithmetic` are given the tokens that are left, and their types say that
each of them leaves fewer.  Here the tokens stay where they are and a position moves over
them.  Operators are read by climbing: `expression least` reads an operand and all operators
behind it of at least a given precedence, and the right operand of an operator is an
expression of a higher one.

Nothing in these definitions makes reading come to an end or keeps the position inside of
the list.  Calls may be nested to a given depth, and a reading that would go deeper is left
without a result; a look at what is not there is an outcome of its own, `outOfRange`.  Both
are excluded for a list that ends with an end token, where the position stays: for each
token that is left three nested calls are enough, and with these or more of them, reading
by positions does what the readers of `Arithmetic` do with the tokens from the position on
(`Simulates`).

The induction is on how many tokens are left (`agrees`).  At one position an expression
begins with an operand with its signs and that with an operand (`simulates_signed`,
`simulates_operand`); whatever else they call is called behind a token.

Main result: `climbing_within_tokens`.
-/
import LineScript.Proofs.Correspondence
import LineScript.Proofs.Scanning

namespace LineScript

open Text

namespace Climbing

open Arithmetic (Context plain plainExpect numberValue variableValue)

/-! ### Moving a position -/

/-- Why a reading stops without a value. -/
inductive Stop where
  /-- It looks behind the last token, or for an argument that has not been read. -/
  | outOfRange
  /-- It reports an error. -/
  | failed (e : EvalError)

/-- A reading that moves a position.  It has no result if it is not finished. -/
abbrev Cursor := ExceptT Stop (StateT Nat Option)

/-- A reading that would have to go deeper than it may. -/
def unfinished {α : Type} : Cursor α :=
  ExceptT.lift (StateT.lift none)

section Readers

variable (ctx : Context) (toks : List Token)

/-- The token at the position. -/
def peek : Cursor Token := do
  match toks[← get]? with
  | some t => return t
  | none => throw .outOfRange

/-- The token at the position.  The position moves on, but not behind an end token. -/
def next : Cursor Token := do
  let t ← peek toks
  if t.kind ≠ .endOfText then modify (· + 1)
  return t

/-- The error at the position. -/
def unexpected {α : Type} : Cursor α := do
  let t ← peek toks
  throw (.failed (.invalid (.unexpected t.kind t.span.first ctx.source)))

/-- Go on behind a given character. -/
def expect (c : Char) : Cursor Unit := do
  let t ← peek toks
  if t.kind = .symbol c then
    let _ ← next toks
  else unexpected ctx toks

/-- A value that has been computed already. -/
def computed : Except EvalError Float → Cursor Float
  | .ok x => return x
  | .error e => throw (.failed e)

/-- The binary operators and their precedence. -/
def precedence? (k : TokenKind) : Option (Operator × Nat) :=
  if k = .symbol '+' then some (.add, 1)
  else if k = .symbol '-' then some (.sub, 1)
  else if k = .symbol '*' then some (.mul, 2)
  else if k = .symbol '/' then some (.div, 2)
  else none

/-! ### Calls -/

/-- Read arguments with commas between them, the first of them being the `i`th one. -/
def argumentsFrom (read : Cursor Float) (i : Nat) : (left : Nat) → Cursor (List Float)
  | 0 => return []
  | left + 1 => do
      if 0 < i then expect ctx toks ','
      let x ← read
      let xs ← argumentsFrom read (i + 1) left
      return x :: xs

/-- Read `n` arguments in brackets. -/
def arguments (read : Cursor Float) (opening closing : Char) (n : Nat) :
    Cursor (List Float) := do
  expect ctx toks opening
  let xs ← argumentsFrom ctx toks read 0 n
  expect ctx toks closing
  return xs

/-- Read the arguments of a function and apply it. -/
def call (read : Cursor Float) (f : Builtin) : Cursor Float := do
  match f with
  | .pow =>
      match ← arguments ctx toks read '(' ')' 2 with
      | [x, y] => return x.pow y
      | _ => throw .outOfRange
  | .sqrt =>
      match ← arguments ctx toks read '(' ')' 1 with
      | [x] => return x.sqrt
      | _ => throw .outOfRange
  | .log =>
      let base ← arguments ctx toks read '[' ']' 1
      let argument ← arguments ctx toks read '(' ')' 1
      match base, argument with
      | [b], [x] => return Builtin.logBase b x
      | _, _ => throw .outOfRange

/-! ### Expressions -/

mutual

/-- Read an operand and the operators behind it of at least a given precedence. -/
def expression : (depth least : Nat) → Cursor Float
  | 0, _ => unfinished
  | depth + 1, least => do
      let x ← signed depth
      operators depth least x

/-- Read operators of at least a given precedence, with their right operands. -/
def operators : (depth least : Nat) → Float → Cursor Float
  | 0, _, _ => unfinished
  | depth + 1, least, x => do
      let t ← peek toks
      match precedence? t.kind with
      | none => return x
      | some (op, level) =>
          if level < least then return x
          else
            let _ ← next toks
            let y ← expression depth (level + 1)
            operators depth least (op.apply x y)

/-- Read an operand with its signs. -/
def signed : (depth : Nat) → Cursor Float
  | 0 => unfinished
  | depth + 1 => do
      let t ← peek toks
      if t.kind = .symbol '-' then
        let _ ← next toks
        let x ← signed depth
        return -x
      else if t.kind = .symbol '+' then
        let _ ← next toks
        signed depth
      else operand depth

/-- Read an operand. -/
def operand : (depth : Nat) → Cursor Float
  | 0 => unfinished
  | depth + 1 => do
      let t ← peek toks
      match t.kind with
      | .number =>
          let number ← next toks
          computed (numberValue number.lexeme)
      | .identifier =>
          let name ← next toks
          match Builtin.ofName? name.lexeme with
          | some f =>
              let behind ← peek toks
              if behind.kind = .symbol '(' ∨ behind.kind = .symbol '[' then
                call ctx toks (expression depth 1) f
              else computed (variableValue ctx.store name.lexeme)
          | none => computed (variableValue ctx.store name.lexeme)
      | .symbol '(' =>
          let _ ← next toks
          let x ← expression depth 1
          expect ctx toks ')'
          return x
      | _ => unexpected ctx toks

end

/-- Read an expression up to the end. -/
def toEnd (depth : Nat) : Cursor Float := do
  let x ← expression ctx toks depth 1
  let t ← peek toks
  if t.kind = .endOfText then return x else unexpected ctx toks

/-- Read something between brackets. -/
def enclosed (read : Cursor Float) (opening closing : Char) : Cursor Float := do
  expect ctx toks opening
  let x ← read
  expect ctx toks closing
  return x

end Readers

/-! ### Readings that end inside of the tokens -/

/-- What a reading comes to from a position on. -/
def readFrom {α : Type} (pos : Nat) (p : Cursor α) : Option (Except Stop α × Nat) :=
  p.run.run pos

/-- The reading ends, at a position that is not in front of the one where it starts and not
behind the last token, and without a look out of range on the way. -/
def Completes {α : Type} (toks : List Token) (pos : Nat) (p : Cursor α)
    (Q : Except EvalError α → Nat → Prop) : Prop :=
  ∃ outcome pos', readFrom pos p = some (outcome.mapError .failed, pos') ∧
    pos ≤ pos' ∧ pos' < toks.length ∧ Q outcome pos'

section Completes

variable {α β : Type} {toks : List Token} {pos pos' : Nat} {p : Cursor α} {k : α → Cursor β}
  {Q : Except EvalError α → Nat → Prop} {R : Except EvalError β → Nat → Prop}

theorem readFrom_bind_ok {a : α} (h : readFrom pos p = some (.ok a, pos')) :
    readFrom pos (p >>= k) = readFrom pos' (k a) := by
  show (readFrom pos p >>= _) = _
  rw [h]
  rfl

theorem readFrom_bind_error {s : Stop} (h : readFrom pos p = some (.error s, pos')) :
    readFrom pos (p >>= k) = some (.error s, pos') := by
  show (readFrom pos p >>= _) = _
  rw [h]
  rfl

/-- What is said about the outcome may be weakened. -/
theorem Completes.mono {Q' : Except EvalError α → Nat → Prop} (h : Completes toks pos p Q)
    (hQ : ∀ outcome pos', Q outcome pos' → Q' outcome pos') : Completes toks pos p Q' := by
  obtain ⟨outcome, pos', hread, hle, hlt, hq⟩ := h
  exact ⟨outcome, pos', hread, hle, hlt, hQ outcome pos' hq⟩

theorem completes_pure {a : α} (hpos : pos < toks.length) (h : Q (.ok a) pos) :
    Completes toks pos (pure a) Q :=
  ⟨.ok a, pos, rfl, Nat.le_refl pos, hpos, h⟩

/-- An error is an outcome like any other. -/
theorem completes_throw {e : EvalError} (hpos : pos < toks.length) (h : Q (.error e) pos) :
    Completes toks pos (throw (.failed e)) Q :=
  ⟨.error e, pos, rfl, Nat.le_refl pos, hpos, h⟩

/-- One reading behind another. -/
theorem Completes.bind (hp : Completes toks pos p Q)
    (hok : ∀ a pos', pos ≤ pos' → pos' < toks.length → Q (.ok a) pos' →
      Completes toks pos' (k a) R)
    (herror : ∀ e pos', Q (.error e) pos' → R (.error e) pos') :
    Completes toks pos (p >>= k) R := by
  obtain ⟨outcome, pos₁, hread, hle₁, hlt₁, hq⟩ := hp
  cases outcome with
  | error e =>
      exact ⟨.error e, pos₁, readFrom_bind_error hread, hle₁, hlt₁, herror e pos₁ hq⟩
  | ok a =>
      obtain ⟨outcome, pos₂, hread₂, hle₂, hlt₂, hr⟩ := hok a pos₁ hle₁ hlt₁ hq
      refine ⟨outcome, pos₂, ?_, Nat.le_trans hle₁ hle₂, hlt₂, hr⟩
      rw [readFrom_bind_ok hread]
      exact hread₂

/-- The rule where only values are spoken about. -/
theorem Completes.bind_value {P : β → Prop} (hp : Completes toks pos p Q)
    (hok : ∀ a pos', pos ≤ pos' → pos' < toks.length → Q (.ok a) pos' →
      Completes toks pos' (k a) fun outcome _ => ∀ b, outcome = .ok b → P b) :
    Completes toks pos (p >>= k) fun outcome _ => ∀ b, outcome = .ok b → P b := by
  refine hp.bind hok ?_
  intro e pos' _ b hb
  cases hb

theorem readFrom_get {k : Nat → Cursor α} : readFrom pos (get >>= k) = readFrom pos (k pos) := rfl

/-- Looking at a token does not move. -/
theorem readFrom_peek {t : Token} (ht : toks[pos]? = some t) :
    readFrom pos (peek toks) = some (.ok t, pos) := by
  rw [peek, readFrom_get, ht]
  rfl

/-- Taking a token moves on by one, and never behind the end token. -/
theorem readFrom_next {t : Token} (ht : toks[pos]? = some t) (hkind : t.kind ≠ .endOfText) :
    readFrom pos (next toks) = some (.ok t, pos + 1) := by
  rw [next, readFrom_bind_ok (readFrom_peek ht), if_pos hkind]
  rfl

/-- Looking at a token does not move the position. -/
theorem completes_peek {t : Token} {k : Token → Cursor α} (ht : toks[pos]? = some t)
    (hk : Completes toks pos (k t) Q) : Completes toks pos (peek toks >>= k) Q := by
  obtain ⟨outcome, pos', hread, hwithin⟩ := hk
  rw [← readFrom_bind_ok (readFrom_peek ht)] at hread
  exact ⟨outcome, pos', hread, hwithin⟩

/-- Behind a token that is not the end. -/
theorem completes_next {t : Token} {k : Token → Cursor α} (ht : toks[pos]? = some t)
    (hkind : t.kind ≠ .endOfText) (hk : Completes toks (pos + 1) (k t) Q) :
    Completes toks pos (next toks >>= k) Q := by
  obtain ⟨outcome, pos', hread, hle, hwithin⟩ := hk
  rw [← readFrom_bind_ok (readFrom_next ht hkind)] at hread
  exact ⟨outcome, pos', hread, by omega, hwithin⟩

end Completes

/-! ### Reading by positions and reading what is left -/

/-- A reading by positions does what a reader makes of the tokens from the position on: it
gives the same value and stops where the rest of the tokens begins, or reports the same
error. -/
def Simulates {α : Type} (toks : List Token) (pos : Nat) (p : Cursor α)
    (r : Except EvalError (α × List Token)) : Prop :=
  Completes toks pos p fun outcome pos' => r = outcome.map fun a => (a, toks.drop pos')

/-- As before, where a token is used up by every reading that gives a value. -/
def Consumes {α : Type} (toks : List Token) (pos : Nat) (p : Cursor α)
    (r : Except EvalError (α × List Token)) : Prop :=
  Completes toks pos p fun outcome pos' =>
    (∀ a, outcome = .ok a → pos < pos') ∧ r = outcome.map fun a => (a, toks.drop pos')

section Simulates

variable {α β : Type} {toks : List Token} {pos : Nat} {p : Cursor α} {k : α → Cursor β}
  {r : Except EvalError (α × List Token)}

theorem simulates_pure {a : α} (hpos : pos < toks.length) :
    Simulates toks pos (pure a) (.ok (a, toks.drop pos)) :=
  completes_pure hpos rfl

/-- What goes on where the first part has come to may be simulated part by part. -/
theorem Simulates.bind {k' : α × List Token → Except EvalError (β × List Token)}
    (hp : Simulates toks pos p r)
    (hk : ∀ a pos', pos ≤ pos' → pos' < toks.length → r = .ok (a, toks.drop pos') →
      Simulates toks pos' (k a) (k' (a, toks.drop pos'))) :
    Simulates toks pos (p >>= k) (r >>= k') := by
  apply Completes.bind hp
  · intro a pos' hle hlt hr
    have hread := hk a pos' hle hlt hr
    rw [hr]
    exact hread
  · intro e pos' hr
    rw [hr]
    rfl

theorem Simulates.map {f : α → β} (hp : Simulates toks pos p r) :
    Simulates toks pos (do return f (← p)) (r.map fun (a, rest) => (f a, rest)) := by
  apply Completes.bind hp
  · intro a pos' hle hlt hr
    rw [hr]
    exact simulates_pure hlt
  · intro e pos' hr
    rw [hr]
    rfl

/-- A computation moves nowhere, whether it fails or not. -/
theorem simulates_computed (v : Except EvalError Float) (hpos : pos < toks.length) :
    Simulates toks pos (computed v) (v.map fun x => (x, toks.drop pos)) := by
  cases v with
  | error e => exact completes_throw hpos rfl
  | ok x => exact completes_pure hpos rfl

end Simulates

/-! ### Single tokens -/

/-- The last token is an end token. -/
def EndsWithEnd (toks : List Token) : Prop :=
  ∃ t, toks.getLast? = some t ∧ t.kind = .endOfText

section Tokens

variable {ctx : Context} {toks : List Token} {pos : Nat} {t : Token}

theorem EndsWithEnd.length_pos (hend : EndsWithEnd toks) : 0 < toks.length := by
  obtain ⟨e, hlast, -⟩ := hend
  exact List.length_pos_iff.2 fun h => by simp [h] at hlast

/-- The end is not passed. -/
theorem EndsWithEnd.succ_lt (hend : EndsWithEnd toks) (ht : toks[pos]? = some t)
    (hkind : t.kind ≠ .endOfText) : pos + 1 < toks.length := by
  obtain ⟨e, hlast, he⟩ := hend
  have hpos : pos < toks.length := (List.getElem?_eq_some_iff.1 ht).1
  by_contra hge
  -- the position would be that of the last token, which is an end token
  have hindex : pos = toks.length - 1 := by omega
  rw [List.getLast?_eq_getElem?, ← hindex, ht] at hlast
  cases hlast
  exact hkind he

theorem drop_eq_cons (ht : toks[pos]? = some t) : toks.drop pos = t :: toks.drop (pos + 1) := by
  obtain ⟨hpos, rfl⟩ := List.getElem?_eq_some_iff.1 ht
  exact List.drop_eq_getElem_cons hpos

/-- Within the tokens there is one to look at. -/
theorem exists_token (hpos : pos < toks.length) : ∃ t, toks[pos]? = some t :=
  ⟨toks[pos], List.getElem?_eq_getElem hpos⟩

/-- Both report the token at which they stand. -/
theorem simulates_unexpected {α : Type} (ht : toks[pos]? = some t) :
    Simulates toks pos (unexpected ctx toks : Cursor α)
      (.error (Arithmetic.unexpected ctx (toks.drop pos))) := by
  have hpos : pos < toks.length := (List.getElem?_eq_some_iff.1 ht).1
  rw [drop_eq_cons ht]
  exact completes_peek ht (completes_throw hpos rfl)

/-- An expected character, and what is read behind it. -/
theorem simulates_expect (hend : EndsWithEnd toks) (hpos : pos < toks.length) (c : Char)
    {α : Type} {p : Cursor α} {k' : List Token → Except EvalError (α × List Token)}
    (hp : pos + 1 < toks.length → Simulates toks (pos + 1) p (k' (toks.drop (pos + 1)))) :
    Simulates toks pos (expect ctx toks c >>= fun _ => p)
      (plainExpect ctx c (toks.drop pos) >>= k') := by
  obtain ⟨t, ht⟩ := exists_token hpos
  rw [drop_eq_cons ht, expect, bind_assoc]
  apply completes_peek ht
  by_cases hc : t.kind = .symbol c
  · have hkind : t.kind ≠ .endOfText := by simp [hc]
    rw [Arithmetic.plainExpect_cons hc, if_pos hc, bind_assoc]
    exact completes_next ht hkind (hp (hend.succ_lt ht hkind))
  · have hfail : plainExpect ctx c (t :: toks.drop (pos + 1)) =
        .error (Arithmetic.unexpected ctx (t :: toks.drop (pos + 1))) := by
      rw [plainExpect, Arithmetic.expect, if_neg hc]
      rfl
    rw [hfail, if_neg hc, ← drop_eq_cons ht]
    apply Completes.bind (simulates_unexpected ht)
    · intro a pos' hle hlt hr
      cases hr
    · intro e pos' hr
      cases hr
      rfl

/-- An expected character that nothing is read behind. -/
theorem simulates_expect_return (hend : EndsWithEnd toks) (hpos : pos < toks.length) (c : Char)
    {α : Type} (a : α) :
    Simulates toks pos (do expect ctx toks c; return a)
      ((plainExpect ctx c (toks.drop pos)).map fun rest => (a, rest)) := by
  have hmap : (plainExpect ctx c (toks.drop pos)).map (fun rest => (a, rest)) =
      (plainExpect ctx c (toks.drop pos) >>= fun rest => .ok (a, rest)) := by
    cases plainExpect ctx c (toks.drop pos) <;> rfl
  rw [hmap]
  exact simulates_expect hend hpos c simulates_pure

theorem simulates_expect_unit (hend : EndsWithEnd toks) (hpos : pos < toks.length) (c : Char) :
    Simulates toks pos (expect ctx toks c)
      ((plainExpect ctx c (toks.drop pos)).map fun rest => ((), rest)) := by
  have h : Simulates toks pos (do expect ctx toks c; return ()) _ :=
    simulates_expect_return hend hpos c ()
  rwa [bind_pure_unit] at h

end Tokens

/-! ### Expressions of at least a given precedence -/

open Arithmetic in
/-- The expressions of at least a given precedence: sums, products, or operands with signs. -/
def climbed (ctx : Context) (least : Nat) (ts : List Token) :
    Except EvalError (Float × List Token) :=
  if least ≤ 1 then plain (sum ctx ts)
  else if least = 2 then plain (product ctx ts)
  else plain (unary ctx ts)

open Arithmetic in
/-- What is read behind the first operand. -/
def climbedTail (ctx : Context) (least : Nat) (x : Float) (ts : List Token) :
    Except EvalError (Float × List Token) :=
  if least ≤ 1 then do
    let (y, rest) ← plain (productTail ctx x ts)
    plain (sumTail ctx y rest)
  else if least = 2 then plain (productTail ctx x ts)
  else .ok (x, ts)

section Climbed

open Arithmetic

variable {ctx : Context} {least level : Nat} {t : Token} {ts rest : List Token} {op : Operator}

/-- Climbing begins with a signed operand and goes on with the operators behind it. -/
theorem climbed_eq_bind (ctx : Context) (least : Nat) (ts : List Token) :
    climbed ctx least ts = (do
      let (x, rest) ← plain (unary ctx ts)
      climbedTail ctx least x rest) := by
  unfold climbed climbedTail
  split
  · rw [plain_sum, plain_product]
    cases plain (unary ctx ts) <;> rfl
  · split
    · rw [plain_product]
    · cases plain (unary ctx ts) <;> rfl

/-- The precedence of an operator says whether it is one of sums or of products. -/
theorem precedence?_cases (k : TokenKind) :
    (precedence? k = none ∧ sumOperator? k = none ∧ productOperator? k = none) ∨
    (∃ op, precedence? k = some (op, 1) ∧ sumOperator? k = some op ∧
      productOperator? k = none) ∨
    (∃ op, precedence? k = some (op, 2) ∧ sumOperator? k = none ∧
      productOperator? k = some op) := by
  unfold precedence? sumOperator? productOperator?
  by_cases hadd : k = .symbol '+'
  · simp [hadd]
  · by_cases hsub : k = .symbol '-'
    · simp [hsub]
    · by_cases hmul : k = .symbol '*'
      · simp [hmul]
      · by_cases hdiv : k = .symbol '/' <;> simp [hadd, hsub, hmul, hdiv]

/-- Behind a product there is no operator of products. -/
theorem head_of_productTail {x y : Float} (h : plain (productTail ctx x ts) = .ok (y, rest)) :
    ∀ t ∈ rest.head?, productOperator? t.kind = none := by
  -- a right operand uses up tokens, and what is read behind it is another tail
  induction hlength : ts.length using Nat.strongRecOn generalizing ts x with
  | _ n ih =>
      subst hlength
      cases ts with
      | nil =>
          rw [plain_productTail_nil] at h
          cases h
          simp
      | cons t ts =>
          cases hop : productOperator? t.kind with
          | none =>
              rw [plain_productTail_end ctx x ts hop] at h
              cases h
              simpa using hop
          | some op =>
              rw [plain_productTail_more ctx x ts hop] at h
              obtain ⟨⟨z, mid⟩, hz, hmid⟩ := Except.bind_eq_ok_iff.1 h
              have hlt : mid.length < ts.length := of_plain_eq_ok hz
              exact ih mid.length (Nat.lt_succ_of_lt hlt) hmid rfl

/-- Behind a product no product operator is left to read. -/
theorem productTail_of_product {y : Float} (h : plain (product ctx ts) = .ok (y, rest))
    (x : Float) : plain (productTail ctx x rest) = .ok (x, rest) := by
  rw [plain_product] at h
  obtain ⟨⟨z, mid⟩, -, hmid⟩ := Except.bind_eq_ok_iff.1 h
  have hhead := head_of_productTail hmid
  cases rest with
  | nil => exact plain_productTail_nil ctx x
  | cons t rest => exact plain_productTail_end ctx x rest (hhead t rfl)

/-- Where no operator of the precedence follows, nothing more is read. -/
theorem climbedTail_stop (x : Float) (ts : List Token)
    (ht : ∀ op level, precedence? t.kind = some (op, level) → level < least) :
    climbedTail ctx least x (t :: ts) = .ok (x, t :: ts) := by
  unfold climbedTail
  rcases precedence?_cases t.kind with ⟨-, hsum, hproduct⟩ | ⟨op, hop, -, hproduct⟩ |
    ⟨op, hop, -, -⟩
  · rw [plain_productTail_end ctx x ts hproduct]
    split
    · exact plain_sumTail_end ctx x ts hsum
    · split <;> rfl
  · have hlevel := ht op 1 hop
    rw [if_neg (by omega), plain_productTail_end ctx x ts hproduct]
    split <;> rfl
  · have hlevel := ht op 2 hop
    rw [if_neg (by omega), if_neg (by omega)]

/-- An operator of the precedence is read with its right operand, and goes on from there. -/
theorem climbedTail_more (x : Float) (ts : List Token)
    (ht : precedence? t.kind = some (op, level)) (hlevel : least ≤ level) :
    climbedTail ctx least x (t :: ts) = (do
      let (y, rest) ← climbed ctx (level + 1) ts
      climbedTail ctx least (op.apply x y) rest) := by
  rcases precedence?_cases t.kind with ⟨hnone, -⟩ | ⟨op', hop, hsum, hproduct⟩ |
    ⟨op', hop, -, hproduct⟩
  · rw [hnone] at ht
    cases ht
  · rw [hop] at ht
    cases ht
    have hright : climbed ctx 2 ts = plain (product ctx ts) := rfl
    simp only [climbedTail, if_pos hlevel]
    rw [plain_productTail_end ctx x ts hproduct, hright]
    show plain (sumTail ctx x (t :: ts)) = _
    rw [plain_sumTail_more ctx x ts hsum]
    -- no operator of products is left to read behind the right operand
    cases hy : plain (product ctx ts) with
    | error e => rfl
    | ok p =>
        obtain ⟨y, rest⟩ := p
        show _ = (plain (productTail ctx (op.apply x y) rest) >>= _)
        rw [productTail_of_product hy]
        rfl
  · rw [hop] at ht
    cases ht
    have hright : climbed ctx 3 ts = plain (unary ctx ts) := rfl
    unfold climbedTail
    rw [plain_productTail_more ctx x ts hproduct, hright]
    split
    · cases plain (unary ctx ts) <;> rfl
    · have hleast : least = 2 := by omega
      rw [if_pos hleast]
      simp only [if_pos hleast]

end Climbed

/-! ### Arguments -/

section Arguments

variable (ctx : Context) (toks : List Token) (read : Cursor Float)

theorem arguments_one (opening closing : Char) :
    arguments ctx toks read opening closing 1 =
      (do return [← enclosed ctx toks read opening closing]) := by
  simp [arguments, argumentsFrom, enclosed]

theorem call_sqrt :
    call ctx toks read .sqrt = (do return (← enclosed ctx toks read '(' ')').sqrt) := by
  simp [call, arguments_one]

theorem call_log :
    call ctx toks read .log = (do
      let base ← enclosed ctx toks read '[' ']'
      return Builtin.logBase base (← enclosed ctx toks read '(' ')')) := by
  simp [call, arguments_one]

/-- The two arguments of a power stand in one pair of brackets. -/
theorem call_pow :
    call ctx toks read .pow = (do
      expect ctx toks '('
      let x ← read
      expect ctx toks ','
      let y ← read
      expect ctx toks ')'
      return x.pow y) := by
  simp [call, arguments, argumentsFrom]

end Arguments

section Reading

open Arithmetic

variable {ctx : Context} {toks : List Token} {read : Cursor Float} {pos : Nat}

/-- From the position on, a reading reads sums. -/
def ReadsSums (ctx : Context) (toks : List Token) (read : Cursor Float) (pos : Nat) : Prop :=
  ∀ pos', pos ≤ pos' → pos' < toks.length →
    Simulates toks pos' read (plain (sum ctx (toks.drop pos')))

theorem ReadsSums.mono {pos' : Nat} (h : ReadsSums ctx toks read pos) (hle : pos ≤ pos') :
    ReadsSums ctx toks read pos' :=
  fun pos'' hle' => h pos'' (Nat.le_trans hle hle')

/-- What stands in brackets is read one token further on. -/
theorem simulates_enclosed (hend : EndsWithEnd toks) (hpos : pos < toks.length)
    (hread : ReadsSums ctx toks read (pos + 1)) (opening closing : Char) :
    Simulates toks pos (enclosed ctx toks read opening closing)
      (plain (bracketed ctx opening closing (toks.drop pos))) := by
  rw [plain_bracketed]
  refine simulates_expect hend hpos opening fun hlt => ?_
  refine (hread (pos + 1) (Nat.le_refl _) hlt).bind ?_
  intro x pos' _ hlt' _
  exact simulates_expect_return hend hlt' closing x

/-- Calls are read argument by argument. -/
theorem simulates_call (hend : EndsWithEnd toks) (hpos : pos < toks.length)
    (hread : ReadsSums ctx toks read (pos + 1)) (f : Builtin) :
    Simulates toks pos (call ctx toks read f)
      (plain (Arithmetic.call ctx f (toks.drop pos))) := by
  cases f with
  | pow =>
      rw [call_pow, plain_call_pow]
      refine simulates_expect hend hpos '(' fun hlt₁ => ?_
      refine (hread (pos + 1) (Nat.le_refl _) hlt₁).bind ?_
      intro x pos₂ hle₂ hlt₂ _
      refine simulates_expect hend hlt₂ ',' fun hlt₃ => ?_
      refine (hread (pos₂ + 1) (by omega) hlt₃).bind ?_
      intro y pos₄ _ hlt₄ _
      exact simulates_expect_return hend hlt₄ ')' (x.pow y)
  | sqrt =>
      rw [call_sqrt, plain_call_sqrt]
      exact (simulates_enclosed hend hpos hread '(' ')').map
  | log =>
      rw [call_log, plain_call_log]
      refine (simulates_enclosed hend hpos hread '[' ']').bind ?_
      intro base pos' hle hlt _
      exact (simulates_enclosed hend hlt (hread.mono (Nat.succ_le_succ hle)) '(' ')').map

/-- Each argument is read behind the one before it, and none is left out. -/
theorem completes_argumentsFrom (hend : EndsWithEnd toks) (hpos : pos < toks.length)
    (hread : ReadsSums ctx toks read pos) (i left : Nat) :
    Completes toks pos (argumentsFrom ctx toks read i left) fun outcome _ =>
      ∀ xs, outcome = .ok xs → xs.length = left := by
  induction left generalizing i pos with
  | zero => exact completes_pure hpos fun xs h => by cases h; rfl
  | succ left ih =>
      -- what follows is the same with and without a comma in front
      have hmore : ∀ pos₁, pos ≤ pos₁ → pos₁ < toks.length →
          Completes toks pos₁ (do
            let x ← read
            let xs ← argumentsFrom ctx toks read (i + 1) left
            return x :: xs) fun outcome _ =>
              ∀ xs, outcome = .ok xs → xs.length = left + 1 := by
        intro pos₁ hle₁ hlt₁
        refine Completes.bind_value (hread pos₁ hle₁ hlt₁) fun x pos₂ hle₂ hlt₂ _ => ?_
        have hread₂ := hread.mono (Nat.le_trans hle₁ hle₂)
        refine (ih hlt₂ hread₂ (i + 1)).bind_value fun xs pos₃ _ hlt₃ hxs => ?_
        exact completes_pure hlt₃ fun ys h => by cases h; simp [hxs xs rfl]
      rw [argumentsFrom]
      split
      · exact Completes.bind_value (simulates_expect_unit hend hpos ',')
          fun _ pos₁ hle₁ hlt₁ _ => hmore pos₁ hle₁ hlt₁
      · exact hmore pos (Nat.le_refl pos) hpos

/-- As many arguments are read as are asked for. -/
theorem completes_arguments (hend : EndsWithEnd toks) (hpos : pos < toks.length)
    (hread : ReadsSums ctx toks read pos) (opening closing : Char) (n : Nat) :
    Completes toks pos (arguments ctx toks read opening closing n) fun outcome _ =>
      ∀ xs, outcome = .ok xs → xs.length = n := by
  rw [arguments]
  refine Completes.bind_value (simulates_expect_unit hend hpos opening)
    fun _ pos₁ hle₁ hlt₁ _ => ?_
  refine (completes_argumentsFrom hend hlt₁ (hread.mono hle₁) 0 n).bind_value
    fun xs pos₂ _ hlt₂ hxs => ?_
  refine Completes.bind_value (simulates_expect_unit hend hlt₂ closing)
    fun _ pos₃ _ hlt₃ _ => ?_
  exact completes_pure hlt₃ fun ys h => by cases h; exact hxs xs rfl

end Reading

/-! ### One position after the other -/

section Positions

open Arithmetic

variable {ctx : Context} {toks : List Token} {pos depth : Nat}

/-- From the position on, expressions of every precedence are read alike, if there is room
for three nested calls for each token that is left.  The parts of an expression are one or
two calls deeper than the whole. -/
structure Agrees (ctx : Context) (toks : List Token) (pos : Nat) : Prop where
  signed : ∀ depth, 3 * (toks.length - pos) ≤ depth + 1 →
    Simulates toks pos (signed ctx toks depth) (plain (unary ctx (toks.drop pos)))
  expression : ∀ depth least, 3 * (toks.length - pos) ≤ depth →
    Simulates toks pos (expression ctx toks depth least) (climbed ctx least (toks.drop pos))
  operators : ∀ depth least x, 3 * (toks.length - pos) ≤ depth + 2 →
    Simulates toks pos (operators ctx toks depth least x)
      (climbedTail ctx least x (toks.drop pos))

/-- With depth enough for the tokens that are left, sums are read from every later position.
-/
theorem readsSums (h : ∀ pos', pos ≤ pos' → pos' < toks.length → Agrees ctx toks pos')
    (hdepth : 3 * (toks.length - pos) ≤ depth) :
    ReadsSums ctx toks (expression ctx toks depth 1) pos :=
  fun pos' hle hlt => (h pos' hle hlt).expression depth 1 (by omega)

/-- A name calls a function if a bracket is the token behind it. -/
theorem called?_drop {t : Token} (ht : toks[pos]? = some t) (name : Text) :
    called? name (toks.drop pos) =
      if t.kind = .symbol '(' ∨ t.kind = .symbol '[' then Builtin.ofName? name else none := by
  rw [drop_eq_cons ht, called?, startsWithBracket]
  simp

/-- One level for an operand, if the levels below it agree. -/
theorem simulates_operand (hend : EndsWithEnd toks) (hpos : pos < toks.length)
    (hbehind : ∀ pos', pos < pos' → pos' < toks.length → Agrees ctx toks pos')
    (hdepth : 3 * (toks.length - pos) ≤ depth + 2) :
    Simulates toks pos (operand ctx toks depth) (plain (primary ctx (toks.drop pos))) := by
  obtain ⟨depth, rfl⟩ : ∃ d, depth = d + 1 := ⟨depth - 1, by omega⟩
  have hread : ReadsSums ctx toks (expression ctx toks depth 1) (pos + 1) :=
    readsSums (fun pos' h => hbehind pos' h) (by omega)
  obtain ⟨t, ht⟩ := exists_token hpos
  rw [operand]
  apply completes_peek ht
  split
  case h_1 hkind =>
    have hne : t.kind ≠ .endOfText := by simp [hkind]
    rw [drop_eq_cons ht, plain_primary_number ctx _ hkind]
    exact completes_next ht hne (simulates_computed _ (hend.succ_lt ht hne))
  case h_2 hkind =>
    have hne : t.kind ≠ .endOfText := by simp [hkind]
    have hlt := hend.succ_lt ht hne
    -- a name is not the end, so there is a token behind it to look at
    obtain ⟨u, hu⟩ := exists_token hlt
    have hcalled := called?_drop hu t.lexeme
    rw [drop_eq_cons ht]
    apply completes_next ht hne
    cases hf : Builtin.ofName? t.lexeme with
    | none =>
        rw [hf, ite_self] at hcalled
        rw [plain_primary_name ctx _ hkind hcalled]
        exact simulates_computed _ hlt
    | some f =>
        rw [hf] at hcalled
        apply completes_peek hu
        by_cases hbracket : u.kind = .symbol '(' ∨ u.kind = .symbol '['
        · rw [if_pos hbracket] at hcalled ⊢
          rw [plain_primary_call ctx _ hkind hcalled]
          exact simulates_call hend hlt (hread.mono (Nat.le_succ _)) f
        · rw [if_neg hbracket] at hcalled ⊢
          rw [plain_primary_name ctx _ hkind hcalled]
          exact simulates_computed _ hlt
  case h_3 hkind =>
    have hne : t.kind ≠ .endOfText := by simp [hkind]
    rw [drop_eq_cons ht, plain_primary_group ctx _ hkind]
    apply completes_next ht hne
    refine (hread (pos + 1) (Nat.le_refl _) (hend.succ_lt ht hne)).bind ?_
    intro x pos' _ hlt' _
    exact simulates_expect_return hend hlt' ')' x
  case h_4 hnumber hidentifier hopening =>
    have herror := plain_primary_other ctx (toks.drop (pos + 1)) hnumber hidentifier hopening
    rw [← drop_eq_cons ht] at herror
    rw [herror]
    exact simulates_unexpected ht

/-- The same with the signs in front. -/
theorem simulates_signed (hend : EndsWithEnd toks) (hpos : pos < toks.length)
    (hbehind : ∀ pos', pos < pos' → pos' < toks.length → Agrees ctx toks pos')
    (hdepth : 3 * (toks.length - pos) ≤ depth + 1) :
    Simulates toks pos (signed ctx toks depth) (plain (unary ctx (toks.drop pos))) := by
  obtain ⟨depth, rfl⟩ : ∃ d, depth = d + 1 := ⟨depth - 1, by omega⟩
  obtain ⟨t, ht⟩ := exists_token hpos
  have hbehind' : t.kind ≠ .endOfText → Agrees ctx toks (pos + 1) :=
    fun hne => hbehind (pos + 1) (Nat.lt_succ_self pos) (hend.succ_lt ht hne)
  rw [Climbing.signed]
  apply completes_peek ht
  by_cases hminus : t.kind = .symbol '-'
  · have hne : t.kind ≠ .endOfText := by simp [hminus]
    rw [if_pos hminus, drop_eq_cons ht, plain_unary_minus ctx _ hminus]
    exact completes_next ht hne ((hbehind' hne).signed depth (by omega)).map
  · rw [if_neg hminus]
    by_cases hplus : t.kind = .symbol '+'
    · have hne : t.kind ≠ .endOfText := by simp [hplus]
      rw [if_pos hplus, drop_eq_cons ht, plain_unary_plus ctx _ hplus]
      exact completes_next ht hne ((hbehind' hne).signed depth (by omega))
    · rw [if_neg hplus, drop_eq_cons ht, plain_unary_primary ctx _ hminus hplus,
        ← drop_eq_cons ht]
      exact simulates_operand hend hpos hbehind hdepth

/-- The operators behind an operand, from the least binding on that is asked for. -/
theorem simulates_operators (hend : EndsWithEnd toks) (hpos : pos < toks.length)
    (hbehind : ∀ pos', pos < pos' → pos' < toks.length → Agrees ctx toks pos')
    (least : Nat) (x : Float) (hdepth : 3 * (toks.length - pos) ≤ depth + 2) :
    Simulates toks pos (operators ctx toks depth least x)
      (climbedTail ctx least x (toks.drop pos)) := by
  obtain ⟨depth, rfl⟩ : ∃ d, depth = d + 1 := ⟨depth - 1, by omega⟩
  obtain ⟨t, ht⟩ := exists_token hpos
  rw [Climbing.operators]
  apply completes_peek ht
  cases hprecedence : precedence? t.kind with
  | none =>
      rw [drop_eq_cons ht, climbedTail_stop x _ (by simp [hprecedence]), ← drop_eq_cons ht]
      exact simulates_pure hpos
  | some p =>
      obtain ⟨op, level⟩ := p
      by_cases hlevel : level < least
      · have hstop : ∀ op' level', precedence? t.kind = some (op', level') → level' < least := by
          intro op' level' h
          cases hprecedence.symm.trans h
          exact hlevel
        rw [drop_eq_cons ht, climbedTail_stop x _ hstop, ← drop_eq_cons ht]
        simp only [if_pos hlevel]
        exact simulates_pure hpos
      · have hne : t.kind ≠ .endOfText := by
          intro hkind
          simp [hkind, precedence?] at hprecedence
        have hright := hbehind (pos + 1) (Nat.lt_succ_self pos) (hend.succ_lt ht hne)
        rw [drop_eq_cons ht, climbedTail_more x _ hprecedence (Nat.le_of_not_lt hlevel)]
        simp only [if_neg hlevel]
        apply completes_next ht hne
        -- The right operand takes only what binds tighter; the loop then goes on from behind it,
        -- where less is left, with the least binding it started with.
        refine (hright.expression depth (level + 1) (by omega)).bind ?_
        intro y pos' hle hlt' _
        exact (hbehind pos' (by omega) hlt').operators depth least (op.apply x y) (by omega)

/-- An operand and the operators behind it make an expression. -/
theorem simulates_expression (hend : EndsWithEnd toks) (hpos : pos < toks.length)
    (hbehind : ∀ pos', pos < pos' → pos' < toks.length → Agrees ctx toks pos')
    (least : Nat) (hdepth : 3 * (toks.length - pos) ≤ depth) :
    Simulates toks pos (expression ctx toks depth least)
      (climbed ctx least (toks.drop pos)) := by
  obtain ⟨depth, rfl⟩ : ∃ d, depth = d + 1 := ⟨depth - 1, by omega⟩
  rw [Climbing.expression, climbed_eq_bind]
  refine (simulates_signed hend hpos hbehind hdepth).bind fun x pos' _ hlt' hx => ?_
  -- the operand has used up a token, so its operators are read further behind
  have hfewer : (toks.drop pos').length < (toks.drop pos).length := of_plain_eq_ok hx
  simp only [List.length_drop] at hfewer
  exact (hbehind pos' (by omega) hlt').operators depth least x (by omega)

/-- Both read the same from every position, by induction from the end backwards. -/
theorem agrees (hend : EndsWithEnd toks) (hpos : pos < toks.length) : Agrees ctx toks pos := by
  induction hleft : toks.length - pos using Nat.strongRecOn generalizing pos with
  | _ n ih =>
      have hbehind : ∀ pos', pos < pos' → pos' < toks.length → Agrees ctx toks pos' :=
        fun pos' hlt hlt' => ih (toks.length - pos') (by omega) hlt' rfl
      exact {
        signed := fun _ => simulates_signed hend hpos hbehind
        expression := fun _ => simulates_expression hend hpos hbehind
        operators := fun _ => simulates_operators hend hpos hbehind }

/-- A whole text is read up to the end token, or not at all. -/
theorem completes_toEnd (hend : EndsWithEnd toks) (hpos : pos < toks.length)
    (hdepth : 3 * (toks.length - pos) ≤ depth) :
    Completes toks pos (toEnd ctx toks depth) fun outcome _ =>
      whole ctx (toks.drop pos) = outcome := by
  refine Completes.bind ((agrees hend hpos).expression depth 1 hdepth) ?_ ?_
  · intro x pos' _ hlt' hx
    have hsum : plain (sum ctx (toks.drop pos)) = .ok (x, toks.drop pos') := hx
    obtain ⟨t, ht⟩ := exists_token hlt'
    have hwhole : whole ctx (toks.drop pos) =
        (expectEnd ctx (t :: toks.drop (pos' + 1))).map fun _ => x := by
      rw [whole, hsum, drop_eq_cons ht]
      show (expectEnd ctx _ >>= _) = _
      cases expectEnd ctx (t :: toks.drop (pos' + 1)) <;> rfl
    apply completes_peek ht
    rw [hwhole, expectEnd]
    split
    · exact completes_pure hlt' rfl
    · exact completes_peek ht (completes_throw hlt' rfl)
  · intro e pos' he
    have hsum : plain (sum ctx (toks.drop pos)) = .error e := he
    rw [whole, hsum]
    rfl

theorem EndsWithEnd.of_tokenize {source : Text} (h : Expression.tokenize source = .ok toks) :
    EndsWithEnd toks := by
  obtain ⟨us, rfl, -⟩ := Lexer.tokens_eq_ok_iff.1 h
  exact ⟨.endOf source, by simp, rfl⟩

/-- Expressions of every precedence use up a token. -/
theorem length_lt_of_climbed {least : Nat} {ts rest : List Token} {x : Float}
    (h : climbed ctx least ts = .ok (x, rest)) : rest.length < ts.length := by
  unfold climbed at h
  split at h
  · exact of_plain_eq_ok h
  · split at h
    · exact of_plain_eq_ok h
    · exact of_plain_eq_ok h

/-- What leaves fewer tokens has moved the position on. -/
theorem Simulates.consumes {r : Except EvalError (Float × List Token)} {p : Cursor Float}
    (h : Simulates toks pos p r)
    (hr : ∀ x rest, r = .ok (x, rest) → rest.length < (toks.drop pos).length) :
    Consumes toks pos p r := by
  refine h.mono fun outcome pos' houtcome => ⟨?_, houtcome⟩
  intro x hx
  subst hx
  have hlt := hr x (toks.drop pos') houtcome
  simp only [List.length_drop] at hlt
  omega

/-- In a list of tokens that ends with an end token, reading from any position of the list
ends, at a position of the list that is not in front of it, without a look behind the last
token, and calls are not nested deeper than three for each token that is left.  Expressions
of every precedence, operands with or without signs and calls use up a token unless they
report an error, and are read as by the readers that are given the tokens from the position
on; and as many arguments are read as are asked for.  The tokens of a text are such a list,
so that an expression is evaluated this way. -/
theorem climbing_within_tokens (ctx : Context) :
    (∀ toks pos depth, EndsWithEnd toks → pos < toks.length →
      3 * (toks.length - pos) ≤ depth →
      (∀ least, Consumes toks pos (expression ctx toks depth least)
        (climbed ctx least (toks.drop pos))) ∧
      Consumes toks pos (signed ctx toks depth) (plain (unary ctx (toks.drop pos))) ∧
      Consumes toks pos (operand ctx toks depth) (plain (primary ctx (toks.drop pos))) ∧
      (∀ f, Consumes toks pos (call ctx toks (expression ctx toks depth 1) f)
        (plain (Arithmetic.call ctx f (toks.drop pos)))) ∧
      (∀ opening closing n, Completes toks pos
        (arguments ctx toks (expression ctx toks depth 1) opening closing n)
        fun outcome _ => ∀ xs, outcome = .ok xs → xs.length = n)) ∧
    (∀ toks depth, Expression.tokenize ctx.source = .ok toks → 3 * toks.length ≤ depth →
      EndsWithEnd toks ∧ Completes toks 0 (toEnd ctx toks depth) fun outcome _ =>
        evaluate ctx.store ctx.source = outcome) := by
  constructor
  · intro toks pos depth hend hpos hdepth
    have hagrees : Agrees ctx toks pos := agrees hend hpos
    have hread : ReadsSums ctx toks (expression ctx toks depth 1) pos :=
      readsSums (fun _ _ hlt => agrees hend hlt) hdepth
    refine ⟨fun least => ?_, ?_, ?_, fun f => ?_, completes_arguments hend hpos hread⟩
    · exact (hagrees.expression depth least hdepth).consumes fun _ _ => length_lt_of_climbed
    · exact (hagrees.signed depth (by omega)).consumes fun _ _ => of_plain_eq_ok
    · exact (simulates_operand hend hpos (fun _ _ hlt => agrees hend hlt) (by omega)).consumes
        fun _ _ => of_plain_eq_ok
    · exact (simulates_call hend hpos (hread.mono (Nat.le_succ pos)) f).consumes
        fun _ _ => of_plain_eq_ok
  · intro toks depth htokens hdepth
    have hend := EndsWithEnd.of_tokenize htokens
    refine ⟨hend, ?_⟩
    rw [evaluate_eq_whole ctx.store htokens]
    exact completes_toEnd hend hend.length_pos hdepth

/-- The tokens of a call that is not closed. -/
def openCall : List Token :=
  [⟨.identifier, "pow", ⟨0, 3⟩⟩, ⟨.symbol '(', "(", ⟨3, 4⟩⟩, ⟨.number, "2", ⟨4, 5⟩⟩,
    ⟨.symbol ',', ",", ⟨5, 6⟩⟩, ⟨.endOfText, [], ⟨6, 6⟩⟩]

/-- An argument that is missing is looked for at the end token, where the position stays. -/
theorem climbing_within_tokens_open_call :
    Expression.tokenize "pow(2," = .ok openCall ∧ EndsWithEnd openCall ∧
    Consumes openCall 4 (operand ⟨.empty, "pow(2,"⟩ openCall 3)
      (plain (primary ⟨.empty, "pow(2,"⟩ (openCall.drop 4))) ∧
    Completes openCall 0 (toEnd ⟨.empty, "pow(2,"⟩ openCall 15) fun outcome _ =>
      evaluate .empty "pow(2," = outcome := by
  have htokens : Expression.tokenize "pow(2," = .ok openCall := by decide +kernel
  obtain ⟨hread, hevaluate⟩ := climbing_within_tokens ⟨.empty, "pow(2,"⟩
  obtain ⟨hend, htoEnd⟩ := hevaluate openCall 15 htokens (by decide)
  obtain ⟨-, -, hoperand, -⟩ := hread openCall 4 3 hend (by decide) (by decide)
  exact ⟨htokens, hend, hoperand, htoEnd⟩

end Positions

end Climbing

end LineScript
