/-
LineScript/Proofs/Correspondence.lean

Two readings of an expression side by side.

The readers of expressions look at the kind and the text of tokens, at the values of
variables, and, when they fail, at the place of a token and at the source.  So the reading
of other tokens that have the same kinds and texts, with other variables and another
source, takes the same course as long as the variables agree (`Compared`): both find the
same value and leave corresponding tokens, or both fail (`parallel_sum`).  How their errors
are related, and what is known of the tokens that are left, is up to the comparison:

* errors may have to be equal, or only of the same kind;
* compared with itself, a reading tells which errors it can end with.
-/
import LineScript.Proofs.Reading

namespace LineScript

/-! ### Results that correspond -/

/-- Two computations that both give something, related by `R`, or both fail, with errors
related by `E`. -/
inductive Corresponds {α β : Type} (E : EvalError → EvalError → Prop) (R : α → β → Prop) :
    Except EvalError α → Except EvalError β → Prop where
  | ok {a : α} {b : β} : R a b → Corresponds E R (.ok a) (.ok b)
  | error {e e' : EvalError} : E e e' → Corresponds E R (.error e) (.error e')

namespace Corresponds

variable {α β γ δ : Type} {E : EvalError → EvalError → Prop} {R : α → β → Prop}
  {S : γ → δ → Prop} {r : Except EvalError α} {r' : Except EvalError β}

/-- What corresponds may be continued by what corresponds. -/
theorem bind (h : Corresponds E R r r') {k : α → Except EvalError γ}
    {k' : β → Except EvalError δ}
    (hk : ∀ a b, r = .ok a → R a b → Corresponds E S (k a) (k' b)) :
    Corresponds E S (r >>= k) (r' >>= k') := by
  cases h with
  | ok hab => exact hk _ _ rfl hab
  | error he => exact .error he

/-- Results that are related may be computed with in related ways. -/
theorem map (h : Corresponds E R r r') {f : α → γ} {g : β → δ}
    (hfg : ∀ a b, R a b → S (f a) (g b)) : Corresponds E S (r.map f) (r'.map g) := by
  cases h with
  | ok hab => exact .ok (hfg _ _ hab)
  | error he => exact .error he

/-- Results that correspond up to equality are equal. -/
theorem eq {r r' : Except EvalError α} (h : Corresponds Eq Eq r r') : r = r' := by
  cases h with
  | ok hab => rw [hab]
  | error he => rw [he]

theorem mapError_eq {κ : Type} {f : EvalError → κ} {r r' : Except EvalError α}
    (h : Corresponds (fun e e' => f e = f e') Eq r r') : r.mapError f = r'.mapError f := by
  cases h with
  | ok hab => rw [hab]
  | error he => exact congrArg Except.error he

/-- A computation corresponds to itself if its errors do. -/
theorem self {r : Except EvalError α} (h : ∀ e, r = .error e → E e e) :
    Corresponds E Eq r r := by
  cases r with
  | ok a => exact .ok rfl
  | error e => exact .error (h e rfl)

end Corresponds

namespace Arithmetic

/-! ### What is compared -/

/-- Two ways of reading.  The second one is given the tokens of the first after a move that
keeps their kinds and texts.  `Q` is what is known of the tokens that are left to the first
one, and `E` relates the errors. -/
structure Compared (Q : List Token → Prop) (E : EvalError → EvalError → Prop)
    (move : Token → Token) (ctx ctx' : Context) : Prop where
  kind : ∀ t, (move t).kind = t.kind
  lexeme : ∀ t, (move t).lexeme = t.lexeme
  behind : ∀ t ts, Q (t :: ts) → t.kind ≠ .endOfText → Q ts
  unexpected : ∀ ts, Q ts → E (unexpected ctx ts) (unexpected ctx' (ts.map move))
  number : ∀ t ts, Q (t :: ts) → t.kind = .number →
    Corresponds E Eq (numberValue t.lexeme) (numberValue t.lexeme)
  name : ∀ t ts, Q (t :: ts) → t.kind = .identifier →
    Corresponds E Eq (variableValue ctx.store t.lexeme) (variableValue ctx'.store t.lexeme)

/-- The same value, and tokens that are left in the same place. -/
def Leaves (Q : List Token → Prop) (move : Token → Token) (p p' : Float × List Token) : Prop :=
  Q p.2 ∧ p' = (p.1, p.2.map move)

/-- Two readers side by side. -/
def Parallel (Q : List Token → Prop) (E : EvalError → EvalError → Prop)
    (move : Token → Token) (r r' : Except EvalError (Float × List Token)) : Prop :=
  Corresponds E (Leaves Q move) r r'

namespace Compared

variable {Q : List Token → Prop} {E : EvalError → EvalError → Prop} {move : Token → Token}
  {ctx ctx' : Context} (h : Compared Q E move ctx ctx') {t : Token} {ts : List Token}
include h

/-- The condition on tokens is kept when a symbol is read. -/
theorem behind_symbol {c : Char} (hq : Q (t :: ts)) (ht : t.kind = .symbol c) : Q ts :=
  h.behind t ts hq (by simp [ht])

theorem behind_sumOperator {op : Operator} (hq : Q (t :: ts))
    (hop : sumOperator? t.kind = some op) : Q ts := by
  refine h.behind t ts hq fun hend => ?_
  rw [hend] at hop
  cases hop

theorem behind_productOperator {op : Operator} (hq : Q (t :: ts))
    (hop : productOperator? t.kind = some op) : Q ts := by
  refine h.behind t ts hq fun hend => ?_
  rw [hend] at hop
  cases hop

/-- Moving tokens about does not change which function is called. -/
theorem called?_map (t : Token) (ts : List Token) :
    called? (move t).lexeme (ts.map move) = called? t.lexeme ts := by
  have hbracket : startsWithBracket (ts.map move) = startsWithBracket ts := by
    cases ts with
    | nil => rfl
    | cons u us => rw [List.map_cons, startsWithBracket, startsWithBracket, h.kind]
  rw [called?, called?, hbracket, h.lexeme]

/-- A character that is taken off the front. -/
theorem expected (c : Char) (hq : Q ts) :
    Corresponds E (fun rest rest' => Q rest ∧ rest' = rest.map move)
      (plainExpect ctx c ts) (plainExpect ctx' c (ts.map move)) := by
  cases ts with
  | nil => exact .error (h.unexpected [] hq)
  | cons t ts =>
      have herror := h.unexpected (t :: ts) hq
      rw [List.map_cons] at herror ⊢
      by_cases ht : t.kind = .symbol c
      · have ht' : (move t).kind = .symbol c := (h.kind t).trans ht
        rw [plainExpect_cons ht, plainExpect_cons ht']
        exact .ok ⟨h.behind_symbol hq ht, rfl⟩
      · have ht' : (move t).kind ≠ .symbol c := by rwa [h.kind t]
        rw [plainExpect, plainExpect, expect, expect, if_neg ht, if_neg ht']
        exact .error herror

/-- A character in front of what is read. -/
theorem opened {c : Char} {k k' : List Token → Except EvalError (Float × List Token)}
    (hq : Q ts)
    (hk : ∀ rest, rest.length < ts.length → Q rest →
      Parallel Q E move (k rest) (k' (rest.map move))) :
    Parallel Q E move (plainExpect ctx c ts >>= k)
      (plainExpect ctx' c (ts.map move) >>= k') := by
  apply (h.expected c hq).bind
  rintro rest _ hrest ⟨hq', rfl⟩
  obtain ⟨t, -, rfl⟩ := plainExpect_eq_ok_iff.1 hrest
  exact hk rest (Nat.lt_succ_self _) hq'

/-- A character behind what has been read. -/
theorem closed (x : Float) {c : Char} (hq : Q ts) :
    Parallel Q E move ((plainExpect ctx c ts).map fun rest => (x, rest))
      ((plainExpect ctx' c (ts.map move)).map fun rest => (x, rest)) := by
  apply (h.expected c hq).map
  rintro rest _ ⟨hq', rfl⟩
  exact ⟨hq', rfl⟩

end Compared

namespace Parallel

variable {Q : List Token → Prop} {E : EvalError → EvalError → Prop} {move : Token → Token}
  {r r' : Except EvalError (Float × List Token)} {ts : List Token}

theorem found (x : Float) (hq : Q ts) :
    Parallel Q E move (.ok (x, ts)) (.ok (x, ts.map move)) :=
  .ok ⟨hq, rfl⟩

/-- An operand that is one token. -/
theorem operand {v v' : Except EvalError Float} (hv : Corresponds E Eq v v') (hq : Q ts) :
    Parallel Q E move (v.map fun x => (x, ts)) (v'.map fun x => (x, ts.map move)) := by
  apply hv.map
  rintro x _ rfl
  exact ⟨hq, rfl⟩

/-- One reader behind another. -/
theorem andThen (hr : Parallel Q E move r r')
    {k k' : Float × List Token → Except EvalError (Float × List Token)}
    (hk : ∀ x rest, r = .ok (x, rest) → Q rest →
      Parallel Q E move (k (x, rest)) (k' (x, rest.map move))) :
    Parallel Q E move (r >>= k) (r' >>= k') := by
  apply hr.bind
  rintro ⟨x, rest⟩ _ hx ⟨hq, rfl⟩
  exact hk x rest hx hq

/-- A function of the value leaves the tokens that are left as they are. -/
theorem apply (hr : Parallel Q E move r r') (f : Float → Float) :
    Parallel Q E move (r.map fun (x, rest) => (f x, rest))
      (r'.map fun (x, rest) => (f x, rest)) := by
  apply hr.map
  rintro ⟨x, rest⟩ _ ⟨hq, rfl⟩
  exact ⟨hq, rfl⟩

end Parallel

/-! ### Sums -/

/-- A sum is read alike in two ways of reading. -/
theorem parallel_sum {Q : List Token → Prop} {E : EvalError → EvalError → Prop}
    {move : Token → Token} {ctx ctx' : Context} (h : Compared Q E move ctx ctx')
    {ts : List Token} (hts : Q ts) :
    Parallel Q E move (plain (sum ctx ts)) (plain (sum ctx' (ts.map move))) := by
  -- The cases are those of the readers, and each is put together as its reader is.
  refine (sum.mutual_induct
    (fun ts => Q ts →
      Parallel Q E move (plain (sum ctx ts)) (plain (sum ctx' (ts.map move))))
    (fun x ts => Q ts →
      Parallel Q E move (plain (sumTail ctx x ts)) (plain (sumTail ctx' x (ts.map move))))
    (fun ts => Q ts →
      Parallel Q E move (plain (product ctx ts)) (plain (product ctx' (ts.map move))))
    (fun x ts => Q ts →
      Parallel Q E move (plain (productTail ctx x ts))
        (plain (productTail ctx' x (ts.map move))))
    (fun ts => Q ts →
      Parallel Q E move (plain (unary ctx ts)) (plain (unary ctx' (ts.map move))))
    (fun ts => Q ts →
      Parallel Q E move (plain (primary ctx ts)) (plain (primary ctx' (ts.map move))))
    (fun f ts => Q ts →
      Parallel Q E move (plain (call ctx f ts)) (plain (call ctx' f (ts.map move))))
    (fun opening closing ts => Q ts →
      Parallel Q E move (plain (bracketed ctx opening closing ts))
        (plain (bracketed ctx' opening closing (ts.map move))))
    ?sum ?sumNil ?sumEnd ?sumMore ?product ?productNil ?productEnd ?productMore
    ?unaryNil ?minus ?plus ?unary ?primaryNil ?number ?call ?name ?group ?other
    ?pow ?sqrt ?log ?bracketed).1 ts hts
  case sum =>
    intro ts hproduct htail hq
    rw [plain_sum, plain_sum]
    exact (hproduct hq).andThen fun x rest hx => htail x rest (of_plain_eq_ok hx)
  case sumNil =>
    intro x hq
    rw [List.map_nil, plain_sumTail_nil, plain_sumTail_nil]
    exact .found x hq
  case sumEnd =>
    intro x t ts hop hq
    rw [List.map_cons, plain_sumTail_end ctx x ts hop,
      plain_sumTail_end ctx' x (ts.map move) (by rwa [h.kind])]
    exact .found x hq
  case sumMore =>
    intro x t ts op hop hproduct htail hq
    rw [List.map_cons, plain_sumTail_more ctx x ts hop,
      plain_sumTail_more ctx' x (ts.map move) (by rwa [h.kind])]
    exact (hproduct (h.behind_sumOperator hq hop)).andThen fun y rest hy =>
      htail y rest (of_plain_eq_ok hy)
  case product =>
    intro ts hunary htail hq
    rw [plain_product, plain_product]
    exact (hunary hq).andThen fun x rest hx => htail x rest (of_plain_eq_ok hx)
  case productNil =>
    intro x hq
    rw [List.map_nil, plain_productTail_nil, plain_productTail_nil]
    exact .found x hq
  case productEnd =>
    intro x t ts hop hq
    rw [List.map_cons, plain_productTail_end ctx x ts hop,
      plain_productTail_end ctx' x (ts.map move) (by rwa [h.kind])]
    exact .found x hq
  case productMore =>
    intro x t ts op hop hunary htail hq
    rw [List.map_cons, plain_productTail_more ctx x ts hop,
      plain_productTail_more ctx' x (ts.map move) (by rwa [h.kind])]
    exact (hunary (h.behind_productOperator hq hop)).andThen fun y rest hy =>
      htail y rest (of_plain_eq_ok hy)
  case unaryNil =>
    intro hq
    rw [List.map_nil, plain_unary_nil, plain_unary_nil]
    exact .error (h.unexpected [] hq)
  case minus =>
    intro t ts ht hunary hq
    rw [List.map_cons, plain_unary_minus ctx ts ht,
      plain_unary_minus ctx' (ts.map move) (by rwa [h.kind])]
    exact (hunary (h.behind_symbol hq ht)).apply fun x => -x
  case plus =>
    intro t ts _ ht hunary hq
    rw [List.map_cons, plain_unary_plus ctx ts ht,
      plain_unary_plus ctx' (ts.map move) (by rwa [h.kind])]
    exact hunary (h.behind_symbol hq ht)
  case unary =>
    intro t ts hminus hplus hprimary hq
    have hprimary := hprimary hq
    rw [List.map_cons] at hprimary ⊢
    rwa [plain_unary_primary ctx ts hminus hplus,
      plain_unary_primary ctx' (ts.map move) (by rwa [h.kind]) (by rwa [h.kind])]
  case primaryNil =>
    intro hq
    rw [List.map_nil, plain_primary_nil, plain_primary_nil]
    exact .error (h.unexpected [] hq)
  case number =>
    intro t ts ht hq
    rw [List.map_cons, plain_primary_number ctx ts ht,
      plain_primary_number ctx' (ts.map move) (by rwa [h.kind]), h.lexeme]
    exact .operand (h.number t ts hq ht) (h.behind t ts hq (by simp [ht]))
  case call =>
    intro t ts ht f hf hcall hq
    rw [List.map_cons, plain_primary_call ctx ts ht hf,
      plain_primary_call ctx' (ts.map move) (by rwa [h.kind]) (by rwa [h.called?_map])]
    exact hcall (h.behind t ts hq (by simp [ht]))
  case name =>
    -- the only place where a variable is looked up
    intro t ts ht hf hq
    rw [List.map_cons, plain_primary_name ctx ts ht hf,
      plain_primary_name ctx' (ts.map move) (by rwa [h.kind]) (by rwa [h.called?_map]),
      h.lexeme]
    exact .operand (h.name t ts hq ht) (h.behind t ts hq (by simp [ht]))
  case group =>
    intro t ts ht hsum hq
    rw [List.map_cons, plain_primary_group ctx ts ht,
      plain_primary_group ctx' (ts.map move) (by rwa [h.kind])]
    exact (hsum (h.behind_symbol hq ht)).andThen fun x rest _ hq' => h.closed x hq'
  case other =>
    intro t ts hnumber hidentifier hopening hq
    have herror := h.unexpected (t :: ts) hq
    rw [List.map_cons] at herror ⊢
    rw [plain_primary_other ctx ts hnumber hidentifier hopening,
      plain_primary_other ctx' (ts.map move) (by rwa [h.kind]) (by rwa [h.kind])
        (by rwa [h.kind])]
    exact .error herror
  case pow =>
    intro ts hsum _ hq
    rw [plain_call_pow, plain_call_pow]
    apply h.opened hq
    intro rest₁ hlt₁ hq₁
    apply (hsum rest₁ hlt₁ hq₁).andThen
    intro x rest₂ hx hq₂
    apply h.opened hq₂
    intro rest₃ hlt₃ hq₃
    have hlt₂ : rest₂.length < rest₁.length := of_plain_eq_ok hx
    apply (hsum rest₃ (by omega) hq₃).andThen
    exact fun y rest₄ _ hq₄ => h.closed (x.pow y) hq₄
  case sqrt =>
    intro ts hargument hq
    rw [plain_call_sqrt, plain_call_sqrt]
    exact (hargument hq).apply Float.sqrt
  case log =>
    intro ts hbase hargument hq
    rw [plain_call_log, plain_call_log]
    apply (hbase hq).andThen
    intro x rest hx hq'
    exact (hargument rest (of_plain_eq_ok hx) hq').apply (Builtin.logBase x)
  case bracketed =>
    intro opening closing ts hsum hq
    rw [plain_bracketed, plain_bracketed]
    apply h.opened hq
    intro rest hlt hq'
    exact (hsum rest hlt hq').andThen fun x rest' _ hq'' => h.closed x hq''

/-! ### Whole expressions -/

/-- The value of tokens that are a whole expression. -/
def whole (ctx : Context) (ts : List Token) : Except EvalError Float := do
  let (x, rest) ← plain (sum ctx ts)
  expectEnd ctx rest
  return x

/-- A text with tokens is evaluated by reading all of them. -/
theorem evaluate_eq_whole (s : Store) {source : Text} {ts : List Token}
    (hts : Expression.tokenize source = .ok ts) :
    evaluate s source = whole ⟨s, source⟩ ts := by
  rw [evaluate, hts]
  show (sum ⟨s, source⟩ ts >>= _) = _
  rw [whole]
  rcases sum ⟨s, source⟩ ts with e | ⟨x, rest, h⟩
  · rfl
  · rfl

namespace Compared

variable {Q : List Token → Prop} {E : EvalError → EvalError → Prop} {move : Token → Token}
  {ctx ctx' : Context} {ts : List Token}

/-- Both see the end, or both see something behind the expression. -/
theorem ended (h : Compared Q E move ctx ctx') (hq : Q ts) :
    Corresponds E Eq (expectEnd ctx ts) (expectEnd ctx' (ts.map move)) := by
  cases ts with
  | nil => exact .ok rfl
  | cons t ts =>
      have herror := h.unexpected (t :: ts) hq
      rw [List.map_cons] at herror ⊢
      rw [expectEnd, expectEnd, h.kind]
      split
      · exact .ok rfl
      · exact .error herror

/-- Two lists of tokens are evaluated alike. -/
theorem whole (h : Compared Q E move ctx ctx') (hq : Q ts) :
    Corresponds E Eq (whole ctx ts) (whole ctx' (ts.map move)) := by
  apply (parallel_sum h hq).bind
  rintro ⟨x, rest⟩ _ - ⟨hrest, rfl⟩
  apply (h.ended hrest).bind
  intro _ _ _ _
  exact .ok rfl

/-- Two expressions are evaluated alike. -/
theorem evaluate {s s' : Store} {source source' : Text}
    (h : Compared Q E move ⟨s, source⟩ ⟨s', source'⟩)
    (hts : Expression.tokenize source = .ok ts)
    (hts' : Expression.tokenize source' = .ok (ts.map move)) (hq : Q ts) :
    Corresponds E Eq (Arithmetic.evaluate s source) (Arithmetic.evaluate s' source') := by
  rw [evaluate_eq_whole s hts, evaluate_eq_whole s' hts']
  exact h.whole hq

end Compared

end Arithmetic

end LineScript
