/-
LineScript/Proofs/Failures.lean

Which errors evaluation ends with.

* Evaluation by substitution knows no undefined variables: what it does not find stays in
  the text, which is then not a number.
* An undefined variable that evaluation by the rules of arithmetic complains about is an
  identifier of the expression (`Attributed`).  To see this, a reading is compared with
  itself.
* A well-formed expression fails because of its variables, and with the error of the
  leftmost one that is no number (`Expr.value_eq_variableValue`).

Main result: `evaluate_error`.
-/
import LineScript.Proofs.Influence
import LineScript.Proofs.Outcomes
import LineScript.Proofs.Precedence

namespace LineScript

open Text

/-! ### The kinds of errors -/

/-- The kinds of evaluation errors. -/
inductive ErrorKind where
  | invalid
  | undefined
  deriving DecidableEq

/-- What messages about errors of a kind begin with. -/
def ErrorKind.heading : ErrorKind → Text
  | invalid => "invalid expression: "
  | undefined => "undefined variable: "

namespace EvalError

/-- The kind of an error. -/
def kind : EvalError → ErrorKind
  | .invalid _ => .invalid
  | .undefined _ => .undefined

/-- What a message says about an error of its kind. -/
def subject : EvalError → Text
  | .invalid cause => cause.detail
  | .undefined cause => cause.name

/-- The heading of a message shows its kind. -/
theorem message_eq (e : EvalError) : e.message = e.kind.heading ++ e.subject := by
  cases e <;> rfl

theorem kind_eq_invalid_iff {e : EvalError} : e.kind = .invalid ↔ ∃ c, e = .invalid c := by
  cases e <;> simp [kind]

theorem kind_eq_undefined_iff {e : EvalError} :
    e.kind = .undefined ↔ ∃ u, e = .undefined u := by
  cases e <;> simp [kind]

/-- A message shows the kind of its error. -/
theorem heading_isPrefix_message_iff (k : ErrorKind) (e : EvalError) :
    k.heading <+: e.message ↔ k = e.kind := by
  rw [message_eq]
  constructor
  · rintro ⟨t, ht⟩
    -- the headings begin with different letters
    have hne : ∀ k' : ErrorKind, k'.heading ≠ [] := by
      intro k'
      cases k' <;> decide
    have hhead := congrArg List.head? ht
    rw [List.head?_append_of_ne_nil _ (hne k),
      List.head?_append_of_ne_nil _ (hne e.kind)] at hhead
    revert hhead
    cases k <;> cases e.kind <;> decide
  · rintro rfl
    exact List.prefix_append _ _

end EvalError

/-! ### Variables that are numbers -/

/-- Whether a name is bound to a number. -/
def Store.hasNumber (store : Store) (name : Text) : Bool :=
  (store.get? name).any Value.isNumeric

theorem Store.hasNumber_iff {store : Store} {name : Text} :
    store.hasNumber name = true ↔ ∃ v, store.get? name = some v ∧ v.isNumeric = true := by
  rw [hasNumber, Option.any_eq_true]

/-- A name has no number if it is not a variable, or if the variable is something else. -/
theorem Store.hasNumber_eq_false_iff {store : Store} {name : Text} :
    store.hasNumber name = false ↔
      store.get? name = none ∨ ∃ v, store.get? name = some v ∧ v.isNumeric = false := by
  rw [hasNumber]
  cases store.get? name <;> simp

namespace Arithmetic

variable {store : Store}

/-- A variable with a number has a value. -/
theorem variableValue_of_hasNumber {name : Text} (h : store.hasNumber name = true) :
    ∃ x, variableValue store name = .ok x := by
  obtain ⟨v, hv, hnumeric⟩ := Store.hasNumber_iff.1 h
  obtain ⟨-, x, hx⟩ := Expr.toDouble_isNumeric.2 hnumeric
  exact ⟨x, Expr.variableValue_eq_ok_iff.2 ⟨v, hv, hnumeric, hx⟩⟩

/-- A name that is not bound is undefined. -/
theorem variableValue_of_none {name : Text} (h : store.get? name = none) :
    variableValue store name = .error (.undefined ⟨name⟩) := by
  rw [variableValue, h]

/-- A name that is bound to something that is no number is invalid. -/
theorem variableValue_of_not_isNumeric {name : Text} {v : Value}
    (hv : store.get? name = some v) (hnumeric : v.isNumeric = false) :
    ∃ c, variableValue store name = .error (.invalid c) := by
  cases hx : variableValue store name with
  | ok x =>
      obtain ⟨w, hw, hyes, -⟩ := Expr.variableValue_eq_ok_iff.1 hx
      obtain rfl : v = w := Option.some.inj (hv.symm.trans hw)
      rw [hnumeric] at hyes
      cases hyes
  | error e =>
      simp only [variableValue, hv] at hx
      split at hx
      · cases hx
        exact ⟨_, rfl⟩
      · split at hx
        · cases hx
        · cases hx
          exact ⟨_, rfl⟩

/-- A name without a number has none. -/
theorem exists_error_of_not_hasNumber {name : Text} (h : store.hasNumber name = false) :
    ∃ e, variableValue store name = .error e := by
  cases hv : store.get? name with
  | none => exact ⟨_, variableValue_of_none hv⟩
  | some v =>
      rw [Store.hasNumber, hv, Option.any_some] at h
      obtain ⟨c, hc⟩ := variableValue_of_not_isNumeric hv h
      exact ⟨_, hc⟩

/-! ### The variables that errors are about -/

/-- If an error is about a variable, then this is an identifier among the tokens and not in
the store. -/
def Attributed (store : Store) (us : List Token) (e : EvalError) : Prop :=
  ∀ u, e = .undefined u →
    ∃ t ∈ us, t.kind = .identifier ∧ t.lexeme = u.name ∧ store.get? u.name = none

/-- Invalid expressions are not put down to a variable. -/
theorem attributed_invalid (us : List Token) (c : InvalidExpression) :
    Attributed store us (.invalid c) :=
  fun _ h => nomatch h

theorem attributed_unexpected (us : List Token) (ctx : Context) (ts : List Token) :
    Attributed store us (unexpected ctx ts) := by
  cases ts <;> exact attributed_invalid us _

/-- A number that cannot be read is an invalid expression. -/
theorem attributed_numberValue (us : List Token) {lexeme : Text} {e : EvalError}
    (h : numberValue lexeme = .error e) : Attributed store us e := by
  unfold numberValue at h
  split at h
  · cases h
  · cases h
    exact attributed_invalid us _

/-- A variable that fails is one of those in the text, and the error has its name. -/
theorem attributed_variableValue {us : List Token} {t : Token} (ht : t ∈ us)
    (hkind : t.kind = .identifier) {e : EvalError}
    (h : variableValue store t.lexeme = .error e) : Attributed store us e := by
  rintro u rfl
  cases hv : store.get? t.lexeme with
  | none =>
      rw [variableValue_of_none hv] at h
      cases h
      exact ⟨t, ht, hkind, rfl, hv⟩
  | some v =>
      cases hnumeric : v.isNumeric with
      | true =>
          obtain ⟨x, hx⟩ :=
            variableValue_of_hasNumber (Store.hasNumber_iff.2 ⟨v, hv, hnumeric⟩)
          rw [hx] at h
          cases h
      | false =>
          obtain ⟨c, hc⟩ := variableValue_of_not_isNumeric hv hnumeric
          rw [hc] at h
          cases h

/-- A reading next to itself, with errors that are about identifiers among the tokens `us`,
as long as all that is left to read is one of them. -/
theorem compared_self (store : Store) (source : Text) (us : List Token) :
    Compared (· ⊆ us) (fun e _ => Attributed store us e) id
      ⟨store, source⟩ ⟨store, source⟩ where
  kind _ := rfl
  lexeme _ := rfl
  behind _ _ hsubset _ := (List.cons_subset.1 hsubset).2
  unexpected ts _ := attributed_unexpected us _ ts
  number _ _ _ _ := .self fun _ => attributed_numberValue us
  name _ _ hsubset ht :=
    .self fun _ => attributed_variableValue (List.cons_subset.1 hsubset).1 ht

/-- Evaluation only finds undefined what is an identifier of the expression. -/
theorem mem_identifiers_of_undefined {source : Text} {u : UndefinedVariable}
    (h : evaluate store source = .error (.undefined u)) :
    u.name ∈ Expression.identifiers source ∧ store.get? u.name = none := by
  cases hts : Expression.tokenize source with
  | error e =>
      rw [evaluate, hts] at h
      cases h
  | ok us =>
      have hself := (compared_self store source us).evaluate hts
        (by rwa [List.map_id]) (List.Subset.refl us)
      rw [h] at hself
      cases hself with
      | error hattributed =>
          obtain ⟨t, ht, hkind, hname, hnone⟩ := hattributed u rfl
          refine ⟨?_, hnone⟩
          rw [Expression.identifiers, hts, ← hname]
          exact List.mem_map_of_mem (List.mem_filter.2 ⟨ht, decide_eq_true hkind⟩)

/-- A well-formed expression is evaluated as its tree, also if this fails. -/
theorem evaluate_eq_value (store : Store) {source : Text} {ts : List Token} {tree : Expr}
    (hts : Expression.tokenize source = .ok (ts ++ [.endOf source]))
    (htree : Expr.Derives .sum ts tree) : evaluate store source = tree.value store := by
  have hrun : run ⟨store, source⟩ .sum (ts ++ [.endOf source]) = _ :=
    run_of_reads ((reads_sum_iff (ends_endOf source)).2 htree)
  rw [run] at hrun
  rw [evaluate_eq_whole store hts, whole, hrun]
  cases tree.value store <;> rfl

end Arithmetic

/-! ### The leftmost variable that is no number -/

namespace Expr

open Arithmetic

variable {store : Store} {n : Text}

/-- Where one operand fails, so does what is computed from it. -/
theorem value_operand {e : Expr} (h : e.value store = variableValue store n)
    (hn : store.hasNumber n = false) (f : Float → Float) :
    (do let x ← e.value store; return f x) = variableValue store n := by
  obtain ⟨err, herr⟩ := exists_error_of_not_hasNumber hn
  rw [h, herr]
  rfl

/-- Of two operands, the right one is only evaluated if the left one has a value. -/
theorem value_operands {l r : Expr}
    (hl : l.names.find? (fun m => !store.hasNumber m) = some n →
      l.value store = variableValue store n)
    (hr : r.names.find? (fun m => !store.hasNumber m) = some n →
      r.value store = variableValue store n)
    (hnumbers : ∀ lexeme ∈ l.numbers, (Double.read? lexeme).isSome = true)
    (h : (l.names ++ r.names).find? (fun m => !store.hasNumber m) = some n)
    (f : Float → Float → Float) :
    (do let x ← l.value store; let y ← r.value store; return f x y) =
      variableValue store n := by
  have hn : store.hasNumber n = false := by simpa using List.find?_some h
  rw [List.find?_append] at h
  -- The left operand is evaluated first, and the right one only if the left has a value.
  cases hleft : l.names.find? (fun m => !store.hasNumber m) with
  | some m =>
      rw [hleft, Option.some_or] at h
      obtain ⟨err, herr⟩ := exists_error_of_not_hasNumber hn
      rw [hl (hleft.trans h), herr]
      rfl
  | none =>
      rw [hleft, Option.none_or] at h
      have hnames : ∀ m ∈ l.names, ∃ v, store.get? m = some v ∧ v.isNumeric = true := by
        intro m hm
        have hhas := List.find?_eq_none.1 hleft m hm
        exact Store.hasNumber_iff.1 (by simpa using hhas)
      obtain ⟨x, hx⟩ := exists_means hnumbers hnames
      rw [value_eq_ok_iff.2 hx]
      exact value_operand (hr h) hn (f x)

/-- An expression has the error of its leftmost variable that is no number. -/
theorem value_eq_variableValue {e : Expr}
    (hnumbers : ∀ lexeme ∈ e.numbers, (Double.read? lexeme).isSome = true)
    (h : e.names.find? (fun m => !store.hasNumber m) = some n) :
    e.value store = variableValue store n := by
  have hn : store.hasNumber n = false := by simpa using List.find?_some h
  induction e with
  | number lexeme => cases h
  | name m =>
      have hm := List.mem_of_find?_eq_some h
      rw [names, List.mem_singleton] at hm
      rw [hm, value]
  | group e ih => exact ih hnumbers h
  | plus e ih => exact ih hnumbers h
  | minus e ih => exact value_operand (ih hnumbers h) hn fun x => -x
  | sqrt e ih => exact value_operand (ih hnumbers h) hn Float.sqrt
  | binary op l r ihl ihr =>
      rw [numbers, List.forall_mem_append] at hnumbers
      exact value_operands (ihl hnumbers.1) (ihr hnumbers.2) hnumbers.1 h op.apply
  | pow l r ihl ihr =>
      rw [numbers, List.forall_mem_append] at hnumbers
      exact value_operands (ihl hnumbers.1) (ihr hnumbers.2) hnumbers.1 h Float.pow
  | log l r ihl ihr =>
      rw [numbers, List.forall_mem_append] at hnumbers
      exact value_operands (ihl hnumbers.1) (ihr hnumbers.2) hnumbers.1 h Builtin.logBase

/-- An expression has no value exactly if one of its variables is no number. -/
theorem exists_error_iff {e : Expr}
    (hnumbers : ∀ lexeme ∈ e.numbers, (Double.read? lexeme).isSome = true) :
    (∃ err, e.value store = .error err) ↔ ∃ m ∈ e.names, store.hasNumber m = false := by
  cases hfind : e.names.find? (fun m => !store.hasNumber m) with
  | some m =>
      have hm : store.hasNumber m = false := by simpa using List.find?_some hfind
      rw [value_eq_variableValue hnumbers hfind]
      exact iff_of_true (exists_error_of_not_hasNumber hm)
        ⟨m, List.mem_of_find?_eq_some hfind, hm⟩
  | none =>
      have hall : ∀ m ∈ e.names, store.hasNumber m = true := by simpa using hfind
      obtain ⟨x, hx⟩ := exists_means hnumbers fun m hm => Store.hasNumber_iff.1 (hall m hm)
      rw [value_eq_ok_iff.2 hx]
      refine iff_of_false (by simp) ?_
      rintro ⟨m, hm, hno⟩
      rw [hall m hm] at hno
      cases hno

end Expr

/-! ### Errors of evaluation -/

/-- Evaluation by substitution only finds expressions invalid.  By the rules of arithmetic,
an error is of one of the two kinds, as its message shows, and what is undefined is an
identifier of the expression that is not in the store.  A well-formed expression fails
exactly if one of its variables is no number, and the leftmost such variable decides the
error: undefined if it is not in the store, invalid if it is bound to something else. -/
theorem evaluate_error (store : Store) (source : Text) :
    (∀ m ≠ Mode.precedence, ∀ e, m.evaluate store source = .error e → e.kind = .invalid) ∧
    (∀ m : Mode, ∀ e, m.evaluate store source = .error e →
      ∀ k : ErrorKind, k.heading <+: e.message ↔ k = e.kind) ∧
    (∀ e, Mode.precedence.evaluate store source = .error e → e.kind = .undefined →
      ∃ n ∈ Expression.identifiers source,
        store.get? n = none ∧ e.message = "undefined variable: " ++ n) ∧
    (∀ ts tree, Expression.tokenize source = .ok (ts ++ [.endOf source]) →
      Expr.Derives .sum ts tree →
      ((∃ e, Mode.precedence.evaluate store source = .error e) ↔
        ∃ n ∈ tree.names, store.get? n = none ∨
          ∃ v, store.get? n = some v ∧ v.isNumeric = false) ∧
      ∀ before n after, tree.names = before ++ n :: after →
        (∀ m ∈ before, ∃ v, store.get? m = some v ∧ v.isNumeric = true) →
        (store.get? n = none →
          Mode.precedence.evaluate store source = .error (.undefined ⟨n⟩)) ∧
        (∀ v, store.get? n = some v → v.isNumeric = false →
          ∃ e, Mode.precedence.evaluate store source = .error e ∧ e.kind = .invalid)) := by
  refine ⟨?_, ?_, ?_, ?_⟩
  · intro m hm e he
    refine EvalError.kind_eq_invalid_iff.2 ?_
    cases m with
    | precedence => exact absurd rfl hm
    | legacy => exact Substitution.onlyInvalid_evaluateNested store _ _ e he
    | numbered code => exact Substitution.onlyInvalid_evaluateNested store _ _ e he
  · exact fun _ e _ k => e.heading_isPrefix_message_iff k
  · intro e he hkind
    obtain ⟨u, rfl⟩ := EvalError.kind_eq_undefined_iff.1 hkind
    obtain ⟨hmem, hnone⟩ := Arithmetic.mem_identifiers_of_undefined he
    exact ⟨u.name, hmem, hnone, rfl⟩
  · intro ts tree hts htree
    rw [Mode.evaluate, Arithmetic.evaluate_eq_value store hts htree]
    have hnumbers := Expr.read?_of_mem_numbers hts htree
    refine ⟨?_, ?_⟩
    · simp only [Expr.exists_error_iff hnumbers, Store.hasNumber_eq_false_iff]
    · intro before n after hnames hbefore
      have hvalue : store.hasNumber n = false →
          tree.value store = Arithmetic.variableValue store n := by
        intro hn
        refine Expr.value_eq_variableValue hnumbers (List.find?_eq_some_iff_append.2 ?_)
        -- All names in front of `n` are numbers, so that the search stops at `n`.
        refine ⟨by simp [hn], before, after, hnames, fun m hm => ?_⟩
        simp [Store.hasNumber_iff.2 (hbefore m hm)]
      refine ⟨fun hnone => ?_, fun v hv hno => ?_⟩
      · rw [hvalue (Store.hasNumber_eq_false_iff.2 (.inl hnone)),
          Arithmetic.variableValue_of_none hnone]
      · obtain ⟨c, hc⟩ := Arithmetic.variableValue_of_not_isNumeric hv hno
        rw [hvalue (Store.hasNumber_eq_false_iff.2 (.inr ⟨v, hv, hno⟩))]
        exact ⟨_, hc, rfl⟩

/-- In `1-pow(x,b)*z`, where `x` is a number, the leftmost variable that is no number is
`b`, whatever `z` is: invalid if it is a truth value, undefined if it is not declared. -/
theorem evaluate_error_leftmost :
    let source : Text := "1-pow(x,b)*z"
    let ts : List Token :=
      [⟨.number, "1", ⟨0, 1⟩⟩, ⟨.symbol '-', "-", ⟨1, 2⟩⟩, ⟨.identifier, "pow", ⟨2, 5⟩⟩,
        ⟨.symbol '(', "(", ⟨5, 6⟩⟩, ⟨.identifier, "x", ⟨6, 7⟩⟩, ⟨.symbol ',', ",", ⟨7, 8⟩⟩,
        ⟨.identifier, "b", ⟨8, 9⟩⟩, ⟨.symbol ')', ")", ⟨9, 10⟩⟩,
        ⟨.symbol '*', "*", ⟨10, 11⟩⟩, ⟨.identifier, "z", ⟨11, 12⟩⟩]
    let tree : Expr :=
      .binary .sub (.number "1") (.binary .mul (.pow (.name "x") (.name "b")) (.name "z"))
    let x := Store.empty.declare "x" (.string "2.5")
    (Expression.tokenize source = .ok (ts ++ [.endOf source]) ∧ Expr.Derives .sum ts tree) ∧
      (∃ e, Mode.precedence.evaluate (x.declare "b" (.bool true)) source = .error e ∧
        e.kind = .invalid) ∧
      Mode.precedence.evaluate (x.declare "z" (.bool true)) source =
        .error (.undefined ⟨"b"⟩) := by
  intro source ts tree x
  have hts : Expression.tokenize source = .ok (ts ++ [.endOf source]) := by decide +kernel
  have hsum (t : Token) (ht : t.kind = .identifier) : Expr.Derives .sum [t] (.name t.lexeme) :=
    .sumOfProduct (.productOfUnary (.unaryOfPrimary (.name ht)))
  have hpow : Expr.Derives .primary ((ts.drop 2).take 6) (.pow (.name "x") (.name "b")) :=
    .pow ⟨rfl, rfl⟩ rfl (hsum ⟨.identifier, "x", ⟨6, 7⟩⟩ rfl) rfl
      (hsum ⟨.identifier, "b", ⟨8, 9⟩⟩ rfl) rfl
  have htree : Expr.Derives .sum ts tree :=
    .sub (.sumOfProduct (.productOfUnary (.unaryOfPrimary (.number rfl)))) rfl
      (.mul (.productOfUnary (.unaryOfPrimary hpow)) rfl (.unaryOfPrimary (.name rfl)))
  have hbefore {n : Text} (v : Value) (hn : Text.ofString "x" ≠ n) :
      ∀ m ∈ [Text.ofString "x"], ∃ w, (x.declare n v).get? m = some w ∧ w.isNumeric = true := by
    intro m hm
    rw [List.mem_singleton.1 hm, Store.get?_declare, if_neg hn, Store.get?_declare, if_pos rfl]
    exact ⟨_, rfl, by decide +kernel⟩
  refine ⟨⟨hts, htree⟩, ?_, ?_⟩
  · refine (((evaluate_error _ source).2.2.2 ts tree hts htree).2 ["x"] "b" ["z"] rfl
      (hbefore _ (by decide))).2 (.bool true) ?_ rfl
    rw [Store.get?_declare, if_pos rfl]
  · refine (((evaluate_error _ source).2.2.2 ts tree hts htree).2 ["x"] "b" ["z"] rfl
      (hbefore _ (by decide))).1 ?_
    rw [Store.get?_declare, if_neg (by decide), Store.get?_declare, if_neg (by decide)]
    rfl

end LineScript
