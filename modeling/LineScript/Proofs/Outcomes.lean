/-
LineScript/Proofs/Outcomes.lean

What evaluation by substitution makes no use of.

Two evaluations have the same outcome if they give the same number or if both find their
expression invalid (`SameOutcome`).  Evaluation by substitution has no other outcomes
(`onlyInvalid_evaluateNested`), so it is enough to say where the outcome comes from:

* without calls, from the first two operands of the first operator that is found
  (`evaluate_operands`);
* with a call, from the texts in its brackets (`evaluate_call`).

Main results: what stands behind a second operator (`legacy_evaluate_second_operator`), and
what stands around a call (`legacy_evaluate_around_call`), has no influence on the outcome.
-/
import LineScript.Expression.Mode
import LineScript.Proofs.Calls
import LineScript.Proofs.Substituting
import LineScript.Proofs.Trimming

namespace LineScript

open Text

/-! ### Outcomes -/

/-- Two evaluations that give the same number, or that both find their expression
invalid. -/
inductive SameOutcome : Except EvalError Float → Except EvalError Float → Prop where
  | value (x : Float) : SameOutcome (.ok x) (.ok x)
  | invalid (c c' : InvalidExpression) :
      SameOutcome (.error (.invalid c)) (.error (.invalid c'))

namespace SameOutcome

variable {r s t : Except EvalError Float}

theorem symm (h : SameOutcome r s) : SameOutcome s r := by
  cases h with
  | value x => exact .value x
  | invalid c c' => exact .invalid c' c

theorem trans (hrs : SameOutcome r s) (hst : SameOutcome s t) : SameOutcome r t := by
  cases hrs with
  | value x => exact hst
  | invalid c c' =>
      cases hst with
      | invalid _ c'' => exact .invalid c c''

end SameOutcome

/-- The only error that a computation can end with is an invalid expression. -/
def OnlyInvalid {α : Type} (r : Except EvalError α) : Prop :=
  ∀ e, r = .error e → ∃ c, e = .invalid c

namespace OnlyInvalid

variable {α β : Type}

theorem ok (a : α) : OnlyInvalid (.ok a) :=
  fun _ h => nomatch h

/-- An invalid expression is the error that is allowed. -/
theorem invalid (c : InvalidExpression) :
    OnlyInvalid (.error (.invalid c) : Except EvalError α) := by
  rintro e ⟨⟩
  exact ⟨c, rfl⟩

/-- Neither of two steps may fail in another way. -/
theorem bind {r : Except EvalError α} {k : α → Except EvalError β} (hr : OnlyInvalid r)
    (hk : ∀ a, OnlyInvalid (k a)) : OnlyInvalid (r >>= k) := by
  cases r with
  | error e =>
      obtain ⟨c, rfl⟩ := hr e rfl
      exact .invalid c
  | ok a => exact hk a

/-- Where all errors are of one kind, they need not be told apart. -/
theorem sameOutcome {r : Except EvalError Float} (h : OnlyInvalid r) : SameOutcome r r := by
  cases r with
  | error e =>
      obtain ⟨c, rfl⟩ := h e rfl
      exact .invalid c c
  | ok x => exact .value x

end OnlyInvalid

namespace Substitution

/-- By substitution no variable is ever missing, so all failures are of one kind. -/
theorem onlyInvalid_reduce (store : Store) (levels : Nat) (t : Text) :
    OnlyInvalid (reduce store levels t) := by
  induction levels generalizing t with
  | zero => exact .invalid .tooDeep
  | succ levels ih =>
      rw [reduce]
      split
      · split
        · next l r _ _ =>
            exact (ih (trim l)).bind fun x => (ih (trim r)).bind fun y => .ok _
        · exact .invalid _
      · split
        · exact .ok _
        · exact .invalid _

/-- Brackets that do not match make an expression invalid. -/
theorem onlyInvalid_group (opening closing : Char) (source t : Text) :
    OnlyInvalid (group opening closing source t) := by
  unfold group
  split
  · exact .invalid _
  · split
    · exact .invalid _
    · exact .ok _

theorem onlyInvalid_powArguments (source t : Text) :
    OnlyInvalid (powArguments source t) := by
  refine (onlyInvalid_group _ _ source t).bind fun p => ?_
  dsimp only
  split
  · exact .ok _
  · exact .invalid _

theorem onlyInvalid_sqrtArgument (source t : Text) :
    OnlyInvalid (sqrtArgument source t) :=
  (onlyInvalid_group _ _ source t).bind fun _ => .ok _

theorem onlyInvalid_logArguments (source t : Text) :
    OnlyInvalid (logArguments source t) :=
  (onlyInvalid_group _ _ source t).bind fun p =>
    (onlyInvalid_group _ _ source p.2).bind fun _ => .ok _

/-- Evaluation by substitution does not tell that a variable is undefined. -/
theorem onlyInvalid_evaluateNested (store : Store) (levels : Nat) (t : Text) :
    OnlyInvalid (evaluateNested store levels t) := by
  induction levels generalizing t with
  | zero => exact .invalid .tooDeep
  | succ levels ih =>
      rw [evaluateNested]
      split
      · next rest _ =>
          exact (onlyInvalid_powArguments t rest).bind fun p =>
            (ih p.1).bind fun x => (ih p.2).bind fun y => .ok _
      · next rest _ =>
          exact (onlyInvalid_sqrtArgument t rest).bind fun p => (ih p).bind fun x => .ok _
      · next rest _ =>
          exact (onlyInvalid_logArguments t rest).bind fun p =>
            (ih p.1).bind fun x => (ih p.2).bind fun y => .ok _
      · exact onlyInvalid_reduce store (levels + 1) _

/-! ### Two operands -/

section Operands

variable {store : Store} {op : Operator} {t l r : Text} {more : List Text}

/-- What an operator makes of two operands, with white space around them. -/
def operate (store : Store) (levels : Nat) (op : Operator) (l r : Text) :
    Except EvalError Float := do
  let x ← reduce store levels (trim l)
  let y ← reduce store levels (trim r)
  return op.apply x y

theorem onlyInvalid_operate (store : Store) (levels : Nat) (op : Operator) (l r : Text) :
    OnlyInvalid (operate store levels op l r) :=
  (onlyInvalid_reduce store levels (trim l)).bind fun _ =>
    (onlyInvalid_reduce store levels (trim r)).bind fun _ => .ok _

/-- A text without names and operators that is not a number is invalid. -/
theorem exists_reduce_of_unread (hnames : ∀ v ∈ store.toList, ¬ v.name <:+: t)
    (hno : ∀ op : Operator, byte op.symbol ∉ t) (hread : Double.read? t = none) (levels : Nat) :
    ∃ c, reduce store levels t = .error (.invalid c) := by
  cases levels with
  | zero => exact ⟨.tooDeep, rfl⟩
  | succ levels =>
      have hkeep := replaceNames_eq_self hnames
      have hnone := find?_operators_none hno
      refine ⟨.notANumber t, ?_⟩
      simp only [reduce, hkeep, hnone, hread]

/-- Nothing is not a number. -/
theorem exists_reduce_nil (hnames : ∀ v ∈ store.toList, ¬ v.name <:+: t) (levels : Nat) :
    ∃ c, reduce store levels [] = .error (.invalid c) :=
  exists_reduce_of_unread (fun v hv hnil => hnames v hv (hnil.trans List.nil_infix))
    (fun _ => List.not_mem_nil) (by decide) levels

/-- Nothing on the right of an operator is an error, however many levels there are. -/
theorem exists_operate_nil (hnames : ∀ v ∈ store.toList, ¬ v.name <:+: t) (levels : Nat)
    (op : Operator) (l : Text) :
    ∃ c, operate store levels op l [] = .error (.invalid c) := by
  obtain ⟨c, hnil⟩ := exists_reduce_nil hnames levels
  have htrim : trim [] = [] := rfl
  unfold operate
  rw [htrim, hnil]
  cases hl : reduce store levels (trim l) with
  | error e =>
      obtain ⟨c', rfl⟩ := onlyInvalid_reduce store levels (trim l) e hl
      exact ⟨c', rfl⟩
  | ok x => exact ⟨c, rfl⟩

/-- Only the first two fields of a text count.  A second field that is dropped, because it
and all behind it are empty, is as bad as one that is empty. -/
theorem reduce_operands (hnames : ∀ v ∈ store.toList, ¬ v.name <:+: t)
    (hfind : operators.find? (fun op => occursIn [byte op.symbol] t) = some op)
    (hsplit : split [byte op.symbol] t = l :: r :: more) (levels : Nat) :
    SameOutcome (reduce store (levels + 1) t) (operate store levels op l r) := by
  have hkeep := replaceNames_eq_self hnames
  obtain ⟨dropped, happend, hempty⟩ := split_eq_fields_append [byte op.symbol] t
  rw [hsplit] at happend
  -- `fields` drops the empty texts at the end, `split` does not; an operand that was
  -- dropped is empty, and neither reading gives it a value.
  have hmissing : r ∈ dropped → ∃ c, operate store levels op l r = .error (.invalid c) := by
    intro hr
    rw [hempty r hr]
    exact exists_operate_nil hnames levels op l
  rcases hfields : fields [byte op.symbol] t with _ | ⟨l', _ | ⟨r', fs⟩⟩
  · rw [hfields, List.nil_append] at happend
    obtain ⟨c, hc⟩ := hmissing (by simp [← happend])
    simp only [reduce, hkeep, hfind, hfields, hc]
    exact .invalid _ c
  · rw [hfields, List.singleton_append, List.cons.injEq] at happend
    obtain ⟨c, hc⟩ := hmissing (by simp [← happend.2])
    simp only [reduce, hkeep, hfind, hfields, hc]
    exact .invalid _ c
  · rw [hfields, List.cons_append, List.cons_append, List.cons.injEq, List.cons.injEq] at happend
    obtain ⟨rfl, rfl, -⟩ := happend
    have heq : reduce store (levels + 1) t = operate store levels op l r := by
      simp only [reduce, hkeep, hfind, hfields]
      rfl
    rw [heq]
    exact (onlyInvalid_operate store levels op l r).sameOutcome

/-- Operators that bind more loosely are tried first. -/
theorem rank_lt_iff_idxOf_lt (op op' : Operator) :
    op.rank < op'.rank ↔ operators.idxOf op' < operators.idxOf op := by
  cases op <;> cases op' <;> decide

/-- An expression without names and calls is worth what its first operator makes of its first
two operands. -/
theorem evaluate_operands {source : Text} (hnames : ∀ v ∈ store.toList, ¬ v.name <:+: source)
    (hcalls : ∀ f : Builtin, ¬ f.opening <:+: source)
    (hearlier : ∀ op', operators.idxOf op' < operators.idxOf op → byte op'.symbol ∉ source)
    (hsplit : split [byte op.symbol] (trim source) = l :: r :: more) :
    SameOutcome (evaluate store source) (operate store maxDepth op l r) := by
  have hpart := trim_isInfix source
  have hnames' : ∀ v ∈ store.toList, ¬ v.name <:+: trim source :=
    fun v hv hoccurs => hnames v hv (hoccurs.trans hpart)
  have hnone : callIn? (trim source) = none :=
    callIn?_eq_none fun f hoccurs => hcalls f (hoccurs.trans hpart)
  have hop : byte op.symbol ∈ trim source := by
    by_contra hno
    rw [split_byte_of_not_mem hno] at hsplit
    cases hsplit
  have hfind := find?_operators hop fun op' hmem => by
    by_contra hlt
    rw [Nat.not_le, rank_lt_iff_idxOf_lt] at hlt
    exact hearlier op' hlt (hpart.subset hmem)
  have hreduce : evaluate store source = reduce store (maxDepth + 1) (trim source) := by
    rw [evaluate, evaluateWithin, evaluateNested, hnone]
    dsimp only
    rw [replaceIdentifiers_eq_self hnames']
  rw [hreduce]
  exact reduce_operands hnames' hfind hsplit maxDepth

/-- The first field of a trimmed text has lost the white space in front of it, and the rest
that behind it. -/
theorem split_trim_append {b : UInt8} (hb : isSolid b = true) (hl : b ∉ l) (t : Text) :
    split [b] (trim (l ++ b :: t)) = trimLeft l :: split [b] (trimRight t) := by
  have hleft : b ∉ trimLeft l := fun hmem => hl ((trimLeft_isSuffix l).subset hmem)
  rw [trim_append_cons l hb, split_byte_append hleft]

/-- The symbols of operators do not stand in the beginnings of calls. -/
theorem symbol_not_mem_opening (op : Operator) (f : Builtin) : byte op.symbol ∉ f.opening := by
  cases op <;> cases f <;> decide

end Operands

end Substitution

open Substitution in
/-- **Two operands.**  Let `op` be the operator that is found first in `a op b op rest`.
Then what stands behind the second `op` makes no difference: the outcome is that of
`a op b`. -/
theorem legacy_evaluate_second_operator (store : Store) (op : Operator) {a b rest : Text}
    (hnames : ∀ v ∈ store.toList,
      ¬ v.name <:+: a ++ byte op.symbol :: (b ++ byte op.symbol :: rest))
    (hcalls : ∀ t ∈ [a, b, rest], ∀ f : Builtin, ¬ f.opening <:+: t)
    (hop : ∀ t ∈ [a, b], byte op.symbol ∉ t)
    (hearlier : ∀ t ∈ [a, b, rest], ∀ op' : Operator,
      operators.idxOf op' < operators.idxOf op → byte op'.symbol ∉ t) :
    SameOutcome
      (Mode.legacy.evaluate store (a ++ byte op.symbol :: (b ++ byte op.symbol :: rest)))
      (Mode.legacy.evaluate store (a ++ byte op.symbol :: b)) := by
  simp only [List.forall_mem_cons, List.not_mem_nil, false_implies, implies_true, and_true]
    at hcalls hop hearlier
  obtain ⟨hcallsA, hcallsB, hcallsRest⟩ := hcalls
  obtain ⟨hopA, hopB⟩ := hop
  obtain ⟨hearlierA, hearlierB, hearlierRest⟩ := hearlier
  have hsolid : isSolid (byte op.symbol) = true := by cases op <;> decide
  -- Nothing that is forbidden in the parts comes about where they meet.
  have hcalls : ∀ f : Builtin,
      ¬ f.opening <:+: a ++ byte op.symbol :: (b ++ byte op.symbol :: rest) := by
    intro f
    have hsymbol := symbol_not_mem_opening op f
    exact not_infix_append_cons hsymbol (hcallsA f)
      (not_infix_append_cons hsymbol (hcallsB f) (hcallsRest f))
  have hearlier : ∀ op' : Operator, operators.idxOf op' < operators.idxOf op →
      byte op'.symbol ∉ a ++ byte op.symbol :: (b ++ byte op.symbol :: rest) := by
    intro op' hlt hmem
    have hne : byte op'.symbol ≠ byte op.symbol := by
      intro heq
      rw [symbol_injective heq] at hlt
      exact lt_irrefl _ hlt
    simp only [List.mem_append, List.mem_cons, hne, hearlierA op' hlt, hearlierB op' hlt,
      hearlierRest op' hlt, or_self] at hmem
  have hshorter : a ++ byte op.symbol :: b <:+:
      a ++ byte op.symbol :: (b ++ byte op.symbol :: rest) :=
    ⟨[], byte op.symbol :: rest, by simp⟩
  have hsplit : split [byte op.symbol]
      (trim (a ++ byte op.symbol :: (b ++ byte op.symbol :: rest))) =
        trimLeft a :: b :: split [byte op.symbol] (trimRight rest) := by
    rw [split_trim_append hsolid hopA, trimRight_append_solid b hsolid, split_byte_append hopB]
  have hsplit' : split [byte op.symbol] (trim (a ++ byte op.symbol :: b)) =
      [trimLeft a, trimRight b] := by
    have hright : byte op.symbol ∉ trimRight b :=
      fun hmem => hopB ((trimRight_isPrefix b).subset hmem)
    rw [split_trim_append hsolid hopA, split_byte_of_not_mem hright]
  have hlong := evaluate_operands hnames hcalls hearlier hsplit
  have hshort := evaluate_operands
    (fun v hv hoccurs => hnames v hv (hoccurs.trans hshorter))
    (fun f hoccurs => hcalls f (hoccurs.trans hshorter))
    (fun op' hlt hmem => hearlier op' hlt (hshorter.subset hmem)) hsplit'
  rw [operate, trim_trimRight] at hshort
  exact hlong.trans hshort.symm

/-- A difference with more operators behind it, the last one without an operand. -/
theorem legacy_evaluate_second_operator_difference :
    SameOutcome
      (Mode.legacy.evaluate (Store.empty.declare "x" (.int 7)) " 8-3*2 -1/4-")
      (Mode.legacy.evaluate (Store.empty.declare "x" (.int 7)) " 8-3*2 ") ∧
      ∃ x, Mode.legacy.evaluate (Store.empty.declare "x" (.int 7)) " 8-3*2 " = .ok x := by
  have hnames : ∀ v ∈ (Store.empty.declare "x" (.int 7)).toList,
      ¬ v.name <:+: Text.ofString " 8-3*2 -1/4-" := by decide
  have hcalls : ∀ f : Builtin, ∀ t ∈ ([" 8", "3*2 ", "1/4-"] : List Text),
      ¬ f.opening <:+: t := by
    intro f
    cases f <;> decide
  have hearlier : ∀ op : Operator,
      Substitution.operators.idxOf op < Substitution.operators.idxOf .sub →
        ∀ t ∈ ([" 8", "3*2 ", "1/4-"] : List Text), byte op.symbol ∉ t := by
    intro op
    cases op <;> decide
  have hsame := legacy_evaluate_second_operator _ .sub hnames (fun t ht f => hcalls f t ht)
    (by decide) fun t ht op hlt => hearlier op hlt t ht
  exact ⟨hsame, _, rfl⟩

/-! ### Calls -/

/-- A call, with the texts in its brackets. -/
inductive Call where
  | pow (arguments : Text)
  | sqrt (argument : Text)
  | log (base argument : Text)

namespace Call

def function : Call → Builtin
  | pow _ => .pow
  | sqrt _ => .sqrt
  | log _ _ => .log

def text : Call → Text
  | pow arguments => "pow(" ++ arguments ++ ")"
  | sqrt argument => "sqrt(" ++ argument ++ ")"
  | log base argument => "log[" ++ base ++ "](" ++ argument ++ ")"

/-- The texts in the brackets of a call. -/
def parts : Call → List Text
  | pow arguments => [arguments]
  | sqrt argument => [argument]
  | log base argument => [base, argument]

/-- Each pair of brackets of a call is balanced inside. -/
def Balanced : Call → Prop
  | pow arguments => Brackets.Balanced (byte '(') (byte ')') arguments
  | sqrt argument => Brackets.Balanced (byte '(') (byte ')') argument
  | log base argument =>
      Brackets.Balanced (byte '[') (byte ']') base ∧
        Brackets.Balanced (byte '(') (byte ')') argument

/-- What stands between the first and the last bracket of a call. -/
def inside : Call → Text
  | pow arguments => arguments
  | sqrt argument => argument
  | log base argument => base ++ byte ']' :: byte '(' :: argument

/-- A call is what opens it, what is inside, and a bracket. -/
theorem text_eq (call : Call) :
    call.text = call.function.opening ++ (call.inside ++ [byte ')']) := by
  cases call with
  | pow arguments => rfl
  | sqrt argument => rfl
  | log base argument =>
      show "log[" ++ base ++ "](" ++ argument ++ ")" =
        Builtin.log.name ++ [byte '['] ++ ((base ++ byte ']' :: byte '(' :: argument) ++ [byte ')'])
      rw [Fragment.log_text]
      simp

theorem solidEnds_text (call : Call) : SolidEnds call.text := by
  have h := Fragment.solidEnds_call call.function (call.function.bracket :: call.inside)
  rw [text_eq, Builtin.opening, List.append_assoc]
  exact h

/-- A call begins between the brackets only if it does so in one of the texts there. -/
theorem not_infix_inside {call : Call} {g : Builtin}
    (hparts : ∀ t ∈ call.parts, ¬ g.opening <:+: t) : ¬ g.opening <:+: call.inside := by
  cases call with
  | pow arguments => exact hparts arguments (by simp [parts])
  | sqrt argument => exact hparts argument (by simp [parts])
  | log base argument =>
      have hbracket : byte ']' ∉ g.opening := by cases g <;> decide
      apply not_infix_append_cons hbracket (hparts base (by simp [parts]))
      intro hoccurs
      rcases List.infix_cons_iff.1 hoccurs with hprefix | hargument
      · -- no call begins with its bracket
        have hhead : g.opening.head? ≠ some (byte '(') := by cases g <;> decide
        obtain ⟨rest, hrest⟩ := hprefix
        obtain ⟨b, p, hopening, -⟩ := g.opening_eq
        rw [hopening] at hhead hrest
        exact hhead (congrArg some (List.cons.inj hrest).1)
      · exact hparts argument (by simp [parts]) hargument

/-- What a call is worth, by the texts in its brackets. -/
def value (store : Store) (levels : Nat) : Call → Except EvalError Float
  | pow arguments =>
      match Brackets.cutOutside? (byte ',') 0 arguments with
      | some (l, r) => do
          let x ← Substitution.evaluateNested store levels (trim l)
          let y ← Substitution.evaluateNested store levels (trim r)
          return x.pow y
      | none => .error (.invalid (.powArguments (pow arguments).text))
  | sqrt argument => do
      let x ← Substitution.evaluateNested store levels (trim argument)
      return x.sqrt
  | log base argument => do
      let b ← Substitution.evaluateNested store levels (trim base)
      let x ← Substitution.evaluateNested store levels (trim argument)
      return Builtin.logBase b x

end Call

namespace Substitution

/-- Where a call is found, the outcome is that of the call, whatever is behind it. -/
theorem evaluateNested_call {store : Store} {call : Call} {t rest : Text}
    (hbalanced : call.Balanced)
    (hcall : callIn? t =
      some (call.function, call.function.bracket :: (call.inside ++ byte ')' :: rest)))
    (levels : Nat) :
    SameOutcome (evaluateNested store (levels + 1) t) (call.value store levels) := by
  have hequal : ∀ r, evaluateNested store (levels + 1) t = r →
      SameOutcome (evaluateNested store (levels + 1) t) r := by
    rintro _ rfl
    exact (onlyInvalid_evaluateNested store (levels + 1) t).sameOutcome
  cases call with
  | pow arguments =>
      simp only [Call.function, Builtin.bracket, Call.inside] at hcall
      cases hcut : Brackets.cutOutside? (byte ',') 0 arguments with
      | none =>
          -- the two messages quote different expressions
          have harguments := powArguments_of_no_comma t hbalanced hcut rest
          simp only [evaluateNested, hcall, harguments, Call.value, hcut]
          exact .invalid _ _
      | some p =>
          have harguments := powArguments_of_cutOutside? t hbalanced hcut rest
          apply hequal
          simp only [evaluateNested, hcall, harguments, Call.value, hcut]
          rfl
  | sqrt argument =>
      simp only [Call.function, Builtin.bracket, Call.inside] at hcall
      have hargument := sqrtArgument_balanced t hbalanced rest
      apply hequal
      simp only [evaluateNested, hcall, hargument, Call.value]
      rfl
  | log base argument =>
      simp only [Call.function, Builtin.bracket, Call.inside, List.append_assoc,
        List.cons_append] at hcall
      have harguments := logArguments_balanced t hbalanced.1 hbalanced.2 rest
      apply hequal
      simp only [evaluateNested, hcall, harguments, Call.value]
      rfl

/-- An expression with a call in it is worth what the call is worth. -/
theorem evaluate_call (store : Store) {call : Call} {pre post : Text}
    (hbalanced : call.Balanced) (hpre : ¬ call.function.opening <:+: pre)
    (hearlier : ∀ g : Builtin, g.priority < call.function.priority →
      ∀ t ∈ pre :: post :: call.parts, ¬ g.opening <:+: t) :
    SameOutcome (evaluate store (pre ++ call.text ++ post)) (call.value store maxDepth) := by
  have htrim : trim (pre ++ call.text ++ post) = trimLeft pre ++
      (call.function.opening ++ (call.inside ++ byte ')' :: trimRight post)) := by
    rw [trim_append_append pre call.solidEnds_text post, call.text_eq]
    simp
  have hfront : ∀ {g : Builtin}, ¬ g.opening <:+: pre → ¬ g.opening <:+: trimLeft pre :=
    fun hno hoccurs => hno (hoccurs.trans (trimLeft_isSuffix pre).isInfix)
  have hbehind : ∀ g : Builtin, g.priority < call.function.priority →
      ¬ g.opening <:+: call.inside ++ byte ')' :: trimRight post := by
    intro g hg
    -- An opening cannot reach over the bracket that closes the call.
    have hbracket : byte ')' ∉ g.opening := by cases g <;> decide
    apply not_infix_append_cons hbracket
    · apply Call.not_infix_inside
      exact fun t ht => hearlier g hg t (by simp [ht])
    · intro hoccurs
      exact hearlier g hg post (by simp) (hoccurs.trans (trimRight_isPrefix post).isInfix)
  have hcall : callIn? (trim (pre ++ call.text ++ post)) = some (call.function,
      call.function.bracket :: (call.inside ++ byte ')' :: trimRight post)) := by
    rw [htrim]
    apply callIn?_append call.function (hfront hpre)
    intro g hg
    exact Builtin.not_infix_opening hg (hfront (hearlier g hg pre (by simp))) (hbehind g hg)
  rw [evaluate, evaluateWithin]
  exact evaluateNested_call hbalanced hcall maxDepth

end Substitution

open Substitution in
/-- **Calls alone.**  Let `call` be the call that is found first in `pre call post`.  Then
what stands around it makes no difference: the outcome is that of the call. -/
theorem legacy_evaluate_around_call (store : Store) {call : Call} {pre post : Text}
    (hbalanced : call.Balanced) (hpre : ¬ call.function.opening <:+: pre)
    (hearlier : ∀ g : Builtin, g.priority < call.function.priority →
      ∀ t ∈ pre :: post :: call.parts, ¬ g.opening <:+: t) :
    SameOutcome (Mode.legacy.evaluate store (pre ++ call.text ++ post))
      (Mode.legacy.evaluate store call.text) := by
  have hnil : ∀ g : Builtin, ¬ g.opening <:+: [] := by
    intro g
    cases g <;> decide
  have hearlier' : ∀ g : Builtin, g.priority < call.function.priority →
      ∀ t ∈ [] :: [] :: call.parts, ¬ g.opening <:+: t := by
    intro g hg
    rw [List.forall_mem_cons, List.forall_mem_cons]
    exact ⟨hnil g, hnil g, fun t ht => hearlier g hg t (by simp [ht])⟩
  have halone := evaluate_call store hbalanced (hnil call.function) hearlier'
  rw [List.nil_append, List.append_nil] at halone
  exact (evaluate_call store hbalanced hpre hearlier).trans halone.symm

/-- A logarithm of a logarithm between other texts. -/
theorem legacy_evaluate_around_call_nested :
    SameOutcome
      (Mode.legacy.evaluate Store.empty " 2*(x] log[4](log[2](16)) + log[3](9)")
      (Mode.legacy.evaluate Store.empty "log[4](log[2](16))") ∧
      ∃ x, Mode.legacy.evaluate Store.empty "log[4](log[2](16))" = .ok x := by
  have hbase : Brackets.enclosed? (byte '[') (byte ']') 0 "4]" =
      some (Text.ofString "4", []) := rfl
  have hargument : Brackets.enclosed? (byte '(') (byte ')') 0 "log[2](16))" =
      some (Text.ofString "log[2](16)", []) := rfl
  have hbalanced : (Call.log "4" "log[2](16)").Balanced :=
    ⟨((Brackets.enclosed?_eq_some_iff (by decide)).1 hbase).2,
      ((Brackets.enclosed?_eq_some_iff (by decide)).1 hargument).2⟩
  have hpre : ¬ Builtin.log.opening <:+: " 2*(x] " := by decide
  have hearlier : ∀ g : Builtin, g.priority < Builtin.log.priority →
      ∀ t ∈ ([" 2*(x] ", " + log[3](9)", "4", "log[2](16)"] : List Text),
        ¬ g.opening <:+: t := by
    intro g
    cases g <;> decide
  have htext : " 2*(x] " ++ (Call.log "4" "log[2](16)").text ++ " + log[3](9)" =
      Text.ofString " 2*(x] log[4](log[2](16)) + log[3](9)" := rfl
  have hsame := legacy_evaluate_around_call Store.empty hbalanced hpre hearlier
  rw [htext] at hsame
  exact ⟨hsame, _, rfl⟩

end LineScript
