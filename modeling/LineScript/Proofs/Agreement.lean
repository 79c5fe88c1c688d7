/-
LineScript/Proofs/Agreement.lean

The two ways of evaluating agree on the texts of the fragment
(`evaluators_agree`).

Evaluation by substitution looks for calls in the text as a whole, for powers
before square roots and for these before logarithms.  It therefore finds the call
that a text of the fragment begins with: calls that are looked for earlier do not
occur inside of it (`Nested.not_infix_pow`, `Nested.not_infix_sqrt`).  The brackets
of the fragment match, so that the arguments are found again, and each call takes
one level, which leaves the five levels that a sum needs.
-/
import LineScript.Expression.Mode
import LineScript.Proofs.Calls
import LineScript.Proofs.Substituting

namespace LineScript

open Text

namespace Fragment

open Expression

/-! ### Brackets -/

/-- White space is no part of the structure of brackets and commas. -/
theorem no_bracket_of_isSpace {b : UInt8} (hb : isSpace b = true) :
    Brackets.isBracket b = false ∧ b ≠ byte ',' := by
  rcases isSpace_iff.1 hb with rfl | rfl | rfl | rfl <;> decide

/-- Texts without calls have neither brackets nor commas. -/
theorem Flat.no_bracket {store : Store} {k : Nat} {t : Text} {x : Float}
    (h : Flat (Atom store) k t x) :
    ∀ b ∈ t, Brackets.isBracket b = false ∧ b ≠ byte ',' := by
  have hpart : ∀ b, isNamePart b = true ∨ b = byte '.' →
      Brackets.isBracket b = false ∧ b ≠ byte ',' := by decide +kernel
  refine h.forall_mem (fun t x ha b hb => hpart b ?_) (fun _ => no_bracket_of_isSpace)
    (by intro op; cases op <;> decide)
  cases ha with
  | numeral hparts _ =>
      have hplain := Substitution.isPlain_of_parts hparts b hb
      exact hplain.imp_left fun hdigit => by simp [isNamePart, hdigit]
  | bound hname _ _ _ _ => exact .inl (isNamePart_of_isIdentifier hname b hb)

/-- White space between the parts leaves the brackets as they are. -/
theorem Padded.closed {c : Bool} {t s : Text} (h : Padded t s)
    (ht : Brackets.Closed c t) : Brackets.Closed c s := by
  obtain ⟨u, v, hu, hv, rfl⟩ := h
  have hgap : ∀ w, Gap w → Brackets.Closed c w := fun w hw =>
    Brackets.closed_of_forall fun b hb => no_bracket_of_isSpace (hw b hb)
  exact ((hgap u hu).append ht).append (hgap v hv)

theorem closed_name (f : Builtin) (c : Bool) : Brackets.Closed c f.name := by
  refine Brackets.closed_of_forall ?_
  cases f <;> exact List.all_iff_forall_prop.1 (by decide)

/-- The brackets of the fragment match. -/
theorem Nested.closed {store : Store} {tier : Tier} {n : Nat} {t : Text} {x : Float}
    (h : Nested store tier n t x) (c : Bool) : Brackets.Closed c t := by
  induction h generalizing c with
  | flat h => exact Brackets.closed_of_forall h.no_bracket
  | log _ hpad _ hpad' ih₁ ih₂ =>
      rw [log_text]
      exact (closed_name .log c).append
        (.square (hpad.closed (ih₁ true)) (.round (hpad'.closed (ih₂ true)) .nil))
  | ofLogarithm _ ih => exact ih c
  | sqrt _ hpad ih =>
      rw [sqrt_text]
      exact (closed_name .sqrt c).append (.round (hpad.closed (ih true)) .nil)
  | ofRoot _ ih => exact ih c
  | @pow m n s t s' t' x y _ hpad _ hpad' ih₁ ih₂ =>
      rw [pow_text]
      have hcomma : Brackets.Closed true (byte ',' :: t') :=
        .byte (by decide) (fun _ => rfl) (hpad'.closed (ih₂ true))
      have hround := Brackets.Closed.round ((hpad.closed (ih₁ true)).append hcomma)
        (Brackets.Closed.nil (c := c))
      simpa using (closed_name .pow c).append hround

/-! ### Calls that do not occur -/

/-- The beginning of a call: a name and an opening round bracket. -/
structure IsOpening (p : Text) : Prop where
  round : byte '(' ∈ p
  first : p.head? ≠ some (byte '(')
  other : ∀ b ∈ p, isSpace b = false ∧ b ≠ byte '[' ∧ b ≠ byte ']' ∧ b ≠ byte ')'

/-- The opening bracket of a call is the last byte of what is looked for. -/
theorem isOpening_name (f : Builtin) : IsOpening (f.name ++ [byte '(']) := by
  cases f <;> exact ⟨by decide, by decide, List.all_iff_forall_prop.1 (by decide)⟩

namespace IsOpening

variable {p : Text} (hp : IsOpening p)
include hp

/-- What ends with a bracket does not occur in a text without one. -/
theorem not_infix_of_not_mem {t : Text} (ht : byte '(' ∉ t) : ¬ p <:+: t :=
  fun h => ht (h.subset hp.round)

/-- A bracket in front does not make an opening, which needs a name before it. -/
theorem not_infix_round {t : Text} (ht : ¬ p <:+: t) : ¬ p <:+: byte '(' :: t := by
  intro h
  rcases List.infix_cons_iff.1 h with hbegins | hoccurs
  · cases p with
    | nil => cases hp.round
    | cons b p =>
        obtain ⟨rfl, -⟩ := List.cons_prefix_cons.1 hbegins
        exact hp.first rfl
  · exact ht hoccurs

/-- White space does not make an opening of what was none. -/
theorem not_infix_padded {t s : Text} (ht : ¬ p <:+: t) (h : Padded t s) :
    ¬ p <:+: s := by
  obtain ⟨u, v, hu, hv, rfl⟩ := h
  -- No byte of a call's beginning is white space, so each blank cuts the text in two.
  have hgap : ∀ w, Gap w → ¬ p <:+: w := fun w hw =>
    hp.not_infix_of_not_mem fun hmem => absurd (hw _ hmem) (by decide)
  have hspace : ∀ b, isSpace b = true → b ∉ p := fun b hb hmem => by
    simp [(hp.other b hmem).1] at hb
  have hright : ¬ p <:+: t ++ v := by
    cases v with
    | nil => simpa using ht
    | cons b v =>
        refine not_infix_append_cons (hspace b (hv b (by simp))) ht ?_
        exact hgap v fun c hc => hv c (by simp [hc])
  induction u with
  | nil => simpa using hright
  | cons b u ih =>
      have hu' : Gap u := fun c hc => hu c (by simp [hc])
      have hstep := not_infix_append_cons (hspace b (hu b (by simp)))
        (hgap [] (by simp [Gap])) (ih hu')
      simpa using hstep

/-- A call does not begin in the brackets of another if it does not begin in its
arguments. -/
theorem not_infix_brackets {t' : Text} (ht : ¬ p <:+: t') :
    ¬ p <:+: byte '(' :: (t' ++ [byte ')']) := by
  refine hp.not_infix_round (not_infix_append_cons ?_ ht ?_)
  · exact fun hmem => (hp.other _ hmem).2.2.2 rfl
  · exact hp.not_infix_of_not_mem (by simp)

/-- The brackets of a logarithm stand behind its base, so they open no call with round
brackets. -/
theorem not_infix_log {s' t' : Text} (hs : ¬ p <:+: s') (ht : ¬ p <:+: t') :
    ¬ p <:+: "log[" ++ s' ++ "](" ++ t' ++ ")" := by
  rw [log_text]
  refine not_infix_append_cons ?_ (hp.not_infix_of_not_mem (by decide)) ?_
  · exact fun hmem => (hp.other _ hmem).2.1 rfl
  · refine not_infix_append_cons ?_ hs (hp.not_infix_brackets ht)
    exact fun hmem => (hp.other _ hmem).2.2.1 rfl

end IsOpening

/-- There are no calls but logarithms in a logarithm. -/
theorem Nested.not_infix_of_logarithm {store : Store} {n : Nat} {t : Text} {x : Float}
    (h : Nested store .logarithm n t x) {p : Text} (hp : IsOpening p) : ¬ p <:+: t := by
  -- The tier has to be a variable for the induction; only two rules lead to this one.
  generalize htier : Tier.logarithm = tier at h
  induction h with
  | flat h =>
      exact hp.not_infix_of_not_mem fun hmem => absurd (h.no_bracket _ hmem).1 (by decide)
  | log _ hpad _ hpad' ih₁ ih₂ =>
      exact hp.not_infix_log (hp.not_infix_padded (ih₁ rfl) hpad)
        (hp.not_infix_padded (ih₂ rfl) hpad')
  | ofLogarithm | sqrt | ofRoot | pow => cases htier

/-- There are no powers in a square root. -/
theorem Nested.not_infix_pow {store : Store} {n : Nat} {t : Text} {x : Float}
    (h : Nested store .root n t x) : ¬ Builtin.pow.name ++ [byte '('] <:+: t := by
  have hp := isOpening_name .pow
  generalize htier : Tier.root = tier at h
  induction h with
  | ofLogarithm h => exact h.not_infix_of_logarithm hp
  | @sqrt n t t' x _ hpad ih =>
      rw [sqrt_text]
      -- The last letter of the name does not occur in the other one.
      have hname : Builtin.sqrt.name = Text.ofString "sqr" ++ [byte 't'] := rfl
      rw [hname, List.append_assoc, List.singleton_append]
      exact not_infix_append_cons (by decide) (hp.not_infix_of_not_mem (by decide))
        (hp.not_infix_brackets (hp.not_infix_padded (ih rfl) hpad))
  | flat | log | ofRoot | pow => cases htier

end Fragment

namespace Substitution

open Expression Fragment

/-! ### Finding calls and their arguments -/

/-- Powers are looked for first. -/
theorem callIn?_pow (t : Text) :
    callIn? (Builtin.pow.name ++ byte '(' :: t) = some (.pow, byte '(' :: t) :=
  callIn?_name .pow fun _ hg => absurd hg (Nat.not_lt_zero _)

/-- A square root is found if there is no power. -/
theorem callIn?_sqrt {t : Text}
    (hpow : ¬ Builtin.pow.name ++ [byte '('] <:+: Builtin.sqrt.name ++ byte '(' :: t) :
    callIn? (Builtin.sqrt.name ++ byte '(' :: t) = some (.sqrt, byte '(' :: t) := by
  refine callIn?_name .sqrt fun g hg => ?_
  cases g with
  | pow => exact hpow
  | sqrt | log => exact absurd hg (by decide)

/-- A logarithm is found if no call with round brackets is. -/
theorem callIn?_log {t : Text}
    (hround : ∀ f : Builtin,
      ¬ f.name ++ [byte '('] <:+: Builtin.log.name ++ byte '[' :: t) :
    callIn? (Builtin.log.name ++ byte '[' :: t) = some (.log, byte '[' :: t) := by
  refine callIn?_name .log fun g hg => ?_
  cases g with
  | pow => exact hround .pow
  | sqrt => exact hround .sqrt
  | log => exact absurd hg (by decide)

/-- Without brackets there is no call. -/
theorem callIn?_of_no_bracket {t : Text} (h : ∀ b ∈ t, Brackets.isBracket b = false) :
    callIn? t = none := by
  refine callIn?_eq_none fun f hoccurs => ?_
  have hbracket := h f.bracket (hoccurs.subset (by simp [Builtin.opening]))
  cases f <;> exact absurd hbracket (by decide)

/-- The arguments of a power are cut at the one comma outside all brackets. -/
theorem powArguments_eq {s' t' : Text} (hs : ∀ c, Brackets.Closed c s')
    (ht : ∀ c, Brackets.Closed c t') (source : Text) :
    powArguments source (byte '(' :: (s' ++ byte ',' :: (t' ++ [byte ')']))) =
      .ok (trim s', trim t') := by
  have hboth : Brackets.Closed true (s' ++ byte ',' :: t') :=
    (hs true).append (.byte (by decide) (fun _ => rfl) (ht true))
  have harguments := powArguments_of_cutOutside? source (hboth.balanced isPair_round)
    (Brackets.cutOutside?_closed (hs false) t') []
  rwa [List.append_assoc, List.cons_append] at harguments

/-- The argument of a square root goes up to the bracket at the end. -/
theorem sqrtArgument_eq {t' : Text} (ht : ∀ c, Brackets.Closed c t') (source : Text) :
    sqrtArgument source (byte '(' :: (t' ++ [byte ')'])) = .ok (trim t') :=
  sqrtArgument_balanced source ((ht true).balanced isPair_round) []

/-- Base and argument of a logarithm stand in brackets of their own. -/
theorem logArguments_eq {s' t' : Text} (hs : ∀ c, Brackets.Closed c s')
    (ht : ∀ c, Brackets.Closed c t') (source : Text) :
    logArguments source
        (byte '[' :: (s' ++ byte ']' :: byte '(' :: (t' ++ [byte ')']))) =
      .ok (trim s', trim t') :=
  logArguments_balanced source ((hs true).balanced isPair_square)
    ((ht true).balanced isPair_round) []

/-! ### Evaluation -/

/-- A sum needs five levels, and each call around it one more. -/
theorem evaluateNested_of_nested {store : Store}
    (hnames : ∀ v ∈ store.toList, isIdentifier v.name = true) {tier : Tier} {n : Nat}
    {t : Text} {x : Float} (h : Nested store tier n t x) {levels : Nat}
    (hlevels : n + 5 ≤ levels) : evaluateNested store levels t = .ok x := by
  induction h generalizing levels with
  | @flat t x h =>
      obtain ⟨l, rfl⟩ := Nat.exists_eq_add_of_le hlevels
      obtain ⟨t', hplain, hreplace⟩ := exists_replaceIdentifiers h
      have htext : replaceIdentifiers store t = t' := by
        simpa using hreplace [] (by simp)
      have hcall : callIn? t = none :=
        callIn?_of_no_bracket fun b hb => (h.no_bracket b hb).1
      have hlevel : 0 + 5 + l = (l + 4) + 1 := by omega
      rw [hlevel, evaluateNested, hcall, htext]
      exact reduce_of_flat hnames hplain (by omega)
  | @log m n s t s' t' x y hs hpad ht hpad' ih₁ ih₂ =>
      obtain ⟨l, rfl⟩ := Nat.exists_eq_add_of_le hlevels
      have hlevel : max m n + 1 + 5 + l = (max m n + 5 + l) + 1 := by omega
      -- No power and no square root is found first.
      have hround : ∀ f : Builtin, ¬ f.name ++ [byte '('] <:+:
          Builtin.log.name ++ byte '[' :: (s' ++ byte ']' :: byte '(' :: (t' ++ [byte ')'])) := by
        intro f
        rw [← log_text]
        exact (Nested.log hs hpad ht hpad').not_infix_of_logarithm (isOpening_name f)
      have harguments := logArguments_eq (fun c => hpad.closed (hs.closed c))
        (fun c => hpad'.closed (ht.closed c))
        ("log[" ++ s' ++ "](" ++ t' ++ ")")
      rw [trim_of_padded hs.solidEnds hpad, trim_of_padded ht.solidEnds hpad'] at harguments
      rw [log_text] at harguments ⊢
      rw [hlevel, evaluateNested, callIn?_log hround]
      simp only [harguments, bind, Except.bind]
      rw [ih₁ (by omega), ih₂ (by omega)]
      rfl
  | ofLogarithm _ ih => exact ih hlevels
  | @sqrt n t t' x ht hpad ih =>
      obtain ⟨l, rfl⟩ := Nat.exists_eq_add_of_le hlevels
      have hlevel : n + 1 + 5 + l = (n + 5 + l) + 1 := by omega
      have hpow := (Nested.sqrt ht hpad).not_infix_pow
      have hargument := sqrtArgument_eq (fun c => hpad.closed (ht.closed c))
        ("sqrt(" ++ t' ++ ")")
      rw [trim_of_padded ht.solidEnds hpad] at hargument
      rw [sqrt_text] at hpow hargument ⊢
      rw [hlevel, evaluateNested, callIn?_sqrt hpow]
      simp only [hargument, bind, Except.bind]
      rw [ih (by omega)]
      rfl
  | ofRoot _ ih => exact ih hlevels
  | @pow m n s t s' t' x y hs hpad ht hpad' ih₁ ih₂ =>
      obtain ⟨l, rfl⟩ := Nat.exists_eq_add_of_le hlevels
      have hlevel : max m n + 1 + 5 + l = (max m n + 5 + l) + 1 := by omega
      have harguments := powArguments_eq (fun c => hpad.closed (hs.closed c))
        (fun c => hpad'.closed (ht.closed c)) ("pow(" ++ s' ++ "," ++ t' ++ ")")
      rw [trim_of_padded hs.solidEnds hpad, trim_of_padded ht.solidEnds hpad'] at harguments
      rw [pow_text] at harguments ⊢
      rw [hlevel, evaluateNested, callIn?_pow]
      simp only [harguments, bind, Except.bind]
      rw [ih₁ (by omega), ih₂ (by omega)]
      rfl

end Substitution

open Fragment

/-! ### Agreement -/

/-- On every text of the fragment with at most sixty levels of calls, and white
space around it or not, both ways of evaluating give the number that the text is
worth, as long as the variables have identifiers for names. -/
theorem evaluators_agree {store : Store}
    (hnames : ∀ v ∈ store.toList, Expression.isIdentifier v.name = true) {n : Nat}
    (hn : n ≤ 60) {t source : Text} {x : Float} (h : Nested store .power n t x)
    (hpad : Padded t source) :
    Mode.legacy.evaluate store source = .ok x ∧
      Mode.precedence.evaluate store source = .ok x := by
  constructor
  · have htrim : trim source = t := Substitution.trim_of_padded h.solidEnds hpad
    have hlevels : n + 5 ≤ Substitution.maxDepth + 1 := by
      rw [Substitution.maxDepth]
      omega
    rw [Mode.evaluate, Substitution.evaluate, Substitution.evaluateWithin, htrim]
    · exact Substitution.evaluateNested_of_nested hnames h hlevels
    · simp
  · exact h.precedence_evaluate hpad

/-- A power of a difference, with a square root of a logarithm for its exponent. -/
theorem evaluators_agree_on_power :
    ∃ x,
      Mode.legacy.evaluate (Store.empty.declare "x" (.int 7))
          " pow( x - .5\t,sqrt(log[2]( x/3 )))" = .ok x ∧
        Mode.precedence.evaluate (Store.empty.declare "x" (.int 7))
          " pow( x - .5\t,sqrt(log[2]( x/3 )))" = .ok x := by
  have hdigit : ∀ c : Char, isDigit (byte c) = true → ∀ b ∈ [byte c], isDigit b = true := by
    simp
  have hgap : Gap [] := by simp [Gap]
  have hspace : Gap [byte ' '] := by simp [Gap, Expression.isSpace]
  have htab : Gap [byte '\t'] := by simp [Gap, Expression.isSpace]
  have hx : Atom (Store.empty.declare "x" (.int 7)) (Text.ofString "x") (Double.ofInt 7) :=
    .bound rfl rfl (List.all_iff_forall_prop.1 (by decide)) rfl rfl
  obtain ⟨half, hhalf⟩ := exists_atom_numeral (Store.empty.declare "x" (.int 7))
    [] (Text.ofString ".5")
    ⟨by simp, .inr ⟨[byte '5'], rfl, hdigit '5' rfl⟩, .inl rfl, by decide⟩
  obtain ⟨two, htwo⟩ := exists_atom_numeral (Store.empty.declare "x" (.int 7))
    [byte '2'] [] ⟨hdigit '2' rfl, .inl rfl, .inl rfl, by decide⟩
  obtain ⟨three, hthree⟩ := exists_atom_numeral (Store.empty.declare "x" (.int 7))
    [byte '3'] [] ⟨hdigit '3' rfl, .inl rfl, .inl rfl, by decide⟩
  have hdifference := @Flat.binary _ .sub _ _ _ _ _ _ (.higher (.higher (.atom hx)))
    hspace hspace (.higher (.higher (.atom hhalf)))
  have hquotient := @Flat.binary _ .div _ _ _ _ _ _ (.atom hx) hgap hgap (.atom hthree)
  have hlog := Nested.log (.flat (.higher (.higher (.higher (.higher (.atom htwo))))))
    ⟨[], [], hgap, hgap, rfl⟩ (.flat (.higher (.higher (.higher hquotient))))
    ⟨[byte ' '], [byte ' '], hspace, hspace, rfl⟩
  have hsqrt := Nested.sqrt (.ofLogarithm hlog) ⟨[], [], hgap, hgap, rfl⟩
  have hpow := Nested.pow (.ofRoot (.ofLogarithm (.flat (.higher hdifference))))
    ⟨[byte ' '], [byte '\t'], hspace, htab, rfl⟩ (.ofRoot hsqrt) ⟨[], [], hgap, hgap, rfl⟩
  exact ⟨_, evaluators_agree (by decide) (by decide) hpow ⟨[byte ' '], [], hspace, hgap, rfl⟩⟩

end LineScript
