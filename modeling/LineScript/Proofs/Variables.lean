/-
LineScript/Proofs/Variables.lean

The value of a variable by itself.  By the rules of arithmetic, the name of a number is worth
the number.  By substitution it is replaced by the text of the number, in which operators are
then looked for, and a minus sign is one of them.

* The text of a finite magnitude is made of digits and a point, or it ends with an exponent
  (`Double.Written`), which is negative for the magnitudes below `10 ^ -3` and for no others
  (`Double.written_spellMagnitude`).
* In front of the first minus sign of a number there is nothing, or digits and an `E`.
  Neither can be read as a number (`Printed`).

Main result: `evaluate_variable`.
-/
import LineScript.Proofs.Doubles
import LineScript.Proofs.Failures

namespace LineScript

open Text Expression Fragment

/-! ### Digits and points -/

namespace Fragment

theorem IsPlain.append {s t : Text} (hs : IsPlain s) (ht : IsPlain t) : IsPlain (s ++ t) :=
  List.forall_mem_append.2 ⟨hs, ht⟩

theorem isPlain_of_digits {t : Text} (h : ∀ b ∈ t, isDigit b = true) : IsPlain t :=
  fun b hb => .inl (h b hb)

theorem isPlain_zeros (n : Nat) : IsPlain (List.replicate n (byte '0')) := by
  intro b hb
  rw [(List.mem_replicate.1 hb).2]
  exact .inl rfl

theorem isPlain_point : IsPlain "." :=
  fun _ hb => .inr (List.mem_singleton.1 hb)

theorem isPlain_ofNat (n : Nat) : IsPlain (Text.ofNat n) :=
  isPlain_of_digits fun _ hb => isDigit_of_mem_ofNat hb

end Fragment

/-! ### The texts of magnitudes -/

namespace Double

/-- The texts of finite magnitudes: digits with a point among them, with an exponent or
without one.  What has no exponent counts as one with the exponent zero. -/
inductive Written : Text → ℤ → Prop where
  | plain {t : Text} : IsPlain t → Written t 0
  | scientific {w d : Text} (k : ℤ) : NumberParts w (byte '.' :: d) [] →
      Written (w ++ byte '.' :: d ++ byte 'E' :: Text.ofInt k) k

section

variable {digits : Text} (hdigits : ∀ b ∈ digits, isDigit b = true)
include hdigits

theorem isDigit_of_mem_decimals (n : Nat) : ∀ b ∈ decimals (digits.drop n), isDigit b = true := by
  intro b hb
  unfold decimals at hb
  split at hb
  · rw [List.mem_singleton.1 hb]
    rfl
  · exact hdigits b (List.mem_of_mem_drop hb)

/-- Positional notation is plain. -/
theorem isPlain_positional (point : ℤ) : IsPlain (positional digits point) := by
  have hzero : IsPlain "0." := (isPlain_zeros 1).append isPlain_point
  unfold positional
  split
  · exact (hzero.append (isPlain_zeros _)).append (isPlain_of_digits hdigits)
  · have hfront : IsPlain (digits.take point.toNat) :=
      isPlain_of_digits fun b hb => hdigits b (List.mem_of_mem_take hb)
    exact ((hfront.append (isPlain_zeros _)).append isPlain_point).append
      (isPlain_of_digits (isDigit_of_mem_decimals hdigits _))

/-- Scientific notation is plain apart from its exponent. -/
theorem written_scientific (hne : digits ≠ []) (point : ℤ) :
    Written (scientific digits point) (point - 1) := by
  have hparts : NumberParts (digits.take 1) (byte '.' :: decimals (digits.drop 1)) [] := by
    refine ⟨fun b hb => hdigits b (List.mem_of_mem_take hb), ?_, .inl rfl, ?_⟩
    · exact .inr ⟨_, rfl, isDigit_of_mem_decimals hdigits 1⟩
    · simp [hne]
  have h := Written.scientific (point - 1) hparts
  rw [Double.scientific, List.append_assoc _ (ofString "."), List.append_assoc _ (ofString "E")]
  exact h

end

/-! Positional notation begins below one and ends above it, and exponents are negative below
one. -/

/-- Positional notation begins below one. -/
theorem positionalFrom_le : positionalFrom ≤ 1014 * leastNormal := by
  have hk : (-9 + 1023 : ℤ).toNat = 1014 := rfl
  rw [← hk]
  exact magnitude_le (by decide) (by decide) (by decide) (by norm_num)

theorem mul_leastNormal_le_infinite {k : Nat} (hk : k ≤ 2047) : k * leastNormal ≤ infinite :=
  Nat.mul_le_mul_right leastNormal hk

/-- It ends above one. -/
theorem le_positionalBelow : 1046 * leastNormal ≤ positionalBelow := by
  have hk : (23 + 1023 : ℤ).toNat = 1046 := rfl
  rw [← min_eq_left (mul_leastNormal_le_infinite (k := 1046) (by decide)), ← hk]
  exact le_magnitude (by decide) (by decide) (by decide) (by norm_num)

section

variable {c : Nat} {e : ℤ} (hpos : 0 < decimalMagnitude c e)
include hpos

/-- Rounding does not go below one from above it. -/
theorem le_decimalMagnitude (h : (1 : ℚ) ≤ c * 10 ^ e) :
    1023 * leastNormal ≤ decimalMagnitude c e := by
  have hk : (0 + 1023 : ℤ).toNat = 1023 := rfl
  rw [← min_eq_left (mul_leastNormal_le_infinite (k := 1023) (by decide)), ← hk]
  refine le_magnitude (scaled_fst_pos hpos) (scaled_snd_pos (by decide) c e) (by decide) ?_
  rwa [div_scaled_ten, zpow_zero]

/-- Nor above one from below it. -/
theorem decimalMagnitude_le (h : (c : ℚ) * 10 ^ e < 1) :
    decimalMagnitude c e ≤ 1023 * leastNormal := by
  have hk : (0 + 1023 : ℤ).toNat = 1023 := rfl
  rw [← hk]
  refine magnitude_le (scaled_fst_pos hpos) (scaled_snd_pos (by decide) c e) (by decide) ?_
  rwa [div_scaled_ten, zpow_zero]

/-- Below positional notation the exponent is negative. -/
theorem point_nonpos (h : decimalMagnitude c e < positionalFrom) : (digitsOf c e).2 ≤ 0 := by
  by_contra hpoint
  have hone : (1 : ℚ) ≤ c * 10 ^ e :=
    (one_le_zpow₀ (by norm_num) (by omega)).trans (zpow_point_le (coefficient_pos hpos) e)
  have hlt := (le_decimalMagnitude hpos hone).trans_lt (h.trans_le positionalFrom_le)
  exact absurd (Nat.lt_of_mul_lt_mul_right hlt) (by decide)

/-- Above it the exponent is not negative. -/
theorem point_pos (h : positionalBelow ≤ decimalMagnitude c e) : 0 < (digitsOf c e).2 := by
  by_contra hpoint
  have hone : (c : ℚ) * 10 ^ e < 1 :=
    (lt_zpow_point c e).trans_le (zpow_le_one_of_nonpos₀ (by norm_num) (by omega))
  have hle := (le_positionalBelow.trans h).trans (decimalMagnitude_le hpos hone)
  exact absurd (Nat.le_of_mul_le_mul_right hle (by decide)) (by decide)

end

/-- Only magnitudes below `10 ^ -3` have a negative exponent. -/
theorem written_spellMagnitude {m : Nat} (hm : 0 < m) (hfin : m < infinite) :
    ∃ k, Written (spellMagnitude m) k ∧ (k < 0 ↔ m < positionalFrom) := by
  have hread := decimalMagnitude_shortest hm hfin
  have hspell : spellDigits m = digitsOf (shortest m).1 (shortest m).2 := by
    rw [spellDigits_eq]
  generalize (shortest m).1 = c at hread hspell
  generalize (shortest m).2 = e at hread hspell
  rw [spellMagnitude, if_neg hfin.ne, if_neg hm.ne', hspell]
  rw [← hread] at hm ⊢
  dsimp only
  -- A spelling without an exponent is used in the range in which the exponent would be
  -- small; below that range the point lies left of all digits.
  split
  · next h =>
      refine ⟨0, .plain (isPlain_positional isDigit_of_mem_digitsOf _), ?_⟩
      exact iff_of_false (lt_irrefl 0) h.1.not_gt
  · next h =>
      refine ⟨_, written_scientific isDigit_of_mem_digitsOf
        (digitsOf_ne_nil (coefficient_pos hm) e) _, ?_⟩
      constructor
      · intro hk
        by_contra hfrom
        have hbelow : positionalBelow ≤ decimalMagnitude c e :=
          not_lt.1 fun hlt => h ⟨not_lt.1 hfrom, hlt⟩
        have hpoint := point_pos hm hbelow
        omega
      · intro hfrom
        have hpoint := point_nonpos hm hfrom
        omega

/-! ### Minus signs -/

open Substitution

theorem minus_mem_signed_iff {negative : Bool} {t : Text} :
    byte '-' ∈ signed negative t ↔ negative = true ∨ byte '-' ∈ t := by
  cases negative <;> simp [signed]

theorem minus_mem_ofInt_iff (k : ℤ) : byte '-' ∈ Text.ofInt k ↔ k < 0 := by
  rw [Numeral.ofInt_eq_signed, minus_mem_signed_iff, decide_eq_true_eq]
  exact or_iff_left (symbol_not_mem_of_isPlain (isPlain_ofNat k.natAbs) .sub)

/-- A text in scientific notation has a minus in it if its exponent is negative. -/
theorem Written.minus_mem_iff {t : Text} {k : ℤ} (h : Written t k) : byte '-' ∈ t ↔ k < 0 := by
  cases h with
  | plain hplain => exact iff_of_false (symbol_not_mem_of_isPlain hplain .sub) (lt_irrefl 0)
  | @scientific w d k hparts =>
      have hfront : byte '-' ∉ w ++ byte '.' :: d :=
        symbol_not_mem_of_isPlain (isPlain_of_parts hparts) .sub
      rw [List.mem_append, or_iff_right hfront, List.mem_cons, or_iff_right (by decide),
        minus_mem_ofInt_iff]

/-- A magnitude is spelled with a minus exactly if it is too small for positional notation. -/
theorem minus_mem_spellMagnitude_iff {m : Nat} (hm : m ≤ infinite) :
    byte '-' ∈ spellMagnitude m ↔ 0 < m ∧ m < positionalFrom := by
  rcases hm.lt_or_eq with hfin | rfl
  · rcases Nat.eq_zero_or_pos m with rfl | hpos
    · exact iff_of_false (by decide) fun h => lt_irrefl 0 h.1
    · obtain ⟨k, hwritten, hk⟩ := written_spellMagnitude hpos hfin
      rw [hwritten.minus_mem_iff, hk, and_iff_right hpos]
  · have hfrom : positionalFrom ≤ infinite :=
      positionalFrom_le.trans (mul_leastNormal_le_infinite (by decide))
    exact iff_of_false (by decide) fun h => h.2.not_ge hfrom

/-- The text of a double has a minus sign if the double is negative, which includes negative
zero and negative infinity, or if it is written with a negative exponent. -/
theorem minus_mem_spell_iff (f : Float) :
    byte '-' ∈ spell f ↔ magnitudeOf f ≤ infinite ∧
      (isNegative f = true ∨ 0 < magnitudeOf f ∧ magnitudeOf f < positionalFrom) := by
  rcases Nat.lt_or_ge infinite (magnitudeOf f) with hnan | hnum
  · rw [spell, if_pos hnan]
    exact iff_of_false (by decide) fun h => hnan.not_ge h.1
  · rw [spell_eq_signed hnum, minus_mem_signed_iff, minus_mem_spellMagnitude_iff hnum,
      and_iff_right hnum]

end Double

/-- Numbers with a minus sign in their text: negative ones, with negative zero and negative
infinity among them, and those between zero and `10 ^ -3`, which have a negative exponent. -/
def Value.HasMinus : Value → Prop
  | .int n => n.toInt < 0
  | .double f => Double.magnitudeOf f ≤ Double.infinite ∧ (Double.isNegative f = true ∨
      0 < Double.magnitudeOf f ∧ Double.magnitudeOf f < Double.positionalFrom)
  | _ => False

/-! ### Operators in the texts of numbers -/

namespace Substitution

/-- A text in which no operator is found but a minus sign, and what stands in front of the
first one is not a number. -/
structure Printed (t : Text) : Prop where
  only : ∀ op : Operator, byte op.symbol ∈ t → op = .sub
  front : byte '-' ∈ t → ∃ l r, t = l ++ byte '-' :: r ∧ byte '-' ∉ l ∧ Double.read? l = none

theorem printed_of_no_operator {t : Text} (h : ∀ op : Operator, byte op.symbol ∉ t) :
    Printed t :=
  ⟨fun op hop => absurd hop (h op), fun hminus => absurd hminus (h .sub)⟩

/-- A sign in front is not taken for an operator. -/
theorem Printed.signed {t : Text} (h : Printed t) (negative : Bool) :
    Printed (signed negative t) := by
  cases negative with
  | false => exact h
  | true =>
      refine ⟨fun op hop => ?_, fun _ => ⟨[], t, rfl, List.not_mem_nil, by decide⟩⟩
      rcases List.mem_cons.1 hop with hop | hop
      · exact symbol_injective hop
      · exact h.only op hop

/-- Digits with nothing behind the mark of an exponent are not a number. -/
theorem read?_of_mark {w f : Text} (h : NumberParts w f []) :
    Double.read? (w ++ f ++ [byte 'E']) = none := by
  have hends : SolidEnds (w ++ f ++ [byte 'E']) := by
    obtain ⟨b, r, hr, hfirst⟩ := h.digits_first
    refine ⟨⟨b, by rw [hr]; rfl, (plain_byte b hfirst).1⟩, byte 'E', ?_, rfl⟩
    exact List.getLast?_concat
  have hmark : StartsWithMark [byte 'E'] := by
    rintro b ⟨⟩
    rfl
  have hread := h.readTrimmed?_signed hmark false
  rw [Double.read?, trim_eq_self hends]
  exact hread

theorem printed_ofInt (k : ℤ) : Printed (Text.ofInt k) := by
  have hno := symbol_not_mem_of_isPlain (isPlain_ofNat k.natAbs)
  rw [Numeral.ofInt_eq_signed]
  exact (printed_of_no_operator hno).signed _

/-- In front of the minus sign of an exponent stands its mark. -/
theorem printed_of_written {t : Text} {k : ℤ} (h : Double.Written t k) : Printed t := by
  have hminus := h.minus_mem_iff
  cases h with
  | plain hplain => exact printed_of_no_operator (symbol_not_mem_of_isPlain hplain)
  | @scientific w d k hparts =>
      have hplain := symbol_not_mem_of_isPlain (isPlain_of_parts hparts)
      have hmark : ∀ op : Operator, byte op.symbol ≠ byte 'E' := by
        intro op
        cases op <;> decide
      refine ⟨fun op hop => ?_, fun hmem => ?_⟩
      · rw [List.mem_append, or_iff_right (hplain op), List.mem_cons,
          or_iff_right (hmark op)] at hop
        exact (printed_ofInt k).only op hop
      · have hk : decide (k < 0) = true := decide_eq_true (hminus.1 hmem)
        refine ⟨w ++ byte '.' :: d ++ [byte 'E'], Text.ofNat k.natAbs, ?_, ?_,
          read?_of_mark hparts⟩
        · rw [Numeral.ofInt_eq_signed, hk]
          simp [signed]
        · rw [List.mem_append, not_or]
          exact ⟨hplain .sub, by decide⟩

/-- Doubles are spelled without operators, apart from signs. -/
theorem printed_spell (f : Float) : Printed (Double.spell f) := by
  rcases Nat.lt_or_ge Double.infinite (Double.magnitudeOf f) with hnan | hnum
  · rw [Double.spell, if_pos hnan]
    exact printed_of_no_operator (t := "NaN") fun op => by cases op <;> decide
  · rw [Double.spell_eq_signed hnum]
    refine Printed.signed ?_ _
    rcases hnum.lt_or_eq with hfin | hinf
    · rcases Nat.eq_zero_or_pos (Double.magnitudeOf f) with hzero | hpos
      · rw [hzero]
        exact printed_of_no_operator (t := "0.0") fun op => by cases op <;> decide
      · obtain ⟨k, hwritten, -⟩ := Double.written_spellMagnitude hpos hfin
        exact printed_of_written hwritten
    · rw [hinf]
      exact printed_of_no_operator (t := "Infinity") fun op => by cases op <;> decide

/-! ### Reducing the text of a number -/

variable {store : Store} {t : Text} (hnames : ∀ w ∈ store.toList, ¬ w.name <:+: t)
include hnames

/-- A text without operators is read as a number. -/
theorem reduce_of_no_operator (hno : ∀ op : Operator, byte op.symbol ∉ t) {f : Float}
    (hread : Double.read? t = some f) (levels : Nat) : reduce store (levels + 1) t = .ok f := by
  simp only [reduce, replaceNames_eq_self hnames, find?_operators_none hno, hread]

/-- A minus sign in the text of a number is taken for an operator, with an operand in front of
it that is not a number. -/
theorem exists_reduce_of_minus (hprinted : Printed t) (hminus : byte '-' ∈ t) (levels : Nat) :
    ∃ c, reduce store (levels + 1) t = .error (.invalid c) := by
  obtain ⟨l, r, rfl, hl, hread⟩ := hprinted.front hminus
  have hfind : operators.find? (fun op => occursIn [byte op.symbol] (l ++ byte '-' :: r)) =
      some .sub := find?_operators hminus fun op hop => by rw [hprinted.only op hop]
  obtain ⟨r', more, hr⟩ : ∃ r' more, split [byte '-'] r = r' :: more := ⟨_, _, rfl⟩
  have hsplit : split [byte '-'] (l ++ byte '-' :: r) = l :: r' :: more := by
    rw [split_byte_append hl, hr]
  -- the first operand
  have hpart : trim l <:+: l ++ byte '-' :: r :=
    (trim_isInfix l).trans (List.prefix_append l _).isInfix
  have hno : ∀ op : Operator, byte op.symbol ∉ trim l := by
    intro op hop
    have hsub := hprinted.only op (hpart.subset hop)
    rw [hsub] at hop
    exact hl ((trim_isInfix l).subset hop)
  have htrim : Double.read? (trim l) = none := by
    rwa [Double.read?, trim_trim, ← Double.read?]
  obtain ⟨c, hc⟩ := exists_reduce_of_unread
    (fun w hw hoccurs => hnames w hw (hoccurs.trans hpart)) hno htrim levels
  have hoperate : operate store levels .sub l r' = .error (.invalid c) := by
    rw [operate, hc]
    rfl
  have hsame := reduce_operands hnames hfind hsplit levels
  rw [hoperate] at hsame
  generalize reduce store (levels + 1) (l ++ byte '-' :: r) = outcome at hsame ⊢
  cases hsame with
  | invalid c' _ => exact ⟨c', rfl⟩

omit hnames in
/-- The name of a variable is replaced by the text of its value, and that is all there is. -/
theorem evaluate_name {x : Text} (hx : isIdentifier x = true) {v : Value}
    (hv : store.get? x = some v) : evaluate store x = reduce store (maxDepth + 1) v.text := by
  have hcall : callIn? x = none := by
    refine callIn?_eq_none fun f hoccurs => ?_
    have hpart := isNamePart_of_isIdentifier hx f.bracket
      (hoccurs.subset (by simp [Builtin.opening]))
    cases f <;> exact absurd hpart (by decide)
  have hreplace : replaceIdentifiers store x = v.text := by
    have h : replaceIdentifiers store (x ++ []) = v.text ++ replaceIdentifiers store [] :=
      replaceIdentifiers_name hx hv (by simp)
    rwa [List.append_nil, replaceIdentifiers_nil, List.append_nil] at h
  rw [evaluate, evaluateWithin, trim_eq_self (solidEnds_of_isIdentifier hx), evaluateNested, hcall]
  dsimp only
  rw [hreplace]

end Substitution

/-! ### Variables by themselves -/

/-- A name on its own has the value of the variable. -/
theorem Arithmetic.evaluate_name {store : Store} {x : Text} (hx : isIdentifier x = true) :
    Arithmetic.evaluate store x = variableValue store x := by
  let t : Token := ⟨.identifier, x, ⟨0, 0 + x.length⟩⟩
  have hevents : lexer.eventsFrom x 0 (x ++ []) = _ :=
    eventsFrom_identifier hx fun _ h => nomatch h
  rw [List.append_nil, Lexer.eventsFrom_nil] at hevents
  have hts : lexer.tokens x = .ok ([t] ++ [.endOf x]) := Lexer.tokens_of_eventsFrom hevents
  show _ = (Expr.name x).value store
  apply evaluate_eq_value store hts
  exact .sumOfProduct (.productOfUnary (.unaryOfPrimary (.name rfl)))

namespace Value

/-- Integers and doubles. -/
def IsNumber (v : Value) : Prop := v.kind = .int ∨ v.kind = .double

theorem IsNumber.cases {v : Value} (hv : v.IsNumber) : (∃ n, v = .int n) ∨ ∃ f, v = .double f := by
  cases v with
  | int n => exact .inl ⟨n, rfl⟩
  | double f => exact .inr ⟨f, rfl⟩
  | _ => rcases hv with h | h <;> cases h

variable {v : Value} (hv : v.IsNumber)
include hv

theorem IsNumber.isNumeric : v.isNumeric = true := by
  rcases hv.cases with ⟨n, rfl⟩ | ⟨f, rfl⟩ <;> rfl

/-- Numbers are printed without operators, apart from signs. -/
theorem IsNumber.printed : Substitution.Printed v.text := by
  rcases hv.cases with ⟨n, rfl⟩ | ⟨f, rfl⟩
  · exact Substitution.printed_ofInt n.toInt
  · exact Substitution.printed_spell f

/-- The numbers whose text has a minus in it. -/
theorem IsNumber.minus_mem_iff : byte '-' ∈ v.text ↔ v.HasMinus := by
  rcases hv.cases with ⟨n, rfl⟩ | ⟨f, rfl⟩
  · exact Double.minus_mem_ofInt_iff n.toInt
  · exact Double.minus_mem_spell_iff f

/-- The text of a number is read as the number. -/
theorem IsNumber.exists_double : ∃ f, v.toDouble = .ok f ∧ Double.read? v.text = some f := by
  rcases hv.cases with ⟨n, rfl⟩ | ⟨f, rfl⟩
  · exact ⟨_, rfl, Double.read?_ofInt n.toInt⟩
  · exact ⟨f, rfl, Double.read?_spell f⟩

end Value

/-- The name of a variable that is bound to an integer or to a double is worth this number by
the rules of arithmetic.  By substitution it is worth the number if there is no minus sign in
its text, and invalid if there is one, as long as the text has no names in it. -/
theorem evaluate_variable {store : Store}
    (hstore : ∀ w ∈ store.toList, isIdentifier w.name = true) {x : Text} {v : Value}
    (hx : store.get? x = some v) (hv : v.IsNumber) :
    ∃ f, v.toDouble = .ok f ∧ Mode.precedence.evaluate store x = .ok f ∧
      ((∀ w ∈ store.toList, ¬ w.name <:+: v.text) →
        (Mode.legacy.evaluate store x = .ok f ↔ byte '-' ∉ v.text) ∧
        (byte '-' ∈ v.text →
          ∃ e, Mode.legacy.evaluate store x = .error e ∧ e.kind = .invalid)) ∧
      (byte '-' ∈ v.text ↔ v.HasMinus) := by
  have hname : isIdentifier x = true := hstore ⟨x, v⟩ (Store.mem_of_get?_eq_some hx)
  obtain ⟨f, hdouble, hread⟩ := hv.exists_double
  refine ⟨f, hdouble, ?_, fun hnames => ?_, hv.minus_mem_iff⟩
  · rw [Mode.evaluate, Arithmetic.evaluate_name hname]
    exact Expr.variableValue_eq_ok_iff.2 ⟨v, hx, hv.isNumeric, hdouble⟩
  · have hreduce : Mode.legacy.evaluate store x =
        Substitution.reduce store (Substitution.maxDepth + 1) v.text :=
      Substitution.evaluate_name hname hx
    rw [hreduce]
    -- The minus of a printed number, or of its exponent, is taken for an operator.
    have hfails : byte '-' ∈ v.text → ∃ e, Substitution.reduce store
        (Substitution.maxDepth + 1) v.text = .error e ∧ e.kind = .invalid := by
      intro hminus
      obtain ⟨c, hc⟩ := Substitution.exists_reduce_of_minus hnames hv.printed hminus
        Substitution.maxDepth
      exact ⟨_, hc, rfl⟩
    refine ⟨⟨fun hok hminus => ?_, fun hminus => ?_⟩, hfails⟩
    · obtain ⟨e, he, -⟩ := hfails hminus
      rw [hok] at he
      cases he
    · refine Substitution.reduce_of_no_operator hnames (fun op hop => hminus ?_) hread _
      have hsub := hv.printed.only op hop
      rwa [hsub] at hop

/-- The number `1.0E-4` is not negative, but there is a minus sign in its text.  The name `e`
does not occur in it, since it is a small letter. -/
theorem evaluate_variable_small :
    let v : Value := .double (Double.nearest false 1 10000)
    let store := (Store.empty.declare "x" v).declare "e" (.int 7)
    (∀ w ∈ store.toList, isIdentifier w.name = true) ∧ store.get? "x" = some v ∧
      (∀ w ∈ store.toList, ¬ w.name <:+: v.text) ∧ v.text = "1.0E-4" ∧
      Mode.precedence.evaluate store "x" = .ok (Double.nearest false 1 10000) ∧
      ∃ e, Mode.legacy.evaluate store "x" = .error e ∧ e.kind = .invalid := by
  intro v store
  have hstore : ∀ w ∈ store.toList, isIdentifier w.name = true := by decide +kernel
  have hx : store.get? "x" = some v := by
    rw [Store.get?_declare, if_neg (by decide), Store.get?_declare, if_pos rfl]
  have htext : v.text = "1.0E-4" := by decide +kernel
  have hnames : ∀ w ∈ store.toList, ¬ w.name <:+: v.text := by
    rw [htext]
    decide +kernel
  obtain ⟨f, hf, hprecedence, hlegacy, -⟩ := evaluate_variable hstore hx (.inr rfl)
  cases hf
  exact ⟨hstore, hx, hnames, htext, hprecedence, (hlegacy hnames).2 (by rw [htext]; decide)⟩

end LineScript
