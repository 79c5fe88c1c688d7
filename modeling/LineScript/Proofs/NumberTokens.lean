/-
LineScript/Proofs/NumberTokens.lean

The numbers that expressions are made of, and the numbers that values are written as.

Numbers are described twice: by the patterns of the lexer, and by what can be read as a
double.  What the lexer takes for a number can be read, so that evaluation never meets a
number without a value (`Arithmetic.evaluate_ne_notANumber`).  The other way round, what
denotes a number without a sign is a single token (`tokenize_of_denotes`), and the texts of
integers and of finite doubles are such texts, in either notation.

Main result: `number_tokens`.
-/
import LineScript.Expression.Mode
import LineScript.Proofs.Correspondence
import LineScript.Proofs.Doubles

namespace LineScript

open Text

/-! ### Tokens can be read -/

namespace Expression

/-- Every number among the tokens of a text can be read as a double. -/
theorem double_of_mem_tokens {source : Text} {ts : List Token} (h : tokenize source = .ok ts)
    {tok : Token} (htok : tok ∈ ts) (hnumber : tok.kind = .number) :
    ∃ f, Double.read? tok.lexeme = some f := by
  obtain ⟨us, rfl, -⟩ := Lexer.tokens_eq_ok_iff.1 h
  rcases List.mem_append.1 htok with hmem | hend
  · exact Option.isSome_iff_exists.1 (read?_of_mem_tokens h hmem hnumber)
  · rw [List.mem_singleton.1 hend] at hnumber
    cases hnumber

end Expression

namespace Arithmetic

/-- The error is not about a number that cannot be read. -/
def BlamesNoNumber (e : EvalError) : Prop := ∀ lexeme, e ≠ .invalid (.notANumber lexeme)

theorem blamesNoNumber_unexpected (ctx : Context) (ts : List Token) :
    BlamesNoNumber (unexpected ctx ts) := by
  intro lexeme
  cases ts <;> simp [unexpected]

/-- Variables are reported under their names. -/
theorem blamesNoNumber_variableValue {store : Store} {name : Text} {e : EvalError}
    (h : variableValue store name = .error e) : BlamesNoNumber e := by
  unfold variableValue at h
  split at h
  · cases h
    simp [BlamesNoNumber]
  · split at h
    · cases h
      simp [BlamesNoNumber]
    · split at h
      · cases h
      · cases h
        simp [BlamesNoNumber]

/-- A reading next to itself, as long as the numbers that are left can be read. -/
theorem compared_readable (store : Store) (source : Text) :
    Compared (fun ts => ∀ t ∈ ts, t.kind = .number → ∃ f, Double.read? t.lexeme = some f)
      (fun e _ => BlamesNoNumber e) id ⟨store, source⟩ ⟨store, source⟩ where
  kind _ := rfl
  lexeme _ := rfl
  behind _ _ hnumbers _ := (List.forall_mem_cons.1 hnumbers).2
  unexpected ts _ := blamesNoNumber_unexpected _ ts
  number t ts hnumbers ht := by
    obtain ⟨f, hf⟩ := (List.forall_mem_cons.1 hnumbers).1 ht
    rw [numberValue, hf]
    exact .ok rfl
  name _ _ _ _ := .self fun _ => blamesNoNumber_variableValue

/-- Evaluation never ends with a number that cannot be read. -/
theorem evaluate_ne_notANumber (store : Store) (source lexeme : Text) :
    evaluate store source ≠ .error (.invalid (.notANumber lexeme)) := by
  intro h
  cases hts : Expression.tokenize source with
  | error e =>
      rw [evaluate, hts] at h
      cases h
  | ok ts =>
      have hself := (compared_readable store source).evaluate hts (by rwa [List.map_id])
        fun t ht => Expression.double_of_mem_tokens hts ht
      rw [h] at hself
      cases hself with
      | error hother => exact hother lexeme rfl

end Arithmetic

/-! ### Texts of numbers are tokens -/

namespace Expression

/-- What denotes a number is one token. -/
theorem tokenize_of_denotes {t : Text} {q : ℚ} (h : Denotes t q) :
    tokenize t = .ok [⟨.number, t, ⟨0, t.length⟩⟩, .endOf t] := by
  obtain ⟨w, f, x, -, rfl, hparts, -⟩ := h
  let number : Token := ⟨.number, w ++ f ++ x, ⟨0, (w ++ f ++ x).length⟩⟩
  have hevents : lexer.eventsFrom (w ++ f ++ x) 0 (w ++ f ++ x) = [number].map .token := by
    have hnumber : lexer.eventsFrom (w ++ f ++ x) 0 (w ++ f ++ x ++ []) = _ :=
      eventsFrom_number hparts (by simp)
    rwa [List.append_nil, Nat.zero_add, Lexer.eventsFrom_nil] at hnumber
  exact Lexer.tokens_of_eventsFrom hevents

end Expression

/-- The digits of an integer denote it. -/
theorem denotes_ofInt {n : ℤ} (hn : 0 ≤ n) : Denotes (Text.ofInt n) n.natAbs := by
  rw [Numeral.ofInt_eq_signed, decide_eq_false hn.not_gt]
  exact denotes_ofNat n.natAbs

namespace Double

/-- The text of a finite magnitude denotes a number. -/
theorem exists_denotes_spellMagnitude {m : Nat} (hfin : m < infinite) :
    ∃ q, Denotes (spellMagnitude m) q := by
  rcases Nat.eq_zero_or_pos m with rfl | hpos
  · exact ⟨0, denotes_zero⟩
  · obtain ⟨c, e, -, hdenotes⟩ := denotes_spellMagnitude hpos hfin
    exact ⟨_, hdenotes⟩

/-- The text of a finite double without a sign denotes a number. -/
theorem exists_denotes_spell {f : Float} (hfin : f.isFinite = true)
    (hsign : isNegative f = false) : ∃ q, Denotes (spell f) q := by
  have hlt := (isFinite_iff f).1 hfin
  rw [spell_eq_signed hlt.le, hsign, Expression.signed, if_neg Bool.false_ne_true]
  exact exists_denotes_spellMagnitude hlt

end Double

namespace Expression

/-- What the lexer takes for a number can be read as a double, so that no expression is
without a value because of a number in it.  The text of an integer that is not negative, and
that of a finite double whose sign bit is not set, is a number from its beginning to its
end: there is this one token in front of the end. -/
theorem number_tokens :
    (∀ (source : Text) (ts : List Token), tokenize source = .ok ts →
      ∀ tok ∈ ts, tok.kind = .number → ∃ f, Literal.double tok.lexeme = .ok f) ∧
    (∀ (store : Store) (source lexeme : Text),
      Mode.precedence.evaluate store source ≠ .error (.invalid (.notANumber lexeme))) ∧
    (∀ n : Int64, 0 ≤ n.toInt →
      let t := (Value.int n).text
      tokenize t = .ok [⟨.number, t, ⟨0, t.length⟩⟩, .endOf t]) ∧
    ∀ f : Float, f.isFinite = true → Double.isNegative f = false →
      let t := (Value.double f).text
      tokenize t = .ok [⟨.number, t, ⟨0, t.length⟩⟩, .endOf t] := by
  refine ⟨fun source ts hts tok htok hnumber => ?_, Arithmetic.evaluate_ne_notANumber,
    fun n hn => ?_, fun f hfin hsign => ?_⟩
  · obtain ⟨f, hf⟩ := double_of_mem_tokens hts htok hnumber
    exact ⟨f, by rw [Literal.double, hf]⟩
  · exact tokenize_of_denotes (denotes_ofInt hn)
  · obtain ⟨q, hq⟩ := Double.exists_denotes_spell hfin hsign
    exact tokenize_of_denotes hq

/-- The greatest integer, and the double next to zero, which is written with a negative
exponent. -/
theorem number_tokens_extremes :
    let n := Int64.maxValue
    let f := Double.ofMagnitude false 1
    let s := (Value.int n).text
    let t := (Value.double f).text
    (0 ≤ n.toInt ∧ f.isFinite = true ∧ Double.isNegative f = false) ∧
    tokenize s = .ok [⟨.number, s, ⟨0, s.length⟩⟩, .endOf s] ∧
    tokenize t = .ok [⟨.number, t, ⟨0, t.length⟩⟩, .endOf t] ∧
    ∃ g, Literal.double t = .ok g := by
  intro n f s t
  have hn : 0 ≤ n.toInt := by decide
  have hfin : f.isFinite = true := by decide
  have hsign : Double.isNegative f = false := by decide
  obtain ⟨hreads, -, hints, hdoubles⟩ := number_tokens
  have htokens := hdoubles f hfin hsign
  exact ⟨⟨hn, hfin, hsign⟩, hints n hn, htokens,
    hreads t _ htokens ⟨.number, t, ⟨0, t.length⟩⟩ List.mem_cons_self rfl⟩

end Expression

end LineScript
