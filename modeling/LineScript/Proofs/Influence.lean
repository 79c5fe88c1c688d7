/-
LineScript/Proofs/Influence.lean

What the value of an expression depends on.  Reading the same tokens with different
variables gives the same, be it a value or an error, as long as the variables agree on
the identifiers that are left to be read (`compared_agree`).

Main result: only the variables that identifiers of an expression name have an
influence on its evaluation by the rules of arithmetic
(`precedence_evaluate_eq_of_agree`).  What only occurs within a number or a longer
identifier (`Expression.OnlyWithin`) is not such a name.
-/
import LineScript.Expression.Mode
import LineScript.Proofs.Correspondence
import LineScript.Proofs.Frame
import LineScript.Proofs.Tiling

namespace LineScript

open Text

/-! ### The identifiers of an expression -/

namespace Expression

/-- The identifiers of an expression, in the order in which they stand in it. -/
def identifiers (source : Text) : List Text :=
  match tokenize source with
  | .ok ts => (ts.filter fun t => t.kind = .identifier).map Token.lexeme
  | .error _ => []

/-- Wherever a name occurs in an expression, it is part of a number or of a longer
identifier. -/
def OnlyWithin (source name : Text) : Prop :=
  ∀ p < source.length, name <+: source.drop p →
    ∃ t ∈ lexer.tiles source, t.span.first ≤ p ∧ p + name.length ≤ t.span.behind ∧
      (t.finding = .matched (some .number) ∨
        t.finding = .matched (some .identifier) ∧
          name.length < (t.span.of source).length)

instance (source name : Text) : Decidable (OnlyWithin source name) := by
  unfold OnlyWithin
  infer_instance

variable {source : Text}

/-- An identifier among the tokens is a tile. -/
theorem exists_tile_of_mem {ts : List Token} (hts : tokenize source = .ok ts) {t : Token}
    (ht : t ∈ ts) (hkind : t.kind = .identifier) :
    ∃ u ∈ lexer.tiles source,
      u.finding = .matched (some .identifier) ∧ u.span.of source = t.lexeme := by
  have hmem : ScanEvent.token t ∈ lexer.scan source := by
    rw [lexer.tokens_eq_ok_iff_scan.1 hts]
    exact List.mem_map_of_mem ht
  rw [lexer.scan_eq_tiles, List.mem_append, List.mem_filterMap, List.mem_singleton] at hmem
  rcases hmem with ⟨u, hu, hevent⟩ | hend
  · refine ⟨u, hu, ?_⟩
    rw [Tile.event?] at hevent
    split at hevent
    · next k hk =>
        cases hevent
        exact ⟨hk.trans (by rw [← hkind]), rfl⟩
    · cases hevent
    · cases hevent
  · cases hend
    cases hkind

/-- A name that only occurs within numbers and longer identifiers is not an
identifier of the expression. -/
theorem OnlyWithin.not_mem {name : Text} (h : OnlyWithin source name) :
    name ∉ identifiers source := by
  intro hmem
  unfold identifiers at hmem
  split at hmem
  · next ts hts =>
      obtain ⟨t, ht, rfl⟩ := List.mem_map.1 hmem
      obtain ⟨hts', hkind⟩ := List.mem_filter.1 ht
      obtain ⟨u, hu, hfinding, hlexeme⟩ :=
        exists_tile_of_mem hts hts' (of_decide_eq_true hkind)
      rw [← hlexeme] at h
      -- the tile of the identifier begins where the name occurs
      have hchain := lexer.chained_tiles source
      have hne := hchain.nonempty u hu
      have hplace : u.span.first < source.length :=
        ((hchain.mem_iff _).1 ⟨u, hu, le_rfl, hne⟩).2
      obtain ⟨v, hv, hfirst, hbehind, hwithin⟩ :=
        h u.span.first hplace (takes_of_tile hu hfinding).isPrefix
      have hpos : 0 < (u.span.of source).length :=
        List.length_pos_iff.2 (takes_of_tile hu hfinding).ne_nil
      obtain rfl : u = v :=
        hchain.eq_of_mem hu hv le_rfl hne hfirst (by omega)
      rcases hwithin with hnumber | ⟨-, hlonger⟩
      · rw [hfinding] at hnumber
        cases hnumber
      · exact lt_irrefl _ hlonger
  · cases hmem

end Expression

/-! ### Stores that agree on what is read -/

namespace Arithmetic

/-- Two stores give the same value, or none, to each identifier among the tokens. -/
def Agree (s s' : Store) (ts : List Token) : Prop :=
  ∀ t ∈ ts, t.kind = .identifier → s.get? t.lexeme = s'.get? t.lexeme

variable {s s' : Store} {source : Text} {ts : List Token} {t : Token}

theorem Agree.tail (h : Agree s s' (t :: ts)) : Agree s s' ts :=
  fun u hu => h u (List.mem_cons_of_mem t hu)

/-- Where the stores agree, a name has the same value. -/
theorem Agree.variableValue_eq (h : Agree s s' (t :: ts)) (ht : t.kind = .identifier) :
    variableValue s t.lexeme = variableValue s' t.lexeme := by
  unfold variableValue
  rw [h t List.mem_cons_self ht]

/-- Reading with one store and with another, as long as they agree on what is left. -/
theorem compared_agree (s s' : Store) (source : Text) :
    Compared (Agree s s') Eq id ⟨s, source⟩ ⟨s', source⟩ where
  kind _ := rfl
  lexeme _ := rfl
  behind _ _ hagree _ := hagree.tail
  unexpected ts _ := by
    rw [List.map_id]
    cases ts <;> rfl
  number _ _ _ _ := .self fun _ _ => rfl
  name t ts hagree ht := by
    rw [hagree.variableValue_eq ht]
    exact .self fun _ _ => rfl

/-- Only the names in a text have an influence on its value. -/
theorem evaluate_eq_of_agree
    (h : ∀ n ∈ Expression.identifiers source, s.get? n = s'.get? n) :
    evaluate s source = evaluate s' source := by
  cases hts : Expression.tokenize source with
  | error e => simp only [evaluate, hts]
  | ok ts =>
      have hagree : Agree s s' ts := by
        intro t ht hkind
        apply h
        simp only [Expression.identifiers, hts]
        exact List.mem_map_of_mem (List.mem_filter.2 ⟨ht, decide_eq_true hkind⟩)
      exact ((compared_agree s s' source).evaluate hts (by rwa [List.map_id]) hagree).eq

end Arithmetic

/-- Evaluation by the rules of arithmetic gives the same value or the same error with any
two stores that agree on the identifiers of the expression.  So it does not matter what is
bound to a name that only occurs within numbers and longer identifiers, or not at all. -/
theorem precedence_evaluate_eq_of_agree (source : Text) (s s' : Store) :
    ((∀ n ∈ Expression.identifiers source, s.get? n = s'.get? n) →
      Mode.precedence.evaluate s source = Mode.precedence.evaluate s' source) ∧
    ((∀ n, s.get? n = s'.get? n ∨ Expression.OnlyWithin source n) →
      Mode.precedence.evaluate s source = Mode.precedence.evaluate s' source) := by
  refine ⟨Arithmetic.evaluate_eq_of_agree, fun h => ?_⟩
  apply Arithmetic.evaluate_eq_of_agree
  intro n hn
  exact (h n).resolve_right fun hwithin => hwithin.not_mem hn

/-- The names `a` and `e5` occur in `ax*1e5+(y`, within an identifier and within a number,
and `z` does not occur at all.  None of them has an influence, here on an error. -/
theorem precedence_evaluate_eq_of_agree_within :
    let source : Text := "ax*1e5+(y"
    let s := (Store.empty.declare "ax" (.int 2)).declare "y" (.string "3")
    let s' := ((s.declare "a" (.bool true)).declare "e5" (.int 7)).declare "z" (.int 1)
    (∀ n ∈ Expression.identifiers source, s.get? n = s'.get? n) ∧
      (∀ n, s.get? n = s'.get? n ∨ Expression.OnlyWithin source n) ∧
      Mode.precedence.evaluate s source = Mode.precedence.evaluate s' source := by
  intro source s s'
  have hagree : ∀ n, s.get? n = s'.get? n ∨ Expression.OnlyWithin source n := by
    intro n
    simp only [s', Store.get?_declare]
    split
    · next hn =>
        rw [hn]
        exact .inr (by decide +kernel)
    · split
      · next hn =>
          rw [hn]
          exact .inr (by decide +kernel)
      · split
        · next hn =>
            rw [hn]
            exact .inr (by decide +kernel)
        · exact .inl rfl
  have hidentifiers : ∀ n ∈ Expression.identifiers source, s.get? n = s'.get? n :=
    fun n hn => (hagree n).resolve_right fun hwithin => hwithin.not_mem hn
  exact ⟨hidentifiers, hagree, (precedence_evaluate_eq_of_agree source s s').2 hagree⟩

end LineScript
