/-
LineScript/Proofs/Substituting.lean

Evaluation by substitution on texts without calls.

* Replacing identifiers turns each variable into the text of its value and leaves
  everything else as it is, so the text keeps its shape
  (`exists_replaceIdentifiers`).
* In a text without letters no name occurs, so the second replacement changes
  nothing (`not_infix_of_not_nameStart`).
* A text of numerals is divided at its operator of the highest rank, and a rank of
  `k` takes `k + 1` levels (`reduce_of_flat`).
-/
import LineScript.Proofs.Fragment
import LineScript.Proofs.Identifiers

namespace LineScript

open Text

namespace Substitution

open Expression Fragment

/-! ### Texts of numerals -/

/-- Numerals, and what can be put in place of variables. -/
def Plain (t : Text) (x : Float) : Prop := IsPlain t ∧ Double.read? t = some x

/-- A number without an exponent is plain. -/
theorem isPlain_of_parts {w f : Text} (h : NumberParts w f []) : IsPlain (w ++ f) := by
  intro b hb
  rcases List.mem_append.1 hb with hb | hb
  · exact .inl (h.whole_digits b hb)
  · rcases h.fraction_digits with rfl | ⟨d, rfl, hd⟩
    · cases hb
    · rcases List.mem_cons.1 hb with rfl | hb
      · exact .inr rfl
      · exact .inl (hd b hb)

/-- There is no white space at the ends of a plain text. -/
theorem Plain.solidEnds {t : Text} {x : Float} (h : Plain t x) : SolidEnds t := by
  refine solidEnds_of_forall ?_ fun b hb => (plain_byte b (h.1 b hb)).1
  rintro rfl
  have hnone : Double.read? [] = none := by decide
  exact absurd h.2 (by simp [hnone])

/-- No name begins in a plain text. -/
theorem not_nameStart_of_isPlain {t : Text} (h : IsPlain t) :
    ∀ b ∈ t, isNameStart b = false :=
  fun b hb => (plain_byte b (h b hb)).2.1

theorem not_nameStart_of_isSpace {b : UInt8} (hb : isSpace b = true) :
    isNameStart b = false := by
  rcases isSpace_iff.1 hb with rfl | rfl | rfl | rfl <;> rfl

theorem not_nameStart_of_gap {u : Text} (h : Gap u) :
    ∀ b ∈ u, isNameStart b = false :=
  fun b hb => not_nameStart_of_isSpace (h b hb)

theorem not_nameStart_symbol (op : Operator) :
    isNameStart (byte op.symbol) = false := by
  cases op <;> decide

/-- So nothing is replaced in a combination of plain texts. -/
theorem not_nameStart_of_flat {k : Nat} {t : Text} {x : Float} (h : Flat Plain k t x) :
    ∀ b ∈ t, isNameStart b = false :=
  h.forall_mem (fun _ _ ha => not_nameStart_of_isPlain ha.1)
    (fun _ => not_nameStart_of_isSpace) not_nameStart_symbol

/-- Replacing identifiers leaves a text of numerals that is worth the same. -/
theorem exists_replaceIdentifiers {store : Store} {k : Nat} {t : Text} {x : Float}
    (h : Flat (Atom store) k t x) :
    ∃ t', Flat Plain k t' x ∧
      ∀ rest, (∀ b ∈ rest.head?, isBoundary b = true) →
        replaceIdentifiers store (t ++ rest) = t' ++ replaceIdentifiers store rest := by
  -- The text that follows is kept general, as an operand on the left is followed by the
  -- operator and not by the end.
  induction h with
  | @atom t x ha =>
      cases ha with
      | numeral hparts hread =>
          have hplain := isPlain_of_parts hparts
          refine ⟨_, .atom ⟨hplain, hread⟩, fun rest _ => ?_⟩
          exact replaceIdentifiers_append store (not_nameStart_of_isPlain hplain) rest
      | bound hname hget hplain hread _ =>
          refine ⟨_, .atom ⟨hplain, hread⟩, fun rest hrest => ?_⟩
          refine replaceIdentifiers_name hname hget fun b hb => ?_
          have hboundary := hrest b hb
          simp only [isBoundary, Bool.and_eq_true, Bool.not_eq_true'] at hboundary
          exact hboundary.1
  | higher _ ih =>
      obtain ⟨t', hflat, hreplace⟩ := ih
      exact ⟨t', .higher hflat, hreplace⟩
  | @binary op s t u v x y _ hu hv _ ih₁ ih₂ =>
      obtain ⟨s', hs', hreplace₁⟩ := ih₁
      obtain ⟨t', ht', hreplace₂⟩ := ih₂
      refine ⟨_, .binary hs' hu hv ht', fun rest hrest => ?_⟩
      have hboundary := boundary_of_gap hu (symbol_mem op) (v ++ (t ++ rest))
      simp only [List.append_assoc, List.cons_append]
      rw [hreplace₁ _ hboundary, replaceIdentifiers_append store (not_nameStart_of_gap hu),
        replaceIdentifiers_cons store (not_nameStart_symbol op),
        replaceIdentifiers_append store (not_nameStart_of_gap hv), hreplace₂ rest hrest]

/-! ### Replacing names -/

/-- No name of a variable occurs in a text without letters. -/
theorem not_infix_of_not_nameStart {store : Store}
    (hnames : ∀ v ∈ store.toList, isIdentifier v.name = true) {t : Text}
    (ht : ∀ b ∈ t, isNameStart b = false) : ∀ v ∈ store.toList, ¬ v.name <:+: t := by
  rintro ⟨n, value⟩ hv hoccurs
  have hn := hnames _ hv
  cases n with
  | nil => cases hn
  | cons b n =>
      -- The first byte of the name would stand in the text.
      have hstart := ht b (hoccurs.subset (by simp))
      simp [isIdentifier, hstart] at hn

/-! ### Dividing at operators -/

/-- Operators are told apart by their symbols. -/
theorem symbol_injective {op op' : Operator} (h : byte op.symbol = byte op'.symbol) :
    op = op' := by
  revert h
  cases op <;> cases op' <;> decide

/-- There is no operator in a plain text. -/
theorem symbol_not_mem_of_isPlain {t : Text} (h : IsPlain t) (op : Operator) :
    byte op.symbol ∉ t := by
  intro hmem
  have hsymbol : ¬ (isDigit (byte op.symbol) = true ∨ byte op.symbol = byte '.') := by
    cases op <;> decide
  exact hsymbol (h _ hmem)

theorem symbol_not_mem_of_gap {u : Text} (h : Gap u) (op : Operator) :
    byte op.symbol ∉ u := by
  intro hmem
  have hsymbol : isSpace (byte op.symbol) = false := by cases op <;> decide
  exact absurd (h _ hmem) (by simp [hsymbol])

/-- The operators in a text have ranks below its own. -/
theorem rank_lt_of_flat {k : Nat} {t : Text} {x : Float} (h : Flat Plain k t x)
    {op : Operator} (hop : byte op.symbol ∈ t) : op.rank < k := by
  induction h with
  | atom ha => exact absurd hop (symbol_not_mem_of_isPlain ha.1 op)
  | higher _ ih => exact Nat.lt_succ_of_lt (ih hop)
  | @binary op' s t u v x y _ hu hv _ ih₁ ih₂ =>
      simp only [List.mem_append, List.mem_cons] at hop
      rcases hop with (hop | hop) | hop | hop | hop
      · exact Nat.lt_succ_of_lt (ih₁ hop)
      · exact absurd hop (symbol_not_mem_of_gap hu op)
      · rw [symbol_injective hop]
        exact Nat.lt_succ_self _
      · exact absurd hop (symbol_not_mem_of_gap hv op)
      · exact Nat.lt_succ_of_lt (Nat.lt_of_lt_of_le (ih₂ hop) op'.rightRank_le_rank)

/-- The operator of the highest rank is the first that is found. -/
theorem find?_operators {t : Text} {op : Operator} (hop : byte op.symbol ∈ t)
    (hmax : ∀ op' : Operator, byte op'.symbol ∈ t → op'.rank ≤ op.rank) :
    operators.find? (fun op => occursIn [byte op.symbol] t) = some op := by
  have hno : ∀ op' : Operator, op.rank < op'.rank →
      occursIn [byte op'.symbol] t = false := by
    intro op' hlt
    rw [Bool.eq_false_iff, Ne, occursIn_byte_iff]
    intro hmem
    exact absurd (hmax op' hmem) (by omega)
  have hyes : occursIn [byte op.symbol] t = true := occursIn_byte_iff.2 hop
  -- They are looked for from the highest rank down.
  rw [operators]
  cases op with
  | add => rw [List.find?_cons, hyes]
  | sub => rw [List.find?_cons, hno .add (by decide), List.find?_cons, hyes]
  | mul =>
      rw [List.find?_cons, hno .add (by decide), List.find?_cons, hno .sub (by decide),
        List.find?_cons, hyes]
  | div =>
      rw [List.find?_cons, hno .add (by decide), List.find?_cons, hno .sub (by decide),
        List.find?_cons, hno .mul (by decide), List.find?_cons, hyes]

/-- Where no operator occurs, none is found. -/
theorem find?_operators_none {t : Text} (h : ∀ op : Operator, byte op.symbol ∉ t) :
    operators.find? (fun op => occursIn [byte op.symbol] t) = none := by
  rw [List.find?_eq_none]
  intro op _
  rw [occursIn_byte_iff]
  exact h op

/-- Two operands with one operator between them. -/
theorem fields_byte {b : UInt8} {l r : Text} (hl : b ∉ l) (hr : b ∉ r) (hne : r ≠ []) :
    fields [b] (l ++ b :: r) = [l, r] :=
  fields_append_first hl (mt (List.singleton_infix_iff b r).1 hr) hne

theorem isBlank_of_gap {u : Text} (h : Gap u) : ∀ b ∈ u, isBlank b = true := by
  intro b hb
  rcases isSpace_iff.1 (h b hb) with rfl | rfl | rfl | rfl <;> rfl

/-- A text with white space around it, trimmed. -/
theorem trim_of_padded {t s : Text} (ht : SolidEnds t) (h : Padded t s) : trim s = t := by
  obtain ⟨u, v, hu, hv, rfl⟩ := h
  exact trim_padded (isBlank_of_gap hu) ht (isBlank_of_gap hv)

/-- A text of numerals is reduced to what it is worth, given more levels than its
rank. -/
theorem reduce_of_flat {store : Store}
    (hnames : ∀ v ∈ store.toList, isIdentifier v.name = true) {k : Nat} {t : Text}
    {x : Float} (h : Flat Plain k t x) {levels : Nat} (hk : k < levels) :
    reduce store levels t = .ok x := by
  induction h generalizing levels with
  | @atom t x ha =>
      obtain ⟨n, rfl⟩ := Nat.exists_eq_add_of_lt hk
      have hkeep := replaceNames_eq_self
        (not_infix_of_not_nameStart hnames (not_nameStart_of_isPlain ha.1))
      have hnone := find?_operators_none (symbol_not_mem_of_isPlain ha.1)
      simp only [reduce, hkeep, hnone, ha.2]
  | higher _ ih => exact ih (Nat.lt_of_succ_lt hk)
  | @binary op s t u v x y hs hu hv ht ih₁ ih₂ =>
      obtain ⟨n, rfl⟩ := Nat.exists_eq_add_of_lt hk
      have hright := op.rightRank_le_rank
      have hflat := Flat.binary hs hu hv ht
      have hkeep := replaceNames_eq_self
        (not_infix_of_not_nameStart hnames (not_nameStart_of_flat hflat))
      have hmem : byte op.symbol ∈ s ++ u ++ byte op.symbol :: (v ++ t) := by simp
      have hfind := find?_operators hmem fun op' hmem' =>
        Nat.le_of_lt_succ (rank_lt_of_flat hflat hmem')
      -- The operator stands in neither of its operands.
      have hl : byte op.symbol ∉ s ++ u := by
        rw [List.mem_append, not_or]
        exact ⟨fun hmem => absurd (rank_lt_of_flat hs hmem) (Nat.lt_irrefl _),
          symbol_not_mem_of_gap hu op⟩
      have hr : byte op.symbol ∉ v ++ t := by
        rw [List.mem_append, not_or]
        refine ⟨symbol_not_mem_of_gap hv op, fun hmem => ?_⟩
        exact absurd (rank_lt_of_flat ht hmem) (by omega)
      have hsends : SolidEnds s := hs.solidEnds fun _ _ => Plain.solidEnds
      have htends : SolidEnds t := ht.solidEnds fun _ _ => Plain.solidEnds
      have hne : v ++ t ≠ [] := by
        obtain ⟨b, hb, -⟩ := htends.first
        rintro he
        simp [(List.append_eq_nil_iff.1 he).2] at hb
      have hfields := fields_byte hl hr hne
      have htrim₁ : trim (s ++ u) = s :=
        trim_of_padded hsends ⟨[], u, by simp [Gap], hu, by simp⟩
      have htrim₂ : trim (v ++ t) = t :=
        trim_of_padded htends ⟨v, [], hv, by simp [Gap], by simp⟩
      simp only [reduce, hkeep, hfind, hfields, htrim₁, htrim₂]
      rw [ih₁ (by omega), ih₂ (by omega)]
      rfl

end Substitution

end LineScript
