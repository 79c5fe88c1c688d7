/-
LineScript/Proofs/Conditions.lean

The meaning of conditions.  A condition is two operands with a comparison between them, and
white space anywhere around the operands.

* The comparisons are looked for in an order in which no comparison is found within another
  one, so the one that is found is the one that was written (`find?_symbol`).
* What stands on either side of it, without the white space, are the operands
  (`Condition.holds_between`).

Main result: a line with a condition compares the values of its operands as doubles and
changes nothing (`Machine.execute_condition`).
-/
import LineScript.Machine.Execute
import LineScript.Proofs.Forms
import LineScript.Proofs.Trimming

namespace LineScript

open Text

/-! ### Comparisons -/

namespace Comparison

/-- How comparisons are written in a condition: by their symbols, and `=<` is another way
to write `<=`. -/
def spellings : List (Text × Comparison) :=
  [(">=", ge), ("<=", le), ("==", eq), (">", gt), ("<", lt), ("=<", le)]

/-- What the ways to write a comparison say about two doubles. -/
def meanings : List (Text × (Float → Float → Prop)) :=
  [(">=", fun a b => b ≤ a), ("<=", fun a b => a ≤ b), ("==", fun a b => (a == b) = true),
    (">", fun a b => b < a), ("<", fun a b => a < b), ("=<", fun a b => a ≤ b)]

/-- Each way to write a comparison is that of a comparison which means what it should. -/
theorem spelling_of_meaning {op : Text} {means : Float → Float → Prop}
    (h : (op, means) ∈ meanings) :
    ∃ c, (op, c) ∈ spellings ∧ ∀ a b, c.holds a b = true ↔ means a b := by
  simp only [meanings, List.mem_cons, List.not_mem_nil, or_false, Prod.mk.injEq] at h
  rcases h with ⟨rfl, rfl⟩ | ⟨rfl, rfl⟩ | ⟨rfl, rfl⟩ | ⟨rfl, rfl⟩ | ⟨rfl, rfl⟩ | ⟨rfl, rfl⟩
  · exact ⟨ge, by decide, fun a b => decide_eq_true_iff⟩
  · exact ⟨le, by decide, fun a b => decide_eq_true_iff⟩
  · exact ⟨eq, by decide, fun a b => Iff.rfl⟩
  · exact ⟨gt, by decide, fun a b => decide_eq_true_iff⟩
  · exact ⟨lt, by decide, fun a b => decide_eq_true_iff⟩
  · exact ⟨le, by decide, fun a b => decide_eq_true_iff⟩

/-- The bytes that comparisons are made of. -/
def isMark (b : UInt8) : Bool := b == byte '<' || b == byte '>' || b == byte '='

/-- A text without comparisons. -/
def Free (t : Text) : Prop := ∀ b ∈ t, isMark b = false

instance (t : Text) : Decidable (Free t) :=
  List.decidableBAll (fun b => isMark b = false) t

/-- Comparisons are not white space. -/
theorem isSolid_of_isMark {b : UInt8} (hb : isMark b = true) : isSolid b = true := by
  simp only [isMark, Bool.or_eq_true, beq_iff_eq] at hb
  rcases hb with (rfl | rfl) | rfl <;> rfl

/-- What is made of the bytes of comparisons has none of them in common with a text that is
free of comparisons. -/
theorem Free.not_mem {p t : Text} (ht : Free t) (hp : ∀ b ∈ p, isMark b = true) :
    ∀ b ∈ p, b ∉ t := by
  intro b hb hmem
  have hmark := hp b hb
  rw [ht b hmem] at hmark
  cases hmark

theorem isMark_of_mem_symbol (c : Comparison) : ∀ b ∈ c.symbol, isMark b = true := by
  cases c <;> exact List.all_iff_forall_prop.1 (by decide)

theorem symbol_ne_nil (c : Comparison) : c.symbol ≠ [] := by
  cases c <;> decide

theorem solidEnds_symbol (c : Comparison) : SolidEnds c.symbol := by
  cases c <;> exact ⟨⟨_, rfl, rfl⟩, ⟨_, rfl, rfl⟩⟩

variable {s t : Text} (hs : Free s) (ht : Free t)
include hs ht

/-- Between texts that are free of comparisons, a comparison is found as such, and not as
one of those that it contains. -/
theorem find?_symbol (c : Comparison) :
    (all.find? fun c' => occursIn c'.symbol (s ++ (c.symbol ++ t))) = some c := by
  have hwithin : ∀ c' : Comparison,
      occursIn c'.symbol (s ++ (c.symbol ++ t)) = occursIn c'.symbol c.symbol := by
    intro c'
    have hmarks := isMark_of_mem_symbol c'
    rw [Bool.eq_iff_iff, occursIn_iff, occursIn_iff]
    exact infix_append_append_iff c'.symbol_ne_nil (hs.not_mem hmarks) (ht.not_mem hmarks)
  simp only [hwithin]
  cases c <;> decide

/-- A spelling is turned into the symbol of its comparison. -/
theorem replace_spelling {op : Text} {c : Comparison} (hop : (op, c) ∈ spellings) :
    replace "=<" "<=" (s ++ (op ++ t)) = s ++ (c.symbol ++ t) := by
  have hmarks : ∀ b ∈ Text.ofString "=<", isMark b = true :=
    List.all_iff_forall_prop.1 (by decide)
  have hkept : ¬ Text.ofString "=<" <:+: op →
      replace "=<" "<=" (s ++ (op ++ t)) = s ++ (op ++ t) := by
    intro hop
    refine replace_eq_of_not_infix _ (by decide) ?_
    rwa [infix_append_append_iff (by decide) (hs.not_mem hmarks) (ht.not_mem hmarks)]
  simp only [spellings, List.mem_cons, List.not_mem_nil, or_false, Prod.mk.injEq] at hop
  rcases hop with ⟨rfl, rfl⟩ | ⟨rfl, rfl⟩ | ⟨rfl, rfl⟩ | ⟨rfl, rfl⟩ | ⟨rfl, rfl⟩ | ⟨rfl, rfl⟩
  · exact hkept (by decide)
  · exact hkept (by decide)
  · exact hkept (by decide)
  · exact hkept (by decide)
  · exact hkept (by decide)
  · -- the only one that is turned round
    have hfront : ∀ u, u <:+ s → u ≠ [] → ¬ Text.ofString "=<" <+: u ++ ("=<" ++ t) := by
      intro u hu hne hprefix
      obtain ⟨b, u, rfl⟩ := List.exists_cons_of_ne_nil hne
      obtain ⟨rfl, -⟩ := List.cons_prefix_cons.1 hprefix
      exact hs.not_mem hmarks _ List.mem_cons_self (hu.subset List.mem_cons_self)
    have hbehind : ¬ Text.ofString "=<" <:+: t :=
      fun hoccurs => ht.not_mem hmarks _ List.mem_cons_self (hoccurs.subset List.mem_cons_self)
    rw [replace_append _ (by decide) hfront, replace_append_self _ (by decide),
      replace_eq_of_not_infix _ (by decide) hbehind]
    rfl

/-- Cutting at the comparison gives what stands on either side of it. -/
theorem fields_symbol (c : Comparison) (hne : t ≠ []) :
    fields c.symbol (s ++ (c.symbol ++ t)) = [s, t] := by
  obtain ⟨b, sep, hsymbol⟩ := List.exists_cons_of_ne_nil c.symbol_ne_nil
  have hmarks := isMark_of_mem_symbol c
  rw [hsymbol] at hmarks ⊢
  have hl : b ∉ s := hs.not_mem hmarks b List.mem_cons_self
  have hr : b ∉ t := ht.not_mem hmarks b List.mem_cons_self
  refine fields_append_first hl (fun hoccurs => hr ?_) hne
  exact hoccurs.subset List.mem_cons_self

end Comparison

/-! ### Operands -/

namespace Condition

/-- What can stand next to a comparison. -/
structure IsOperand (t : Text) : Prop where
  ne_nil : t ≠ []
  trim_eq : trim t = t
  free : Comparison.Free t
  bracket : byte ')' ∉ t

/-- One side of a comparison: an operand with white space around it. -/
structure Side (operand t : Text) : Prop where
  isOperand : IsOperand operand
  trim_eq : trim t = operand
  free : Comparison.Free t
  bracket : byte ')' ∉ t

/-- White space around an operand is taken off again, and adds no comparison. -/
theorem IsOperand.between {u t v : Text} (ht : IsOperand t) (hu : IsWhite u) (hv : IsWhite v) :
    Side t (u ++ t ++ v) := by
  have hbytes : ∀ {b : UInt8}, isSolid b = true → b ∉ t → b ∉ u ++ t ++ v := by
    intro b hb hmem
    simp only [List.mem_append, not_or]
    exact ⟨⟨hu.not_mem hb, hmem⟩, hv.not_mem hb⟩
  refine ⟨ht, ?_, fun b hb => ?_, hbytes (by decide) ht.bracket⟩
  · rw [trim_append_white _ hv, trim_white_append hu, ht.trim_eq]
  · rw [Bool.eq_false_iff]
    intro hmark
    refine hbytes (Comparison.isSolid_of_isMark hmark) (fun hmem => ?_) hb
    rw [ht.free b hmem] at hmark
    cases hmark

/-- Two operands are compared by the comparison between them. -/
theorem holds_between (store : Store) (c : Comparison) {l r s t : Text} (hs : Side l s)
    (ht : Side r t) :
    holds store (trim (s ++ (c.symbol ++ t))) =
      compare c (store.resolve l) (store.resolve r) := by
  have htrim : trim (s ++ (c.symbol ++ t)) = trimLeft s ++ (c.symbol ++ trimRight t) := by
    rw [← List.append_assoc, trim_append_append s c.solidEnds_symbol, List.append_assoc]
  have hleft : trim (trimLeft s) = l := by rw [trim, trimLeft_trimLeft, ← trim, hs.trim_eq]
  have hright : trim (trimRight t) = r := by rw [trim_trimRight, ht.trim_eq]
  have hs' : Comparison.Free (trimLeft s) := fun b hb =>
    hs.free b ((trimLeft_isSuffix s).subset hb)
  have ht' : Comparison.Free (trimRight t) := fun b hb =>
    ht.free b ((trimRight_isPrefix t).subset hb)
  have hne : trimRight t ≠ [] := by
    intro hnil
    rw [hnil] at hright
    exact ht.isOperand.ne_nil hright.symm
  rw [htrim, holds, Comparison.find?_symbol hs' ht' c]
  simp only [Comparison.fields_symbol hs' ht' c hne, hleft, hright]

theorem compare_ok {c : Comparison} {x y : Value} {a b : Float} (hx : x.toDouble = .ok a)
    (hy : y.toDouble = .ok b) : compare c x y = .ok (c.holds a b) := by
  rw [compare, hx, hy]

/-- One operand that is no number is enough. -/
theorem compare_error (c : Comparison) {x y : Value}
    (h : (∀ a, x.toDouble ≠ .ok a) ∨ ∀ b, y.toDouble ≠ .ok b) :
    compare c x y = .error (.notNumbers x y) := by
  rw [compare]
  split
  · next a b hx hy =>
      rcases h with h | h
      · exact absurd hx (h a)
      · exact absurd hy (h b)
  · rfl

end Condition

/-! ### Lines with conditions -/

namespace Machine

open Condition

/-- A line with a condition decides it, however the comparison is written. -/
theorem execute_between (m : Machine) {op : Text} {c : Comparison}
    (hop : (op, c) ∈ Comparison.spellings) {l r s t : Text} (hs : Side l s) (ht : Side r t) :
    m.execute ("if (" ++ (s ++ (op ++ t) ++ Text.ofString ") \x7b")) =
      m.conditional (trim (s ++ (c.symbol ++ t))) := by
  have hbracket : byte ')' ∉ s ++ (op ++ t) := by
    have hop' : ∀ p ∈ Comparison.spellings, byte ')' ∉ p.1 := by decide
    simp only [List.mem_append, not_or]
    exact ⟨hs.bracket, hop' _ hop, ht.bracket⟩
  rw [m.execute_eq_perform (Statement.ofLine_conditional_replace hbracket),
    Comparison.replace_spelling hs.free ht.free hop, perform]

/-- What comes out of a line that compares two values: whether the lines behind it are
skipped, and nothing else.  If both values are numbers, they are skipped unless the
comparison holds.  Otherwise they are skipped, with an error that shows both values. -/
structure Decides (m : Machine) (means : Float → Float → Prop) (x y : Value) (o : Outcome) :
    Prop where
  machine : o.machine = m
  ok {a b : Float} : x.toDouble = .ok a → y.toDouble = .ok b →
    o.fault = none ∧ (o.skipping = false ↔ means a b)
  error : (∀ a, x.toDouble ≠ .ok a) ∨ (∀ b, y.toDouble ≠ .ok b) →
    o = ⟨m, some (.condition (.notNumbers x y)), true⟩

/-- A line with a condition compares its operands, whatever white space is around them. -/
theorem decides_sides (m : Machine) {op : Text} {means : Float → Float → Prop}
    (hop : (op, means) ∈ Comparison.meanings) {l r s t : Text} (hs : Side l s) (ht : Side r t) :
    m.Decides means (m.store.resolve l) (m.store.resolve r)
      (m.execute ("if (" ++ s ++ op ++ t ++ ") \x7b")) := by
  obtain ⟨c, hc, hmeans⟩ := Comparison.spelling_of_meaning hop
  have hline : ("if (" ++ s ++ op ++ t ++ ") \x7b" : Text) =
      "if (" ++ (s ++ (op ++ t) ++ Text.ofString ") \x7b") := by
    simp only [List.append_assoc]
  rw [hline, m.execute_between hc hs ht, conditional, holds_between m.store c hs ht]
  constructor
  case machine => cases compare c (m.store.resolve l) (m.store.resolve r) <;> rfl
  case ok =>
    intro a b hx hy
    rw [compare_ok hx hy]
    refine ⟨rfl, ?_⟩
    rw [← hmeans a b, Bool.not_eq_false']
  case error =>
    intro h
    rw [compare_error c h]

/-- The line `if (l op r) {`, with white space around the operands, changes nothing but
whether the lines behind it are skipped.  If both operands are numbers, they are skipped unless
the comparison holds.  Otherwise they are skipped, with an error that shows both values. -/
theorem execute_condition (m : Machine) (op : Text)
    (hop : op ∈ ([">=", "<=", "==", ">", "<", "=<"] : List Text)) {l r u v w z : Text}
    (hl : IsOperand l) (hr : IsOperand r) (hu : IsWhite u) (hv : IsWhite v) (hw : IsWhite w)
    (hz : IsWhite z) :
    let o := m.execute ("if (" ++ u ++ l ++ v ++ op ++ w ++ r ++ z ++ ") \x7b")
    let x := m.store.resolve l
    let y := m.store.resolve r
    o.machine = m ∧
    (∀ a b, x.toDouble = .ok a → y.toDouble = .ok b → o.fault = none ∧
      (op = ">=" → (o.skipping = false ↔ b ≤ a)) ∧
      (op = "<=" ∨ op = "=<" → (o.skipping = false ↔ a ≤ b)) ∧
      (op = "==" → (o.skipping = false ↔ (a == b) = true)) ∧
      (op = ">" → (o.skipping = false ↔ b < a)) ∧
      (op = "<" → (o.skipping = false ↔ a < b))) ∧
    ((∀ a, x.toDouble ≠ .ok a) ∨ (∀ b, y.toDouble ≠ .ok b) →
      o.skipping = true ∧ ∃ f, o.fault = some f ∧ f.kind = .parseError ∧
        f.message = "Error comparing values: " ++ x.text ++ " and " ++ y.text) := by
  intro o x y
  have hs := hl.between hu hv
  have ht := hr.between hw hz
  -- One table gives the meaning of every operator; the operators differ only in the row.
  have hdecides : ∀ means, (op, means) ∈ Comparison.meanings → m.Decides means x y o := by
    intro means hmeans
    have h := m.decides_sides hmeans hs ht
    simp only [← List.append_assoc] at h
    exact h
  obtain ⟨means, hmeans⟩ : ∃ means, (op, means) ∈ Comparison.meanings := by
    obtain ⟨⟨_, means⟩, hp, rfl⟩ := List.mem_map.1
      (show op ∈ Comparison.meanings.map Prod.fst from hop)
    exact ⟨means, hp⟩
  have h := hdecides means hmeans
  refine ⟨h.machine, fun a b hx hy => ?_, fun herror => ?_⟩
  · have hskipping : ∀ means : Float → Float → Prop, (op, means) ∈ Comparison.meanings →
        (o.skipping = false ↔ means a b) :=
      fun means hmeans => ((hdecides means hmeans).ok hx hy).2
    refine ⟨(h.ok hx hy).1, ?_, ?_, ?_, ?_, ?_⟩
    · rintro rfl
      exact hskipping (fun a b => b ≤ a) (by simp [Comparison.meanings])
    · rintro (rfl | rfl)
      · exact hskipping (fun a b => a ≤ b) (by simp [Comparison.meanings])
      · exact hskipping (fun a b => a ≤ b) (by simp [Comparison.meanings])
    · rintro rfl
      exact hskipping (fun a b => (a == b) = true) (by simp [Comparison.meanings])
    · rintro rfl
      exact hskipping (fun a b => b < a) (by simp [Comparison.meanings])
    · rintro rfl
      exact hskipping (fun a b => a < b) (by simp [Comparison.meanings])
  · rw [h.error herror]
    exact ⟨rfl, _, rfl, rfl, rfl⟩

/-- The operand `a b` is a variable with a blank of three bytes behind it, and `n` is not equal
to itself.  The last line compares a number with a text. -/
theorem execute_condition_words :
    let m : Machine := ⟨.legacy, none,
      { store := (Store.empty.declare "a b" (.int 3)).declare "n" (.double (0.0 / 0.0)) }, []⟩
    (IsOperand "a b" ∧ IsOperand "2" ∧ IsOperand "n" ∧ IsOperand "c" ∧ IsWhite "\u2003") ∧
      ((m.execute "if ( a b\u2003=<2) \x7b").fault = none ∧
        (m.execute "if ( a b\u2003=<2) \x7b").skipping = true) ∧
      ((m.execute "if ( a b\u2003>2) \x7b").fault = none ∧
        (m.execute "if ( a b\u2003>2) \x7b").skipping = false) ∧
      ((m.execute "if ( n\u2003==n) \x7b").fault = none ∧
        (m.execute "if ( n\u2003==n) \x7b").skipping = true) ∧
      ((m.execute "if ( a b\u2003<c) \x7b").skipping = true ∧
        ∃ f, (m.execute "if ( a b\u2003<c) \x7b").fault = some f ∧ f.kind = .parseError ∧
          f.message = "Error comparing values: 3 and c") := by
  intro m
  have ha : IsOperand "a b" := ⟨by decide, by decide, by decide, by decide⟩
  have htwo : IsOperand "2" := ⟨by decide, by decide, by decide, by decide⟩
  have hn : IsOperand "n" := ⟨by decide, by decide, by decide, by decide⟩
  have hc : IsOperand "c" := ⟨by decide, by decide, by decide, by decide⟩
  have hblank : IsWhite " " := by decide
  have hwhite : IsWhite "\u2003" := by decide
  have hnil : IsWhite [] := by decide
  refine ⟨⟨ha, htwo, hn, hc, hwhite⟩, ?_, ?_, ?_, ?_⟩
  · have h := m.execute_condition "=<" (by decide) ha htwo hblank hwhite hnil hnil
    obtain ⟨hfault, -, hle, -⟩ := h.2.1 (Double.ofInt 3) (Double.ofInt 2) rfl rfl
    exact ⟨hfault, eq_true_of_ne_false (mt (hle (.inr rfl)).1 (by decide))⟩
  · have h := m.execute_condition ">" (by decide) ha htwo hblank hwhite hnil hnil
    obtain ⟨hfault, -, -, -, hgt, -⟩ := h.2.1 (Double.ofInt 3) (Double.ofInt 2) rfl rfl
    exact ⟨hfault, (hgt rfl).2 (by decide)⟩
  · have h := m.execute_condition "==" (by decide) hn hn hblank hwhite hnil hnil
    obtain ⟨hfault, -, -, heq, -⟩ := h.2.1 (0.0 / 0.0) (0.0 / 0.0) rfl rfl
    exact ⟨hfault, eq_true_of_ne_false (mt (heq rfl).1 (by decide))⟩
  · have h := m.execute_condition "<" (by decide) ha hc hblank hwhite hnil hnil
    exact h.2.2 (.inr fun b hb => nomatch hb)

end Machine

end LineScript
