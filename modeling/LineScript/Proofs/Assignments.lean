/-
LineScript/Proofs/Assignments.lean

The meaning of assignments.  Equals signs at the end of a line do not count.  If one equals
sign is left, it separates the variable from the operand, and the variable is bound to what
the operand stood for before (`execute_bound`).  The variable has to exist
(`execute_unbound`), and no other number of equals signs makes an assignment
(`execute_not_separated`).
-/
import LineScript.Machine.Execute
import LineScript.Proofs.Stores
import LineScript.Proofs.Texts

namespace LineScript

open Text

namespace Assignment

/-- A line without the equals signs at its end. -/
def body (line : Text) : Text := dropTrailing (· == byte '=') line

/-- One equals sign separates the two sides of an assignment. -/
structure Separates (left right line : Text) : Prop where
  body_eq : body line = left ++ "=" ++ right
  left_free : byte '=' ∉ left
  right_free : byte '=' ∉ right

variable {left right line : Text}

/-- The fields of an assignment are its two sides. -/
theorem fields_eq_iff : fields "=" line = [left, right] ↔ Separates left right line := by
  have hpair : fields "=" line = [left, right] ↔
      body line = left ++ byte '=' :: right ∧ byte '=' ∉ left ∧ byte '=' ∉ right :=
    fields_eq_pair_iff
  have happend : (left ++ "=" ++ right : Text) = left ++ byte '=' :: right := by
    rw [List.append_assoc]
    rfl
  rw [hpair, ← happend]
  exact ⟨fun h => ⟨h.1, h.2.1, h.2.2⟩, fun h => ⟨h.body_eq, h.left_free, h.right_free⟩⟩

/-- One equals sign is what makes two sides. -/
theorem count_body_eq_one_iff :
    (body line).count (byte '=') = 1 ↔ ∃ left right, Separates left right line := by
  rw [count_eq_one_iff]
  simp only [← fields_eq_iff]
  exact exists_congr fun left => exists_congr fun right => fields_eq_pair_iff.symm

/-- Of a line with one equals sign, the sides are what stands around it. -/
theorem separates_of_body_eq (hcount : (body line).count (byte '=') = 1)
    (hbody : body line = left ++ "=" ++ right) : Separates left right line := by
  have hcounts : left.count (byte '=') + 1 + right.count (byte '=') = 1 := by
    rw [hbody, List.count_append, List.count_append] at hcount
    exact hcount
  exact ⟨hbody, List.count_eq_zero.1 (by omega), List.count_eq_zero.1 (by omega)⟩

end Assignment

namespace Machine

open Assignment

section Lines

variable (m : Machine) {line left right : Text} (hline : Statement.ofLine line = .assignment)
include hline

theorem execute_eq_assign : m.execute line = m.assign line := by
  rw [m.execute_eq_perform hline, perform]

/-- Without two sides there is nothing to assign. -/
theorem execute_not_separated (h : ∀ left right, ¬ Separates left right line) :
    m.execute line = ⟨m, some (.assignment line), false⟩ := by
  rw [m.execute_eq_assign hline, assign]
  split
  · next left right hfields => exact absurd (fields_eq_iff.1 hfields) (h left right)
  · rfl

variable (h : Separates left right line)
include h

/-- The left side has to be a variable already. -/
theorem execute_unbound (hget : m.store.get? (trim left) = none) :
    m.execute line = ⟨m, some (.assignUndefined ⟨trim left⟩), false⟩ := by
  rw [m.execute_eq_assign hline, assign, fields_eq_iff.2 h]
  simp only [Store.assign, hget]

/-- The right side is read before the left one is bound. -/
theorem execute_bound {old : Value} (hget : m.store.get? (trim left) = some old) :
    m.execute line =
      ⟨m.declare (trim left) (m.store.resolve (trim right)), none, false⟩ := by
  rw [m.execute_eq_assign hline, assign, fields_eq_iff.2 h]
  simp only [Store.assign, hget]
  rfl

/-- With one equals sign, all depends on whether there is such a variable. -/
theorem execute_separated :
    m.execute line = ⟨m, some (.assignUndefined ⟨trim left⟩), false⟩ ∧
        m.store.get? (trim left) = none ∨
      m.execute line = ⟨m.declare (trim left) (m.store.resolve (trim right)), none, false⟩ ∧
        m.store.get? (trim left) ≠ none := by
  cases hget : m.store.get? (trim left) with
  | none => exact .inl ⟨m.execute_unbound hline h hget, rfl⟩
  | some old => exact .inr ⟨m.execute_bound hline h hget, by simp⟩

end Lines

/-- An assignment fails as such exactly if its body does not have one equals sign.  Otherwise
it fails exactly if the trimmed text on the left of the equals sign is not the name of a
variable, and the variables remain as they are; or else this variable, and no other one, is
bound to what the trimmed text on the right stood for before. -/
theorem execute_assignment (m : Machine) {line : Text}
    (hline : Statement.ofLine line = .assignment) :
    let o := m.execute line
    ((∃ f, o.fault = some f ∧ f.kind = .parseError ∧
        f.message = "Invalid assignment: " ++ line) ↔ (body line).count (byte '=') ≠ 1) ∧
    ((body line).count (byte '=') ≠ 1 → o.machine = m) ∧
    ((body line).count (byte '=') = 1 →
      ∀ left right, body line = left ++ "=" ++ right →
        let l := trim left
        let v := m.store.resolve (trim right)
        ((∃ f, o.fault = some f ∧ f.kind = .undefinedVariable ∧
            f.cause? = some (.assignment ⟨l⟩) ∧ o.machine.store = m.store) ↔
          m.store.get? l = none) ∧
        (m.store.get? l ≠ none →
          o.fault = none ∧
            ∀ n, o.machine.store.get? n = if n = l then some v else m.store.get? n)) := by
  intro o
  -- With one equals sign the only fault is that the name is not bound, and that is of another
  -- kind, so that the first equivalence needs no name.
  by_cases hcount : (body line).count (byte '=') = 1
  · refine ⟨⟨?_, fun hne => absurd hcount hne⟩, fun hne => absurd hcount hne, ?_⟩
    · rintro ⟨f, hf, hkind, -⟩
      obtain ⟨left, right, hsep⟩ := count_body_eq_one_iff.1 hcount
      rcases m.execute_separated hline hsep with ⟨(ho : o = _), -⟩ | ⟨(ho : o = _), -⟩
      · rw [ho] at hf
        obtain rfl := Option.some.inj hf
        cases hkind
      · rw [ho] at hf
        cases hf
    · intro _ left right hbody l v
      have hsep := separates_of_body_eq hcount hbody
      rcases m.execute_separated hline hsep with ⟨(ho : o = _), hget⟩ | ⟨(ho : o = _), hget⟩
      · rw [ho]
        exact ⟨⟨fun _ => hget, fun _ => ⟨_, rfl, rfl, rfl, rfl⟩⟩, fun hne => absurd hget hne⟩
      · rw [ho]
        refine ⟨⟨?_, fun hnone => absurd hnone hget⟩, fun _ => ⟨rfl, ?_⟩⟩
        · rintro ⟨f, hf, -⟩
          cases hf
        · exact m.store.get?_declare l v
  · have ho : o = ⟨m, some (.assignment line), false⟩ := by
      apply m.execute_not_separated hline
      intro left right hsep
      exact hcount (count_body_eq_one_iff.2 ⟨left, right, hsep⟩)
    rw [ho]
    exact ⟨⟨fun _ => hcount, fun _ => ⟨_, rfl, rfl, rfl⟩⟩, fun _ => rfl,
      fun h => absurd h hcount⟩

/-- Equals signs at the end: behind the operand they do not count, but a blank between them
makes the first of them count.  Then there is one too many in the second line, and in the
third line the operand is empty. -/
theorem execute_assignment_at_end :
    let m : Machine := ⟨.legacy, none,
      { store := (Store.empty.declare "x" (.int 3)).declare "y" (.int 4) }, []⟩
    (∀ line ∈ [("x = y==" : Text), "x = y= =", "z= ="],
      Statement.ofLine line = .assignment) ∧
      ((m.execute "x = y==").fault = none ∧
        (m.execute "x = y==").machine.store.get? "x" = some (.int 4)) ∧
      (∃ f, (m.execute "x = y= =").fault = some f ∧ f.kind = .parseError ∧
        f.message = "Invalid assignment: x = y= =") ∧
      ∃ f, (m.execute "z= =").fault = some f ∧ f.kind = .undefinedVariable ∧
        f.cause? = some (.assignment ⟨"z"⟩) ∧ (m.execute "z= =").machine.store = m.store := by
  intro m
  have hline : ∀ line ∈ [("x = y==" : Text), "x = y= =", "z= ="],
      Statement.ofLine line = .assignment := by decide
  refine ⟨hline, ?_, ?_, ?_⟩
  · obtain ⟨-, -, h⟩ := m.execute_assignment (hline "x = y==" (by simp))
    obtain ⟨hfault, hstore⟩ := (h rfl "x " " y" rfl).2 (by decide)
    exact ⟨hfault, hstore "x"⟩
  · obtain ⟨h, -, -⟩ := m.execute_assignment (hline "x = y= =" (by simp))
    exact h.2 (by decide)
  · obtain ⟨-, -, h⟩ := m.execute_assignment (hline "z= =" (by simp))
    exact (h rfl "z" " " rfl).1.2 rfl

end Machine

end LineScript
