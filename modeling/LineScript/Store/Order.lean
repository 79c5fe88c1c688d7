/-
LineScript/Store/Order.lean

The order in which variables are visited: longer names come before shorter
ones, names of equal length are in the order of their bytes.  So a name is
visited before all names that are part of it.
-/
import LineScript.Text.Basic

namespace LineScript

namespace Text

/-- Lexical order by bytes. -/
def lexBefore : Text → Text → Bool
  | _, [] => false
  | [], _ :: _ => true
  | a :: s, b :: t => a < b || (a == b && lexBefore s t)

/-- The order of names: by decreasing length, then by bytes. -/
def nameBefore (s t : Text) : Bool :=
  t.length < s.length || (s.length == t.length && lexBefore s t)

/-! ### A strict total order -/

theorem lexBefore_trans {s t u : Text} (h₁ : lexBefore s t = true)
    (h₂ : lexBefore t u = true) : lexBefore s u = true := by
  induction s generalizing t u with
  | nil =>
      cases u with
      | nil => simp [lexBefore] at h₂
      | cons c u => simp [lexBefore]
  | cons a s ih =>
      cases t with
      | nil => simp [lexBefore] at h₁
      | cons b t =>
          cases u with
          | nil => simp [lexBefore] at h₂
          | cons c u =>
              simp only [lexBefore, Bool.or_eq_true, Bool.and_eq_true,
                decide_eq_true_eq, beq_iff_eq] at h₁ h₂ ⊢
              rcases h₁ with h₁ | ⟨rfl, h₁⟩ <;> rcases h₂ with h₂ | ⟨rfl, h₂⟩
              · exact .inl (UInt8.lt_trans h₁ h₂)
              · exact .inl h₁
              · exact .inl h₂
              · exact .inr ⟨rfl, ih h₁ h₂⟩

/-- Of two different texts one comes before the other. -/
theorem lexBefore_total {s t : Text} (h : s ≠ t) :
    lexBefore s t = true ∨ lexBefore t s = true := by
  induction s generalizing t with
  | nil =>
      cases t with
      | nil => exact absurd rfl h
      | cons b t => exact .inl rfl
  | cons a s ih =>
      cases t with
      | nil => exact .inr rfl
      | cons b t =>
          simp only [lexBefore, Bool.or_eq_true, Bool.and_eq_true,
            decide_eq_true_eq, beq_iff_eq]
          by_cases hab : a = b
          · subst hab
            have hst : s ≠ t := fun e => h (e ▸ rfl)
            rcases ih hst with h' | h'
            · exact .inl (.inr ⟨rfl, h'⟩)
            · exact .inr (.inr ⟨rfl, h'⟩)
          · rcases UInt8.lt_or_lt_of_ne hab with h' | h'
            · exact .inl (.inl h')
            · exact .inr (.inl h')

theorem lexBefore_irrefl (s : Text) : lexBefore s s = false := by
  induction s with
  | nil => rfl
  | cons a s ih => simp [lexBefore, ih]

/-- The length of a name decides first. -/
theorem nameBefore_iff {s t : Text} :
    nameBefore s t = true ↔
      t.length < s.length ∨ s.length = t.length ∧ lexBefore s t = true := by
  simp [nameBefore]

theorem nameBefore_trans {s t u : Text} (h₁ : nameBefore s t = true)
    (h₂ : nameBefore t u = true) : nameBefore s u = true := by
  rw [nameBefore_iff] at *
  rcases h₁ with h₁ | ⟨h₁, l₁⟩ <;> rcases h₂ with h₂ | ⟨h₂, l₂⟩
  · exact .inl (by omega)
  · exact .inl (by omega)
  · exact .inl (by omega)
  · exact .inr ⟨by omega, lexBefore_trans l₁ l₂⟩

/-- Of two different names one comes before the other. -/
theorem nameBefore_total {s t : Text} (h : s ≠ t) :
    nameBefore s t = true ∨ nameBefore t s = true := by
  simp only [nameBefore_iff]
  rcases Nat.lt_trichotomy s.length t.length with hl | hl | hl
  · exact .inr (.inl hl)
  · rcases lexBefore_total h with h' | h'
    · exact .inl (.inr ⟨hl, h'⟩)
    · exact .inr (.inr ⟨hl.symm, h'⟩)
  · exact .inl (.inl hl)

theorem nameBefore_irrefl (s : Text) : nameBefore s s = false := by
  simp [nameBefore, lexBefore_irrefl]

end Text

end LineScript
