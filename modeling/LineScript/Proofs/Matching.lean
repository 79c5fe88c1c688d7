/-
LineScript/Proofs/Matching.lean

Reading a text against a pattern, byte by byte, decides whether the pattern
describes the text.  The two facts behind this are

* `nullable_iff`: a pattern is nullable if it describes the empty text;
* `matches_derive_iff`: the texts of `a.derive x` are what follows the byte `x`
  in the texts of `a`.

The reducing constructors `andThen` and `orElse` do not change what a pattern
describes, so a pattern reduced to `nothing` has no texts left.
-/
import LineScript.Scanner.Pattern
import Mathlib.Data.List.Basic

namespace LineScript

namespace Pattern

/-! ### What each constructor describes -/

theorem not_matches_nothing {t : Text} : ¬ Matches nothing t := by
  intro h
  cases h

@[simp] theorem matches_empty_iff {t : Text} : Matches empty t ↔ t = [] := by
  constructor
  · intro h
    cases h
    rfl
  · rintro rfl
    exact .empty

theorem matches_one_iff {p : UInt8 → Bool} {t : Text} :
    Matches (one p) t ↔ ∃ b, p b = true ∧ t = [b] := by
  constructor
  · intro h
    cases h with
    | one hb => exact ⟨_, hb, rfl⟩
  · rintro ⟨b, hb, rfl⟩
    exact .one hb

/-- A text in a row is one text behind another. -/
theorem matches_seq_iff {a b : Pattern} {t : Text} :
    Matches (seq a b) t ↔ ∃ s u, t = s ++ u ∧ Matches a s ∧ Matches b u := by
  constructor
  · intro h
    cases h with
    | seq ha hb => exact ⟨_, _, rfl, ha, hb⟩
  · rintro ⟨s, u, rfl, ha, hb⟩
    exact .seq ha hb

theorem matches_alt_iff {a b : Pattern} {t : Text} :
    Matches (alt a b) t ↔ Matches a t ∨ Matches b t := by
  constructor
  · intro h
    cases h with
    | altLeft h => exact .inl h
    | altRight h => exact .inr h
  · rintro (h | h)
    · exact .altLeft h
    · exact .altRight h

/-- A text of `star a` that is not empty begins with a text of `a` that is not
empty. -/
theorem matches_star_cons_iff {a : Pattern} {x : UInt8} {t : Text} :
    Matches (star a) (x :: t) ↔
      ∃ s u, t = s ++ u ∧ Matches a (x :: s) ∧ Matches (star a) u := by
  constructor
  · intro h
    generalize hp : star a = p at h
    generalize ht : x :: t = t' at h
    induction h with
    | starNil => cases ht
    | @starCons a' s u ha hu _ ih =>
        cases hp
        cases s with
        | nil => exact ih rfl ht
        | cons y s =>
            obtain ⟨rfl, rfl⟩ := List.cons.inj ht
            exact ⟨s, u, rfl, ha, hu⟩
    | empty | one _ | seq _ _ | altLeft _ | altRight _ => cases hp
  · rintro ⟨s, u, rfl, ha, hu⟩
    exact .starCons ha hu

/-! ### The reducing constructors -/

/-- Simplifying a sequence does not change what it describes. -/
theorem matches_andThen_iff {a b : Pattern} {t : Text} :
    Matches (andThen a b) t ↔ Matches (seq a b) t := by
  unfold andThen
  split
  · simp [matches_seq_iff, not_matches_nothing]
  · simp [matches_seq_iff, not_matches_nothing]
  · simp [matches_seq_iff]
  · exact Iff.rfl

/-- Nor does simplifying an alternative. -/
theorem matches_orElse_iff {a b : Pattern} {t : Text} :
    Matches (orElse a b) t ↔ Matches (alt a b) t := by
  unfold orElse
  split
  · simp [matches_alt_iff, not_matches_nothing]
  · simp [matches_alt_iff, not_matches_nothing]
  · exact Iff.rfl

/-- A pattern that has given up describes nothing. -/
theorem not_matches_of_isNothing {a : Pattern} (h : a.isNothing = true)
    {t : Text} : ¬ Matches a t := by
  cases a with
  | nothing => exact not_matches_nothing
  | empty | one _ | seq _ _ | alt _ _ | star _ => cases h

/-! ### Reading a byte -/

/-- A pattern that may be empty describes the empty text. -/
theorem nullable_iff {a : Pattern} : a.nullable = true ↔ Matches a [] := by
  induction a with
  | nothing => simp [nullable, not_matches_nothing]
  | empty => simp [nullable]
  | one p => simp [nullable, matches_one_iff]
  | seq a b iha ihb =>
      simp only [nullable, Bool.and_eq_true, iha, ihb, matches_seq_iff]
      constructor
      · rintro ⟨ha, hb⟩
        exact ⟨[], [], rfl, ha, hb⟩
      · rintro ⟨s, u, h, ha, hb⟩
        obtain ⟨rfl, rfl⟩ := List.nil_eq_append_iff.1 h
        exact ⟨ha, hb⟩
  | alt a b iha ihb =>
      simp only [nullable, Bool.or_eq_true, iha, ihb, matches_alt_iff]
  | star a _ => simp [nullable, Matches.starNil]

/-- The derivative by a byte describes what may follow this byte. -/
theorem matches_derive_iff {a : Pattern} {x : UInt8} {t : Text} :
    Matches (a.derive x) t ↔ Matches a (x :: t) := by
  induction a generalizing t with
  | nothing => simp [derive, not_matches_nothing]
  | empty => simp [derive, not_matches_nothing]
  | one p =>
      by_cases hp : p x = true
      · simp [derive, hp, matches_one_iff]
      · simp [derive, hp, matches_one_iff, not_matches_nothing]
  | seq a b iha ihb =>
      -- the byte is the first of `b` only if `a` describes the empty text
      have hsplit : Matches (seq a b) (x :: t) ↔
          Matches (seq (a.derive x) b) t ∨ a.nullable = true ∧ Matches b (x :: t) := by
        simp only [matches_seq_iff, nullable_iff, iha]
        constructor
        · rintro ⟨s, u, h, ha, hb⟩
          cases s with
          | nil => exact .inr ⟨ha, by rw [h]; exact hb⟩
          | cons y s =>
              obtain ⟨rfl, rfl⟩ := List.cons.inj h
              exact .inl ⟨s, u, rfl, ha, hb⟩
        · rintro (⟨s, u, rfl, ha, hb⟩ | ⟨ha, hb⟩)
          · exact ⟨x :: s, u, rfl, ha, hb⟩
          · exact ⟨[], x :: t, rfl, ha, hb⟩
      rw [hsplit, derive]
      split <;> rename_i hn
      · rw [matches_orElse_iff, matches_alt_iff, matches_andThen_iff, ihb]
        simp [hn]
      · rw [matches_andThen_iff]
        simp [hn]
  | alt a b iha ihb =>
      rw [derive, matches_orElse_iff, matches_alt_iff, matches_alt_iff, iha, ihb]
  | star a iha =>
      rw [derive, matches_andThen_iff, matches_seq_iff, matches_star_cons_iff]
      simp only [iha]

/-! ### Common patterns -/

theorem matches_opt_iff {a : Pattern} {t : Text} :
    Matches (opt a) t ↔ Matches a t ∨ t = [] := by
  rw [opt, matches_alt_iff, matches_empty_iff]

/-- A repeated byte pattern describes the texts of such bytes. -/
theorem matches_star_one_iff {p : UInt8 → Bool} {t : Text} :
    Matches (star (one p)) t ↔ ∀ b ∈ t, p b = true := by
  induction t with
  | nil => simp [Matches.starNil]
  | cons x t ih =>
      simp only [matches_star_cons_iff, matches_one_iff, List.cons.injEq,
        List.forall_mem_cons]
      constructor
      · rintro ⟨s, u, rfl, ⟨b, hb, rfl, rfl⟩, hu⟩
        exact ⟨hb, ih.1 hu⟩
      · rintro ⟨hx, ht⟩
        exact ⟨[], t, rfl, ⟨x, hx, rfl, rfl⟩, ih.2 ht⟩

/-- The same for at least one byte. -/
theorem matches_plus_one_iff {p : UInt8 → Bool} {t : Text} :
    Matches (plus (one p)) t ↔ t ≠ [] ∧ ∀ b ∈ t, p b = true := by
  rw [plus, matches_seq_iff]
  constructor
  · rintro ⟨s, u, rfl, hs, hu⟩
    obtain ⟨b, hb, rfl⟩ := matches_one_iff.1 hs
    refine ⟨by simp, ?_⟩
    simpa [hb] using matches_star_one_iff.1 hu
  · rintro ⟨hne, ht⟩
    obtain ⟨b, u, rfl⟩ := List.exists_cons_of_ne_nil hne
    obtain ⟨hb, hu⟩ := List.forall_mem_cons.1 ht
    exact ⟨[b], u, rfl, .one hb, matches_star_one_iff.2 hu⟩

/-- A literal describes itself only. -/
theorem matches_literal_iff {s t : Text} : Matches (literal s) t ↔ t = s := by
  induction s generalizing t with
  | nil => simp [literal]
  | cons b s ih =>
      have hl : literal (b :: s) = seq (one (· == b)) (literal s) := rfl
      rw [hl, matches_seq_iff]
      constructor
      · rintro ⟨l, r, rfl, hl, hr⟩
        obtain ⟨c, hc, rfl⟩ := matches_one_iff.1 hl
        rw [ih.1 hr, eq_of_beq hc]
        rfl
      · rintro rfl
        exact ⟨[b], s, rfl, .one (by simp), ih.2 rfl⟩

end Pattern

end LineScript
