/-
LineScript/Proofs/Resolving.lean

What an operand stands for that is not the name of a variable.  A point in it decides whether
it is read as a double or as an integer, and what cannot be read is a string.  There is a point
in the text of every finite double, in either notation, and in no other text of a number
(`Double.point_mem_spell_iff`, `point_not_mem_ofInt`).  So a number that has been printed is
read back as the number that it was, of the same kind.

Main result: `resolve_printed`.
-/
import LineScript.Proofs.RoundTrip

namespace LineScript

open Text Expression

/-! ### Points in the texts of numbers -/

theorem mem_signed_of_mem {b : UInt8} {t : Text} (h : b ∈ t) (negative : Bool) :
    b ∈ signed negative t := by
  cases negative with
  | false => exact h
  | true => exact List.mem_cons_of_mem _ h

/-- There is no point in the text of an integer. -/
theorem point_not_mem_ofInt (n : ℤ) : byte '.' ∉ Text.ofInt n := by
  have hdigits : byte '.' ∉ Text.ofNat n.natAbs := fun hpoint =>
    absurd (isDigit_of_mem_ofNat hpoint) (by decide)
  rw [Numeral.ofInt_eq_signed, signed]
  split
  · exact mt List.mem_cons.1 (not_or.2 ⟨by decide, hdigits⟩)
  · exact hdigits

namespace Double

/-- Positional notation always has a point. -/
theorem point_mem_positional (digits : Text) (point : ℤ) :
    byte '.' ∈ positional digits point := by
  unfold positional
  split
  · exact List.mem_append_left _ (List.mem_append_left _ (by decide))
  · exact List.mem_append_left _ (List.mem_append_right _ (by decide))

/-- So has scientific notation. -/
theorem point_mem_scientific (digits : Text) (point : ℤ) :
    byte '.' ∈ scientific digits point := by
  simp only [scientific, List.mem_append]
  exact .inl (.inl (.inl (.inr (by decide))))

/-- So a finite magnitude is spelled with a point. -/
theorem point_mem_spellMagnitude {m : Nat} (hfin : m ≠ infinite) :
    byte '.' ∈ spellMagnitude m := by
  unfold spellMagnitude
  rw [if_neg hfin]
  split
  · decide
  · generalize spellDigits m = spelled
    obtain ⟨digits, point⟩ := spelled
    dsimp only
    split
    · exact point_mem_positional digits point
    · exact point_mem_scientific digits point

/-- The texts of finite doubles, and of no others, have a point. -/
theorem point_mem_spell_iff (f : Float) : byte '.' ∈ spell f ↔ f.isFinite = true := by
  rw [isFinite_iff]
  rcases Nat.lt_or_ge infinite (magnitudeOf f) with hnan | hnum
  · rw [spell, if_pos hnan]
    exact iff_of_false (by decide) hnan.not_gt
  · rw [spell_eq_signed hnum]
    rcases hnum.lt_or_eq with hfin | hinf
    · exact iff_of_true (mem_signed_of_mem (point_mem_spellMagnitude hfin.ne) _) hfin
    · have hword : spellMagnitude infinite = Text.ofString "Infinity" := if_pos rfl
      rw [hinf, hword]
      refine iff_of_false ?_ (lt_irrefl _)
      cases isNegative f with
      | false => decide
      | true => decide

end Double

/-! ### Operands that are not variables -/

namespace Store

variable {s : Store} {t : Text} (hfree : s.get? t = none)
include hfree

/-- With a point, a text that can be read as a double is one. -/
theorem resolve_double (hpoint : byte '.' ∈ t) {f : Float} (hread : Literal.double t = .ok f) :
    s.resolve t = .double f := by
  have hoccurs : occursIn "." t = true := occursIn_byte_iff.2 hpoint
  simp only [resolve, hfree, hoccurs, hread, if_true]

/-- Without a point, a text that can be read as an integer is one. -/
theorem resolve_int (hpoint : byte '.' ∉ t) {n : Int64} (hread : Literal.int t = .ok n) :
    s.resolve t = .int n := by
  have hoccurs : ¬ occursIn "." t = true := mt occursIn_byte_iff.1 hpoint
  simp only [resolve, hfree, if_neg hoccurs, hread]

/-- What is not a number with a point or an integer without one stands for itself. -/
theorem resolve_string (hint : byte '.' ∉ t → ∀ n, Literal.int t ≠ .ok n)
    (hdouble : byte '.' ∈ t → ∀ f, Literal.double t ≠ .ok f) : s.resolve t = .string t := by
  by_cases hpoint : byte '.' ∈ t
  · have hoccurs : occursIn "." t = true := occursIn_byte_iff.2 hpoint
    cases hread : Literal.double t with
    | error e => simp only [resolve, hfree, hoccurs, hread, if_true]
    | ok f => exact absurd hread (hdouble hpoint f)
  · have hoccurs : ¬ occursIn "." t = true := mt occursIn_byte_iff.1 hpoint
    cases hread : Literal.int t with
    | error e => simp only [resolve, hfree, if_neg hoccurs, hread]
    | ok n => exact absurd hread (hint hpoint n)

/-- Everything else stands for itself. -/
theorem resolve_eq_string_iff : s.resolve t = .string t ↔
    ¬ (byte '.' ∉ t ∧ ∃ n, Literal.int t = .ok n) ∧
      ¬ (byte '.' ∈ t ∧ ∃ f, Literal.double t = .ok f) := by
  constructor
  · intro h
    refine ⟨?_, ?_⟩
    · rintro ⟨hpoint, n, hread⟩
      rw [resolve_int hfree hpoint hread] at h
      cases h
    · rintro ⟨hpoint, f, hread⟩
      rw [resolve_double hfree hpoint hread] at h
      cases h
  · rintro ⟨hint, hdouble⟩
    exact resolve_string hfree (fun hpoint n hread => hint ⟨hpoint, n, hread⟩)
      fun hpoint f hread => hdouble ⟨hpoint, f, hread⟩

end Store

/-- The text of a double is its literal. -/
theorem Literal.double_spell (f : Float) : Literal.double (Double.spell f) = .ok f := by
  rw [Literal.double, Double.read?_spell]

/-- The texts of numbers that are not names of variables stand for the numbers, and for
nothing else: the text of an integer for the integer, and that of a finite double for the
double, bit by bit.  A text that is not a name stands for itself exactly if it is neither an
integer without a point nor a double with a point. -/
theorem resolve_printed (s : Store) :
    (∀ n : Int64, s.get? (Value.int n).text = none →
      s.resolve (Value.int n).text = .int n) ∧
    (∀ f : Float, f.isFinite = true → s.get? (Double.spell f) = none →
      s.resolve (Double.spell f) = .double f) ∧
    ∀ t : Text, s.get? t = none →
      (s.resolve t = .string t ↔
        ¬ (byte '.' ∉ t ∧ ∃ n, Literal.int t = .ok n) ∧
          ¬ (byte '.' ∈ t ∧ ∃ f, Literal.double t = .ok f)) := by
  refine ⟨fun n hfree => ?_, fun f hfin hfree => ?_, fun t hfree => ?_⟩
  · exact Store.resolve_int hfree (point_not_mem_ofInt n.toInt) (Literal.int_ofInt n)
  · exact Store.resolve_double hfree ((Double.point_mem_spell_iff f).2 hfin)
      (Literal.double_spell f)
  · exact Store.resolve_eq_string_iff hfree

/-- The least integer and the negative double next to zero, where a digit is the name of a
variable, and a number without a point that is not an integer. -/
theorem resolve_printed_limits :
    let s := Store.empty.declare "1" (.bool true)
    let f := Double.ofMagnitude true 1
    (s.get? (Value.int Int64.minValue).text = none ∧ f.isFinite = true ∧
      s.get? (Double.spell f) = none ∧ s.get? "1e5" = none) ∧
    s.resolve (Value.int Int64.minValue).text = .int Int64.minValue ∧
    s.resolve (Double.spell f) = .double f ∧
    s.resolve "1e5" = .string "1e5" := by
  intro s f
  have hfree : ∀ {t : Text}, t ≠ ofString "1" → s.get? t = none := by
    intro t ht
    rw [Store.get?_declare, if_neg ht]
    rfl
  have hint : s.get? (Value.int Int64.minValue).text = none := hfree (by decide)
  have hfin : f.isFinite = true := by decide
  have hdouble : s.get? (Double.spell f) = none := by
    refine hfree fun heq => ?_
    have hpoint := (Double.point_mem_spell_iff f).2 hfin
    rw [heq] at hpoint
    exact absurd hpoint (by decide)
  have hexponent : s.get? "1e5" = none := hfree (by decide)
  obtain ⟨hints, hdoubles, hothers⟩ := resolve_printed s
  refine ⟨⟨hint, hfin, hdouble, hexponent⟩, hints _ hint, hdoubles f hfin hdouble,
    (hothers _ hexponent).2 ⟨?_, ?_⟩⟩
  · rintro ⟨-, n, hn⟩
    have hread : (Literal.int "1e5").toOption = none := by decide
    rw [hn] at hread
    cases hread
  · rintro ⟨hpoint, -⟩
    exact absurd hpoint (by decide)

end LineScript
