/-
LineScript/Proofs/Doubles.lean

Doubles and their texts.  A double is its sign and its magnitude
(`ofMagnitude_magnitudeOf`), and only one double is not a number
(`eq_nan_of_infinite_lt`).  So reading the text of a double gives the double back
(`read?_spell`), reading the text of an integer gives the double nearest to it
(`read?_ofInt`), and a value converted to a double is what its text is read as.
-/
import LineScript.Proofs.Spellings
import LineScript.Value.Basic
import Mathlib

namespace LineScript

open Text Expression

namespace Double

/-! ### Bits -/

/-- A double is its sign and its magnitude. -/
theorem ofMagnitude_magnitudeOf (f : Float) : ofMagnitude (isNegative f) (magnitudeOf f) = f := by
  have hlt : f.toBits.toNat < 2 * signBit := f.toBits.toNat_lt
  have hbits : (if isNegative f then signBit + magnitudeOf f else magnitudeOf f) =
      f.toBits.toNat := by
    simp only [isNegative, magnitudeOf, decide_eq_true_eq]
    split
    · next h =>
        rw [Nat.mod_eq_sub_mod h, Nat.mod_eq_of_lt (by omega)]
        omega
    · next h => exact Nat.mod_eq_of_lt (not_le.1 h)
  rw [ofMagnitude, hbits, UInt64.ofNat_toNat, Float.ofBits_toBits]

open Float.Model.UnpackedFloat in
/-- The infinite magnitude and those beyond it have the greatest exponent. -/
theorem unpackExponent_eq_iff (f : Float) :
    @unpackExponent .binary64 f.toBits.toBitVec = -1#11 ↔ infinite ≤ magnitudeOf f := by
  have hlt := f.toBits.toNat_lt
  have hexponent : (@unpackExponent .binary64 f.toBits.toBitVec).toNat =
      f.toBits.toNat / 2 ^ 52 % 2 ^ 11 := by
    rw [unpackExponent_def, BitVec.extractLsb'_toNat, Nat.shiftRight_eq_div_pow]
    rfl
  rw [← BitVec.toNat_inj, hexponent]
  change _ = 2047 ↔ _
  simp only [magnitudeOf, infinite, leastNormal, signBit]
  omega

open Float.Model.UnpackedFloat in
/-- All bits that are not a number are the same double. -/
theorem eq_nan_of_infinite_lt {f : Float} (h : infinite < magnitudeOf f) : f = nan := by
  have hexponent := (unpackExponent_eq_iff f).2 h.le
  have hmantissa : @unpackMantissa .binary64 f.toBits.toBitVec ≠ 0#52 := by
    have hlt := f.toBits.toNat_lt
    simp only [magnitudeOf, infinite, leastNormal, signBit] at h
    rw [unpackMantissa_def]
    intro hzero
    have hzero := congrArg BitVec.toNat hzero
    rw [BitVec.extractLsb'_toNat, Nat.shiftRight_eq_div_pow] at hzero
    change f.toBits.toNat / 2 ^ 0 % 2 ^ 52 = 0 at hzero
    omega
  have hbits := f.toModel.valid.eq_packedNaN hexponent hmantissa
  exact Float.toBits_inj.1 (UInt64.toBitVec_inj.1 hbits)

open Float.Model in
/-- A double is finite if its magnitude is below the infinite one. -/
theorem isFinite_iff (f : Float) : f.isFinite = true ↔ magnitudeOf f < infinite := by
  rw [← not_le, ← unpackExponent_eq_iff]
  show (UnpackedFloat.unpack .binary64 f.toBits.toBitVec).isFinite = true ↔ _
  unfold UnpackedFloat.unpack
  dsimp only
  split
  · next hgreatest =>
      refine iff_of_false ?_ (not_not.2 hgreatest)
      split <;> exact Bool.false_ne_true
  · next hless =>
      refine iff_of_true ?_ hless
      split
      · split <;> rfl
      · rfl

/-! ### Texts -/

/-- The infinities are read by their names. -/
theorem read?_signed_infinity (negative : Bool) :
    read? (signed negative "Infinity") = some (ofMagnitude negative infinite) := by
  have htrim : trim (signed negative "Infinity") = signed negative "Infinity" := by
    cases negative with
    | false => exact trim_eq_self ⟨⟨byte 'I', rfl, rfl⟩, ⟨byte 'y', rfl, rfl⟩⟩
    | true => exact trim_eq_self ⟨⟨byte '-', rfl, rfl⟩, ⟨byte 'y', rfl, rfl⟩⟩
  rw [read?, htrim]
  cases negative with
  | false => rfl
  | true => rfl

theorem denotes_zero : Denotes "0.0" 0 := by
  have hdigits : ∀ b ∈ [byte '0'], isDigit b = true := fun b hb => by
    rw [List.mem_singleton.1 hb]
    rfl
  have h := denotes_pointed hdigits (by simp) (w := [byte '0']) (d := [byte '0']) (x := [])
    (e := 0) (i := 1) (k := 0) (.inl rfl) rfl rfl
  have hzero : Text.toNat [byte '0'] = 0 := rfl
  rw [hzero, Nat.cast_zero, zero_mul] at h
  exact h

/-- A magnitude up to infinity is read back with its sign. -/
theorem read?_spellMagnitude (negative : Bool) {m : Nat} (hm : m ≤ infinite) :
    read? (signed negative (spellMagnitude m)) = some (ofMagnitude negative m) := by
  rcases hm.lt_or_eq with hfin | rfl
  · rcases Nat.eq_zero_or_pos m with rfl | hpos
    · have hzero : Denotes "0.0" ((0 : Nat) * 10 ^ (0 : ℤ)) := by
        simpa using denotes_zero
      exact hzero.read? negative
    · obtain ⟨c, e, hread, hdenotes⟩ := denotes_spellMagnitude hpos hfin
      rw [hdenotes.read? negative, hread]
  · exact read?_signed_infinity negative

/-- A double that is a number is spelled as its magnitude with its sign in front. -/
theorem spell_eq_signed {f : Float} (h : magnitudeOf f ≤ infinite) :
    spell f = signed (isNegative f) (spellMagnitude (magnitudeOf f)) := by
  rw [spell, if_neg h.not_gt, signed]
  rfl

/-- Reading the text of a double gives the double. -/
theorem read?_spell (f : Float) : read? (spell f) = some f := by
  rcases Nat.lt_or_ge infinite (magnitudeOf f) with hnan | hnum
  · have htrim : trim "NaN" = Text.ofString "NaN" :=
      trim_eq_self ⟨⟨byte 'N', rfl, rfl⟩, ⟨byte 'N', rfl, rfl⟩⟩
    rw [spell, if_pos hnan, read?, htrim, readTrimmed?, if_pos rfl, eq_nan_of_infinite_lt hnan]
  · rw [spell_eq_signed hnum, read?_spellMagnitude _ hnum, ofMagnitude_magnitudeOf]

/-- Reading the text of an integer gives the nearest double. -/
theorem read?_ofInt (n : ℤ) : read? (Text.ofInt n) = some (ofInt n) := by
  have hdenotes : Denotes (Text.ofNat n.natAbs) (n.natAbs * 10 ^ (0 : ℤ)) := by
    simpa using denotes_ofNat n.natAbs
  rw [Numeral.ofInt_eq_signed, hdenotes.read?]
  have hone : decimalMagnitude n.natAbs 0 = magnitude n.natAbs 1 :=
    decimalMagnitude_eq (by decide) (by simp)
  rw [hone]
  rfl

end Double

/-- Whether a value is converted to a double or its text is read as one makes no
difference: both fail, or both give the same double. -/
theorem Value.toDouble_eq_double_text (v : Value) :
    v.toDouble = Literal.double v.text ∧
      ∀ f : Float, Literal.double (Double.spell f) = .ok f := by
  have hread : ∀ {t f}, Double.read? t = some f → Literal.double t = .ok f := by
    intro t f h
    rw [Literal.double, h]
  have hspell : ∀ f : Float, Literal.double (Double.spell f) = .ok f := fun f =>
    hread (Double.read?_spell f)
  refine ⟨?_, hspell⟩
  cases v with
  | int n => rw [Value.toDouble, Value.text, hread (Double.read?_ofInt n.toInt)]
  | double f => rw [Value.toDouble, Value.text, hspell]
  | undefined => rfl
  | string t => rfl
  | bool b => rfl
  | list capacity elements => rfl

end LineScript
