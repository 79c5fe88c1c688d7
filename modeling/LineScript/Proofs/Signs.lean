/-
LineScript/Proofs/Signs.lean

The signs of doubles that are read from texts.  There are three ways to be read as a double
(`Double.Reads`): as the word `NaN`, as the word `Infinity` behind signs, and as a numeral.
The bits of a number are kept (`toBits_ofBits`), so that the sign bit of what is read is set
exactly if the text begins with a minus sign, also where the number is zero or infinite.

A numeral has one sign at most, but of the signs in front of `Infinity` there may be any
number (`double_two_signs`).

Main result: `double_sign`.
-/
import LineScript.Proofs.Numerals

namespace LineScript

open Text Expression

/-! ### The sign bit -/

namespace Double

open Float.Model.UnpackedFloat in
/-- Bits that are a number are the bits of a double. -/
theorem toBits_ofBits {b : UInt64} (h : b.toNat % signBit ≤ infinite) :
    (Float.ofBits b).toBits = b := by
  have hnumber : @isNaNBits .binary64 b.toBitVec = false := by
    rw [isNaNBits, decide_eq_false_iff_not]
    rintro ⟨hexponent, hmantissa⟩
    have hexponent := congrArg BitVec.toNat hexponent
    rw [unpackExponent_def, BitVec.extractLsb'_toNat, Nat.shiftRight_eq_div_pow] at hexponent
    change b.toNat / 2 ^ 52 % 2 ^ 11 = 2047 at hexponent
    apply hmantissa
    apply BitVec.eq_of_toNat_eq
    rw [unpackMantissa_def, BitVec.extractLsb'_toNat, Nat.shiftRight_eq_div_pow]
    change b.toNat / 2 ^ 0 % 2 ^ 52 = 0
    have hlt := b.toNat_lt
    simp only [infinite, leastNormal, signBit] at h
    omega
  have hpack := @pack_unpack .binary64 b.toBitVec
  rw [hnumber, if_neg Bool.false_ne_true] at hpack
  exact UInt64.toBitVec_inj.1 hpack

section

variable (negative : Bool) {m : Nat} (hm : m ≤ infinite)
include hm

/-- The sign is the bit above the magnitude. -/
theorem toNat_toBits_ofMagnitude :
    (ofMagnitude negative m).toBits.toNat = if negative then signBit + m else m := by
  have hlt : m < signBit := hm.trans_lt (by decide)
  have hfits : (if negative then signBit + m else m) < 2 * signBit := by
    split <;> omega
  have hbits : (UInt64.ofNat (if negative then signBit + m else m)).toNat =
      if negative then signBit + m else m := UInt64.toNat_ofNat_of_lt' hfits
  rw [ofMagnitude, toBits_ofBits, hbits]
  rw [hbits]
  split
  · rwa [Nat.add_mod_left, Nat.mod_eq_of_lt hlt]
  · rwa [Nat.mod_eq_of_lt hlt]

theorem isNegative_ofMagnitude : isNegative (ofMagnitude negative m) = negative := by
  have hlt : m < signBit := hm.trans_lt (by decide)
  rw [isNegative, toNat_toBits_ofMagnitude negative hm]
  cases negative with
  | false => simpa using hlt
  | true => simp

end

end Double

/-! ### The sign of a numeral -/

namespace WrittenNumeral

variable (x : WrittenNumeral)

theorem length_sign_le : x.sign.length ≤ 1 := by
  rcases x.isSign with hs | ⟨b, hs, -⟩ <;> simp [hs]

/-- The sign is all that a numeral has in front of its digits. -/
theorem takeWhile_text : x.text.takeWhile Double.isSign = x.sign := by
  obtain ⟨b, r, hr, hfirst⟩ := x.parts.digits_first
  have hsign : ∀ c ∈ x.sign, Double.isSign c = true := by
    rcases x.isSign with hs | ⟨c, hs, hc⟩ <;> simp_all
  rw [text, hr]
  refine (takeWhile_append_stop hsign fun c hc => ?_).1
  cases hc
  exact (plain_byte b hfirst).2.2

/-- A numeral is negative if it begins with a minus. -/
theorem head?_text_iff : x.text.head? = some (byte '-') ↔ x.negative = true := by
  obtain ⟨b, r, hr, hfirst⟩ := x.parts.digits_first
  rw [negative, decide_eq_true_eq, text, hr]
  rcases x.isSign with hs | ⟨c, hs, -⟩
  · rw [hs]
    refine iff_of_false ?_ (by simp)
    rintro ⟨⟩
    cases (plain_byte _ hfirst).2.2
  · simp [hs]

end WrittenNumeral

/-! ### The ways to be read -/

namespace Double

/-- How a text without white space around it is read as a double. -/
inductive Reads : Text → Float → Prop where
  | nan : Reads "NaN" nan
  | infinity {t : Text} : t.dropWhile isSign = Text.ofString "Infinity" →
      Reads t (ofMagnitude (t.head? = some (byte '-')) infinite)
  | numeral (x : WrittenNumeral) :
      Reads x.text (ofMagnitude x.negative
        (decimalMagnitude x.coefficient (x.scale Numeral.firstFive)))

/-- Reading finds a double exactly if the text has one of the forms. -/
theorem readTrimmed?_eq_some_iff {t : Text} {f : Float} :
    readTrimmed? t = some f ↔ Reads t f := by
  have hnan : t.dropWhile isSign = Text.ofString "Infinity" → t ≠ Text.ofString "NaN" := by
    rintro hinfinity rfl
    exact absurd hinfinity (by decide)
  constructor
  · intro h
    -- The cases are in the order in which the reader tries them.
    by_cases hinfinity : t.dropWhile isSign = Text.ofString "Infinity"
    · rw [readTrimmed?, if_neg (hnan hinfinity), if_pos hinfinity] at h
      obtain rfl := Option.some.inj h
      exact .infinity hinfinity
    · rcases (isSome_readTrimmed?_iff hinfinity).1 (by rw [h]; rfl) with rfl | hgrammar
      · rw [readTrimmed?, if_pos rfl] at h
        obtain rfl := Option.some.inj h
        exact .nan
      · obtain ⟨x, rfl⟩ := Numeral.matches_grammar_iff.1 hgrammar
        rw [readTrimmed?_text] at h
        obtain rfl := Option.some.inj h
        exact .numeral x
  · intro h
    cases h with
    | nan => rw [readTrimmed?, if_pos rfl]
    | infinity hinfinity => rw [readTrimmed?, if_neg (hnan hinfinity), if_pos hinfinity]
    | numeral x => exact readTrimmed?_text x

namespace Reads

variable {t : Text} {f : Float} (h : Reads t f)
include h

/-- The sign bit is set exactly if the text begins with a minus sign. -/
theorem isNegative_iff (hnumber : f.isNaN = false) :
    isNegative f = true ↔ t.head? = some (byte '-') := by
  cases h with
  | nan => exact absurd hnumber (by decide)
  | infinity => rw [isNegative_ofMagnitude _ le_rfl, decide_eq_true_eq]
  | numeral x =>
      rw [isNegative_ofMagnitude _ (decimalMagnitude_le_infinite _ _), x.head?_text_iff]

/-- Only in front of `Infinity` there are two signs. -/
theorem dropWhile_eq_of_two_signs (hsigns : 1 < (t.takeWhile isSign).length) :
    t.dropWhile isSign = Text.ofString "Infinity" := by
  cases h with
  | nan => exact absurd hsigns (by decide)
  | infinity hinfinity => exact hinfinity
  | numeral x =>
      rw [x.takeWhile_text] at hsigns
      exact absurd hsigns x.length_sign_le.not_gt

end Reads

end Double

namespace Literal

/-- The sign bit of a double that is read, other than the one that is not a number, is set
exactly if the text begins with a minus sign, white space left aside.  There is one sign at
most in front of the first other character, unless what follows the signs is `Infinity`:
then there may be any number of them, and the first one counts. -/
theorem double_sign (s : Text) :
    (∀ f, double s = .ok f → f.isNaN = false →
      (Double.isNegative f = true ↔ (trim s).head? = some (byte '-'))) ∧
    (∀ f, double s = .ok f → 1 < ((trim s).takeWhile Double.isSign).length →
      (trim s).dropWhile Double.isSign = Text.ofString "Infinity") ∧
    ∀ signs : Text, (∀ b ∈ signs, Double.isSign b = true) →
      trim s = signs ++ Text.ofString "Infinity" →
      double s = .ok (Double.ofMagnitude (signs.head? = some (byte '-')) Double.infinite) := by
  have hreads : ∀ {f}, double s = .ok f ↔ Double.Reads (trim s) f := by
    intro f
    rw [double_eq_ok_iff, Double.read?, Double.readTrimmed?_eq_some_iff]
  refine ⟨fun f h hnumber => ?_, fun f h hsigns => ?_, fun signs hsigns htrim => ?_⟩
  · exact (hreads.1 h).isNegative_iff hnumber
  · exact (hreads.1 h).dropWhile_eq_of_two_signs hsigns
  · have hdrop : (signs ++ Text.ofString "Infinity").dropWhile Double.isSign =
        Text.ofString "Infinity" := by
      refine (takeWhile_append_stop hsigns fun b hb => ?_).2
      cases hb
      rfl
    have hhead : (signs ++ Text.ofString "Infinity").head? = some (byte '-') ↔
        signs.head? = some (byte '-') := by
      cases signs with
      | nil => decide
      | cons b signs => rfl
    rw [hreads, htrim]
    have h := Double.Reads.infinity hdrop
    simpa only [hhead] using h

/-- Negative zero with white space around it, and three signs in front of `Infinity`. -/
theorem double_sign_zero :
    let s : Text := " -0.0e5\n"
    let t : Text := "+-+Infinity"
    let zero := Double.ofMagnitude true 0
    let infinity := Double.ofMagnitude false Double.infinite
    (double s = .ok zero ∧ zero.isNaN = false ∧ double t = .ok infinity ∧
      1 < ((trim t).takeWhile Double.isSign).length) ∧
    (Double.isNegative zero = true ↔ (trim s).head? = some (byte '-')) ∧
    (trim t).dropWhile Double.isSign = Text.ofString "Infinity" := by
  intro s t zero infinity
  have hzero : double s = .ok zero := by
    have htrim : trim s = Text.ofString "-0.0e5" := by decide
    rw [double_eq_ok_iff, Double.read?, htrim]
    rfl
  have hnumber : zero.isNaN = false := by decide
  have htrim : trim t = Text.ofString "+-+" ++ Text.ofString "Infinity" := by decide
  have hinfinity : double t = .ok infinity :=
    (double_sign t).2.2 "+-+" (List.all_eq_true.1 rfl) htrim
  have hsigns : 1 < ((trim t).takeWhile Double.isSign).length := by
    rw [htrim]
    decide
  exact ⟨⟨hzero, hnumber, hinfinity, hsigns⟩, (double_sign s).1 zero hzero hnumber,
    (double_sign t).2.1 infinity hinfinity hsigns⟩

/-- Two signs in front of `Infinity`, which a numeral may not have. -/
theorem double_two_signs :
    ((trim "--Infinity").takeWhile Double.isSign).length = 2 ∧
    double "--Infinity" = .ok (Double.ofMagnitude true Double.infinite) ∧
    double "--1" = .error (.number "--1") := by
  have hinfinity : trim "--Infinity" = Text.ofString "--Infinity" := by decide
  have hnumeral : trim "--1" = Text.ofString "--1" := by decide
  refine ⟨?_, ?_, ?_⟩
  · rw [hinfinity]
    decide
  · rw [double_eq_ok_iff, Double.read?, hinfinity]
    rfl
  · have hread : Double.read? "--1" = none := by
      rw [Double.read?, hnumeral]
      decide
    rw [double, hread, hnumeral]

end Literal

end LineScript
