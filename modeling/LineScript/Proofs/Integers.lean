/-
LineScript/Proofs/Integers.lean

Which texts are read as integers, and as which.  An integer is written with digits after a
sign or without one (`WrittenInteger`), and what it denotes is the sum of its digits times
the powers of ten of their places.  `Numeral.readInt?` reads exactly these texts
(`readInt?_eq_some_iff`), however many digits they have.  What denotes a number of 64 bits
is read as this number, and everything else is refused.

Main result: `int_accepts_integers`.
-/
import LineScript.Proofs.Numerals
import LineScript.Proofs.RoundTrip

namespace LineScript

open Text Expression

/-! ### Digits and their places -/

namespace Text

/-- The sum of digits times the powers of ten of their places. -/
def placeValue (digits : Text) : Nat :=
  Nat.ofDigits 10 (digits.reverse.map fun b => b.toNat - 48)

/-- Digits have the value of their places, however it is computed. -/
theorem placeValue_eq_toNat (digits : Text) : placeValue digits = toNat digits := by
  induction digits with
  | nil => rfl
  | cons b t ih =>
      rw [placeValue, List.map_reverse] at ih ⊢
      rw [List.map_cons, Nat.ofDigits_reverse_cons, ih, toNat_cons, List.length_map]
      ring

end Text

/-! ### Integers and their parts -/

/-- An integer in its parts. -/
structure WrittenInteger where
  sign : Text
  digits : Text
  isSign : sign = [] ∨ ∃ b, sign = [b] ∧ Double.isSign b = true
  digits_ne_nil : digits ≠ []
  isDigit : ∀ b ∈ digits, isDigit b = true

namespace WrittenInteger

variable (x : WrittenInteger)

def text : Text := x.sign ++ x.digits

/-- The number that is denoted. -/
def value : ℤ := if x.sign = [byte '-'] then -placeValue x.digits else placeValue x.digits

theorem sign_text : Numeral.sign x.text = (decide (x.sign = [byte '-']), x.digits) := by
  obtain ⟨b, t, hb⟩ := List.exists_cons_of_ne_nil x.digits_ne_nil
  rw [text, hb]
  exact sign_append x.isSign (.inl (x.isDigit b (by simp [hb])))

/-- A written integer is read with its value. -/
theorem readInt?_text : Numeral.readInt? x.text = some x.value := by
  have hdigits : Numeral.isDigits x.digits = true := by
    simpa [Numeral.isDigits, x.digits_ne_nil] using x.isDigit
  simp only [Numeral.readInt?, sign_text, hdigits, if_true, decide_eq_true_eq, value,
    placeValue_eq_toNat]

end WrittenInteger

namespace Numeral

/-- Integers are exactly what can be read as one, and are read as what they denote. -/
theorem readInt?_eq_some_iff {t : Text} {n : ℤ} :
    readInt? t = some n ↔ ∃ x : WrittenInteger, x.text = t ∧ x.value = n := by
  constructor
  · intro h
    obtain ⟨s, ht, hs⟩ := exists_sign t
    have hdigits : isDigits (sign t).2 = true := by
      by_contra hno
      simp only [readInt?, if_neg hno] at h
      cases h
    simp only [isDigits, Bool.and_eq_true, Bool.not_eq_true', List.isEmpty_eq_false_iff,
      List.all_eq_true] at hdigits
    let x : WrittenInteger := ⟨s, (sign t).2, hs, hdigits.1, hdigits.2⟩
    have htext : x.text = t := ht.symm
    refine ⟨x, htext, ?_⟩
    rw [← htext, x.readInt?_text] at h
    exact Option.some.inj h
  · rintro ⟨x, rfl, rfl⟩
    exact x.readInt?_text

end Numeral

/-! ### Numbers of 64 bits -/

namespace Literal

/-- The integers that fit into 64 bits. -/
theorem inRange_iff {n : ℤ} : inRange n = true ↔ -2 ^ 63 ≤ n ∧ n ≤ 2 ^ 63 - 1 := by
  rw [inRange, Bool.and_eq_true, decide_eq_true_eq, decide_eq_true_eq]
  rfl

theorem int_of_inRange {s : Text} {n : ℤ} (hread : Numeral.readInt? s = some n)
    (hrange : inRange n = true) : int s = .ok (Int64.ofInt n) := by
  simp only [int, hread, hrange, if_true]

theorem inRange_toInt (k : Int64) : inRange k.toInt = true :=
  inRange_iff.2 ⟨k.le_toInt, k.toInt_le⟩

/-- An integer that fits is kept. -/
theorem toInt_ofInt {n : ℤ} (h : inRange n = true) : (Int64.ofInt n).toInt = n := by
  obtain ⟨hlow, hhigh⟩ := inRange_iff.1 h
  exact Int64.toInt_ofInt_of_le hlow (by omega)

/-- What is read is what is denoted, if this is a number of 64 bits. -/
theorem int_eq_ok_iff {s : Text} {k : Int64} :
    int s = .ok k ↔ Numeral.readInt? s = some k.toInt := by
  constructor
  · intro h
    rw [int] at h
    split at h
    · next n hread =>
        split at h
        · next hrange =>
            obtain rfl := Except.ok.inj h
            rw [hread, toInt_ofInt hrange]
        · cases h
    · cases h
  · intro h
    rw [int_of_inRange h (inRange_toInt k), Int64.ofInt_toInt]

/-- An integer that is refused is reported with its text. -/
theorem int_eq_error {s : Text} (h : ∀ k, int s ≠ .ok k) : int s = .error (.number s) := by
  rw [int] at h ⊢
  split
  · split
    · simp_all
    · rfl
  · rfl

/-- What is read as an integer: digits after a sign or without one and nothing else, if they
denote a number of 64 bits, and it is this number that is read.  Any other text is refused,
however many digits it has.  So the text of every integer is read as the integer. -/
theorem int_accepts_integers (s : Text) :
    (∀ n : ℤ, (∃ k : Int64, int s = .ok k ∧ k.toInt = n) ↔
      (∃ x : WrittenInteger, x.text = s ∧ x.value = n) ∧ -2 ^ 63 ≤ n ∧ n ≤ 2 ^ 63 - 1) ∧
    ((¬ ∃ x : WrittenInteger, x.text = s ∧ -2 ^ 63 ≤ x.value ∧ x.value ≤ 2 ^ 63 - 1) →
      int s = .error (.number s)) ∧
    ∀ k : Int64, int (Value.int k).text = .ok k := by
  refine ⟨fun n => ⟨?_, ?_⟩, fun hno => ?_, int_ofInt⟩
  · rintro ⟨k, hk, rfl⟩
    exact ⟨Numeral.readInt?_eq_some_iff.1 (int_eq_ok_iff.1 hk),
      inRange_iff.1 (inRange_toInt k)⟩
  · rintro ⟨hx, hrange⟩
    have hrange := inRange_iff.2 hrange
    exact ⟨_, int_of_inRange (Numeral.readInt?_eq_some_iff.2 hx) hrange, toInt_ofInt hrange⟩
  · refine int_eq_error fun k hk => hno ?_
    obtain ⟨x, hx, hvalue⟩ := Numeral.readInt?_eq_some_iff.1 (int_eq_ok_iff.1 hk)
    have hrange := inRange_iff.1 (inRange_toInt k)
    rw [← hvalue] at hrange
    exact ⟨x, hx, hrange⟩

/-- The greatest integer behind a sign and zeros, and the number below the least integer. -/
theorem int_accepts_integers_limits :
    let greatest : WrittenInteger :=
      ⟨"+", "0009223372036854775807", .inr ⟨byte '+', rfl, rfl⟩, List.cons_ne_nil _ _,
        List.all_eq_true.1 rfl⟩
    let t : Text := "-9223372036854775809"
    ((∃ x : WrittenInteger, x.text = greatest.text ∧ x.value = 2 ^ 63 - 1) ∧
      ¬ ∃ x : WrittenInteger, x.text = t ∧ -2 ^ 63 ≤ x.value ∧ x.value ≤ 2 ^ 63 - 1) ∧
    (∃ k : Int64, int greatest.text = .ok k ∧ k.toInt = 2 ^ 63 - 1) ∧
    int t = .error (.number t) := by
  intro greatest t
  have hgreatest : ∃ x : WrittenInteger, x.text = greatest.text ∧ x.value = 2 ^ 63 - 1 :=
    ⟨greatest, rfl, by decide⟩
  have hbeyond : ¬ ∃ x : WrittenInteger, x.text = t ∧
      -2 ^ 63 ≤ x.value ∧ x.value ≤ 2 ^ 63 - 1 := by
    rintro ⟨x, hx, hlow, -⟩
    have hread : Numeral.readInt? t = some (-9223372036854775809) := by decide
    rw [← hx, x.readInt?_text] at hread
    rw [Option.some.inj hread] at hlow
    exact absurd hlow (by decide)
  refine ⟨⟨hgreatest, hbeyond⟩, ?_, (int_accepts_integers t).2.1 hbeyond⟩
  exact ((int_accepts_integers greatest.text).1 _).2 ⟨hgreatest, by decide, by decide⟩

end Literal

end LineScript
