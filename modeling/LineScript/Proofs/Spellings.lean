/-
LineScript/Proofs/Spellings.lean

What the texts of numbers denote.  A text that is a number denotes a rational
number (`Denotes`), and reading it gives the double nearest to that, however it
is written (`Denotes.read?`).  Both notations of doubles denote the digits times
a power of ten that puts the point at its place (`denotes_positional`,
`denotes_scientific`), so the text of a magnitude denotes the decimal number that
was chosen for it (`denotes_spellMagnitude`).

Of the digits of an exponent the first five count, zeros in front of them left
aside (`exponentOf_eq_firstFive`), so it is read in full below a hundred thousand.
That is enough for the texts of doubles, as no double other than zero is beyond
`10 ^ 1024` or below `10 ^ -1075`.
-/
import LineScript.Proofs.Lexemes
import LineScript.Proofs.Rounding

namespace LineScript

open Text Expression

/-! ### Digits -/

namespace Text

/-- Digits are read on from any number. -/
theorem foldl_digits (t : Text) (n : Nat) :
    t.foldl (fun n b => 10 * n + (b.toNat - 48)) n = n * 10 ^ t.length + toNat t := by
  induction t generalizing n with
  | nil => simp [toNat]
  | cons b t ih =>
      rw [toNat, List.foldl_cons, List.foldl_cons, ih, ih (10 * 0 + (b.toNat - 48)),
        List.length_cons, pow_succ]
      ring

/-- Digits behind others move them up by as many places. -/
theorem toNat_append (s t : Text) : toNat (s ++ t) = toNat s * 10 ^ t.length + toNat t := by
  rw [toNat, List.foldl_append, foldl_digits]
  rfl

theorem toNat_replicate_zero (k : Nat) : toNat (List.replicate k (byte '0')) = 0 := by
  induction k with
  | zero => rfl
  | succ k ih =>
      rw [List.replicate_succ', toNat_append, ih]
      rfl

/-- Zeros in front do not count, and each zero behind is a factor of ten. -/
theorem toNat_padded (i k : Nat) (digits : Text) :
    toNat (List.replicate i (byte '0') ++ digits ++ List.replicate k (byte '0')) =
      toNat digits * 10 ^ k := by
  rw [toNat_append, toNat_append, toNat_replicate_zero, toNat_replicate_zero,
    List.length_replicate]
  ring

/-- The bytes of digits follow one another. -/
theorem toNat_of_isDigit {b : UInt8} (hb : isDigit b = true) : 48 ≤ b.toNat ∧ b.toNat ≤ 57 := by
  simp only [isDigit, UInt8.le_iff_toNat_le, Bool.and_eq_true, decide_eq_true_eq] at hb
  exact hb

theorem toNat_cons (b : UInt8) (t : Text) :
    toNat (b :: t) = (b.toNat - 48) * 10 ^ t.length + toNat t := by
  have hone : toNat [b] = b.toNat - 48 := by simp [toNat]
  rw [← hone]
  exact toNat_append [b] t

/-- A number has as many digits as are written from the first one that is not zero. -/
theorem pow_le_toNat_cons {b : UInt8} (hb : isDigit b = true) (hzero : (b == byte '0') = false)
    (t : Text) : 10 ^ t.length ≤ toNat (b :: t) := by
  have hne : b.toNat ≠ 48 := fun he => beq_eq_false_iff_ne.1 hzero (UInt8.toNat_inj.1 he)
  have hone : 1 ≤ b.toNat - 48 := by
    have := toNat_of_isDigit hb
    omega
  rw [toNat_cons]
  exact (Nat.le_mul_of_pos_left _ hone).trans (Nat.le_add_right _ _)

/-- A text of digits without the zeros that it begins with. -/
def unpadded (digits : Text) : Text := digits.dropWhile (· == byte '0')

/-- Only zeros are taken off in front. -/
theorem exists_zeros (digits : Text) :
    ∃ k, digits = List.replicate k (byte '0') ++ unpadded digits := by
  refine ⟨(digits.takeWhile (· == byte '0')).length, ?_⟩
  have hzeros := List.eq_replicate_of_mem (l := digits.takeWhile (· == byte '0')) (a := byte '0')
    fun b hb => eq_of_beq (List.mem_takeWhile_imp (p := (· == byte '0')) hb)
  rw [← hzeros]
  exact List.takeWhile_append_dropWhile.symm

theorem toNat_unpadded (digits : Text) : toNat (unpadded digits) = toNat digits := by
  obtain ⟨k, hk⟩ := exists_zeros digits
  conv_rhs => rw [hk, toNat_append, toNat_replicate_zero, Nat.zero_mul, Nat.zero_add]

theorem isDigit_of_mem_unpadded {digits : Text} (h : ∀ b ∈ digits, isDigit b = true) :
    ∀ b ∈ unpadded digits, isDigit b = true :=
  fun b hb => h b ((List.dropWhile_suffix _).subset hb)

/-- Without zeros in front, a number is as great as its number of digits says. -/
theorem pow_le_toNat_unpadded {digits s t : Text} (h : ∀ b ∈ digits, isDigit b = true)
    (ht : unpadded digits = s ++ t) (hs : s ≠ []) : 10 ^ (s.length - 1) ≤ toNat s := by
  obtain ⟨b, s, rfl⟩ := List.exists_cons_of_ne_nil hs
  have hb : isDigit b = true := isDigit_of_mem_unpadded h b (by simp [ht])
  have hzero := List.head?_dropWhile_not (· == byte '0') digits
  rw [← unpadded, ht] at hzero
  exact pow_le_toNat_cons hb hzero s

theorem byte_of_isDigit {c : Char} (hc : c.isDigit = true) :
    isDigit (byte c) = true ∧ (byte c).toNat = c.toNat := by
  have hc' : 48 ≤ c.toNat ∧ c.toNat ≤ 57 := by
    simpa [Char.isDigit, UInt32.le_iff_toNat_le] using hc
  have hb : (byte c).toNat = c.toNat :=
    (UInt32.toNat_toUInt8 c.val).trans (Nat.mod_eq_of_lt (by change c.toNat < 256; omega))
  refine ⟨?_, hb⟩
  simp only [isDigit, UInt8.le_iff_toNat_le, Bool.and_eq_true, decide_eq_true_eq, hb]
  exact hc'

theorem isDigit_of_mem_toDigits {n : Nat} {c : Char} (hc : c ∈ Nat.toDigits 10 n) :
    c.isDigit = true :=
  Nat.isDigit_of_mem_toDigits (by decide) (by decide) hc

/-- Numbers are written with digits. -/
theorem isDigit_of_mem_ofNat {n : Nat} {b : UInt8} (hb : b ∈ ofNat n) : isDigit b = true := by
  obtain ⟨c, hc, rfl⟩ := List.mem_map.1 hb
  exact (byte_of_isDigit (isDigit_of_mem_toDigits hc)).1

theorem ofNat_ne_nil (n : Nat) : ofNat n ≠ [] := by
  simp [ofNat]

/-- A number is read back from its digits. -/
theorem toNat_ofNat (n : Nat) : toNat (ofNat n) = n := by
  have hfold : toNat (ofNat n) = Nat.ofDigitChars 10 (Nat.toDigits 10 n) 0 := by
    rw [toNat, ofNat, List.foldl_map, Nat.ofDigitChars_eq_foldl]
    refine List.foldl_ext _ _ _ fun k c hc => ?_
    rw [(byte_of_isDigit (isDigit_of_mem_toDigits hc)).2]
    rfl
  rw [hfold, Nat.ofDigitChars_ten_toDigits]

/-- The number of digits, as a bound. -/
theorem length_ofNat_le_iff {n k : Nat} (hk : 0 < k) : (ofNat n).length ≤ k ↔ n < 10 ^ k := by
  rw [ofNat, List.length_map, Nat.length_toDigits_le_iff (by decide) hk]

theorem lt_pow_length_ofNat (n : Nat) : n < 10 ^ (ofNat n).length :=
  (length_ofNat_le_iff (List.length_pos_iff.2 (ofNat_ne_nil n))).1 le_rfl

theorem pow_length_ofNat_le {n : Nat} (hn : 0 < n) : 10 ^ ((ofNat n).length - 1) ≤ n := by
  by_contra hlt
  have hone : 0 < (ofNat n).length - 1 := by
    by_contra h
    rw [Nat.eq_zero_of_not_pos h, pow_zero] at hlt
    exact hlt hn
  have hle := (length_ofNat_le_iff hone).2 (not_le.1 hlt)
  omega

theorem exists_dropTrailing (p : UInt8 → Bool) (t : Text) :
    ∃ s, t = dropTrailing p t ++ s ∧ ∀ b ∈ s, p b = true := by
  refine ⟨(t.reverse.takeWhile p).reverse, ?_, ?_⟩
  · rw [dropTrailing, ← List.reverse_append, List.takeWhile_append_dropWhile,
      List.reverse_reverse]
  · intro b hb
    exact List.all_eq_true.1 List.all_takeWhile b (List.mem_reverse.1 hb)

end Text

/-! ### Exponents -/

namespace Numeral

/-- The number denoted by the first five of some digits, without zeros in front of them. -/
def firstFive (digits : Text) : Nat := toNat ((unpadded digits).take 5)

/-- Up to five digits nothing is cut off. -/
theorem firstFive_eq {digits : Text} (h : ∀ b ∈ digits, isDigit b = true)
    (hlt : toNat digits < 100000) : firstFive digits = toNat digits := by
  rw [firstFive, ← toNat_unpadded digits, List.take_of_length_le]
  by_contra hlong
  have hle := pow_le_toNat_unpadded h (List.append_nil _).symm
    (List.ne_nil_of_length_pos (by omega))
  have hpow : 10 ^ 5 ≤ 10 ^ ((unpadded digits).length - 1) :=
    Nat.pow_le_pow_right (by decide) (by omega)
  rw [toNat_unpadded] at hle
  omega

/-- How an exponent grows by one more digit. -/
def grown (e : Nat) (b : UInt8) : Nat := if e < 10000 then 10 * e + (b.toNat - 48) else e

theorem exponentOf_eq_foldl (digits : Text) : exponentOf digits = digits.foldl grown 0 := rfl

/-- An exponent that is great enough does not grow any more. -/
theorem foldl_grown_full {e : Nat} (he : 10000 ≤ e) (t : Text) : t.foldl grown e = e := by
  induction t with
  | nil => rfl
  | cons b t ih => rw [List.foldl_cons, grown, if_neg he.not_gt, ih]

/-- Up to five digits are all counted: there are at most four of them before each. -/
theorem foldl_grown_short {t : Text} {e k : Nat} (ht : ∀ b ∈ t, isDigit b = true)
    (he : e < 10 ^ k) (hk : k + t.length ≤ 5) :
    t.foldl grown e = t.foldl (fun n b => 10 * n + (b.toNat - 48)) e := by
  induction t generalizing e k with
  | nil => rfl
  | cons b t ih =>
      obtain ⟨hb, ht⟩ := List.forall_mem_cons.1 ht
      rw [List.length_cons] at hk
      have hpow : 10 ^ k ≤ 10 ^ 4 := Nat.pow_le_pow_right (by decide) (by omega)
      have hlt : e < 10000 := he.trans_le hpow
      have hgrown : 10 * e + (b.toNat - 48) < 10 ^ (k + 1) := by
        have := toNat_of_isDigit hb
        rw [pow_succ]
        omega
      rw [List.foldl_cons, List.foldl_cons, grown, if_pos hlt]
      exact ih ht hgrown (by omega)

theorem foldl_grown_zeros (k : Nat) : (List.replicate k (byte '0')).foldl grown 0 = 0 := by
  induction k with
  | zero => rfl
  | succ k ih => exact ih

/-- Zeros in front of an exponent do not count. -/
theorem exponentOf_unpadded (digits : Text) :
    exponentOf (unpadded digits) = exponentOf digits := by
  obtain ⟨k, hk⟩ := exists_zeros digits
  conv_rhs => rw [hk, exponentOf_eq_foldl, List.foldl_append, foldl_grown_zeros]
  rfl

/-- What the digits of an exponent count for. -/
theorem exponentOf_eq_firstFive {digits : Text} (h : ∀ b ∈ digits, isDigit b = true) :
    exponentOf digits = firstFive digits := by
  have hsplit : unpadded digits = (unpadded digits).take 5 ++ (unpadded digits).drop 5 :=
    (List.take_append_drop 5 _).symm
  have hdigits : ∀ b ∈ (unpadded digits).take 5, isDigit b = true :=
    fun b hb => isDigit_of_mem_unpadded h b (List.mem_of_mem_take hb)
  have hfirst : ((unpadded digits).take 5).foldl grown 0 = firstFive digits :=
    foldl_grown_short (k := 0) hdigits (by decide)
      (by rw [List.length_take]; omega)
  rw [← exponentOf_unpadded, hsplit, exponentOf_eq_foldl, List.foldl_append, hfirst]
  by_cases hlong : (unpadded digits).length ≤ 5
  · rw [List.drop_of_length_le hlong]
    rfl
  · -- five digits, the first of which is not zero, reach the limit
    have hlength : ((unpadded digits).take 5).length = 5 := by
      rw [List.length_take]
      omega
    have hle := pow_le_toNat_unpadded h hsplit (List.ne_nil_of_length_pos (by omega))
    rw [hlength] at hle
    exact foldl_grown_full hle _

/-- Exponents of up to five digits are read as they are. -/
theorem exponentOf_eq {digits : Text} (h : ∀ b ∈ digits, isDigit b = true)
    (hlt : toNat digits < 100000) : exponentOf digits = toNat digits :=
  (exponentOf_eq_firstFive h).trans (firstFive_eq h hlt)

/-- An integer is written as its absolute value with its sign in front. -/
theorem ofInt_eq_signed (k : ℤ) : Text.ofInt k = signed (k < 0) (Text.ofNat k.natAbs) := by
  cases k with
  | ofNat n => simp [Text.ofInt, signed]
  | negSucc n => simp [Text.ofInt, signed]

/-- An integer behind the mark is an exponent. -/
theorem isExponent_ofInt (k : ℤ) : IsExponent (byte 'E' :: Text.ofInt k) := by
  refine .inr ⟨byte 'E', if k < 0 then [byte '-'] else [], Text.ofNat k.natAbs, ?_, by decide,
    ?_, ofNat_ne_nil _, fun b hb => isDigit_of_mem_ofNat hb⟩
  · rw [ofInt_eq_signed, signed]
    split <;> simp_all
  · split
    · exact .inr ⟨_, rfl, by decide⟩
    · exact .inl rfl

theorem sign_ofInt (k : ℤ) : sign (Text.ofInt k) = (decide (k < 0), Text.ofNat k.natAbs) := by
  obtain ⟨b, t, ht⟩ := List.exists_cons_of_ne_nil (ofNat_ne_nil k.natAbs)
  have hb : isDigit b = true := isDigit_of_mem_ofNat (by rw [ht]; simp)
  rw [ofInt_eq_signed, ht]
  exact sign_signed (.inl hb) _

/-- An exponent is read back from its digits. -/
theorem readExponent?_ofInt {k : ℤ} (hk : k.natAbs < 100000) :
    readExponent? (byte 'E' :: Text.ofInt k) = some k := by
  have hdigits : isDigits (Text.ofNat k.natAbs) = true := by
    simpa [isDigits, ofNat_ne_nil] using fun b => isDigit_of_mem_ofNat
  have hexp : exponentOf (Text.ofNat k.natAbs) = k.natAbs := by
    rw [exponentOf_eq (fun b => isDigit_of_mem_ofNat) (by rwa [toNat_ofNat]), toNat_ofNat]
  simp only [readExponent?, sign_ofInt, hdigits, hexp, or_true, if_true, decide_eq_true_eq]
  congr 1
  split <;> omega

end Numeral

/-! ### What a number denotes -/

/-- A text that is a number without a sign, and the number that it denotes. -/
def Denotes (t : Text) (q : ℚ) : Prop :=
  ∃ w f x e, t = w ++ f ++ x ∧ NumberParts w f x ∧ Numeral.readExponent? x = some e ∧
    (Text.toNat (w ++ f.drop 1) : ℚ) * 10 ^ (e - (f.drop 1).length : ℤ) = q

/-- A number is read as the double nearest to what it denotes. -/
theorem Denotes.read? {t : Text} {c : Nat} {e : ℤ} (h : Denotes t (c * 10 ^ e))
    (negative : Bool) : Double.read? (signed negative t) =
      some (Double.ofMagnitude negative (Double.decimalMagnitude c e)) := by
  obtain ⟨w, f, x, e', rfl, hparts, he, hq⟩ := h
  rw [hparts.readDouble?_signed, he, ← Double.decimalMagnitude_congr hq]
  rfl

theorem denotes_ofNat (n : Nat) : Denotes (Text.ofNat n) n := by
  refine ⟨Text.ofNat n, [], [], 0, by simp, ?_, rfl, by simp [toNat_ofNat]⟩
  exact ⟨fun b => isDigit_of_mem_ofNat, .inl rfl, .inl rfl, by simp [ofNat_ne_nil]⟩

namespace Double

/-! ### Notations -/

section Notations

variable {digits : Text} (hdigits : ∀ b ∈ digits, isDigit b = true) (hne : digits ≠ [])
include hdigits hne

/-- Digits with a point among them, or with zeros around them to reach the
point, denote the same multiple of a power of ten. -/
theorem denotes_pointed {w d x : Text} {e : ℤ} {i k : Nat} (hx : IsExponent x)
    (he : Numeral.readExponent? x = some e)
    (hwd : w ++ d = List.replicate i (byte '0') ++ digits ++ List.replicate k (byte '0')) :
    Denotes (w ++ byte '.' :: d ++ x) (Text.toNat digits * 10 ^ (e + k - d.length : ℤ)) := by
  have hall : ∀ b ∈ w ++ d, isDigit b = true := by
    rw [hwd]
    intro b hb
    simp only [List.mem_append, List.mem_replicate] at hb
    rcases hb with (⟨-, rfl⟩ | hb) | ⟨-, rfl⟩
    · decide
    · exact hdigits b hb
    · decide
  refine ⟨w, byte '.' :: d, x, e, rfl, ⟨?_, .inr ⟨d, rfl, ?_⟩, hx, ?_⟩, he, ?_⟩
  · exact fun b hb => hall b (List.mem_append_left _ hb)
  · exact fun b hb => hall b (List.mem_append_right _ hb)
  · rw [List.drop_one, List.tail_cons, hwd]
    simp [hne]
  · rw [List.drop_one, List.tail_cons, hwd, toNat_padded, Nat.cast_mul, Nat.cast_pow, mul_assoc,
      ← zpow_natCast, Nat.cast_ofNat, ← zpow_add₀ (by norm_num)]
    congr 2
    ring

omit hdigits hne in
/-- Behind the point there is the rest of the digits, or a zero. -/
theorem take_append_decimals (digits : Text) (n : Nat) :
    ∃ k : Nat, digits.take n ++ List.replicate (n - digits.length) (byte '0') ++
        decimals (digits.drop n) = digits ++ List.replicate k (byte '0') ∧
      (k : ℤ) - (decimals (digits.drop n)).length = n - digits.length := by
  by_cases hn : n < digits.length
  · have hd : decimals (digits.drop n) = digits.drop n := by
      simp [decimals, hn]
    refine ⟨0, ?_, ?_⟩
    · rw [hd, Nat.sub_eq_zero_of_le hn.le]
      simp
    · rw [hd, List.length_drop]
      omega
  · have hn' : digits.length ≤ n := not_lt.1 hn
    have hd : decimals (digits.drop n) = [byte '0'] := by
      simp [decimals, hn']
      rfl
    refine ⟨n - digits.length + 1, ?_, ?_⟩
    · rw [hd, List.take_of_length_le hn', List.append_assoc, ← List.replicate_succ']
    · rw [hd, List.length_singleton]
      omega

/-- Positional notation denotes the digits with the point where it belongs. -/
theorem denotes_positional (point : ℤ) :
    Denotes (positional digits point) (Text.toNat digits * 10 ^ (point - digits.length)) := by
  unfold positional
  split
  · next hpoint =>
      have h := denotes_pointed hdigits hne (w := [byte '0']) (x := []) (e := 0) (k := 0)
        (d := List.replicate (-point).toNat (byte '0') ++ digits) (i := (-point).toNat + 1)
        (.inl rfl) rfl (by simp [List.replicate_succ])
      have he : 0 + ((0 : Nat) : ℤ) -
          ((List.replicate (-point).toNat (byte '0') ++ digits).length : ℤ) =
            point - digits.length := by
        rw [List.length_append, List.length_replicate]
        omega
      rw [he, List.append_nil] at h
      rw [List.append_assoc]
      exact h
  · next hpoint =>
      obtain ⟨k, hwd, hk⟩ := take_append_decimals digits point.toNat
      have h := denotes_pointed hdigits hne (i := 0) (e := 0) (.inl rfl) rfl hwd
      have he : 0 + (k : ℤ) - (decimals (digits.drop point.toNat)).length =
          point - digits.length := by omega
      rw [he, List.append_nil] at h
      rw [List.append_assoc _ (ofString ".")]
      exact h

/-- Scientific notation denotes the same. -/
theorem denotes_scientific {point : ℤ} (hpoint : (point - 1).natAbs < 100000) :
    Denotes (scientific digits point) (Text.toNat digits * 10 ^ (point - digits.length)) := by
  obtain ⟨k, hwd, hk⟩ := take_append_decimals digits 1
  have hone : 1 - digits.length = 0 := Nat.sub_eq_zero_of_le (List.length_pos_iff.2 hne)
  rw [hone, List.replicate_zero, List.append_nil] at hwd
  have h := denotes_pointed hdigits hne (i := 0) (Numeral.isExponent_ofInt (point - 1))
    (Numeral.readExponent?_ofInt hpoint) hwd
  have he : point - 1 + (k : ℤ) - (decimals (digits.drop 1)).length =
      point - digits.length := by
    push_cast at hk
    omega
  rw [he] at h
  rw [scientific, List.append_assoc _ (ofString "."), List.append_assoc _ (ofString "E")]
  exact h

end Notations

/-! ### The texts of magnitudes -/

/-- The digits of `c * 10 ^ e` without zeros at their end, and the position of the
point relative to their beginning. -/
def digitsOf (c : Nat) (e : ℤ) : Text × ℤ :=
  (dropTrailing (· == byte '0') (Text.ofNat c), (Text.ofNat c).length + e)

/-- Of a coefficient, only zeros at the end are left out. -/
theorem exists_ofNat_eq (c : Nat) (e : ℤ) :
    ∃ k, Text.ofNat c = (digitsOf c e).1 ++ List.replicate k (byte '0') := by
  obtain ⟨zeros, hsplit, hzeros⟩ := exists_dropTrailing (· == byte '0') (Text.ofNat c)
  have hrep : zeros = List.replicate zeros.length (byte '0') :=
    List.eq_replicate_iff.2 ⟨rfl, fun b hb => eq_of_beq (hzeros b hb)⟩
  refine ⟨zeros.length, ?_⟩
  rw [← hrep]
  exact hsplit

/-- With the point at its place, the digits are the decimal number again. -/
theorem toNat_digitsOf (c : Nat) (e : ℤ) :
    (Text.toNat (digitsOf c e).1 : ℚ) * 10 ^ ((digitsOf c e).2 - (digitsOf c e).1.length) =
      c * 10 ^ e := by
  obtain ⟨k, hsplit⟩ := exists_ofNat_eq c e
  have hvalue : c = Text.toNat (digitsOf c e).1 * 10 ^ k := by
    conv_lhs => rw [← toNat_ofNat c, hsplit]
    exact toNat_padded 0 k _
  have he : (digitsOf c e).2 - (digitsOf c e).1.length = k + e := by
    have hlength := congrArg List.length hsplit
    rw [List.length_append, List.length_replicate] at hlength
    simp only [digitsOf] at hlength ⊢
    omega
  rw [he, zpow_add₀ (by norm_num), zpow_natCast, ← mul_assoc]
  exact_mod_cast congrArg (fun n : Nat => (n : ℚ) * 10 ^ e) hvalue.symm

/-- What is written are digits. -/
theorem isDigit_of_mem_digitsOf {c : Nat} {e : ℤ} (b) (hb : b ∈ (digitsOf c e).1) :
    isDigit b = true := by
  obtain ⟨k, hsplit⟩ := exists_ofNat_eq c e
  exact isDigit_of_mem_ofNat (hsplit ▸ List.mem_append_left _ hb)

theorem digitsOf_ne_nil {c : Nat} (hc : 0 < c) (e : ℤ) : (digitsOf c e).1 ≠ [] := by
  intro hnil
  obtain ⟨k, hsplit⟩ := exists_ofNat_eq c e
  rw [hnil, List.nil_append] at hsplit
  have hzero := congrArg Text.toNat hsplit
  rw [toNat_ofNat, toNat_replicate_zero] at hzero
  omega

/-! A decimal number lies between two neighbouring powers of ten. -/

/-- The position of the point bounds a decimal from below. -/
theorem zpow_point_le {c : Nat} (hc : 0 < c) (e : ℤ) :
    (10 : ℚ) ^ ((digitsOf c e).2 - 1) ≤ c * 10 ^ e := by
  have hlength : (digitsOf c e).2 - 1 = (((Text.ofNat c).length - 1 : Nat) : ℤ) + e := by
    have hpos := List.length_pos_iff.2 (ofNat_ne_nil c)
    simp only [digitsOf]
    omega
  rw [hlength, zpow_add₀ (by norm_num), zpow_natCast]
  gcongr
  exact_mod_cast pow_length_ofNat_le hc

/-- And from above. -/
theorem lt_zpow_point (c : Nat) (e : ℤ) : (c : ℚ) * 10 ^ e < 10 ^ (digitsOf c e).2 := by
  rw [digitsOf, zpow_add₀ (by norm_num), zpow_natCast]
  gcongr
  exact_mod_cast lt_pow_length_ofNat c

section

variable {c : Nat} {e : ℤ} (hpos : 0 < decimalMagnitude c e)
include hpos

theorem coefficient_pos : 0 < c := by
  by_contra hc
  rw [Nat.eq_zero_of_not_pos hc] at hpos
  simp [decimalMagnitude, scaled, magnitude] at hpos

theorem scaled_fst_pos : 0 < (scaled c 10 e).1 :=
  Nat.mul_pos (coefficient_pos hpos) (Nat.pow_pos (by decide))

/-- The exponent in the text of a double is far below the limit for exponents. -/
theorem natAbs_point_lt (hfin : decimalMagnitude c e < infinite) :
    ((digitsOf c e).2 - 1).natAbs < 100000 := by
  have hlow := zpow_point_le (coefficient_pos hpos) e
  have hhigh := lt_zpow_point c e
  -- the number lies between the least and the greatest double
  have hleast : (10 : ℚ) ^ (-1075 : ℤ) ≤ c * 10 ^ e := by
    have h := not_le.1 (mt (decimalMagnitude_eq_zero_iff c e).2 hpos.ne')
    refine le_trans ?_ h.le
    rw [zpow_neg, zpow_neg]
    exact inv_anti₀ (by positivity) (zpow_le_zpow_left₀ (by decide) (by norm_num) (by norm_num))
  have hgreatest : (c : ℚ) * 10 ^ e < 10 ^ (1024 : ℤ) := by
    have h := not_le.1 (mt (decimalMagnitude_eq_infinite_iff c e).2 hfin.ne)
    refine h.trans_le ((sub_le_self _ (by positivity)).trans ?_)
    exact zpow_le_zpow_left₀ (by decide) (by norm_num) (by norm_num)
  have h₁ := (zpow_lt_zpow_iff_right₀ (by norm_num)).1 (hlow.trans_lt hgreatest)
  have h₂ := (zpow_lt_zpow_iff_right₀ (by norm_num)).1 (hleast.trans_lt hhigh)
  omega

end

/-- `spellDigits` is opened as a function: the match in it would otherwise have the
search for the shortest number evaluated. -/
theorem spellDigits_eq : spellDigits = fun m => digitsOf (shortest m).1 (shortest m).2 := by
  delta spellDigits
  funext m
  cases shortest m
  rfl

/-- The text of a magnitude denotes a decimal number that reads as the magnitude. -/
theorem denotes_spellMagnitude {m : Nat} (hm : 0 < m) (hfin : m < infinite) :
    ∃ c e, decimalMagnitude c e = m ∧ Denotes (spellMagnitude m) (c * 10 ^ e) := by
  have hread := decimalMagnitude_shortest hm hfin
  have hspell : spellDigits m = digitsOf (shortest m).1 (shortest m).2 := by
    rw [spellDigits_eq]
  generalize (shortest m).1 = c at hread hspell
  generalize (shortest m).2 = e at hread hspell
  refine ⟨c, e, hread, ?_⟩
  rw [← toNat_digitsOf c e, spellMagnitude, if_neg hfin.ne, if_neg hm.ne', hspell]
  rw [← hread] at hm hfin
  have hne := digitsOf_ne_nil (coefficient_pos hm) e
  dsimp only
  split
  · exact denotes_positional isDigit_of_mem_digitsOf hne _
  · exact denotes_scientific isDigit_of_mem_digitsOf hne (natAbs_point_lt hm hfin)

end Double

end LineScript
