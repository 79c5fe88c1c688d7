/-
LineScript/Proofs/Numerals.lean

Which texts are read as doubles, and as which.

* Numerals are the texts of one pattern (`Numeral.grammar`), and a numeral has a
  sign, digits around a point and an exponent (`WrittenNumeral`).  `Numeral.read?`
  reads exactly these (`isSome_read?_iff`).
* A numeral is read as the double nearest to what it denotes if the first five
  digits of its exponent count (`readTrimmed?_text`).  With more digits that may not
  be the number that it denotes (`double_far_point`).
* A reader that knows other notations as well accepts the same texts once those are
  sorted out by the letters that they have (`screened_eq`).
-/
import LineScript.Proofs.Doubles

namespace LineScript

open Text Expression

/-! ### Numerals and their parts -/

/-- The texts of numerals: `[+-]?([0-9]+(\.[0-9]*)?|\.[0-9]+)([eE][+-]?[0-9]+)?`. -/
def Numeral.grammar : Pattern := .seq (.opt (.one Double.isSign)) (.alt number pointNumber)

/-- A numeral in its parts. -/
structure WrittenNumeral where
  sign : Text
  whole : Text
  fraction : Text
  exponent : Text
  isSign : sign = [] ∨ ∃ b, sign = [b] ∧ Double.isSign b = true
  parts : NumberParts whole fraction exponent

namespace WrittenNumeral

variable (x : WrittenNumeral)

def text : Text := x.sign ++ (x.whole ++ x.fraction ++ x.exponent)

def negative : Bool := x.sign = [byte '-']

/-- The number denoted by the digits around the point. -/
def coefficient : Nat := Text.toNat (x.whole ++ x.fraction.drop 1)

/-- The digits of the exponent, if there is one. -/
def exponentDigits : Text := (Numeral.sign (x.exponent.drop 1)).2

/-- The power of ten that the coefficient is taken with, if the digits of the exponent count
for `value`. -/
def scale (value : Text → Nat) : ℤ :=
  (if (Numeral.sign (x.exponent.drop 1)).1 then -(value x.exponentDigits : ℤ)
    else value x.exponentDigits) - (x.fraction.drop 1).length

/-- The number that is denoted, its sign left aside. -/
def magnitude : ℚ := x.coefficient * 10 ^ x.scale Text.toNat

/-- The number that is denoted if five digits of the exponent count. -/
def counted : ℚ := x.coefficient * 10 ^ x.scale Numeral.firstFive

end WrittenNumeral

/-- The numerals that the grammar describes are those that are written from their parts. -/
theorem Numeral.matches_grammar_iff {t : Text} :
    grammar.Matches t ↔ ∃ x : WrittenNumeral, x.text = t := by
  constructor
  · intro h
    obtain ⟨s, u, rfl, hs, hu⟩ := Pattern.matches_seq_iff.1 h
    have hsign : s = [] ∨ ∃ b, s = [b] ∧ Double.isSign b = true := by
      rcases Pattern.matches_opt_iff.1 hs with hs | hs
      · obtain ⟨b, hb, rfl⟩ := Pattern.matches_one_iff.1 hs
        exact .inr ⟨b, rfl, hb⟩
      · exact .inl hs
    rcases Pattern.matches_alt_iff.1 hu with hu | hu
    · obtain ⟨w, f, x, rfl, -, hparts⟩ := parts_of_number hu
      exact ⟨⟨s, w, f, x, hsign, hparts⟩, rfl⟩
    · obtain ⟨d, x, rfl, hparts⟩ := parts_of_pointNumber hu
      exact ⟨⟨s, [], byte '.' :: d, x, hsign, hparts⟩, rfl⟩
  · rintro ⟨x, rfl⟩
    have hsign : (Pattern.opt (.one Double.isSign)).Matches x.sign := by
      rw [Pattern.matches_opt_iff, Pattern.matches_one_iff]
      rcases x.isSign with hs | ⟨b, hs, hb⟩
      · exact .inr hs
      · exact .inl ⟨b, hb, hs⟩
    refine Pattern.Matches.seq hsign (Pattern.matches_alt_iff.2 ?_)
    -- Without digits in front of the point there have to be some behind it.
    by_cases hw : x.whole = []
    · have hparts := x.parts
      rw [hw] at hparts ⊢
      exact .inr (pointNumber_matches hparts)
    · exact .inl (number_matches x.parts hw)

/-! ### Reading a numeral -/

namespace WrittenNumeral

variable (x : WrittenNumeral)

theorem sign_text :
    Numeral.sign x.text = (x.negative, x.whole ++ x.fraction ++ x.exponent) := by
  obtain ⟨b, r, hr, hfirst⟩ := x.parts.digits_first
  rw [text, hr, List.cons_append]
  exact sign_append x.isSign hfirst

/-- What follows the mark and the sign of an exponent are digits. -/
theorem isDigit_of_mem_exponentDigits : ∀ b ∈ x.exponentDigits, isDigit b = true := by
  rcases x.parts.isExponent with he | ⟨e, s, d, he, -, hs, hne, hd⟩
  · rw [exponentDigits, he]
    exact List.forall_mem_nil _
  · obtain ⟨c, u, rfl⟩ := List.exists_cons_of_ne_nil hne
    rw [exponentDigits, he, List.drop_one, List.tail_cons,
      sign_append hs (.inl (hd c (by simp)))]
    exact hd

theorem scale_exponentOf : x.scale Numeral.exponentOf = x.scale Numeral.firstFive := by
  rw [scale, scale, Numeral.exponentOf_eq_firstFive x.isDigit_of_mem_exponentDigits]

/-- Below a hundred thousand an exponent counts for what it denotes. -/
theorem counted_eq_magnitude (h : Text.toNat x.exponentDigits < 100000) :
    x.counted = x.magnitude := by
  rw [counted, magnitude, scale, scale, Numeral.firstFive_eq x.isDigit_of_mem_exponentDigits h]

/-- A written numeral is read part by part. -/
theorem read?_text :
    Numeral.read? x.text = some ⟨x.negative, x.coefficient, x.scale Numeral.firstFive⟩ := by
  have hbody := x.parts.read?_signed x.parts.isExponent.startsWithMark x.negative
  rw [x.parts.isExponent.read?_eq, Option.map_some] at hbody
  rw [← scale_exponentOf]
  refine Eq.trans ?_ hbody
  -- the sign is all that the two texts may differ in
  have hsign : Numeral.sign (signed x.negative (x.whole ++ x.fraction ++ x.exponent)) =
      Numeral.sign x.text := by
    obtain ⟨b, r, hr, hfirst⟩ := x.parts.digits_first
    rw [sign_text, hr, List.cons_append]
    exact sign_signed hfirst _
  rw [Numeral.read?, Numeral.read?, hsign]

theorem isNumeralByte_of_mem_text : ∀ b ∈ x.text, isNumeralByte b = true := by
  rw [text, List.forall_mem_append]
  refine ⟨?_, x.parts.isNumeralByte_of_mem⟩
  rcases x.isSign with hs | ⟨b, hs, hb⟩
  · rw [hs]
    exact List.forall_mem_nil _
  · rw [hs]
    exact List.forall_mem_singleton.2 (isNumeralByte_iff.2 (.inr (.inr (.inr hb))))

end WrittenNumeral

namespace Numeral

/-- At most one sign is taken off. -/
theorem exists_sign (t : Text) : ∃ s, t = s ++ (sign t).2 ∧
    (s = [] ∨ ∃ b, s = [b] ∧ Double.isSign b = true) := by
  cases t with
  | nil => exact ⟨[], rfl, .inl rfl⟩
  | cons b t =>
      simp only [sign]
      split
      · next hb => exact ⟨[b], rfl, .inr ⟨b, rfl, by rw [hb]; rfl⟩⟩
      · split
        · next hb => exact ⟨[b], rfl, .inr ⟨b, rfl, by rw [hb]; rfl⟩⟩
        · exact ⟨[], rfl, .inl rfl⟩

/-- What is taken for the fraction begins with a point and goes on with digits. -/
theorem exists_fraction (t : Text) : ∃ f, t = f ++ (fraction t).2 ∧ f.drop 1 = (fraction t).1 ∧
    (f = [] ∨ ∃ d, f = byte '.' :: d ∧ ∀ b ∈ d, isDigit b = true) := by
  cases t with
  | nil => exact ⟨[], rfl, rfl, .inl rfl⟩
  | cons b t =>
      simp only [fraction]
      split
      · next hb =>
          refine ⟨byte '.' :: t.takeWhile isDigit, ?_, rfl, .inr ⟨_, rfl, ?_⟩⟩
          · rw [hb, List.cons_append, List.takeWhile_append_dropWhile]
          · exact List.all_eq_true.1 List.all_takeWhile
      · exact ⟨[], rfl, rfl, .inl rfl⟩

/-- Nothing but an exponent can be read as one. -/
theorem isExponent_of_read? {t : Text} {e : ℤ} (h : readExponent? t = some e) :
    IsExponent t := by
  cases t with
  | nil => exact .inl rfl
  | cons b t =>
      simp only [readExponent?] at h
      split at h
      · next hb =>
          split at h
          · next hdigits =>
              obtain ⟨s, ht, hs⟩ := exists_sign t
              simp only [isDigits, Bool.and_eq_true, Bool.not_eq_true', List.isEmpty_eq_false_iff,
                List.all_eq_true] at hdigits
              refine .inr ⟨b, s, (sign t).2, by rw [← ht], ?_, hs, hdigits⟩
              simpa [isExponentMark] using hb
          · cases h
      · cases h

/-- What is read as a numeral is one. -/
theorem exists_text_eq {t : Text} {y : Numeral} (h : read? t = some y) :
    ∃ x : WrittenNumeral, x.text = t := by
  obtain ⟨s, hsign, hs⟩ := exists_sign t
  obtain ⟨f, hfraction, hdrop, hf⟩ := exists_fraction ((sign t).2.dropWhile isDigit)
  simp only [read?] at h
  split at h
  · cases h
  · next hsome =>
      obtain ⟨e, he, -⟩ := Option.map_eq_some_iff.1 h
      refine ⟨⟨s, (sign t).2.takeWhile isDigit, f, _, hs, ?_, hf, isExponent_of_read? he, ?_⟩, ?_⟩
      · exact List.all_eq_true.1 List.all_takeWhile
      · rw [hdrop]
        simpa using hsome
      · rw [WrittenNumeral.text, List.append_assoc, ← hfraction,
          List.takeWhile_append_dropWhile, ← hsign]

/-- Numerals are exactly what can be read as one. -/
theorem isSome_read?_iff {t : Text} : (read? t).isSome = true ↔ grammar.Matches t := by
  rw [matches_grammar_iff]
  constructor
  · intro h
    obtain ⟨y, hy⟩ := Option.isSome_iff_exists.1 h
    exact exists_text_eq hy
  · rintro ⟨x, rfl⟩
    rw [x.read?_text]
    rfl

end Numeral

/-! ### Reading a double -/

/-- Numerals are made of few bytes. -/
theorem WrittenNumeral.not_mem_text (x : WrittenNumeral) {b : UInt8}
    (hb : isNumeralByte b = false) : b ∉ x.text := by
  intro hmem
  rw [x.isNumeralByte_of_mem_text b hmem] at hb
  cases hb

namespace Double

/-- A numeral is none of the words, and is read as the double nearest to what it denotes, five
digits of its exponent counting. -/
theorem readTrimmed?_text (x : WrittenNumeral) : readTrimmed? x.text =
    some (ofMagnitude x.negative (decimalMagnitude x.coefficient (x.scale Numeral.firstFive))) := by
  have hnan : x.text ≠ Text.ofString "NaN" := by
    intro he
    exact x.not_mem_text (b := byte 'N') rfl (he ▸ by decide)
  have hinfinity : x.text.dropWhile isSign ≠ Text.ofString "Infinity" := by
    intro he
    have hmem : byte 'I' ∈ x.text.dropWhile isSign := he ▸ by decide
    exact x.not_mem_text (b := byte 'I') rfl ((List.dropWhile_suffix _).subset hmem)
  rw [readTrimmed?, if_neg hnan, if_neg hinfinity, x.read?_text]
  rfl

/-- Apart from the infinities, a double can be read if it is a numeral or `NaN`. -/
theorem isSome_readTrimmed?_iff {t : Text} (h : t.dropWhile isSign ≠ Text.ofString "Infinity") :
    (readTrimmed? t).isSome = true ↔ t = Text.ofString "NaN" ∨ Numeral.grammar.Matches t := by
  rw [readTrimmed?, if_neg h, ← Numeral.isSome_read?_iff]
  split
  · next hnan => exact iff_of_true rfl (.inl hnan)
  · next hnan => rw [Option.isSome_map, or_iff_right hnan]

/-! ### Other notations

A reader may know notations for doubles that are not decimal.  Their texts are told from
numerals by single letters, and these are looked for before the reader is asked. -/

/-- What a reader says about a text. -/
inductive Verdict where
  | value (f : Float)
  /-- The number is too large or too close to zero, and `f` is the infinity or the zero that has
  its sign. -/
  | outOfRange (f : Float)
  | malformed

/-- The double that a verdict is taken for. -/
def Verdict.accepted? : Verdict → Option Float
  | .value f => some f
  | .outOfRange f => some f
  | .malformed => none

/-- The letters by which other notations are recognized. -/
def isForeign (b : UInt8) : Bool := (Text.ofString "xXpPiInN_").contains b

/-- Read with `reader` what is not one of the words and has none of the letters. -/
def screened (reader : Text → Verdict) (t : Text) : Option Float :=
  if t = Text.ofString "NaN" then some nan
  else if t.dropWhile isSign = Text.ofString "Infinity" then
    some (ofMagnitude (t.head? = some (byte '-')) infinite)
  else if t.any isForeign then none
  else (reader t).accepted?

/-- The notations that are not decimal: digits that are grouped, hexadecimal numbers, and
words. -/
inductive IsForeignForm : Text → Prop where
  | grouped {t : Text} : byte '_' ∈ t → IsForeignForm t
  | hexadecimal {s p t : Text} : (∀ b ∈ s, isSign b = true) →
      lowerAscii p = Text.ofString "0x" → IsForeignForm (s ++ p ++ t)
  | word {s t : Text} : (∀ b ∈ s, isSign b = true) →
      lowerAscii t ∈ [Text.ofString "inf", "infinity", "nan"] → IsForeignForm (s ++ t)

/-- A reader of numerals that may know the other notations too. -/
structure Liberal (reader : Text → Verdict) : Prop where
  numeral : ∀ t, Numeral.grammar.Matches t →
    (reader t).accepted? = (Numeral.read? t).map Numeral.toDouble
  other : ∀ t, (reader t).accepted?.isSome = true → Numeral.grammar.Matches t ∨ IsForeignForm t

theorem isForeign_of_isNumeralByte : ∀ b, isNumeralByte b = true → isForeign b = false := by
  decide +kernel

/-- A letter by which other notations are recognized is one in upper case too. -/
theorem exists_isForeign {t : Text} {c : UInt8} (hmem : c ∈ lowerAscii t)
    (hc : c ∈ Text.ofString "xin") : ∃ b ∈ t, isForeign b = true := by
  have hupper : ∀ b, (if isUpper b then b + 32 else b) ∈ Text.ofString "xin" →
      isForeign b = true := by
    decide +kernel
  obtain ⟨b, hb, rfl⟩ := List.mem_map.1 hmem
  exact ⟨b, hb, hupper b hc⟩

theorem any_isForeign_text (x : WrittenNumeral) : x.text.any isForeign = false :=
  List.any_eq_false.2 fun b hb => by
    rw [isForeign_of_isNumeralByte b (x.isNumeralByte_of_mem_text b hb)]
    exact Bool.false_ne_true

/-- Each of the other forms has a byte in it that no numeral has. -/
theorem IsForeignForm.any_isForeign {t : Text} (h : IsForeignForm t) :
    t.any isForeign = true := by
  rw [List.any_eq_true]
  cases h with
  | grouped hmem => exact ⟨byte '_', hmem, rfl⟩
  | hexadecimal _ hmark =>
      have hletter : byte 'x' ∈ Text.ofString "0x" := by decide
      rw [← hmark] at hletter
      obtain ⟨b, hb, hforeign⟩ := exists_isForeign hletter (by decide)
      exact ⟨b, List.mem_append_left _ (List.mem_append_right _ hb), hforeign⟩
  | @word s t _ hword =>
      have hletter : byte 'n' ∈ lowerAscii t := by
        simp only [List.mem_cons, List.not_mem_nil, or_false] at hword
        rcases hword with hword | hword | hword <;> rw [hword] <;> decide
      obtain ⟨b, hb, hforeign⟩ := exists_isForeign hletter (by decide)
      exact ⟨b, List.mem_append_right _ hb, hforeign⟩

/-- Looking for the letters first, every reader of numerals accepts numerals and nothing
else. -/
theorem screened_eq {reader : Text → Verdict} (h : Liberal reader) (t : Text) :
    screened reader t = readTrimmed? t := by
  rw [screened, readTrimmed?]
  by_cases hgrammar : Numeral.grammar.Matches t
  · obtain ⟨x, rfl⟩ := Numeral.matches_grammar_iff.1 hgrammar
    rw [any_isForeign_text, if_neg Bool.false_ne_true, h.numeral _ hgrammar]
  · have hnone : Numeral.read? t = none := by
      rw [← Option.not_isSome_iff_eq_none, Numeral.isSome_read?_iff]
      exact hgrammar
    have hrefused : (if t.any isForeign then none else (reader t).accepted?) = none := by
      split
      · rfl
      · next hforeign =>
          rw [← Option.not_isSome_iff_eq_none]
          intro haccepted
          rcases h.other t haccepted with hmatch | hform
          · exact hgrammar hmatch
          · exact hforeign hform.any_isForeign
    rw [hrefused, hnone, Option.map_none]

end Double

namespace Literal

/-- A literal is a double exactly if it can be read as one. -/
theorem double_eq_ok_iff {s : Text} {f : Float} : double s = .ok f ↔ Double.read? s = some f := by
  rw [double]
  split <;> simp_all

/-- The numeral `0.0…01e100000`, with a minus sign or without. -/
def farPoint (negative : Bool) (zeros : Nat) : WrittenNumeral where
  sign := signed negative []
  whole := "0"
  fraction := byte '.' :: (List.replicate zeros (byte '0') ++ Text.ofString "1")
  exponent := "e100000"
  isSign := by
    cases negative with
    | false => exact .inl rfl
    | true => exact .inr ⟨byte '-', rfl, rfl⟩
  parts := by
    have hdigits : ∀ d : Text, d.all isDigit = true → ∀ b ∈ d, isDigit b = true :=
      fun d => List.all_eq_true.1
    refine ⟨hdigits "0" rfl, .inr ⟨_, rfl, ?_⟩, .inr ⟨byte 'e', [], "100000", rfl, rfl, .inl rfl,
      List.cons_ne_nil _ _, hdigits "100000" rfl⟩, List.cons_ne_nil _ _⟩
    rw [List.forall_mem_append]
    refine ⟨fun b hb => ?_, hdigits "1" rfl⟩
    rw [List.eq_of_mem_replicate hb]
    rfl

section

variable (negative : Bool) (zeros : Nat)

/-- The zeros in front of the last digit do not count. -/
theorem coefficient_farPoint : (farPoint negative zeros).coefficient = 1 := by
  have hdigits : (farPoint negative zeros).whole ++ (farPoint negative zeros).fraction.drop 1 =
      List.replicate (zeros + 1) (byte '0') ++ Text.ofString "1" ++
        List.replicate 0 (byte '0') :=
    (List.append_nil _).symm
  rw [WrittenNumeral.coefficient, hdigits, toNat_padded]
  rfl

/-- Each digit behind the point lowers the exponent by one. -/
theorem scale_farPoint (value : Text → Nat) : (farPoint negative zeros).scale value =
    value (Text.ofString "100000") - (zeros + 1 : ℕ) := by
  have hlength : ((farPoint negative zeros).fraction.drop 1).length = zeros + 1 := by
    simp only [farPoint, List.drop_one, List.tail_cons, List.length_append,
      List.length_replicate]
    rfl
  rw [WrittenNumeral.scale, hlength]
  rfl

theorem trim_farPoint : trim (farPoint negative zeros).text = (farPoint negative zeros).text := by
  have hends := (farPoint negative zeros).parts.solidEnds_signed negative
  cases negative with
  | false => exact trim_eq_self hends
  | true => exact trim_eq_self hends

end

/-- Powers of ten exceed powers of two. -/
theorem two_zpow_le_ten_zpow {k : ℤ} (hk : 1024 ≤ k) : (2 : ℚ) ^ (1024 : ℤ) ≤ 10 ^ k :=
  (zpow_le_zpow_left₀ (by decide) (by norm_num) (by norm_num)).trans
    (zpow_le_zpow_right₀ (by norm_num) hk)

/-- A reader that knows a hexadecimal number and tells the numbers that are out of range from
others. -/
def hexadecimalReader (t : Text) : Double.Verdict :=
  if t = Text.ofString "0x1p4" then .value (Double.ofInt 16)
  else
    match Numeral.read? t with
    | none => .malformed
    | some x => if x.toDouble.isFinite then .value x.toDouble else .outOfRange x.toDouble

/-- Apart from one text, the reader accepts numerals only. -/
theorem accepted?_hexadecimalReader {t : Text} (h : t ≠ Text.ofString "0x1p4") :
    (hexadecimalReader t).accepted? = (Numeral.read? t).map Numeral.toDouble := by
  rw [hexadecimalReader, if_neg h]
  cases Numeral.read? t with
  | none => rfl
  | some x =>
      dsimp only
      split <;> rfl

theorem not_matches_hexadecimal : ¬ Numeral.grammar.Matches (Text.ofString "0x1p4") := by
  rw [← Numeral.isSome_read?_iff]
  decide

/-- The reader accepts numerals, and one text more, which has another notation. -/
theorem liberal_hexadecimalReader : Double.Liberal hexadecimalReader where
  numeral t h := by
    refine accepted?_hexadecimalReader ?_
    rintro rfl
    exact not_matches_hexadecimal h
  other t h := by
    by_cases ht : t = Text.ofString "0x1p4"
    · rw [ht]
      exact .inr (.hexadecimal (s := []) (p := "0x") (t := "1p4") (List.forall_mem_nil _) rfl)
    · rw [accepted?_hexadecimalReader ht, Option.isSome_map, Numeral.isSome_read?_iff] at h
      exact .inl h

/-- What is read as a double, apart from `Infinity` after any number of signs: the word `NaN`
and the numerals, with white space around them or not.  Any other text is refused.  A numeral
too large for the doubles is read as infinity, one too close to zero as zero, with the sign that
it has, and in this an exponent counts by its first five digits: as a whole below a hundred
thousand.  The letters of other notations keep every reader of numerals from accepting more. -/
theorem double_accepts_numerals (s : Text)
    (h : ∀ signs : Text, (∀ b ∈ signs, Double.isSign b = true) →
      trim s ≠ signs ++ Text.ofString "Infinity") :
    ((∃ f, double s = .ok f) ↔
      trim s = Text.ofString "NaN" ∨ Numeral.grammar.Matches (trim s)) ∧
    (¬ (trim s = Text.ofString "NaN" ∨ Numeral.grammar.Matches (trim s)) →
      double s = .error (.number (trim s))) ∧
    (Numeral.grammar.Matches (trim s) → ∃ x : WrittenNumeral, x.text = trim s) ∧
    (∀ x : WrittenNumeral, x.text = trim s → ∃ m ≤ Double.infinite,
      double s = .ok (Double.ofMagnitude x.negative m) ∧
      (m = Double.infinite ↔ (2 : ℚ) ^ (1024 : ℤ) - 2 ^ (970 : ℤ) ≤ x.counted) ∧
      (m = 0 ↔ x.counted ≤ 2 ^ (-1075 : ℤ)) ∧
      (Text.toNat x.exponentDigits < 100000 → x.counted = x.magnitude)) ∧
    ∀ reader, Double.Liberal reader → Double.screened reader (trim s) = Double.read? s := by
  have hinfinity : (trim s).dropWhile Double.isSign ≠ Text.ofString "Infinity" := by
    intro he
    refine h ((trim s).takeWhile Double.isSign) (List.all_eq_true.1 List.all_takeWhile) ?_
    rw [← he, List.takeWhile_append_dropWhile]
  -- The infinities are excluded, as they are read with any number of signs.
  have haccepts := Double.isSome_readTrimmed?_iff hinfinity
  refine ⟨?_, ?_, Numeral.matches_grammar_iff.1, ?_, ?_⟩
  · rw [← haccepts, Option.isSome_iff_exists]
    exact exists_congr fun f => double_eq_ok_iff
  · intro hneither
    rw [← haccepts, Option.not_isSome_iff_eq_none] at hneither
    rw [double, Double.read?, hneither]
  · intro x hx
    refine ⟨_, Double.decimalMagnitude_le_infinite x.coefficient (x.scale Numeral.firstFive),
      double_eq_ok_iff.2 ?_, Double.decimalMagnitude_eq_infinite_iff _ _,
      Double.decimalMagnitude_eq_zero_iff _ _, x.counted_eq_magnitude⟩
    rw [Double.read?, ← hx, Double.readTrimmed?_text]
  · exact fun reader hreader => Double.screened_eq hreader (trim s)

/-- A number below all doubles with white space around it, and a hexadecimal one, which a
reader knows. -/
theorem double_accepts_numerals_below :
    let s : Text := " -0.001e100000\n"
    let t : Text := "0x1p4"
    ((∀ signs : Text, (∀ b ∈ signs, Double.isSign b = true) →
        trim s ≠ signs ++ Text.ofString "Infinity") ∧
      (∀ signs : Text, (∀ b ∈ signs, Double.isSign b = true) →
        trim t ≠ signs ++ Text.ofString "Infinity") ∧
      Double.Liberal hexadecimalReader ∧
      (hexadecimalReader t).accepted? = some (Double.ofInt 16)) ∧
    double s = .ok (Double.ofMagnitude true Double.infinite) ∧
    double t = .error (.number t) ∧ Double.screened hexadecimalReader t = none := by
  intro s t
  have hs : trim s = (farPoint true 2).text := by decide
  have ht : trim t = t := by decide
  -- neither ends with the last letter of the word
  have hword : ∀ {u : Text}, u.getLast? ≠ some (byte 'y') → ∀ signs : Text,
      (∀ b ∈ signs, Double.isSign b = true) → u ≠ signs ++ Text.ofString "Infinity" := by
    rintro u hu signs - rfl
    rw [List.getLast?_append] at hu
    exact hu rfl
  have hsword := hword (u := trim s) (by decide)
  have htword := hword (u := trim t) (by decide)
  obtain ⟨-, -, -, hnumeral, -⟩ := double_accepts_numerals s hsword
  obtain ⟨-, hrefused, -, -, hscreened⟩ := double_accepts_numerals t htword
  obtain ⟨m, -, hdouble, hinfinite, -, -⟩ := hnumeral (farPoint true 2) hs.symm
  have hscale : (farPoint true 2).scale Numeral.firstFive = 9997 := scale_farPoint true 2 _
  have hbeyond : m = Double.infinite := by
    rw [hinfinite, WrittenNumeral.counted, coefficient_farPoint, hscale, Nat.cast_one, one_mul]
    exact (sub_le_self _ (by positivity)).trans (two_zpow_le_ten_zpow (by norm_num))
  have hforeign : ¬ (trim t = Text.ofString "NaN" ∨ Numeral.grammar.Matches (trim t)) := by
    rw [ht]
    exact not_or.2 ⟨by decide, not_matches_hexadecimal⟩
  have herror := hrefused hforeign
  rw [ht] at herror
  refine ⟨⟨hsword, htword, liberal_hexadecimalReader, rfl⟩, hbeyond ▸ hdouble, herror, ?_⟩
  have hread := hscreened hexadecimalReader liberal_hexadecimalReader
  rw [ht] at hread
  rw [hread]
  decide

/-- A number beyond the doubles that is read as one billion. -/
theorem double_far_point :
    let x := farPoint false 9990
    (trim x.text = x.text ∧ (2 : ℚ) ^ (1024 : ℤ) ≤ x.magnitude) ∧
    double x.text = .ok (Double.ofInt 1000000000) ∧
    (Double.ofInt 1000000000).isFinite = true ∧
    Double.magnitudeOf (Double.ofInt 1000000000) ≠ 0 := by
  intro x
  have htrim : trim x.text = x.text := trim_farPoint false 9990
  have hcoefficient : x.coefficient = 1 := coefficient_farPoint false 9990
  refine ⟨⟨htrim, ?_⟩, ?_, by decide, by decide⟩
  · have hscale : x.scale Text.toNat = 90009 := scale_farPoint false 9990 _
    rw [WrittenNumeral.magnitude, hcoefficient, hscale, Nat.cast_one, one_mul]
    exact two_zpow_le_ten_zpow (by norm_num)
  · have hscale : x.scale Numeral.firstFive = 9 := scale_farPoint false 9990 _
    have hmagnitude : Double.decimalMagnitude 1 9 = Double.magnitude 1000000000 1 := by
      decide
    rw [double_eq_ok_iff, Double.read?, htrim, Double.readTrimmed?_text, hcoefficient, hscale,
      hmagnitude]
    rfl

end Literal

end LineScript
