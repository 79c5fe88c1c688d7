/-
LineScript/Proofs/Lexemes.lean

The tokens of expressions.  The first byte of a token decides which rule of the
lexer describes it (`ruleFor?`), so a token is the longest match as soon as that
one rule describes no longer beginning.  For identifiers and numbers this is so
whenever the byte that follows is a boundary: neither part of a name nor a
point.

Numbers consist of digits, a fraction and an exponent (`NumberParts`), and every
number that is a token can be read as a double (`read?_of_mem_tokens`).
-/
import LineScript.Expression.Tokens
import LineScript.Number.Spelling
import LineScript.Proofs.Scanning
import LineScript.Proofs.Texts
import Mathlib.Data.List.Chain

namespace LineScript

open Text

namespace Expression

/-! ### Identifiers and white space -/

/-- The white space between tokens. -/
def isSpace (b : UInt8) : Bool :=
  b == byte ' ' || b == byte '\t' || b == byte '\r' || b == byte '\n'

theorem isSpace_iff {b : UInt8} :
    isSpace b = true ↔ b = byte ' ' ∨ b = byte '\t' ∨ b = byte '\r' ∨ b = byte '\n' := by
  simp [isSpace, or_assoc]

/-- An identifier. -/
def isIdentifier : Text → Bool
  | [] => false
  | b :: t => isNameStart b && t.all isNamePart

/-- All bytes of an identifier may stand in a name. -/
theorem isNamePart_of_isIdentifier {t : Text} (h : isIdentifier t = true) :
    ∀ b ∈ t, isNamePart b = true := by
  cases t with
  | nil => cases h
  | cons b t =>
      obtain ⟨hb, ht⟩ := Bool.and_eq_true_iff.1 h
      refine List.forall_mem_cons.2 ⟨?_, List.all_eq_true.1 ht⟩
      simp [isNamePart, hb]

/-- The rule for identifiers describes identifiers. -/
theorem matches_identifier_iff {t : Text} :
    identifier.Matches t ↔ isIdentifier t = true := by
  rw [identifier, Pattern.matches_seq_iff]
  constructor
  · rintro ⟨s, u, rfl, hs, hu⟩
    obtain ⟨b, hb, rfl⟩ := Pattern.matches_one_iff.1 hs
    have hall := Pattern.matches_star_one_iff.1 hu
    rw [List.singleton_append, isIdentifier, hb, List.all_eq_true.2 hall]
    rfl
  · intro h
    cases t with
    | nil => cases h
    | cons b t =>
        obtain ⟨hb, ht⟩ := Bool.and_eq_true_iff.1 h
        exact ⟨[b], t, rfl, .one hb,
          Pattern.matches_star_one_iff.2 (List.all_eq_true.1 ht)⟩

theorem matches_whiteSpace_iff {t : Text} :
    whiteSpace.Matches t ↔ t ≠ [] ∧ ∀ b ∈ t, isSpace b = true :=
  Pattern.matches_plus_one_iff

/-! ### Numbers -/

/-- The letters that begin an exponent. -/
def isExponentMark (b : UInt8) : Bool := b == byte 'e' || b == byte 'E'

/-- The text of an exponent, which may be missing. -/
def IsExponent (t : Text) : Prop :=
  t = [] ∨ ∃ e s d, t = e :: (s ++ d) ∧ isExponentMark e = true ∧
    (s = [] ∨ ∃ b, s = [b] ∧ Double.isSign b = true) ∧
    d ≠ [] ∧ ∀ b ∈ d, isDigit b = true

/-- The parts of a number.  The fraction and the exponent may be missing. -/
structure NumberParts (whole fraction exponent : Text) : Prop where
  whole_digits : ∀ b ∈ whole, isDigit b = true
  fraction_digits : fraction = [] ∨
    ∃ d, fraction = byte '.' :: d ∧ ∀ b ∈ d, isDigit b = true
  isExponent : IsExponent exponent
  some_digit : whole ++ fraction.drop 1 ≠ []

/-- The bytes that numbers and their signs consist of. -/
def isNumeralByte (b : UInt8) : Bool :=
  isDigit b || b == byte '.' || isExponentMark b || Double.isSign b

theorem isNumeralByte_iff {b : UInt8} : isNumeralByte b = true ↔
    isDigit b = true ∨ b = byte '.' ∨ isExponentMark b = true ∨ Double.isSign b = true := by
  simp only [isNumeralByte, Bool.or_eq_true, beq_iff_eq, or_assoc]

/-- What the rule for exponents describes: a mark, perhaps a sign, and digits. -/
theorem isExponent_of_matches {t : Text} (h : numberExponent.Matches t) :
    IsExponent t := by
  rcases Pattern.matches_opt_iff.1 h with h | h
  · obtain ⟨m, u, rfl, hm, hu⟩ := Pattern.matches_seq_iff.1 h
    obtain ⟨e, he, rfl⟩ := Pattern.matches_one_iff.1 hm
    obtain ⟨s, d, rfl, hs, hd⟩ := Pattern.matches_seq_iff.1 hu
    obtain ⟨hne, hdigits⟩ := Pattern.matches_plus_one_iff.1 hd
    refine .inr ⟨e, s, d, rfl, he, ?_, hne, hdigits⟩
    rcases Pattern.matches_opt_iff.1 hs with hs | hs
    · obtain ⟨b, hb, rfl⟩ := Pattern.matches_one_iff.1 hs
      exact .inr ⟨b, rfl, hb⟩
    · exact .inl hs
  · exact .inl h

/-- All exponents are described. -/
theorem IsExponent.matches {t : Text} (h : IsExponent t) : numberExponent.Matches t := by
  rcases h with rfl | ⟨e, s, d, rfl, he, hs, hne, hd⟩
  · exact Pattern.matches_opt_iff.2 (.inr rfl)
  · have hsign : (Pattern.opt (.one Double.isSign)).Matches s := by
      rw [Pattern.matches_opt_iff]
      rcases hs with rfl | ⟨b, rfl, hb⟩
      · exact .inr rfl
      · exact .inl (.one hb)
    have hdigits := Pattern.matches_plus_one_iff.2 ⟨hne, hd⟩
    exact Pattern.matches_opt_iff.2 (.inl (.seq (.one he) (.seq hsign hdigits)))

/-- A number that begins with digits may have a fraction and an exponent. -/
theorem parts_of_number {t : Text} (h : number.Matches t) :
    ∃ w f x, t = w ++ f ++ x ∧ w ≠ [] ∧ NumberParts w f x := by
  obtain ⟨w, u, rfl, hw, hu⟩ := Pattern.matches_seq_iff.1 h
  obtain ⟨f, x, rfl, hf, hx⟩ := Pattern.matches_seq_iff.1 hu
  obtain ⟨hne, hdigits⟩ := Pattern.matches_plus_one_iff.1 hw
  refine ⟨w, f, x, by rw [List.append_assoc], hne, hdigits, ?_,
    isExponent_of_matches hx, by simp [hne]⟩
  rcases Pattern.matches_opt_iff.1 hf with hf | hf
  · obtain ⟨p, d, rfl, hp, hd⟩ := Pattern.matches_seq_iff.1 hf
    rw [Pattern.matches_literal_iff.1 hp]
    exact .inr ⟨d, rfl, Pattern.matches_star_one_iff.1 hd⟩
  · exact .inl hf

/-- A number that begins with a point has a fraction. -/
theorem parts_of_pointNumber {t : Text} (h : pointNumber.Matches t) :
    ∃ d x, t = byte '.' :: d ++ x ∧ NumberParts [] (byte '.' :: d) x := by
  obtain ⟨p, u, rfl, hp, hu⟩ := Pattern.matches_seq_iff.1 h
  obtain ⟨d, x, rfl, hd, hx⟩ := Pattern.matches_seq_iff.1 hu
  obtain ⟨hne, hdigits⟩ := Pattern.matches_plus_one_iff.1 hd
  rw [Pattern.matches_literal_iff.1 hp]
  exact ⟨d, x, rfl, by simp, .inr ⟨d, rfl, hdigits⟩, isExponent_of_matches hx, hne⟩

/-! Where the parts of a number end.  The byte after a run of digits is a point
or an exponent mark, and a sign follows an exponent mark only. -/

/-- Which byte may follow which in a number. -/
def Follows (a b : UInt8) : Prop :=
  isDigit b = true ∨ b = byte '.' ∨ isExponentMark b = true ∨
    Double.isSign b = true ∧ isExponentMark a = true

/-- The bytes that cannot continue an identifier or a number. -/
def isBoundary (b : UInt8) : Bool := !isNamePart b && b != byte '.'

/-- Digits may follow one another. -/
theorem isChain_follows_digits {d : Text} (hd : ∀ b ∈ d, isDigit b = true) :
    d.IsChain Follows := by
  induction d with
  | nil => exact .nil
  | cons b d ih =>
      obtain ⟨-, hd⟩ := List.forall_mem_cons.1 hd
      rw [List.isChain_cons]
      exact ⟨fun c hc => .inl (hd c (List.mem_of_mem_head? hc)), ih hd⟩

/-- The mark of an exponent could also begin a name. -/
theorem isNameStart_of_isExponentMark {b : UInt8} (hb : isExponentMark b = true) :
    isNameStart b = true := by
  rw [isExponentMark, Bool.or_eq_true, beq_iff_eq, beq_iff_eq] at hb
  rcases hb with rfl | rfl <;> rfl

/-- Digits and the point are not white space, letters or signs. -/
theorem plain_byte : ∀ b, isDigit b = true ∨ b = byte '.' →
    isSolid b = true ∧ isNameStart b = false ∧ Double.isSign b = false := by
  decide +kernel

theorem not_isExponentMark_of_plain {b : UInt8} (hb : isDigit b = true ∨ b = byte '.') :
    isExponentMark b = false := by
  rw [Bool.eq_false_iff]
  intro hmark
  have hname := isNameStart_of_isExponentMark hmark
  rw [(plain_byte b hb).2.1] at hname
  cases hname

/-- A boundary does not follow what a number may end with. -/
theorem not_follows {a b : UInt8} (ha : isDigit a = true ∨ a = byte '.')
    (hb : isBoundary b = true) : ¬ Follows a b := by
  simp only [isBoundary, isNamePart, Bool.and_eq_true, Bool.not_eq_true', Bool.or_eq_false_iff,
    bne_iff_ne] at hb
  obtain ⟨⟨hname, hdigit⟩, hpoint⟩ := hb
  have hmark : isExponentMark b = false := by
    rw [Bool.eq_false_iff]
    intro hmark
    rw [isNameStart_of_isExponentMark hmark] at hname
    cases hname
  simp [Follows, hdigit, hpoint, hmark, not_isExponentMark_of_plain ha]

/-- A run of bytes ends where the first byte stands that does not belong to
it. -/
theorem takeWhile_append_stop {p : UInt8 → Bool} {l r : Text}
    (hl : ∀ b ∈ l, p b = true) (hr : ∀ b, r.head? = some b → p b = false) :
    (l ++ r).takeWhile p = l ∧ (l ++ r).dropWhile p = r := by
  rw [List.takeWhile_append_of_pos hl, List.dropWhile_append_of_pos hl]
  cases r with
  | nil => simp
  | cons b r => simp [hr b rfl]

/-- A numeral that begins with a digit or with the point has no sign. -/
theorem sign_eq_of_not_sign {b : UInt8} {t : Text}
    (hb : isDigit b = true ∨ b = byte '.') :
    Numeral.sign (b :: t) = (false, b :: t) := by
  have hsign := (plain_byte b hb).2.2
  simp only [Double.isSign, Bool.or_eq_false_iff, beq_eq_false_iff_ne] at hsign
  rw [Numeral.sign, if_neg hsign.2, if_neg hsign.1]

/-- The sign in front of a numeral, if it has one, and what follows it. -/
theorem sign_append {s t : Text} {b : UInt8}
    (hs : s = [] ∨ ∃ b, s = [b] ∧ Double.isSign b = true)
    (hb : isDigit b = true ∨ b = byte '.') :
    Numeral.sign (s ++ b :: t) = (decide (s = [byte '-']), b :: t) := by
  rcases hs with rfl | ⟨c, rfl, hc⟩
  · exact sign_eq_of_not_sign hb
  · rcases Bool.or_eq_true_iff.1 hc with hc | hc
    · rw [eq_of_beq hc]
      rfl
    · rw [eq_of_beq hc]
      rfl

/-- A text after a minus sign, if it is to have one. -/
def signed (negative : Bool) (t : Text) : Text := if negative then byte '-' :: t else t

/-- The sign in front is taken off, since no numeral begins with one. -/
theorem sign_signed {b : UInt8} {t : Text} (hb : isDigit b = true ∨ b = byte '.')
    (negative : Bool) : Numeral.sign (signed negative (b :: t)) = (negative, b :: t) := by
  cases negative with
  | false => exact sign_eq_of_not_sign hb
  | true => rfl

/-- A text that begins with an exponent mark, if it is not empty. -/
def StartsWithMark (x : Text) : Prop := ∀ b, x.head? = some b → isExponentMark b = true

theorem StartsWithMark.head {x : Text} (h : StartsWithMark x) {b : UInt8}
    (hb : x.head? = some b) : isDigit b = false := by
  rw [Bool.eq_false_iff]
  intro hdigit
  have hmark := h b hb
  rw [not_isExponentMark_of_plain (.inl hdigit)] at hmark
  cases hmark

theorem IsExponent.startsWithMark {x : Text} (h : IsExponent x) : StartsWithMark x := by
  intro b hb
  rcases h with rfl | ⟨e, s, d, rfl, he, -⟩
  · cases hb
  · cases hb
    exact he

/-- The exponent that is read: the number denoted by its digits, with its sign. -/
theorem IsExponent.read?_eq {x : Text} (h : IsExponent x) :
    Numeral.readExponent? x =
      let (negative, digits) := Numeral.sign (x.drop 1)
      some (if negative then -Numeral.exponentOf digits else Numeral.exponentOf digits) := by
  rcases h with rfl | ⟨e, s, d, rfl, he, hs, hne, hd⟩
  · rfl
  · have hsign : Numeral.sign (s ++ d) = (decide (s = [byte '-']), d) := by
      obtain ⟨c, u, rfl⟩ := List.exists_cons_of_ne_nil hne
      exact sign_append hs (.inl (hd c (by simp)))
    have he' : e = byte 'e' ∨ e = byte 'E' := by
      simpa [isExponentMark] using he
    have hall : Numeral.isDigits d = true := by
      simpa [Numeral.isDigits, hne] using hd
    simp only [Numeral.readExponent?, if_pos he', List.drop_one, List.tail_cons, hsign,
      if_pos hall]

/-- An exponent can be read. -/
theorem IsExponent.read?_isSome {x : Text} (h : IsExponent x) :
    (Numeral.readExponent? x).isSome = true := by
  rw [h.read?_eq]
  rfl

namespace NumberParts

variable {w f x : Text} (h : NumberParts w f x)
include h

/-- In a number each byte may follow the one before it. -/
theorem isChain : (w ++ f ++ x).IsChain Follows := by
  have hf : (w ++ f).IsChain Follows := by
    refine (isChain_follows_digits h.whole_digits).append ?_ ?_
    · rcases h.fraction_digits with rfl | ⟨d, rfl, hd⟩
      · exact .nil
      · exact List.isChain_cons.2
          ⟨fun c hc => .inl (hd c (List.mem_of_mem_head? hc)),
            isChain_follows_digits hd⟩
    · intro a _ b hb
      rcases h.fraction_digits with rfl | ⟨d, rfl, hd⟩
      · cases hb
      · cases hb
        exact .inr (.inl rfl)
  -- The sign of an exponent is the one byte that may only stand behind a letter.
  rcases h.isExponent with rfl | ⟨e, s, d, rfl, he, hs, -, hd⟩
  · rwa [List.append_nil]
  · refine hf.append ?_ ?_
    · rcases hs with rfl | ⟨b, rfl, hb⟩
      · exact List.isChain_cons.2
          ⟨fun c hc => .inl (hd c (List.mem_of_mem_head? hc)),
            isChain_follows_digits hd⟩
      · refine List.isChain_cons.2 ⟨fun c hc => ?_, List.isChain_cons.2
          ⟨fun c hc => .inl (hd c (List.mem_of_mem_head? hc)),
            isChain_follows_digits hd⟩⟩
        cases hc
        exact .inr (.inr (.inr ⟨hb, he⟩))
    · intro a _ b hb
      cases hb
      exact .inr (.inr (.inl he))

/-- A number ends with a digit or with the point. -/
theorem last : ∃ b, (w ++ f ++ x).getLast? = some b ∧
    (isDigit b = true ∨ b = byte '.') := by
  -- the last part that is not missing
  have hlast : ∀ (l d : Text), d ≠ [] → (∀ b ∈ d, isDigit b = true ∨ b = byte '.') →
      ∃ b, (l ++ d).getLast? = some b ∧ (isDigit b = true ∨ b = byte '.') := by
    intro l d hne hd
    refine ⟨d.getLast hne, ?_, hd _ (List.getLast_mem hne)⟩
    rw [List.getLast?_append, List.getLast?_eq_getLast_of_ne_nil hne]
    rfl
  rcases h.isExponent with rfl | ⟨e, s, d, rfl, -, -, hne, hd⟩
  · rw [List.append_nil]
    rcases h.fraction_digits with rfl | ⟨d, rfl, hd⟩
    · have hw : w ≠ [] := by simpa using h.some_digit
      rw [List.append_nil, ← List.nil_append w]
      exact hlast _ _ hw fun b hb => .inl (h.whole_digits b hb)
    · refine hlast _ _ (by simp) fun b hb => ?_
      rcases List.mem_cons.1 hb with rfl | hb
      · exact .inr rfl
      · exact .inl (hd b hb)
  · have hassoc : w ++ f ++ e :: (s ++ d) = (w ++ f ++ e :: s) ++ d := by simp
    rw [hassoc]
    exact hlast _ _ hne fun b hb => .inl (hd b hb)

/-- What is a number cannot be continued to a longer one behind a boundary. -/
theorem not_continued {c : UInt8} (hc : isBoundary c = true) {u w' f' x' : Text}
    (h' : NumberParts w' f' x') : w ++ f ++ x ++ c :: u ≠ w' ++ f' ++ x' := by
  intro he
  obtain ⟨b, hb, hlast⟩ := h.last
  have hchain := h'.isChain
  rw [← he] at hchain
  exact not_follows hlast hc ((List.isChain_append.1 hchain).2.2 b hb c rfl)

/-- The digits of a number begin with a digit or with the point. -/
theorem digits_first : ∃ b r, w ++ f = b :: r ∧ (isDigit b = true ∨ b = byte '.') := by
  cases w with
  | cons b w => exact ⟨b, w ++ f, rfl, .inl (h.whole_digits b (by simp))⟩
  | nil =>
      rcases h.fraction_digits with rfl | ⟨d, rfl, -⟩
      · exact absurd rfl h.some_digit
      · exact ⟨byte '.', d, rfl, .inr rfl⟩

/-- A number begins with a digit or with the point. -/
theorem first : ∃ b, (w ++ f ++ x).head? = some b ∧
    (isDigit b = true ∨ b = byte '.') := by
  obtain ⟨b, r, hr, hfirst⟩ := h.digits_first
  exact ⟨b, by rw [hr]; rfl, hfirst⟩

/-- The bytes of a number: digits, the point, an exponent mark and a sign. -/
theorem isNumeralByte_of_mem : ∀ b ∈ w ++ f ++ x, isNumeralByte b = true := by
  have hdigit : ∀ {d : Text}, (∀ b ∈ d, isDigit b = true) → ∀ b ∈ d, isNumeralByte b = true :=
    fun hd b hb => isNumeralByte_iff.2 (.inl (hd b hb))
  rw [List.forall_mem_append, List.forall_mem_append]
  refine ⟨⟨hdigit h.whole_digits, ?_⟩, ?_⟩
  · rcases h.fraction_digits with rfl | ⟨d, rfl, hd⟩
    · exact List.forall_mem_nil _
    · exact List.forall_mem_cons.2 ⟨rfl, hdigit hd⟩
  · rcases h.isExponent with rfl | ⟨e, s, d, rfl, he, hs, -, hd⟩
    · exact List.forall_mem_nil _
    · rw [List.forall_mem_cons, List.forall_mem_append]
      refine ⟨isNumeralByte_iff.2 (.inr (.inr (.inl he))), ?_, hdigit hd⟩
      rcases hs with rfl | ⟨b, rfl, hb⟩
      · exact List.forall_mem_nil _
      · exact List.forall_mem_singleton.2 (isNumeralByte_iff.2 (.inr (.inr (.inr hb))))

theorem solidEnds : SolidEnds (w ++ f ++ x) := by
  obtain ⟨b, hb, hfirst⟩ := h.first
  obtain ⟨c, hc, hlast⟩ := h.last
  exact ⟨⟨b, hb, (plain_byte b hfirst).1⟩, ⟨c, hc, (plain_byte c hlast).1⟩⟩

/-! What follows the digits may be any text that begins like an exponent. -/

section

variable {y : Text} (hy : StartsWithMark y)
include hy

/-- What follows the digits before the point is not a digit. -/
theorem rest_head {b : UInt8} (hb : (f ++ y).head? = some b) :
    isDigit b = false := by
  rcases h.fraction_digits with rfl | ⟨d, rfl, -⟩
  · exact hy.head hb
  · obtain rfl : byte '.' = b := by simpa using hb
    decide

/-- The fraction ends where the exponent begins. -/
theorem fraction_eq : Numeral.fraction (f ++ y) = (f.drop 1, y) := by
  rcases h.fraction_digits with rfl | ⟨d, rfl, hd⟩
  · cases y with
    | nil => rfl
    | cons e y =>
        have hpoint : e ≠ byte '.' := by
          rintro rfl
          cases hy (byte '.') rfl
        rw [List.nil_append, Numeral.fraction, if_neg hpoint]
        rfl
  · obtain ⟨htake, hdrop⟩ := takeWhile_append_stop hd fun b => hy.head
    rw [List.cons_append, Numeral.fraction, if_pos rfl, htake, hdrop]
    rfl

/-- What digits with something like an exponent behind them denote, after a sign or without
one. -/
theorem read?_signed (negative : Bool) :
    Numeral.read? (signed negative (w ++ f ++ y)) = (Numeral.readExponent? y).map fun e =>
      ⟨negative, Text.toNat (w ++ f.drop 1), e - (f.drop 1).length⟩ := by
  have hsign : Numeral.sign (signed negative (w ++ f ++ y)) = (negative, w ++ f ++ y) := by
    obtain ⟨b, r, hr, hfirst⟩ := h.digits_first
    rw [hr, List.cons_append]
    exact sign_signed hfirst negative
  rw [List.append_assoc w f y] at hsign ⊢
  obtain ⟨hwhole, hrest⟩ := takeWhile_append_stop h.whole_digits fun b => h.rest_head hy
  have hempty : (w ++ f.drop 1).isEmpty = false := by
    simpa [List.isEmpty_iff] using h.some_digit
  simp only [Numeral.read?, hsign, hwhole, hrest, h.fraction_eq hy, hempty,
    Bool.false_eq_true, if_false]

/-- They are read as the double nearest to what they denote. -/
theorem readTrimmed?_signed (negative : Bool) :
    Double.readTrimmed? (signed negative (w ++ f ++ y)) =
      (Numeral.readExponent? y).map fun e =>
        Numeral.toDouble ⟨negative, Text.toNat (w ++ f.drop 1), e - (f.drop 1).length⟩ := by
  have hread := h.read?_signed hy negative
  obtain ⟨b, r, hr, hfirst⟩ := h.digits_first
  rw [hr, List.cons_append] at hread ⊢
  obtain ⟨-, hname, hsign⟩ := plain_byte b hfirst
  have hletter : ∀ c : Char, isNameStart (byte c) = true → b ≠ byte c := by
    rintro c hc rfl
    rw [hname] at hc
    cases hc
  -- The names are tried before numerals, and a numeral begins with no letter.
  have hnan : signed negative (b :: (r ++ y)) ≠ Text.ofString "NaN" := by
    cases negative with
    | false => exact fun he => hletter 'N' rfl (List.cons.inj he).1
    | true => exact fun he => absurd (List.cons.inj he).1 (by decide)
  have hinfinity : (signed negative (b :: (r ++ y))).dropWhile Double.isSign ≠
      Text.ofString "Infinity" := by
    have hdrop : (signed negative (b :: (r ++ y))).dropWhile Double.isSign = b :: (r ++ y) := by
      cases negative with
      | false => exact List.dropWhile_cons_of_neg (by simp [hsign])
      | true =>
          rw [signed, if_pos rfl, List.dropWhile_cons_of_pos (by decide)]
          exact List.dropWhile_cons_of_neg (by simp [hsign])
    rw [hdrop]
    exact fun he => hletter 'I' rfl (List.cons.inj he).1
  rw [Double.readTrimmed?, if_neg hnan, if_neg hinfinity, hread, Option.map_map]
  rfl

end

theorem solidEnds_signed (negative : Bool) : SolidEnds (signed negative (w ++ f ++ x)) := by
  cases negative with
  | false => exact h.solidEnds
  | true =>
      obtain ⟨c, hc, hsolid⟩ := h.solidEnds.2
      refine ⟨⟨byte '-', rfl, by decide⟩, c, ?_, hsolid⟩
      rw [signed, if_pos rfl, List.getLast?_cons, hc]
      rfl

/-- A number is read as the double nearest to what it denotes. -/
theorem readDouble?_signed (negative : Bool) :
    Double.read? (signed negative (w ++ f ++ x)) = (Numeral.readExponent? x).map fun e =>
      Numeral.toDouble ⟨negative, Text.toNat (w ++ f.drop 1), e - (f.drop 1).length⟩ := by
  rw [Double.read?, trim_eq_self (h.solidEnds_signed negative),
    h.readTrimmed?_signed h.isExponent.startsWithMark]

/-- Every number can be read as a double. -/
theorem readDouble?_isSome : (Double.read? (w ++ f ++ x)).isSome = true := by
  have hread := h.readDouble?_signed false
  rw [signed, if_neg Bool.false_ne_true] at hread
  rw [hread, Option.isSome_map]
  exact h.isExponent.read?_isSome

end NumberParts

/-! ### The rule for a first byte -/

/-- The rule for a character that is a token by itself. -/
def symbolRule (c : Char) : Rule := ⟨.literal [byte c], some (.symbol c)⟩

/-- The only rule of the lexer that describes texts with a given first byte. -/
def ruleFor? (b : UInt8) : Option Rule :=
  if isNameStart b then some ⟨identifier, some .identifier⟩
  else if isDigit b then some ⟨number, some .number⟩
  else if b = byte '.' then some ⟨pointNumber, some .number⟩
  else if isSpace b then some ⟨whiteSpace, none⟩
  else (symbols.find? fun c => byte c == b).map symbolRule

/-- The rules of expressions. -/
theorem mem_rules_iff {r : Rule} :
    r ∈ lexer.rules ↔ r = ⟨identifier, some .identifier⟩ ∨
      r = ⟨number, some .number⟩ ∨ r = ⟨pointNumber, some .number⟩ ∨
      r = ⟨whiteSpace, none⟩ ∨ ∃ c ∈ symbols, r = symbolRule c := by
  have hrules : lexer.rules = [⟨identifier, some .identifier⟩,
      ⟨number, some .number⟩, ⟨pointNumber, some .number⟩,
      ⟨whiteSpace, none⟩] ++ symbols.map symbolRule := rfl
  rw [hrules, List.mem_append, List.mem_map]
  simp only [List.mem_cons, List.not_mem_nil, or_false, or_assoc, eq_comm]

theorem ruleFor?_nameStart {b : UInt8} (hb : isNameStart b = true) :
    ruleFor? b = some ⟨identifier, some .identifier⟩ := by
  rw [ruleFor?, if_pos hb]

theorem ruleFor?_digit {b : UInt8} (hb : isDigit b = true) :
    ruleFor? b = some ⟨number, some .number⟩ := by
  rw [ruleFor?, (plain_byte b (.inl hb)).2.1, if_neg Bool.false_ne_true, if_pos hb]

theorem ruleFor?_point :
    ruleFor? (byte '.') = some ⟨pointNumber, some .number⟩ := rfl

theorem ruleFor?_space {b : UInt8} (hb : isSpace b = true) :
    ruleFor? b = some ⟨whiteSpace, none⟩ := by
  rcases isSpace_iff.1 hb with rfl | rfl | rfl | rfl <;> rfl

theorem ruleFor?_symbol {c : Char} (hc : c ∈ symbols) :
    ruleFor? (byte c) = some (symbolRule c) := by
  simp only [symbols, List.mem_cons, List.not_mem_nil, or_false] at hc
  rcases hc with rfl | rfl | rfl | rfl | rfl | rfl | rfl | rfl | rfl <;> rfl

/-- The first byte of a lexeme decides which rule describes it. -/
theorem ruleFor?_of_matches {r : Rule} (hr : r ∈ lexer.rules) {b : UInt8}
    {t : Text} (h : r.pattern.Matches (b :: t)) : ruleFor? b = some r := by
  rcases mem_rules_iff.1 hr with rfl | rfl | rfl | rfl | ⟨c, hc, rfl⟩
  · have hid := matches_identifier_iff.1 h
    exact ruleFor?_nameStart (Bool.and_eq_true_iff.1 hid).1
  · obtain ⟨w, f, x, he, hne, hparts⟩ := parts_of_number h
    obtain ⟨d, w, rfl⟩ := List.exists_cons_of_ne_nil hne
    obtain ⟨rfl, -⟩ := List.cons.inj he
    exact ruleFor?_digit (hparts.whole_digits b (by simp))
  · obtain ⟨d, x, he, -⟩ := parts_of_pointNumber h
    obtain ⟨rfl, -⟩ := List.cons.inj he
    exact ruleFor?_point
  · exact ruleFor?_space ((matches_whiteSpace_iff.1 h).2 b (by simp))
  · obtain ⟨rfl, rfl⟩ := List.cons.inj (Pattern.matches_literal_iff.1 h)
    exact ruleFor?_symbol hc

/-- What the first byte decides on is a rule. -/
theorem ruleFor?_mem {b : UInt8} {r : Rule} (h : ruleFor? b = some r) :
    r ∈ lexer.rules := by
  rw [mem_rules_iff]
  unfold ruleFor? at h
  split at h
  · exact .inl (Option.some.inj h).symm
  · split at h
    · exact .inr (.inl (Option.some.inj h).symm)
    · split at h
      · exact .inr (.inr (.inl (Option.some.inj h).symm))
      · split at h
        · exact .inr (.inr (.inr (.inl (Option.some.inj h).symm)))
        · obtain ⟨c, hc, rfl⟩ := Option.map_eq_some_iff.1 h
          exact .inr (.inr (.inr (.inr ⟨c, List.mem_of_find?_eq_some hc, rfl⟩)))

/-- Whether a text has a kind depends on the rule for its first byte only. -/
theorem kind?_cons_eq_some_iff {b : UInt8} {t : Text} {k : Option TokenKind} :
    lexer.kind? (b :: t) = some k ↔
      ∃ r, ruleFor? b = some r ∧ r.pattern.Matches (b :: t) ∧ r.kind = k := by
  have hsome : ∀ {k}, lexer.kind? (b :: t) = some k →
      ∃ r, ruleFor? b = some r ∧ r.pattern.Matches (b :: t) ∧ r.kind = k := by
    intro k hk
    obtain ⟨before, r, after, hrules, hkind, hmatch, -⟩ :=
      Lexer.kind?_eq_some_iff.1 hk
    have hr : r ∈ lexer.rules := by simp [hrules]
    exact ⟨r, ruleFor?_of_matches hr hmatch, hmatch, hkind⟩
  constructor
  · exact hsome
  · rintro ⟨r, hr, hmatch, rfl⟩
    cases hk : lexer.kind? (b :: t) with
    | none => exact absurd hmatch (Lexer.kind?_eq_none_iff.1 hk r (ruleFor?_mem hr))
    | some k =>
        obtain ⟨r', hr', -, rfl⟩ := hsome hk
        rw [Option.some.inj (hr.symm.trans hr')]

/-- A text is the longest match at its place if the rule for its first byte
describes it and no longer beginning. -/
theorem longest_of_rule {b : UInt8} {t rest : Text} {r : Rule}
    (hr : ruleFor? b = some r) (hmatch : r.pattern.Matches (b :: t))
    (hmax : ∀ u, u ≠ [] → u <+: rest → ¬ r.pattern.Matches (b :: t ++ u)) :
    lexer.Longest (b :: t ++ rest) (b :: t).length r.kind := by
  refine ⟨by simp, by simp, ?_, ?_⟩
  · rw [List.take_left]
    exact kind?_cons_eq_some_iff.2 ⟨r, hr, hmatch, rfl⟩
  · intro j hj hle
    obtain ⟨i, rfl⟩ := Nat.exists_eq_add_of_lt hj
    rw [Option.eq_none_iff_forall_ne_some]
    intro k hk
    rw [Nat.add_assoc, List.take_length_add_append, List.cons_append] at hk
    obtain ⟨r', hr', hmatch', -⟩ := kind?_cons_eq_some_iff.1 hk
    obtain rfl := Option.some.inj (hr.symm.trans hr')
    refine hmax (rest.take (i + 1)) ?_ (List.take_prefix _ _) hmatch'
    rw [List.length_append] at hle
    have hlen : rest ≠ [] := by
      rintro rfl
      simp only [List.length_nil] at hle
      omega
    simp [hlen]

/-! ### Scanning one token -/

/-- All numbers that begin with digits are described. -/
theorem number_matches {w f x : Text} (h : NumberParts w f x) (hw : w ≠ []) :
    number.Matches (w ++ f ++ x) := by
  have hwhole : (Pattern.plus (.one isDigit)).Matches w :=
    Pattern.matches_plus_one_iff.2 ⟨hw, h.whole_digits⟩
  refine Pattern.matches_seq_iff.2 ⟨w, f ++ x, List.append_assoc w f x, hwhole, ?_⟩
  refine Pattern.matches_seq_iff.2 ⟨f, x, rfl, ?_, h.isExponent.matches⟩
  rw [Pattern.matches_opt_iff]
  rcases h.fraction_digits with rfl | ⟨d, rfl, hd⟩
  · exact .inr rfl
  · exact .inl (Pattern.matches_seq_iff.2 ⟨Text.ofString ".", d, rfl,
      Pattern.matches_literal_iff.2 rfl, Pattern.matches_star_one_iff.2 hd⟩)

/-- All numbers that begin with a point are described. -/
theorem pointNumber_matches {f x : Text} (h : NumberParts [] f x) :
    pointNumber.Matches (f ++ x) := by
  rcases h.fraction_digits with rfl | ⟨d, rfl, hd⟩
  · exact absurd rfl h.some_digit
  · have hne : d ≠ [] := h.some_digit
    refine Pattern.matches_seq_iff.2 ⟨Text.ofString ".", d ++ x, rfl,
      Pattern.matches_literal_iff.2 rfl, ?_⟩
    exact Pattern.matches_seq_iff.2 ⟨d, x, rfl,
      Pattern.matches_plus_one_iff.2 ⟨hne, hd⟩, h.isExponent.matches⟩

variable {source : Text} {pos : Nat} {rest : Text}

/-- A character that is a token by itself is one wherever it stands. -/
theorem eventsFrom_symbol {c : Char} (hc : c ∈ symbols) :
    lexer.eventsFrom source pos (byte c :: rest) =
      .token ⟨.symbol c, [byte c], ⟨pos, pos + 1⟩⟩ ::
        lexer.eventsFrom source (pos + 1) rest := by
  have hlongest : lexer.Longest ([byte c] ++ rest) 1 (some (.symbol c)) := by
    refine longest_of_rule (ruleFor?_symbol hc) (Pattern.matches_literal_iff.2 rfl) ?_
    intro u hne _ hmatch
    exact hne (by simpa using Pattern.matches_literal_iff.1 hmatch)
  exact Lexer.eventsFrom_token hlongest

/-- White space in front of something else is skipped. -/
theorem eventsFrom_space {u : Text} (hu : ∀ b ∈ u, isSpace b = true)
    (hrest : ∀ b ∈ rest.head?, isSpace b = false) :
    lexer.eventsFrom source pos (u ++ rest) =
      lexer.eventsFrom source (pos + u.length) rest := by
  cases u with
  | nil => rfl
  | cons b u =>
      have hlongest : lexer.Longest (b :: u ++ rest) (b :: u).length none := by
        refine longest_of_rule (ruleFor?_space (hu b (by simp)))
          (matches_whiteSpace_iff.2 ⟨by simp, hu⟩) ?_
        intro v hne hv hmatch
        obtain ⟨c, v, rfl⟩ := List.exists_cons_of_ne_nil hne
        obtain ⟨w, rfl⟩ := hv
        have hspace := (matches_whiteSpace_iff.1 hmatch).2 c (by simp)
        simp [hrest c rfl] at hspace
      rw [Lexer.eventsFrom_skip hlongest, List.drop_left]

/-- An identifier ends at a boundary. -/
theorem eventsFrom_identifier {n : Text} (hn : isIdentifier n = true)
    (hrest : ∀ b ∈ rest.head?, isBoundary b = true) :
    lexer.eventsFrom source pos (n ++ rest) =
      .token ⟨.identifier, n, ⟨pos, pos + n.length⟩⟩ ::
        lexer.eventsFrom source (pos + n.length) rest := by
  cases n with
  | nil => cases hn
  | cons b n =>
      have hlongest :
          lexer.Longest (b :: n ++ rest) (b :: n).length (some .identifier) := by
        refine longest_of_rule (ruleFor?_nameStart (Bool.and_eq_true_iff.1 hn).1)
          (matches_identifier_iff.2 hn) ?_
        intro v hne hv hmatch
        obtain ⟨c, v, rfl⟩ := List.exists_cons_of_ne_nil hne
        obtain ⟨w, rfl⟩ := hv
        have hpart : isNamePart c = true := by
          have hall := (Bool.and_eq_true_iff.1 (matches_identifier_iff.1 hmatch)).2
          exact List.all_eq_true.1 hall c (by simp)
        simpa [isBoundary, hpart] using hrest c rfl
      rw [Lexer.eventsFrom_token hlongest, List.drop_left, List.take_left]

/-- A number ends at a boundary. -/
theorem eventsFrom_number {w f x : Text} (h : NumberParts w f x)
    (hrest : ∀ b ∈ rest.head?, isBoundary b = true) :
    lexer.eventsFrom source pos (w ++ f ++ x ++ rest) =
      .token ⟨.number, w ++ f ++ x, ⟨pos, pos + (w ++ f ++ x).length⟩⟩ ::
        lexer.eventsFrom source (pos + (w ++ f ++ x).length) rest := by
  -- A longer match would be a number that goes on behind the boundary.
  have hmax : ∀ u w' f' x', u ≠ [] → u <+: rest → NumberParts w' f' x' →
      w ++ f ++ x ++ u ≠ w' ++ f' ++ x' := by
    intro u w' f' x' hne hu h'
    obtain ⟨c, u, rfl⟩ := List.exists_cons_of_ne_nil hne
    obtain ⟨r, rfl⟩ := hu
    have hc : isBoundary c = true := hrest c rfl
    exact h.not_continued hc h'
  have hlongest : lexer.Longest (w ++ f ++ x ++ rest) (w ++ f ++ x).length (some .number) := by
    cases w with
    | cons b w =>
        have hrule := ruleFor?_digit (h.whole_digits b (by simp))
        refine longest_of_rule hrule (number_matches h (by simp)) ?_
        intro u hne hu hmatch
        obtain ⟨w', f', x', he, -, h'⟩ := parts_of_number hmatch
        exact hmax u w' f' x' hne hu h' he
    | nil =>
        rcases h.fraction_digits with rfl | ⟨d, rfl, hd⟩
        · exact absurd rfl h.some_digit
        · refine longest_of_rule ruleFor?_point (pointNumber_matches h) ?_
          intro u hne hu hmatch
          obtain ⟨d', x', he, h'⟩ := parts_of_pointNumber hmatch
          exact hmax u [] (byte '.' :: d') x' hne hu h' he
  rw [Lexer.eventsFrom_token hlongest, List.drop_left, List.take_left]

/-! ### The tokens of an expression -/

/-- A number that is a token can be read as a double. -/
theorem read?_of_mem_tokens {us : List Token}
    (h : tokenize source = .ok (us ++ [.endOf source])) {tok : Token}
    (htok : tok ∈ us) (hnumber : tok.kind = .number) :
    (Double.read? tok.lexeme).isSome = true := by
  have hkind := Lexer.kind?_of_mem_tokens h htok
  rw [hnumber] at hkind
  obtain ⟨before, r, after, hrules, hk, hmatch, -⟩ :=
    Lexer.kind?_eq_some_iff.1 hkind
  have hr : r ∈ lexer.rules := by simp [hrules]
  rcases mem_rules_iff.1 hr with rfl | rfl | rfl | rfl | ⟨c, -, rfl⟩
  · cases hk
  · obtain ⟨w, f, x, he, -, hparts⟩ := parts_of_number hmatch
    rw [he]
    exact hparts.readDouble?_isSome
  · obtain ⟨d, x, he, hparts⟩ := parts_of_pointNumber hmatch
    rw [he]
    exact hparts.readDouble?_isSome
  · cases hk
  · cases hk

/-- No rule makes end tokens. -/
theorem kind_ne_of_mem_rules {r : Rule} (hr : r ∈ lexer.rules) :
    r.kind ≠ some .endOfText := by
  rcases mem_rules_iff.1 hr with rfl | rfl | rfl | rfl | ⟨c, -, rfl⟩ <;>
    simp [symbolRule]

/-- Only the last token is the end of the text. -/
theorem kind_ne_endOfText {us : List Token}
    (h : tokenize source = .ok (us ++ [.endOf source])) {tok : Token}
    (htok : tok ∈ us) : tok.kind ≠ .endOfText := by
  intro hend
  have hkind := Lexer.kind?_of_mem_tokens h htok
  rw [hend] at hkind
  obtain ⟨before, r, after, hrules, hk, -⟩ := Lexer.kind?_eq_some_iff.1 hkind
  have hr : r ∈ lexer.rules := by simp [hrules]
  exact kind_ne_of_mem_rules hr hk

end Expression

end LineScript
