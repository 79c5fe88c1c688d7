/-
LineScript/Proofs/Pairing.lean

Brackets and commas by their positions.

The `surplus` of a text is the number of brackets that it opens less the number of those
that it closes; it may be negative.

* The bracket that closes the one at a position is at the first position behind it up to
  which the surplus is zero (`closings`).  If a search comes to the end, no beginning of
  the text closes more brackets than have been opened (`le_of_enclosed?_eq_none`), so there
  is no such position.
* A text is divided at the first comma in front of which the surplus in brackets of both
  shapes is zero (`commasOutside`), also behind a place where it is negative.

Main result: `group_and_comma_positions`.
-/
import LineScript.Proofs.Calls
import Mathlib.Order.Bounds.Basic

namespace LineScript

open Text

namespace Brackets

/-! ### Surplus -/

/-- How many bytes of a text open a bracket, less those that close one. -/
def surplus (opens closes : UInt8 → Bool) (t : Text) : Int :=
  t.countP opens - t.countP closes

/-- The brackets of both shapes that open. -/
def isOpening (b : UInt8) : Bool := b == byte '(' || b == byte '['

/-- The brackets of both shapes that close. -/
def isClosing (b : UInt8) : Bool := b == byte ')' || b == byte ']'

section Surplus

variable (opens closes : UInt8 → Bool)

@[simp] theorem surplus_nil : surplus opens closes [] = 0 := rfl

/-- Surpluses add up. -/
theorem surplus_append (s t : Text) :
    surplus opens closes (s ++ t) = surplus opens closes s + surplus opens closes t := by
  simp only [surplus, List.countP_append]
  omega

theorem surplus_cons (b : UInt8) (t : Text) :
    surplus opens closes (b :: t) = surplus opens closes [b] + surplus opens closes t :=
  surplus_append opens closes [b] t

end Surplus

/-- The surplus in brackets of one shape. -/
theorem surplus_beq (opening closing : UInt8) (t : Text) :
    surplus (· == opening) (· == closing) t = t.count opening - t.count closing := rfl

/-! ### The position of a closing bracket -/

/-- The positions behind `start` up to which a text, from `start` on, closes as many
brackets as it opens. -/
def closings (opening closing : UInt8) (s : Text) (start : Nat) : Set Nat :=
  {i | start < i ∧ i < s.length ∧
    surplus (· == opening) (· == closing) (s.extract start (i + 1)) = 0}

section Closing

variable {opening closing : UInt8} {s t u inner rest : Text} {start : Nat}

/-- Where the search for a closing bracket finds none, none is left to be closed by any
beginning of the text. -/
theorem le_of_enclosed?_eq_none (hne : closing ≠ opening) {d : Nat}
    (h : enclosed? opening closing d t = none) :
    ∀ p, p <+: t → p.count closing ≤ d + p.count opening := by
  induction t generalizing d with
  | nil =>
      intro p hp
      simp [List.prefix_nil.1 hp]
  | cons b t ih =>
      intro p hp
      rcases List.prefix_cons_iff.1 hp with rfl | ⟨q, rfl, hq⟩
      · simp
      · by_cases ho : b = opening
        · subst ho
          rw [enclosed?_opening, Option.map_eq_none_iff] at h
          have hle := ih h q hq
          rw [List.count_cons_self, List.count_cons_of_ne (Ne.symm hne)]
          omega
        · by_cases hc : b = closing
          · subst hc
            cases d with
            | zero =>
                rw [enclosed?_closing_zero hne] at h
                cases h
            | succ d =>
                rw [enclosed?_closing_succ hne, Option.map_eq_none_iff] at h
                have hle := ih h q hq
                rw [List.count_cons_self, List.count_cons_of_ne hne]
                omega
          · rw [enclosed?_other ho hc, Option.map_eq_none_iff] at h
            rw [List.count_cons_of_ne hc, List.count_cons_of_ne ho]
            exact ih h q hq

/-- The positions `closings` seen from behind the opening bracket. -/
theorem mem_closings_iff (hne : closing ≠ opening) (hs : s.drop start = opening :: u) {i : Nat} :
    i ∈ closings opening closing s start ↔
      ∃ j, i = start + 1 + j ∧ j < u.length ∧
        (u.take (j + 1)).count closing = (u.take (j + 1)).count opening + 1 := by
  have hlength : s.length = start + 1 + u.length := by
    have hdrop := congrArg List.length hs
    rw [List.length_drop, List.length_cons] at hdrop
    omega
  have hextract : ∀ j, s.extract start (start + 1 + j + 1) = opening :: u.take (j + 1) := by
    intro j
    have hwidth : start + 1 + j + 1 - start = j + 1 + 1 := by omega
    rw [List.extract_eq_take_drop, hs, hwidth, List.take_succ_cons]
  -- The opening bracket itself is the one by which the closing ones are ahead.
  have hsurplus : ∀ p : Text, surplus (· == opening) (· == closing) (opening :: p) = 0 ↔
      p.count closing = p.count opening + 1 := by
    intro p
    rw [surplus_beq, List.count_cons_self, List.count_cons_of_ne (Ne.symm hne)]
    omega
  constructor
  · rintro ⟨hlt, hbound, hzero⟩
    obtain ⟨j, rfl⟩ := Nat.exists_eq_add_of_le (Nat.succ_le_of_lt hlt)
    rw [Nat.succ_eq_add_one, hextract, hsurplus] at hzero
    exact ⟨j, rfl, by omega, hzero⟩
  · rintro ⟨j, rfl, hj, hcount⟩
    refine ⟨by omega, by omega, ?_⟩
    rw [hextract, hsurplus]
    exact hcount

/-- Behind a balanced text stands the first closing bracket that makes up for the opening
one. -/
theorem isLeast_closings (hne : closing ≠ opening)
    (hs : s.drop start = opening :: (inner ++ closing :: rest))
    (hbalanced : Balanced opening closing inner) :
    IsLeast (closings opening closing s start) (start + 1 + inner.length) := by
  constructor
  · rw [mem_closings_iff hne hs]
    have htake : (inner ++ closing :: rest).take (inner.length + 1) = inner ++ [closing] := by
      simp [List.take_append]
    have htotal := hbalanced.total
    refine ⟨inner.length, rfl, by simp, ?_⟩
    rw [htake, List.count_append, List.count_append, List.count_singleton_self,
      List.count_singleton, htotal]
    simp [hne]
  · intro i hi
    obtain ⟨j, rfl, hj, hcount⟩ := (mem_closings_iff hne hs).1 hi
    by_contra hlt
    -- a position inside of the brackets, up to which too few have been closed
    have hprefix : (inner ++ closing :: rest).take (j + 1) <+: inner := by
      rw [List.take_append_of_le_length (by omega)]
      exact List.take_prefix (j + 1) inner
    have hle := hbalanced.beginning _ hprefix
    omega

/-- If there is such a position at all, a balanced text follows the opening bracket. -/
theorem exists_balanced_of_mem_closings (hne : closing ≠ opening)
    (hs : s.drop start = opening :: u) {i : Nat} (hi : i ∈ closings opening closing s start) :
    ∃ inner rest, u = inner ++ closing :: rest ∧ Balanced opening closing inner := by
  cases hsearch : enclosed? opening closing 0 u with
  | none =>
      obtain ⟨j, -, -, hcount⟩ := (mem_closings_iff hne hs).1 hi
      have hle := le_of_enclosed?_eq_none hne hsearch _ (List.take_prefix (j + 1) u)
      omega
  | some parts => exact ⟨parts.1, parts.2, (enclosed?_eq_some_iff hne).1 hsearch⟩

end Closing

/-! ### The position of a comma -/

/-- A comma at a position in front of which as many brackets have been closed as opened,
`depth` of them opened before the text. -/
def IsOutside (depth : Int) (t : Text) (i : Nat) : Prop :=
  t[i]? = some (byte ',') ∧ depth + surplus isOpening isClosing (t.take i) = 0

/-- The positions of the commas of a text that stand in no bracket. -/
def commasOutside (t : Text) : Set Nat := {i | IsOutside 0 t i}

section Comma

variable {b : UInt8} {d : Int} {t l r : Text}

theorem isOutside_zero_iff : IsOutside d (b :: t) 0 ↔ b = byte ',' ∧ d = 0 := by
  simp [IsOutside]

/-- A byte in front counts for the level of all that follow. -/
theorem isOutside_succ_iff {i : Nat} :
    IsOutside d (b :: t) (i + 1) ↔ IsOutside (d + surplus isOpening isClosing [b]) t i := by
  rw [IsOutside, IsOutside, List.getElem?_cons_succ, List.take_succ_cons, surplus_cons,
    Int.add_assoc]

/-- A byte at which the text is not divided changes the depth by its own surplus. -/
theorem cutOutside?_step (hstop : ¬ (b = byte ',' ∧ d = 0)) (t : Text) :
    cutOutside? (byte ',') d (b :: t) =
      (cutOutside? (byte ',') (d + surplus isOpening isClosing [b]) t).map (prepend [b]) := by
  by_cases hopening : b = byte '(' ∨ b = byte '['
  · have hone : surplus isOpening isClosing [b] = 1 := by
      rcases hopening with rfl | rfl <;> rfl
    rw [cutOutside?_opening hopening, hone]
  · by_cases hclosing : b = byte ')' ∨ b = byte ']'
    · have hone : surplus isOpening isClosing [b] = -1 := by
        rcases hclosing with rfl | rfl <;> rfl
      rw [cutOutside?_closing hclosing, hone, Int.sub_eq_add_neg]
    · rw [not_or] at hopening hclosing
      have hother : isBracket b = false := by
        simp [isBracket, hopening, hclosing]
      have hzero : surplus isOpening isClosing [b] = 0 := by
        simp [surplus, isOpening, isClosing, hopening, hclosing]
      rw [cutOutside?_other hother hstop, hzero, Int.add_zero]

/-- A text is divided at the first comma that stands in no bracket. -/
theorem isLeast_of_cutOutside? (h : cutOutside? (byte ',') d t = some (l, r)) :
    t = l ++ byte ',' :: r ∧ IsLeast {i | IsOutside d t i} l.length := by
  induction t generalizing d l with
  | nil => cases h
  | cons b t ih =>
      by_cases hstop : b = byte ',' ∧ d = 0
      · obtain ⟨rfl, rfl⟩ := hstop
        rw [cutOutside?_comma] at h
        obtain ⟨rfl, rfl⟩ := Prod.mk.inj (Option.some.inj h)
        exact ⟨rfl, isOutside_zero_iff.2 ⟨rfl, rfl⟩, fun i _ => Nat.zero_le i⟩
      · rw [cutOutside?_step hstop, map_prepend_eq_some_iff] at h
        obtain ⟨l', hcut, rfl⟩ := h
        obtain ⟨rfl, hmem, hleast⟩ := ih hcut
        refine ⟨rfl, isOutside_succ_iff.2 hmem, fun i hi => ?_⟩
        cases i with
        | zero => exact absurd (isOutside_zero_iff.1 hi) hstop
        | succ i => exact Nat.succ_le_succ (hleast (isOutside_succ_iff.1 hi))

/-- If nothing is cut, there is no comma outside the brackets. -/
theorem not_isOutside_of_cutOutside? (h : cutOutside? (byte ',') d t = none) (i : Nat) :
    ¬ IsOutside d t i := by
  induction t generalizing d i with
  | nil =>
      rintro ⟨hget, -⟩
      simp at hget
  | cons b t ih =>
      have hstop : ¬ (b = byte ',' ∧ d = 0) := by
        rintro ⟨rfl, rfl⟩
        rw [cutOutside?_comma] at h
        cases h
      rw [cutOutside?_step hstop, Option.map_eq_none_iff] at h
      cases i with
      | zero => exact mt isOutside_zero_iff.1 hstop
      | succ i => exact mt isOutside_succ_iff.1 (ih h i)

/-- A text is not cut exactly if it has no such comma. -/
theorem cutOutside?_eq_none_iff :
    cutOutside? (byte ',') 0 t = none ↔ commasOutside t = ∅ := by
  rw [Set.eq_empty_iff_forall_notMem]
  refine ⟨not_isOutside_of_cutOutside?, fun hempty => ?_⟩
  rw [Option.eq_none_iff_forall_ne_some]
  rintro ⟨l, r⟩ hcut
  exact hempty l.length (isLeast_of_cutOutside? hcut).2.1

/-- The two sides of the comma, without the white space around them. -/
theorem cutOutside?_trim_eq_some_iff :
    (cutOutside? (byte ',') 0 t).map (Prod.map trim trim) = some (l, r) ↔
      ∃ i, IsLeast (commasOutside t) i ∧ l = trim (t.take i) ∧ r = trim (t.drop (i + 1)) := by
  cases hcut : cutOutside? (byte ',') 0 t with
  | none =>
      refine iff_of_false (by simp) ?_
      rintro ⟨i, hleast, -⟩
      exact not_isOutside_of_cutOutside? hcut i hleast.1
  | some sides =>
      obtain ⟨l', r'⟩ := sides
      obtain ⟨rfl, hleast⟩ := isLeast_of_cutOutside? hcut
      have hdrop : (l' ++ byte ',' :: r').drop (l'.length + 1) = r' := by
        rw [← List.drop_drop, List.drop_left, List.drop_one, List.tail_cons]
      rw [Option.map_some, Option.some.injEq, Prod.map_apply, Prod.mk.injEq]
      constructor
      · rintro ⟨rfl, rfl⟩
        exact ⟨l'.length, hleast, by rw [List.take_left], by rw [hdrop]⟩
      · rintro ⟨i, hi, rfl, rfl⟩
        obtain rfl := hleast.unique hi
        exact ⟨by rw [List.take_left], by rw [hdrop]⟩

end Comma

end Brackets

namespace Substitution

open Brackets

/-! ### Brackets and commas in the text of a call -/

/-- What stands in the brackets that open at a position, and the position at which they
close. -/
def groupAt (opening closing : Char) (s : Text) (start : Nat) :
    Except EvalError (Text × Nat) := do
  let (inner, rest) ← group opening closing s (s.drop start)
  return (inner, s.length - rest.length - 1)

section Positions

variable {opening closing : Char} {s inner : Text} {start i : Nat}

theorem getElem?_eq_some_iff_drop {b : UInt8} :
    s[start]? = some b ↔ ∃ u, s.drop start = b :: u := by
  rw [← List.head?_drop, List.head?_eq_some_iff]

/-- The brackets at a position, by what they are made of. -/
theorem groupAt_eq_ok_iff_balanced (hne : byte opening ≠ byte closing) :
    groupAt opening closing s start = .ok (inner, i) ↔
      ∃ rest, s.drop start = byte opening :: (inner ++ byte closing :: rest) ∧
        Balanced (byte opening) (byte closing) inner ∧ i = start + 1 + inner.length := by
  have hposition : ∀ {inner rest : Text},
      s.drop start = byte opening :: (inner ++ byte closing :: rest) →
        s.length - rest.length - 1 = start + 1 + inner.length := by
    intro inner rest hs
    have hdrop := congrArg List.length hs
    rw [List.length_drop, List.length_cons, List.length_append, List.length_cons] at hdrop
    omega
  -- The position is computed from what is left behind the group.
  unfold groupAt
  cases hgroup : group opening closing s (s.drop start) with
  | error e =>
      refine iff_of_false (by simp [bind, Except.bind]) ?_
      rintro ⟨rest, hs, hbalanced, -⟩
      rw [(group_eq_ok_iff s hne.symm).2 ⟨hs, hbalanced⟩] at hgroup
      cases hgroup
  | ok parts =>
      obtain ⟨inner', rest⟩ := parts
      obtain ⟨hs, hbalanced⟩ := (group_eq_ok_iff s hne.symm).1 hgroup
      constructor
      · intro h
        obtain ⟨rfl, rfl⟩ := Prod.mk.inj (Except.ok.inj h)
        exact ⟨rest, hs, hbalanced, hposition hs⟩
      · rintro ⟨rest', hs', hbalanced', rfl⟩
        rw [(group_eq_ok_iff s hne.symm).2 ⟨hs', hbalanced'⟩] at hgroup
        obtain ⟨rfl, rfl⟩ := Prod.mk.inj (Except.ok.inj hgroup)
        rw [← hposition hs]
        rfl

/-- A group ends at the first position at which its bracket is closed. -/
theorem groupAt_eq_ok_iff (hne : byte opening ≠ byte closing) :
    groupAt opening closing s start = .ok (inner, i) ↔
      s[start]? = some (byte opening) ∧
        IsLeast (closings (byte opening) (byte closing) s start) i ∧
        inner = s.extract (start + 1) i := by
  have hextract : ∀ {inner rest : Text},
      s.drop start = byte opening :: (inner ++ byte closing :: rest) →
        s.extract (start + 1) (start + 1 + inner.length) = inner := by
    intro inner rest hs
    rw [List.extract_eq_take_drop, ← List.drop_drop, hs, List.drop_one, List.tail_cons,
      Nat.add_sub_cancel_left, List.take_left]
  rw [groupAt_eq_ok_iff_balanced hne]
  constructor
  · rintro ⟨rest, hs, hbalanced, rfl⟩
    exact ⟨getElem?_eq_some_iff_drop.2 ⟨_, hs⟩, isLeast_closings hne.symm hs hbalanced,
      (hextract hs).symm⟩
  · rintro ⟨hopening, hleast, rfl⟩
    obtain ⟨u, hs⟩ := getElem?_eq_some_iff_drop.1 hopening
    obtain ⟨inner, rest, rfl, hbalanced⟩ :=
      exists_balanced_of_mem_closings hne.symm hs hleast.1
    obtain rfl := hleast.unique (isLeast_closings hne.symm hs hbalanced)
    rw [hextract hs]
    exact ⟨rest, hs, hbalanced, rfl⟩

/-- There is no group if no bracket opens, or if it is never closed. -/
theorem groupAt_eq_error_iff (hne : byte opening ≠ byte closing) :
    (∃ e, groupAt opening closing s start = .error e) ↔
      s[start]? ≠ some (byte opening) ∨
        closings (byte opening) (byte closing) s start = ∅ := by
  cases hgroup : groupAt opening closing s start with
  | ok parts =>
      obtain ⟨hopening, hleast, -⟩ := (groupAt_eq_ok_iff hne).1 hgroup
      refine iff_of_false (by simp) ?_
      rintro (hno | hempty)
      · exact hno hopening
      · exact Set.eq_empty_iff_forall_notMem.1 hempty _ hleast.1
  | error e =>
      refine iff_of_true ⟨e, rfl⟩ (or_iff_not_imp_left.2 fun hopening => ?_)
      obtain ⟨u, hs⟩ := getElem?_eq_some_iff_drop.1 (not_not.1 hopening)
      rw [Set.eq_empty_iff_forall_notMem]
      intro i hi
      obtain ⟨inner, rest, rfl, hbalanced⟩ := exists_balanced_of_mem_closings hne.symm hs hi
      rw [(groupAt_eq_ok_iff_balanced hne).2 ⟨rest, hs, hbalanced, rfl⟩] at hgroup
      cases hgroup

end Positions

/-- **Brackets and commas by position.**  Brackets that open at a position are closed at the
first position up to which as many are closed as opened, what stands between is balanced, and
they are not found exactly if there is no opening bracket or no such position.  A text is
divided at the first comma in front of which as many brackets of both shapes are closed as
opened, and is not divided exactly if there is none. -/
theorem group_and_comma_positions (s : Text) :
    (∀ (opening closing : Char) (start : Nat), byte opening ≠ byte closing →
      (∀ inner i, groupAt opening closing s start = .ok (inner, i) ↔
        s[start]? = some (byte opening) ∧
          IsLeast (closings (byte opening) (byte closing) s start) i ∧
          inner = s.extract (start + 1) i) ∧
      (∀ inner i, groupAt opening closing s start = .ok (inner, i) →
        Balanced (byte opening) (byte closing) inner) ∧
      ((∃ e, groupAt opening closing s start = .error e) ↔
        s[start]? ≠ some (byte opening) ∨
          closings (byte opening) (byte closing) s start = ∅)) ∧
    (∀ l r, (cutOutside? (byte ',') 0 s).map (Prod.map trim trim) = some (l, r) ↔
      ∃ i, IsLeast (commasOutside s) i ∧ l = trim (s.take i) ∧ r = trim (s.drop (i + 1))) ∧
    (cutOutside? (byte ',') 0 s = none ↔ commasOutside s = ∅) := by
  refine ⟨fun opening closing start hne => ?_, fun l r => cutOutside?_trim_eq_some_iff,
    cutOutside?_eq_none_iff⟩
  refine ⟨fun inner i => groupAt_eq_ok_iff hne, fun inner i hgroup => ?_,
    groupAt_eq_error_iff hne⟩
  obtain ⟨rest, -, hbalanced, -⟩ := (groupAt_eq_ok_iff_balanced hne).1 hgroup
  exact hbalanced

/-- Round brackets around square ones that do not match, and a square bracket that is not
closed. -/
theorem group_and_comma_positions_unmatched :
    (byte '(' ≠ byte ')' ∧
      IsLeast (closings (byte '(') (byte ')') "](x(a),b],[)c[,d(" 1) 11 ∧
      Balanced (byte '(') (byte ')') "x(a),b],[") ∧
    byte '[' ≠ byte ']' ∧ closings (byte '[') (byte ']') "](x(a),b],[)c[,d(" 10 = ∅ := by
  obtain ⟨hbrackets, -⟩ := group_and_comma_positions "](x(a),b],[)c[,d("
  obtain ⟨hround, hbalanced, -⟩ := hbrackets '(' ')' 1 (by decide)
  obtain ⟨-, -, hsquare⟩ := hbrackets '[' ']' 10 (by decide)
  have hfound : groupAt '(' ')' "](x(a),b],[)c[,d(" 1 =
      .ok (Text.ofString "x(a),b],[", 11) := rfl
  have hmissing : groupAt '[' ']' "](x(a),b],[)c[,d(" 10 =
      .error (.invalid (.noClosing ']' "](x(a),b],[)c[,d(")) := rfl
  refine ⟨⟨by decide, ((hround _ _).1 hfound).2.1, hbalanced _ _ hfound⟩, by decide, ?_⟩
  exact (hsquare.1 ⟨_, hmissing⟩).resolve_left (not_not.2 (by decide))

/-- The first comma stands where more brackets are closed than opened. -/
example : cutOutside? (byte ',') 0 ")a,b(c,d" =
    some (Text.ofString ")a,b(c", Text.ofString "d") := by decide

end Substitution

end LineScript
