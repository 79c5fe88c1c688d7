/-
LineScript/Proofs/Brackets.lean

Looking for brackets and commas in a text.

* The search for the bracket that closes an open one counts the brackets of its own shape
  only.  It ends behind the first text that is balanced in them: no beginning of it closes
  more brackets than it opens, and all that it opens are closed
  (`enclosed?_eq_some_iff`).
* `Closed commas t` says that every bracket of `t`, of either shape, has its partner in
  `t`, and whether commas may stand outside of its brackets.  Such a text is balanced in
  brackets of both shapes (`Closed.balanced`), and the search for a comma steps over it as
  a whole (`cutOutside?_append`).
-/
import LineScript.Expression.Brackets
import LineScript.Proofs.Trimming

namespace LineScript

open Text

namespace Brackets

/-- The brackets of both shapes. -/
def isBracket (b : UInt8) : Bool :=
  b == byte '(' || b == byte ')' || b == byte '[' || b == byte ']'

/-- Texts in which brackets match.  Inside of brackets there may be commas. -/
inductive Closed : (commas : Bool) → Text → Prop where
  | nil {c : Bool} : Closed c []
  | byte {c : Bool} {b : UInt8} {t : Text} :
      isBracket b = false → (b = Text.byte ',' → c = true) → Closed c t →
      Closed c (b :: t)
  | round {c : Bool} {s t : Text} :
      Closed true s → Closed c t →
      Closed c (Text.byte '(' :: (s ++ Text.byte ')' :: t))
  | square {c : Bool} {s t : Text} :
      Closed true s → Closed c t →
      Closed c (Text.byte '[' :: (s ++ Text.byte ']' :: t))

/-- Texts in which all brackets are closed may be joined. -/
theorem Closed.append {c : Bool} {s t : Text} (hs : Closed c s) (ht : Closed c t) :
    Closed c (s ++ t) := by
  induction hs with
  | nil => exact ht
  | byte hb hcomma _ ih => exact .byte hb hcomma (ih ht)
  | @round c u v hu _ _ ih =>
      have hround := Closed.round hu (ih ht)
      simpa using hround
  | @square c u v hu _ _ ih =>
      have hsquare := Closed.square hu (ih ht)
      simpa using hsquare

/-- A text without brackets and commas has nothing to close. -/
theorem closed_of_forall {c : Bool} {t : Text}
    (h : ∀ b ∈ t, isBracket b = false ∧ b ≠ byte ',') : Closed c t := by
  induction t with
  | nil => exact .nil
  | cons b t ih =>
      obtain ⟨⟨hbracket, hcomma⟩, ht⟩ := List.forall_mem_cons.1 h
      exact .byte hbracket (fun h => absurd h hcomma) (ih ht)

/-- Put a text in front of the first of two. -/
def prepend (s : Text) (p : Text × Text) : Text × Text := (s ++ p.1, p.2)

theorem map_prepend_nil (p : Option (Text × Text)) : p.map (prepend []) = p := by
  cases p <;> rfl

theorem map_prepend_prepend (s t : Text) (p : Option (Text × Text)) :
    (p.map (prepend t)).map (prepend s) = p.map (prepend (s ++ t)) := by
  have hcomp : prepend s ∘ prepend t = prepend (s ++ t) := by
    funext q
    simp [prepend]
  rw [Option.map_map, hcomp]

/-! ### The bracket that closes an open one -/

/-- No beginning of the text closes more brackets than it opens, and the text closes as many
as it opens. -/
structure Balanced (opening closing : UInt8) (t : Text) : Prop where
  beginning : ∀ p, p <+: t → p.count closing ≤ p.count opening
  total : t.count closing = t.count opening

/-- The same for a text in front of which `depth` brackets have been opened, all of which it
closes. -/
structure Closes (opening closing : UInt8) (depth : Nat) (t : Text) : Prop where
  beginning : ∀ p, p <+: t → p.count closing ≤ depth + p.count opening
  total : t.count closing = depth + t.count opening

section Search

variable {opening closing : UInt8} {d : Nat} {t : Text}

/-- An opening bracket begins another level. -/
theorem enclosed?_opening (d : Nat) (t : Text) :
    enclosed? opening closing d (opening :: t) =
      (enclosed? opening closing (d + 1) t).map (prepend [opening]) := by
  rw [enclosed?.eq_def]
  exact if_pos rfl

/-- A closing bracket ends the innermost level. -/
theorem enclosed?_closing_succ (hne : closing ≠ opening) (d : Nat) (t : Text) :
    enclosed? opening closing (d + 1) (closing :: t) =
      (enclosed? opening closing d t).map (prepend [closing]) := by
  rw [enclosed?, if_neg hne, if_pos rfl]
  rfl

/-- The closing bracket of the outermost level ends the search. -/
theorem enclosed?_closing_zero (hne : closing ≠ opening) (t : Text) :
    enclosed? opening closing 0 (closing :: t) = some ([], t) := by
  rw [enclosed?, if_neg hne, if_pos rfl]

/-- Bytes other than the two brackets are passed over. -/
theorem enclosed?_other {b : UInt8} (ho : b ≠ opening) (hc : b ≠ closing) (d : Nat)
    (t : Text) :
    enclosed? opening closing d (b :: t) =
      (enclosed? opening closing d t).map (prepend [b]) := by
  rw [enclosed?.eq_def]
  exact (if_neg ho).trans (if_neg hc)

/-- To close no level is to be balanced. -/
theorem closes_zero_iff : Closes opening closing 0 t ↔ Balanced opening closing t := by
  constructor
  · rintro ⟨hbeginning, htotal⟩
    simp only [Nat.zero_add] at hbeginning htotal
    exact ⟨hbeginning, htotal⟩
  · rintro ⟨hbeginning, htotal⟩
    refine ⟨?_, ?_⟩ <;> simpa only [Nat.zero_add]

/-- At the end of a text no level may be left. -/
theorem closes_nil_iff : Closes opening closing d [] ↔ d = 0 := by
  constructor
  · intro h
    simpa using h.total.symm
  · rintro rfl
    exact ⟨by simp, rfl⟩

/-- A byte changes the number of open brackets from `d` to `e`. -/
theorem closes_cons_iff {e : Nat} {b : UInt8}
    (hnext : d + [b].count opening = e + [b].count closing) :
    Closes opening closing d (b :: t) ↔ Closes opening closing e t := by
  have hcons : ∀ (c : UInt8) (p : Text), (b :: p).count c = [b].count c + p.count c := by
    intro c p
    rw [← List.singleton_append, List.count_append]
  constructor
  · intro h
    refine ⟨fun p hp => ?_, ?_⟩
    · have hbeginning := h.beginning (b :: p) ((List.prefix_cons_inj b).2 hp)
      rw [hcons closing p, hcons opening p] at hbeginning
      omega
    · have htotal := h.total
      rw [hcons closing t, hcons opening t] at htotal
      omega
  · intro h
    refine ⟨fun p hp => ?_, ?_⟩
    · rcases List.prefix_cons_iff.1 hp with rfl | ⟨q, rfl, hq⟩
      · simp
      · have hbeginning := h.beginning q hq
        rw [hcons closing q, hcons opening q]
        omega
    · have htotal := h.total
      rw [hcons closing t, hcons opening t]
      omega

/-- An opening bracket is one level more to close. -/
theorem closes_opening_iff (hne : closing ≠ opening) :
    Closes opening closing d (opening :: t) ↔ Closes opening closing (d + 1) t := by
  apply closes_cons_iff
  simp [Ne.symm hne]

/-- A closing bracket is one level less to close. -/
theorem closes_closing_iff (hne : closing ≠ opening) :
    Closes opening closing (d + 1) (closing :: t) ↔ Closes opening closing d t := by
  apply closes_cons_iff
  simp [hne]

theorem closes_other_iff {b : UInt8} (ho : b ≠ opening) (hc : b ≠ closing) :
    Closes opening closing d (b :: t) ↔ Closes opening closing d t := by
  apply closes_cons_iff
  simp [ho, hc]

/-- Nothing is left to be closed. -/
theorem not_closes_zero (hne : closing ≠ opening) :
    ¬ Closes opening closing 0 (closing :: t) := by
  intro h
  have hbeginning := h.beginning [closing] (by simp)
  simp [hne] at hbeginning

/-- A byte that leaves brackets to be closed does not end the search. -/
theorem cons_closes_iff {e : Nat} {b : UInt8} {inner rest : Text}
    (hb : b = closing → d ≠ 0)
    (hnext : ∀ u, Closes opening closing d (b :: u) ↔ Closes opening closing e u) :
    b :: t = inner ++ closing :: rest ∧ Closes opening closing d inner ↔
      ∃ i, (t = i ++ closing :: rest ∧ Closes opening closing e i) ∧ b :: i = inner := by
  cases inner with
  | nil =>
      refine iff_of_false ?_ (by simp)
      rintro ⟨htext, hcloses⟩
      exact hb (List.cons.inj htext).1 (closes_nil_iff.1 hcloses)
  | cons c inner =>
      constructor
      · rintro ⟨htext, hcloses⟩
        obtain ⟨rfl, htail⟩ := List.cons.inj htext
        exact ⟨inner, ⟨htail, (hnext inner).1 hcloses⟩, rfl⟩
      · rintro ⟨i, ⟨rfl, hcloses⟩, hinner⟩
        obtain ⟨rfl, rfl⟩ := List.cons.inj hinner
        exact ⟨rfl, (hnext i).2 hcloses⟩

theorem map_prepend_eq_some_iff {b : UInt8} {p : Option (Text × Text)} {inner rest : Text} :
    p.map (prepend [b]) = some (inner, rest) ↔ ∃ i, p = some (i, rest) ∧ b :: i = inner := by
  rw [Option.map_eq_some_iff]
  constructor
  · rintro ⟨⟨i, r⟩, hp, heq⟩
    obtain ⟨rfl, rfl⟩ := Prod.mk.inj heq
    exact ⟨i, hp, rfl⟩
  · rintro ⟨i, hp, rfl⟩
    exact ⟨(i, rest), hp, rfl⟩

/-- The search ends with the bracket that closes the last of those that are open. -/
theorem enclosed?_eq_some_iff_closes (hne : closing ≠ opening) {inner rest : Text} :
    enclosed? opening closing d t = some (inner, rest) ↔
      t = inner ++ closing :: rest ∧ Closes opening closing d inner := by
  -- Both sides count the open brackets while going through the text, so the induction is
  -- for all depths and follows the three kinds of bytes.
  induction t generalizing d inner with
  | nil => simp [enclosed?]
  | cons b t ih =>
      by_cases ho : b = opening
      · subst ho
        rw [enclosed?_opening, map_prepend_eq_some_iff,
          cons_closes_iff (fun h => absurd h.symm hne) fun _ => closes_opening_iff hne]
        exact exists_congr fun i => and_congr_left fun _ => ih
      · by_cases hc : b = closing
        · subst hc
          cases d with
          | zero =>
              rw [enclosed?_closing_zero hne]
              constructor
              · intro h
                obtain ⟨rfl, rfl⟩ := Prod.mk.inj (Option.some.inj h)
                exact ⟨rfl, closes_nil_iff.2 rfl⟩
              · rintro ⟨htext, hcloses⟩
                cases inner with
                | nil => rw [(List.cons.inj htext).2]
                | cons c inner =>
                    obtain ⟨rfl, -⟩ := List.cons.inj htext
                    exact absurd hcloses (not_closes_zero hne)
          | succ d =>
              rw [enclosed?_closing_succ hne, map_prepend_eq_some_iff,
                cons_closes_iff (fun _ => Nat.succ_ne_zero d) fun _ => closes_closing_iff hne]
              exact exists_congr fun i => and_congr_left fun _ => ih
        · rw [enclosed?_other ho hc, map_prepend_eq_some_iff,
            cons_closes_iff (fun h => absurd h hc) fun _ => closes_other_iff ho hc]
          exact exists_congr fun i => and_congr_left fun _ => ih

end Search

/-- The search for the bracket that closes an open one ends behind the balanced text that
follows. -/
theorem enclosed?_eq_some_iff {opening closing : UInt8} (hne : closing ≠ opening)
    {t inner rest : Text} :
    enclosed? opening closing 0 t = some (inner, rest) ↔
      t = inner ++ closing :: rest ∧ Balanced opening closing inner := by
  rw [enclosed?_eq_some_iff_closes hne, closes_zero_iff]

/-! ### Texts in which all brackets match -/

/-- The two shapes of brackets. -/
def IsPair (opening closing : UInt8) : Prop :=
  (opening = byte '(' ∧ closing = byte ')') ∨ (opening = byte '[' ∧ closing = byte ']')

theorem IsPair.ne {opening closing : UInt8} (h : IsPair opening closing) :
    closing ≠ opening := by
  rcases h with ⟨rfl, rfl⟩ | ⟨rfl, rfl⟩ <;> decide

section Matching

variable {opening closing : UInt8} {s t : Text}

/-- A balanced text in front does not matter for the levels that are to be closed. -/
theorem Balanced.closes_append {d : Nat} (hs : Balanced opening closing s)
    (ht : Closes opening closing d t) : Closes opening closing d (s ++ t) := by
  refine ⟨fun p hp => ?_, ?_⟩
  · rcases isPrefix_append_cases hp with hp | ⟨b, q, rfl, hq⟩
    · exact Nat.le_add_left_of_le (hs.beginning p hp)
    · have hbeginning := ht.beginning (b :: q) hq
      have htotal := hs.total
      rw [List.count_append, List.count_append]
      omega
  · have htotal := hs.total
    have htotal' := ht.total
    rw [List.count_append, List.count_append]
    omega

/-- Balanced texts in a pair of brackets and behind it make a balanced text, whether the
brackets are of the shape that is counted or not. -/
theorem Balanced.pair (hpair : IsPair opening closing) {o c : UInt8} (hoc : IsPair o c)
    (hs : Balanced opening closing s) (ht : Balanced opening closing t) :
    Balanced opening closing (o :: (s ++ c :: t)) := by
  have hsame : o = opening ∧ c = closing ∨
      (o ≠ opening ∧ o ≠ closing) ∧ c ≠ opening ∧ c ≠ closing := by
    rcases hpair with ⟨rfl, rfl⟩ | ⟨rfl, rfl⟩ <;>
      rcases hoc with ⟨rfl, rfl⟩ | ⟨rfl, rfl⟩ <;> decide
  rw [← closes_zero_iff] at ht ⊢
  rcases hsame with ⟨rfl, rfl⟩ | ⟨⟨h₁, h₂⟩, h₃, h₄⟩
  · rw [closes_opening_iff hpair.ne]
    exact hs.closes_append ((closes_closing_iff hpair.ne).2 ht)
  · rw [closes_other_iff h₁ h₂]
    exact hs.closes_append ((closes_other_iff h₃ h₄).2 ht)

/-- A text in which all brackets are closed is balanced for each pair of them. -/
theorem Closed.balanced (hpair : IsPair opening closing) {commas : Bool}
    (h : Closed commas t) : Balanced opening closing t := by
  induction h with
  | nil => exact closes_zero_iff.1 (closes_nil_iff.2 rfl)
  | @byte _ b t hb _ _ ih =>
      have hne : b ≠ opening ∧ b ≠ closing := by
        rcases hpair with ⟨rfl, rfl⟩ | ⟨rfl, rfl⟩ <;> constructor <;>
          · rintro rfl
            exact absurd hb (by decide)
      rw [← closes_zero_iff] at ih ⊢
      exact (closes_other_iff hne.1 hne.2).2 ih
  | round _ _ ih₁ ih₂ => exact ih₁.pair hpair (.inl ⟨rfl, rfl⟩) ih₂
  | square _ _ ih₁ ih₂ => exact ih₁.pair hpair (.inr ⟨rfl, rfl⟩) ih₂

end Matching

/-! ### Commas outside of brackets -/

/-- Behind an opening bracket the separator is one level deeper. -/
theorem cutOutside?_opening {b : UInt8} (hb : b = byte '(' ∨ b = byte '[')
    (sep : UInt8) (d : Int) (t : Text) :
    cutOutside? sep d (b :: t) = (cutOutside? sep (d + 1) t).map (prepend [b]) := by
  simp only [cutOutside?, if_pos hb]
  rfl

/-- Behind a closing bracket it is one level higher, below zero if need be. -/
theorem cutOutside?_closing {b : UInt8} (hb : b = byte ')' ∨ b = byte ']')
    (sep : UInt8) (d : Int) (t : Text) :
    cutOutside? sep d (b :: t) = (cutOutside? sep (d - 1) t).map (prepend [b]) := by
  have hno : ¬ (b = byte '(' ∨ b = byte '[') := by
    rcases hb with rfl | rfl <;> decide
  simp only [cutOutside?, if_neg hno, if_pos hb]
  rfl

/-- Other bytes are passed over, and so is the separator within brackets. -/
theorem cutOutside?_other {b sep : UInt8} {d : Int} (hb : isBracket b = false)
    (hsep : ¬ (b = sep ∧ d = 0)) (t : Text) :
    cutOutside? sep d (b :: t) = (cutOutside? sep d t).map (prepend [b]) := by
  have hopening : ¬ (b = byte '(' ∨ b = byte '[') := by
    rintro (rfl | rfl) <;> exact absurd hb (by decide)
  have hclosing : ¬ (b = byte ')' ∨ b = byte ']') := by
    rintro (rfl | rfl) <;> exact absurd hb (by decide)
  simp only [cutOutside?, if_neg hopening, if_neg hclosing, if_neg hsep]
  rfl

theorem cutOutside?_comma (t : Text) :
    cutOutside? (byte ',') 0 (byte ',' :: t) = some ([], t) := rfl

/-- The search for a comma steps over a text with matching brackets.  Where commas
stand outside of the brackets of the text, it must stand in a bracket itself. -/
theorem cutOutside?_append {commas : Bool} {s : Text} (hs : Closed commas s) {d : Int}
    (hd : 0 ≤ d) (hcommas : commas = true → 0 < d) (rest : Text) :
    cutOutside? (byte ',') d (s ++ rest) =
      (cutOutside? (byte ',') d rest).map (prepend s) := by
  induction hs generalizing d rest with
  | nil => exact (map_prepend_nil _).symm
  | @byte c b t hb hcomma _ ih =>
      have hsep : ¬ (b = Text.byte ',' ∧ d = 0) := by
        rintro ⟨h, rfl⟩
        exact absurd (hcommas (hcomma h)) (by omega)
      rw [List.cons_append, cutOutside?_other hb hsep, ih hd hcommas, map_prepend_prepend]
      rfl
  | @round c s t _ _ ih₁ ih₂ =>
      simp only [List.cons_append, List.append_assoc]
      rw [cutOutside?_opening (.inl rfl), ih₁ (by omega) (fun _ => by omega),
        cutOutside?_closing (.inl rfl), Int.add_sub_cancel, ih₂ hd hcommas]
      simp only [map_prepend_prepend]
      simp
  | @square c s t _ _ ih₁ ih₂ =>
      simp only [List.cons_append, List.append_assoc]
      rw [cutOutside?_opening (.inr rfl), ih₁ (by omega) (fun _ => by omega),
        cutOutside?_closing (.inr rfl), Int.add_sub_cancel, ih₂ hd hcommas]
      simp only [map_prepend_prepend]
      simp

/-- Two texts with a comma between them. -/
theorem cutOutside?_closed {s : Text} (hs : Closed false s) (t : Text) :
    cutOutside? (byte ',') 0 (s ++ byte ',' :: t) = some (s, t) := by
  rw [cutOutside?_append hs (by omega) (by simp), cutOutside?_comma]
  simp [prepend]

end Brackets

end LineScript
