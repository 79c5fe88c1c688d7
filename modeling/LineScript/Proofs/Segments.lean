/-
LineScript/Proofs/Segments.lean

Texts with expressions in braces, and the segments that they are divided into.

A list of segments is normal if nothing in it is empty, no expression has a brace in
it, and no two literals stand next to each other (`Interpolation.Normal`).  Whatever a
text is divided into is normal (`normal_of_segments`).

Writing a normal list and dividing the text gives the list back, unless a literal that
ends in a backslash stands before an expression: its backslash and the brace behind it
are taken for a brace that stands for itself.  There is no other way to lose a normal
list (`segments_render_iff_normal`).
-/
import LineScript.Statement.Interpolation
import Mathlib.Data.List.Chain

namespace LineScript

open Text Interpolation

/-! ### Normal lists -/

/-- A segment that is not empty and, if it is an expression, has no brace in it. -/
def Segment.Proper : Segment → Prop
  | .literal t => t ≠ []
  | .expression t => t ≠ [] ∧ openBrace ∉ t ∧ closeBrace ∉ t

/-- Two segments that are not both literals. -/
def Segment.Apart : Segment → Segment → Prop
  | .literal _, .literal _ => False
  | _, _ => True

/-- Two segments that are not a literal with a backslash at its end and an expression. -/
def Segment.Clear : Segment → Segment → Prop
  | .literal t, .expression _ => t.getLast? ≠ some backslash
  | _, _ => True

instance : DecidablePred Segment.Proper
  | .literal t => inferInstanceAs (Decidable (t ≠ []))
  | .expression t => inferInstanceAs (Decidable (t ≠ [] ∧ openBrace ∉ t ∧ closeBrace ∉ t))

instance : DecidableRel Segment.Apart
  | .literal _, .literal _ => inferInstanceAs (Decidable False)
  | .literal _, .expression _ => inferInstanceAs (Decidable True)
  | .expression _, _ => inferInstanceAs (Decidable True)

instance : DecidableRel Segment.Clear
  | .literal t, .expression _ => inferInstanceAs (Decidable (t.getLast? ≠ some backslash))
  | .literal _, .literal _ => inferInstanceAs (Decidable True)
  | .expression _, _ => inferInstanceAs (Decidable True)

namespace Interpolation

/-- The lists of segments that texts are divided into. -/
structure Normal (ss : List Segment) : Prop where
  proper : ∀ s ∈ ss, s.Proper
  apart : ss.IsChain Segment.Apart

/-- No literal that stands before an expression ends in a backslash. -/
def Unambiguous (ss : List Segment) : Prop := ss.IsChain Segment.Clear

instance (ss : List Segment) : Decidable (Normal ss) :=
  decidable_of_iff ((∀ s ∈ ss, s.Proper) ∧ ss.IsChain Segment.Apart)
    ⟨fun ⟨hproper, hapart⟩ => ⟨hproper, hapart⟩, fun ⟨hproper, hapart⟩ => ⟨hproper, hapart⟩⟩

instance (ss : List Segment) : Decidable (Unambiguous ss) :=
  inferInstanceAs (Decidable (ss.IsChain Segment.Clear))

theorem literalSegment_of_ne_nil {t : Text} (ht : t ≠ []) : literalSegment t = [.literal t] := by
  simp [literalSegment, ht]

namespace Normal

variable {ss : List Segment} {t : Text}

theorem nil : Normal [] := ⟨by simp, .nil⟩

/-- An expression may stand in front of any normal list. -/
theorem expression (h : Normal ss) (ht : (Segment.expression t).Proper) :
    Normal (.expression t :: ss) := by
  refine ⟨List.forall_mem_cons.2 ⟨ht, h.proper⟩, List.isChain_cons.2 ⟨?_, h.apart⟩⟩
  intro s _
  cases s <;> trivial

/-- A literal may stand in front of an expression, or at the end. -/
theorem literal (h : Normal ss) (hss : ∀ s ∈ ss.head?, ∃ e, s = .expression e) (t : Text) :
    Normal (literalSegment t ++ ss) := by
  unfold literalSegment
  split
  · exact h
  · next ht =>
      have hproper : (Segment.literal t).Proper := by simpa [Segment.Proper] using ht
      refine ⟨List.forall_mem_cons.2 ⟨hproper, h.proper⟩, List.isChain_cons.2 ⟨?_, h.apart⟩⟩
      intro s hs
      obtain ⟨e, rfl⟩ := hss s hs
      trivial

theorem tail {s : Segment} (h : Normal (s :: ss)) : Normal ss :=
  ⟨(List.forall_mem_cons.1 h.proper).2, (List.isChain_cons.1 h.apart).2⟩

end Normal

/-! ### Byte by byte -/

/-- A brace of either kind. -/
def isBrace (b : UInt8) : Bool := b == openBrace || b == closeBrace

theorem isBrace_iff {b : UInt8} : isBrace b = true ↔ b = openBrace ∨ b = closeBrace := by
  simp [isBrace]

theorem isBrace_eq_false_iff {b : UInt8} :
    isBrace b = false ↔ b ≠ openBrace ∧ b ≠ closeBrace := by
  simp [isBrace]

section Bytes

variable (acc : Text) {b : UInt8} {t : Text}

/-- A brace behind a backslash stands for itself. -/
theorem afterLiteral_escape (hb : isBrace b = true) (t : Text) :
    afterLiteral acc (backslash :: b :: t) = afterLiteral (acc ++ [b]) t := by
  rcases isBrace_iff.1 hb with rfl | rfl <;> rfl

theorem afterLiteral_pair (t : Text) :
    afterLiteral acc (openBrace :: closeBrace :: t) =
      afterLiteral (acc ++ [openBrace, closeBrace]) t := rfl

/-- So does every byte but an opening brace and a backslash before a brace. -/
theorem afterLiteral_plain (hb : b ≠ openBrace)
    (ht : b = backslash → ∀ c ∈ t.head?, isBrace c = false) :
    afterLiteral acc (b :: t) = afterLiteral (acc ++ [b]) t := by
  rw [afterLiteral]
  · rintro u rfl rfl
    exact absurd (ht rfl openBrace rfl) (by decide)
  · rintro u rfl rfl
    exact absurd (ht rfl closeBrace rfl) (by decide)
  · rintro u rfl
    exact absurd rfl hb
  · exact hb

/-- An opening brace begins an expression, unless the closing one follows at once. -/
theorem afterLiteral_open (ht : ∀ c ∈ t.head?, c ≠ closeBrace) :
    afterLiteral acc (openBrace :: t) =
      (inExpression [] t).map fun segments => literalSegment acc ++ segments := by
  refine afterLiteral.eq_5 acc t ?_
  rintro u rfl
  exact ht closeBrace rfl rfl

theorem inExpression_open (t : Text) :
    inExpression acc (openBrace :: t) = .error .nestedBrace := rfl

theorem inExpression_close (t : Text) :
    inExpression acc (closeBrace :: t) =
      (afterLiteral [] t).map fun segments => .expression acc :: segments := rfl

/-- An expression goes on up to the next brace. -/
theorem inExpression_append {e : Text} (he : ∀ b ∈ e, isBrace b = false) (t : Text) :
    inExpression acc (e ++ t) = inExpression (acc ++ e) t := by
  induction e generalizing acc with
  | nil => rw [List.nil_append, List.append_nil]
  | cons b e ih =>
      obtain ⟨hb, he⟩ := List.forall_mem_cons.1 he
      obtain ⟨hopen, hclose⟩ := isBrace_eq_false_iff.1 hb
      rw [List.cons_append, inExpression, ih _ he, List.append_assoc, List.singleton_append]
      · exact hopen
      · exact hclose

end Bytes

/-- An expression is not empty, and has no braces in it. -/
theorem proper_expression_iff {e : Text} :
    (Segment.expression e).Proper ↔ e ≠ [] ∧ ∀ b ∈ e, isBrace b = false := by
  simp only [Segment.Proper, isBrace_eq_false_iff]
  grind

/-- An expression in its braces is found behind any literal. -/
theorem afterLiteral_expression (acc : Text) {e : Text} (he : (Segment.expression e).Proper)
    (t : Text) :
    afterLiteral acc (openBrace :: (e ++ closeBrace :: t)) =
      (afterLiteral [] t).map fun segments =>
        literalSegment acc ++ .expression e :: segments := by
  obtain ⟨hne, hbraces⟩ := proper_expression_iff.1 he
  have hfirst : ∀ c ∈ (e ++ closeBrace :: t).head?, c ≠ closeBrace := by
    intro c hc
    obtain ⟨b, e, rfl⟩ := List.exists_cons_of_ne_nil hne
    obtain rfl : b = c := by simpa using hc
    exact (isBrace_eq_false_iff.1 (hbraces b (by simp))).2
  rw [afterLiteral_open acc hfirst, inExpression_append [] hbraces, List.nil_append,
    inExpression_close]
  cases afterLiteral [] t <;> rfl

/-! ### What a text is divided into -/

/-- How the division of a text goes on behind the literal text `acc`. -/
inductive Division (acc : Text) : Text → Except InterpolationError (List Segment) → Prop where
  /-- The text is at its end. -/
  | done : Division acc [] (.ok (literalSegment acc))
  /-- The literal gets longer. -/
  | longer {t piece rest : Text} : rest.length < t.length →
      Division acc t (afterLiteral (acc ++ piece) rest)
  /-- There is an expression. -/
  | expression {e rest : Text} : (Segment.expression e).Proper →
      Division acc (openBrace :: (e ++ closeBrace :: rest))
        ((afterLiteral [] rest).map fun segments =>
          literalSegment acc ++ .expression e :: segments)
  /-- There is an opening brace and no expression. -/
  | failed {t : Text} {err : InterpolationError} : Division acc t (.error err)

/-- A brace that is not closed at once opens an expression, or nothing can be made of it. -/
theorem division_open (acc : Text) {t : Text} (ht : ∀ c ∈ t.head?, c ≠ closeBrace) :
    Division acc (openBrace :: t) (afterLiteral acc (openBrace :: t)) := by
  -- What follows up to the next brace is the expression.
  let e := t.takeWhile fun b => !isBrace b
  have hbraces : ∀ b ∈ e, isBrace b = false := by
    intro b hb
    simpa using List.all_eq_true.1 List.all_takeWhile b hb
  have hsplit : t = e ++ t.dropWhile fun b => !isBrace b :=
    List.takeWhile_append_dropWhile.symm
  cases hrest : t.dropWhile fun b => !isBrace b with
  | nil =>
      rw [hrest] at hsplit
      rw [afterLiteral_open acc ht, hsplit, inExpression_append [] hbraces, inExpression]
      exact .failed
  | cons b rest =>
      have hb : isBrace b = true := by
        have hhead := List.head?_dropWhile_not (fun b => !isBrace b) t
        simpa [hrest] using hhead
      rw [hrest] at hsplit
      rcases isBrace_iff.1 hb with rfl | rfl
      · rw [afterLiteral_open acc ht, hsplit, inExpression_append [] hbraces,
          inExpression_open]
        exact .failed
      · have he : (Segment.expression e).Proper := by
          refine proper_expression_iff.2 ⟨?_, hbraces⟩
          intro hnil
          rw [hnil, List.nil_append] at hsplit
          exact ht closeBrace (by rw [hsplit]; rfl) rfl
        rw [hsplit, afterLiteral_expression acc he]
        exact .expression he

/-- Every division goes on in one of these ways. -/
theorem division_afterLiteral (acc t : Text) : Division acc t (afterLiteral acc t) := by
  cases t with
  | nil =>
      rw [afterLiteral]
      exact .done
  | cons b t =>
      by_cases hb : b = openBrace
      · subst hb
        by_cases ht : ∀ c ∈ t.head?, c ≠ closeBrace
        · exact division_open acc ht
        · -- a pair of braces
          obtain ⟨u, rfl⟩ : ∃ u, t = closeBrace :: u := by
            simpa [List.head?_eq_some_iff] using ht
          rw [afterLiteral_pair]
          exact .longer (by simp only [List.length_cons]; omega)
      · by_cases ht : b = backslash → ∀ c ∈ t.head?, isBrace c = false
        · rw [afterLiteral_plain acc hb ht]
          exact .longer (Nat.lt_succ_self _)
        · -- a backslash and a brace
          obtain ⟨rfl, c, u, rfl, hc⟩ : b = backslash ∧ ∃ c u, t = c :: u ∧ isBrace c = true := by
            simpa [List.head?_eq_some_iff, and_comm] using ht
          rw [afterLiteral_escape acc hc]
          exact .longer (by simp only [List.length_cons]; omega)

/-- What holds of the segments at the end of a text, and is kept when the literal gets
longer and when an expression comes before, holds of the segments behind every literal. -/
theorem afterLiteral_induction {P : Text → List Segment → Prop}
    (hdone : ∀ acc, P acc (literalSegment acc))
    (hlonger : ∀ acc piece ss, P (acc ++ piece) ss → P acc ss)
    (hexpression : ∀ acc e ss, (Segment.expression e).Proper → P [] ss →
      P acc (literalSegment acc ++ .expression e :: ss))
    {acc t : Text} {ss : List Segment} (h : afterLiteral acc t = .ok ss) : P acc ss := by
  -- The recursion goes on behind a whole expression, so the induction is on the length.
  induction hn : t.length using Nat.strong_induction_on generalizing acc t ss with
  | _ n ih =>
      subst hn
      have hdivision := division_afterLiteral acc t
      generalize afterLiteral acc t = r at h hdivision
      cases hdivision with
      | done =>
          obtain rfl := Except.ok.inj h
          exact hdone acc
      | longer hlt => exact hlonger _ _ _ (ih _ hlt h rfl)
      | @expression e rest he =>
          cases hrest : afterLiteral [] rest with
          | error err =>
              rw [hrest] at h
              cases h
          | ok more =>
              rw [hrest] at h
              obtain rfl := Except.ok.inj h
              have hlt : rest.length < (openBrace :: (e ++ closeBrace :: rest)).length := by
                simp only [List.length_cons, List.length_append]
                omega
              exact hexpression _ _ _ he (ih _ hlt hrest rfl)
      | failed => cases h

/-- A text is divided into a normal list. -/
theorem normal_of_segments {t : Text} {ss : List Segment} (h : segments t = .ok ss) :
    Normal ss := by
  refine afterLiteral_induction (P := fun _ ss => Normal ss) ?_ ?_ ?_ h
  · intro acc
    simpa using Normal.nil.literal (by simp) acc
  · exact fun _ _ _ hss => hss
  · intro acc e ss he hss
    exact (hss.expression he).literal (by simp) acc

/-- The text that has been read already belongs to the first literal. -/
theorem literal_of_afterLiteral {acc t : Text} {ss : List Segment}
    (h : afterLiteral acc t = .ok ss) (hacc : acc ≠ []) :
    ∃ more rest, ss = .literal (acc ++ more) :: rest := by
  refine afterLiteral_induction
    (P := fun acc ss => acc ≠ [] → ∃ more rest, ss = .literal (acc ++ more) :: rest)
    ?_ ?_ ?_ h hacc
  · intro acc hacc
    exact ⟨[], [], by rw [literalSegment_of_ne_nil hacc, List.append_nil]⟩
  · intro acc piece ss ih hacc
    obtain ⟨more, rest, rfl⟩ := ih (by simp [hacc])
    exact ⟨piece ++ more, rest, by rw [List.append_assoc]⟩
  · intro acc e ss _ _ hacc
    exact ⟨[], .expression e :: ss, by rw [literalSegment_of_ne_nil hacc, List.append_nil]; rfl⟩

/-! ### Writing segments -/

@[simp] theorem render_nil : render [] = [] := rfl

@[simp] theorem render_literal (t : Text) (ss : List Segment) :
    render (.literal t :: ss) = escaped t ++ render ss := rfl

/-- An expression is written between braces. -/
@[simp] theorem render_expression (e : Text) (ss : List Segment) :
    render (.expression e :: ss) = openBrace :: (e ++ closeBrace :: render ss) := by
  simp [render]

/-- Escaping goes byte by byte. -/
theorem escaped_append (s t : Text) : escaped (s ++ t) = escaped s ++ escaped t := by
  simp [escaped]

/-- Braces are escaped. -/
theorem escaped_brace {b : UInt8} (hb : isBrace b = true) : escaped [b] = [backslash, b] := by
  simp [escaped, isBrace_iff.1 hb]

/-- Nothing else is. -/
theorem escaped_other {b : UInt8} (hb : isBrace b = false) : escaped [b] = [b] := by
  simp [escaped, isBrace_eq_false_iff.1 hb]

theorem escaped_ne_nil {t : Text} (ht : t ≠ []) : escaped t ≠ [] := by
  obtain ⟨b, u, rfl⟩ := List.exists_cons_of_ne_nil ht
  rw [← List.singleton_append, escaped_append]
  cases hb : isBrace b with
  | true => simp [escaped_brace hb]
  | false => simp [escaped_other hb]

/-- No brace stands at the beginning of a literal that has been written. -/
theorem isBrace_head_escaped (t : Text) : ∀ c ∈ (escaped t).head?, isBrace c = false := by
  cases t with
  | nil => simp [escaped]
  | cons b t =>
      rw [← List.singleton_append, escaped_append]
      cases hb : isBrace b with
      | true =>
          rw [escaped_brace hb]
          intro c hc
          obtain rfl : backslash = c := by simpa using hc
          rfl
      | false =>
          rw [escaped_other hb]
          simpa using hb

/-- A literal that has been written is read to its end, if its last byte is no backslash
or no brace follows. -/
theorem afterLiteral_escaped (acc : Text) {t r : Text}
    (h : t.getLast? = some backslash → ∀ c ∈ r.head?, isBrace c = false) :
    afterLiteral acc (escaped t ++ r) = afterLiteral (acc ++ t) r := by
  induction t generalizing acc with
  | nil => simp [escaped]
  | cons b t ih =>
      have hbehind : t.getLast? = some backslash → ∀ c ∈ r.head?, isBrace c = false := by
        intro ht
        exact h (by simp [List.getLast?_cons, ht])
      have hstep : afterLiteral acc (escaped [b] ++ (escaped t ++ r)) =
          afterLiteral (acc ++ [b]) (escaped t ++ r) := by
        cases hb : isBrace b with
        | true =>
            rw [escaped_brace hb]
            exact afterLiteral_escape acc hb _
        | false =>
            rw [escaped_other hb]
            refine afterLiteral_plain acc (isBrace_eq_false_iff.1 hb).1 ?_
            rintro rfl c hc
            -- behind a backslash comes the rest of the literal, or else what follows it
            cases t with
            | nil => exact h rfl c hc
            | cons d t =>
                have hne : escaped (d :: t) ≠ [] := escaped_ne_nil (List.cons_ne_nil d t)
                refine isBrace_head_escaped (d :: t) c ?_
                rw [← List.head?_append_of_ne_nil _ hne]
                exact hc
      rw [← List.singleton_append, escaped_append, List.append_assoc, hstep, ih _ hbehind,
        List.append_assoc]

section Written

variable {t e : Text} {ss : List Segment}

/-- A literal on its own is read back from its escaped form. -/
theorem segments_render_literal (ht : (Segment.literal t).Proper) :
    segments (render [.literal t]) = .ok [.literal t] := by
  have hread := afterLiteral_escaped [] (t := t) (r := []) (by simp)
  rw [render_literal, render_nil, segments, hread, List.nil_append, afterLiteral,
    literalSegment_of_ne_nil ht]

/-- With an expression in front, a list is given back if it is without. -/
theorem afterLiteral_render_eq_ok_iff (he : (Segment.expression e).Proper) (acc : Text) :
    afterLiteral acc (render (.expression e :: ss)) =
        .ok (literalSegment acc ++ .expression e :: ss) ↔
      segments (render ss) = .ok ss := by
  rw [render_expression, afterLiteral_expression acc he, segments]
  cases afterLiteral [] (render ss) with
  | error err => simp [Except.map]
  | ok more => simp [Except.map]

/-- A backslash at the end of a literal takes the brace of the expression behind along. -/
theorem segments_render_of_backslash :
    segments (render (.literal (t ++ [backslash]) :: .expression e :: ss)) ≠
      .ok (.literal (t ++ [backslash]) :: .expression e :: ss) := by
  intro h
  have hread : segments (render (.literal (t ++ [backslash]) :: .expression e :: ss)) =
      afterLiteral (t ++ [openBrace]) (e ++ closeBrace :: render ss) := by
    rw [render_literal, render_expression, escaped_append, escaped_other (by decide),
      List.append_assoc, segments, afterLiteral_escaped]
    · exact afterLiteral_escape t (by decide) _
    · intro _ c hc
      obtain rfl : backslash = c := by simpa using hc
      decide
  obtain ⟨more, rest, hss⟩ := literal_of_afterLiteral (hread ▸ h) (by simp)
  have htext := Segment.literal.inj (List.cons.inj hss).1
  rw [List.append_assoc] at htext
  exact absurd (List.cons.inj (List.append_cancel_left htext)).1 (by decide)

/-- With a literal in front of an expression, a list is given back if it is without and
the literal does not end in a backslash. -/
theorem segments_render_literal_iff (ht : (Segment.literal t).Proper)
    (he : (Segment.expression e).Proper) :
    segments (render (.literal t :: .expression e :: ss)) =
        .ok (.literal t :: .expression e :: ss) ↔
      (Segment.literal t).Clear (.expression e) ∧
        segments (render (.expression e :: ss)) = .ok (.expression e :: ss) := by
  by_cases hlast : t.getLast? = some backslash
  · obtain ⟨u, rfl⟩ := List.getLast?_eq_some_iff.1 hlast
    exact iff_of_false segments_render_of_backslash fun h => h.1 hlast
  · have hread : segments (render (.literal t :: .expression e :: ss)) =
        afterLiteral t (render (.expression e :: ss)) := by
      rw [render_literal, segments, afterLiteral_escaped [] fun h => absurd h hlast]
      rfl
    have hbehind : afterLiteral t (render (.expression e :: ss)) =
        .ok (literalSegment t ++ .expression e :: ss) ↔ segments (render ss) = .ok ss :=
      afterLiteral_render_eq_ok_iff he t
    rw [literalSegment_of_ne_nil ht, List.singleton_append] at hbehind
    rw [hread, hbehind]
    exact ((and_iff_right hlast).trans (afterLiteral_render_eq_ok_iff he [])).symm

/-- A list is read back from its rendering exactly if nothing in it could be taken for
something else. -/
theorem Normal.segments_render_iff (h : Normal ss) :
    segments (render ss) = .ok ss ↔ Unambiguous ss := by
  induction ss with
  | nil => exact iff_of_true rfl .nil
  | cons s ss ih =>
      have hs := h.proper s (by simp)
      cases s with
      | expression e =>
          have hclear : ∀ s' ∈ ss.head?, (Segment.expression e).Clear s' := by
            intro s' _
            trivial
          rw [Unambiguous, List.isChain_cons, and_iff_right hclear]
          exact (afterLiteral_render_eq_ok_iff hs []).trans (ih h.tail)
      | literal t =>
          cases ss with
          | nil => exact iff_of_true (segments_render_literal hs) (.singleton _)
          | cons s' ss =>
              cases s' with
              | literal u => exact (List.isChain_cons_cons.1 h.apart).1.elim
              | expression e =>
                  rw [Unambiguous, List.isChain_cons_cons,
                    segments_render_literal_iff hs (h.proper _ (by simp))]
                  exact and_congr_right fun _ => ih h.tail

end Written

/-- A list of segments that has been written is given back by dividing the text exactly if
it is normal and no literal before an expression ends in a backslash.  Every text that can
be divided at all is divided into a normal list. -/
theorem segments_render_iff_normal :
    (∀ ss, segments (render ss) = .ok ss ↔ Normal ss ∧ Unambiguous ss) ∧
      ∀ t ss, segments t = .ok ss → Normal ss := by
  refine ⟨fun ss => ⟨fun h => ?_, fun h => ?_⟩, fun t ss h => normal_of_segments h⟩
  · have hnormal := normal_of_segments h
    exact ⟨hnormal, hnormal.segments_render_iff.1 h⟩
  · exact h.1.segments_render_iff.2 h.2

/-- Backslashes beside braces, two expressions in a row and a backslash at the end; and the
text of a pair of braces, which is divided in a way that it would not be written. -/
theorem segments_render_iff_normal_backslashes :
    let ss : List Segment :=
      [.literal "a\\\x7b", .expression "x", .expression "\\", .literal "\x7d\\"]
    (Normal ss ∧ Unambiguous ss) ∧ segments (render ss) = .ok ss ∧
      segments "\x7b\x7d" = .ok [.literal "\x7b\x7d"] ∧ Normal [.literal "\x7b\x7d"] := by
  intro ss
  have hss : Normal ss ∧ Unambiguous ss := by decide
  have hpair : segments "\x7b\x7d" = .ok [.literal "\x7b\x7d"] := by decide
  exact ⟨hss, (segments_render_iff_normal.1 ss).2 hss, hpair,
    segments_render_iff_normal.2 _ _ hpair⟩

end Interpolation

end LineScript
