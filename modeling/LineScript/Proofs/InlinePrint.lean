/-
LineScript/Proofs/InlinePrint.lean

Writing a text with expressions in it, from the line to the output.

A literal shows its own text and an expression the spelling of its value
(`Machine.Shows`).  Either every segment of a list shows something, and the text of the
list is all of that in order (`segmentsText_of_shows`), or the list has a leftmost
expression without a value, and its error is the error of the list
(`segmentsText_of_fails`).

A line that has been made of a list of segments is recognised whatever brackets stand in
them, and divided into these segments again, so that it writes all or nothing
(`execute_render`).
-/
import LineScript.Proofs.Forms
import LineScript.Proofs.Segments

namespace LineScript

open Text Interpolation

namespace Machine

/-! ### What segments show -/

/-- What a segment shows.  An expression without a value shows nothing. -/
inductive Shows (m : Machine) : Segment → Text → Prop where
  | literal (t : Text) : Shows m (.literal t) t
  | expression {e : Text} {x : Float} :
      m.mode.evaluate m.store e = .ok x → Shows m (.expression e) (Double.spell x)

/-- `e` is the leftmost expression of a list that has no value, for the reason `err`. -/
structure Fails (m : Machine) (ss : List Segment) (e : Text) (err : EvalError) : Prop where
  leftmost : ∃ left right, ss = left ++ .expression e :: right ∧ ∀ s ∈ left, ∃ t, m.Shows s t
  error : m.mode.evaluate m.store e = .error err

variable {m : Machine}

theorem Shows.segmentText {s : Segment} {t : Text} (h : m.Shows s t) :
    m.segmentText s = .ok t := by
  cases h with
  | literal => rfl
  | expression hvalue => rw [Machine.segmentText, hvalue]; rfl

/-- Every segment shows something but an expression without a value. -/
theorem shows_or_error (m : Machine) (s : Segment) :
    (∃ t, m.Shows s t) ∨
      ∃ e err, s = .expression e ∧ m.mode.evaluate m.store e = .error err := by
  cases s with
  | literal t => exact .inl ⟨t, .literal t⟩
  | expression e =>
      cases hvalue : m.mode.evaluate m.store e with
      | ok x => exact .inl ⟨_, .expression hvalue⟩
      | error err => exact .inr ⟨e, err, rfl, hvalue⟩

/-- All segments show something, or there is a leftmost expression that does not. -/
theorem shows_or_fails (m : Machine) (ss : List Segment) :
    (∃ texts, List.Forall₂ m.Shows ss texts) ∨ ∃ e err, m.Fails ss e err := by
  induction ss with
  | nil => exact .inl ⟨[], .nil⟩
  | cons s ss ih =>
      rcases shows_or_error m s with ⟨t, hs⟩ | ⟨e, err, rfl, herror⟩
      · rcases ih with ⟨texts, hss⟩ | ⟨e, err, ⟨left, right, rfl, hleft⟩, herror⟩
        · exact .inl ⟨t :: texts, .cons hs hss⟩
        · refine .inr ⟨e, err, ⟨s :: left, right, rfl, ?_⟩, herror⟩
          exact List.forall_mem_cons.2 ⟨⟨t, hs⟩, hleft⟩
      · exact .inr ⟨e, err, ⟨[], ss, rfl, by simp⟩, herror⟩

/-! ### The text of a list -/

/-- A segment that shows something stands in front of the text of the others. -/
theorem segmentsText_cons {s : Segment} {t : Text} (h : m.Shows s t) (ss : List Segment) :
    m.segmentsText (s :: ss) = (m.segmentsText ss).map (t ++ ·) := by
  rw [segmentsText, h.segmentText]
  cases m.segmentsText ss <;> rfl

/-- What the segments show makes up the text. -/
theorem segmentsText_of_shows {ss : List Segment} {texts : List Text}
    (h : List.Forall₂ m.Shows ss texts) : m.segmentsText ss = .ok texts.flatten := by
  induction h with
  | nil => rfl
  | cons hs _ ih => rw [segmentsText_cons hs, ih]; rfl

/-- What stands in front of the leftmost failure is dropped. -/
theorem segmentsText_of_fails {ss : List Segment} {e : Text} {err : EvalError}
    (h : m.Fails ss e err) : m.segmentsText ss = .error err := by
  obtain ⟨⟨left, right, rfl, hleft⟩, herror⟩ := h
  induction left with
  | nil =>
      rw [List.nil_append, segmentsText, segmentText, herror]
      rfl
  | cons s left ih =>
      obtain ⟨⟨t, hs⟩, hleft⟩ := List.forall_mem_cons.1 hleft
      rw [List.cons_append, segmentsText_cons hs, ih hleft]
      rfl

/-! ### The line -/

/-- A line that has been made of segments writes all of them or nothing, and keeps the
variables.  If every expression has a value, it adds one line to the output, in which the
literals stand as they are and each expression is replaced by its value.  Otherwise it adds
nothing, and its fault is caused by the leftmost expression without a value. -/
theorem execute_render (m : Machine) {ss : List Segment} (hnormal : Normal ss)
    (hclear : Unambiguous ss) (htrim : trim (render ss) = render ss) :
    let line : Text := "f(" ++ render ss ++ ")"
    let o := m.execute line
    (o.machine.store = m.store ∧ o.machine.answers = m.answers ∧ o.skipping = false) ∧
      ((∃ texts, List.Forall₂ m.Shows ss texts ∧ o.fault = none ∧
          o.machine.output = m.output ++ [texts.flatten]) ∨
        ∃ e err f, m.Fails ss e err ∧ o.fault = some f ∧ o.machine.output = m.output ∧
          f.kind = .parseError ∧ f.message = "Error in inline print: " ++ line ∧
          f.cause? = some (.evaluation err)) := by
  intro line o
  have hline : Statement.ofLine line = .inlinePrint (render ss) := by
    have h := Statement.ofLine_inlinePrint (render ss)
    rw [htrim] at h
    rwa [← List.append_assoc] at h
  have hsegments : segments (render ss) = .ok ss := hnormal.segments_render_iff.2 hclear
  -- Either all segments are shown, or the first that is not ends the line.
  rcases shows_or_fails m ss with ⟨texts, hshows⟩ | ⟨e, err, hfails⟩
  · have hexecute : o = ⟨m.write texts.flatten, none, false⟩ := by
      refine (m.execute_eq_perform hline).trans ?_
      simp only [perform, inlinePrint, hsegments, segmentsText_of_shows hshows]
    rw [hexecute]
    exact ⟨⟨rfl, rfl, rfl⟩, .inl ⟨texts, hshows, rfl, rfl⟩⟩
  · have hexecute : o = ⟨m, some (.inlinePrint line (.evaluation err)), false⟩ := by
      refine (m.execute_eq_perform hline).trans ?_
      simp only [perform, inlinePrint, hsegments, segmentsText_of_fails hfails]
    rw [hexecute]
    exact ⟨⟨rfl, rfl, rfl⟩, .inr ⟨e, err, _, hfails, rfl, rfl, rfl, rfl, rfl⟩⟩

/-- Brackets and a brace in the literals.  The first line writes the value of its
expression; the second one has an expression more, without a value, and writes nothing. -/
theorem execute_render_brackets :
    let m : Machine := { mode := .legacy, output := ["first"] }
    let ss : List Segment := [.literal ")\\\x7b", .expression "1+2", .literal ")f("]
    let o := m.execute "f()\\\\\x7b\x7b1+2\x7d)f()"
    let o' := m.execute "f()\\\\\x7b\x7b1+2\x7d)f(\x7by\x7d)"
    (Normal ss ∧ Unambiguous ss ∧ trim (render ss) = render ss) ∧
      (o.fault = none ∧ o.machine.output = m.output ++ [Text.ofString ")\\\x7b3.0)f("]) ∧
      o'.machine.output = m.output ∧ ∃ f, o'.fault = some f ∧
        f.cause? = some (.evaluation (.invalid (.notANumber "y"))) := by
  intro m ss o o'
  have hnormal : Normal ss := by decide
  have hclear : Unambiguous ss := by decide
  have htrim : trim (render ss) = render ss :=
    trim_eq_self ⟨⟨byte ')', rfl, rfl⟩, ⟨byte '(', rfl, rfl⟩⟩
  have htext : (m.segmentsText ss).toOption = some ")\\\x7b3.0)f(" := by decide +kernel
  have htrim' : trim (render (ss ++ [.expression "y"])) = render (ss ++ [.expression "y"]) :=
    trim_eq_self ⟨⟨byte ')', rfl, rfl⟩, ⟨closeBrace, rfl, rfl⟩⟩
  have htext' : m.segmentsText (ss ++ [.expression "y"]) =
      .error (.invalid (.notANumber "y")) := rfl
  refine ⟨⟨hnormal, hclear, htrim⟩, ?_, ?_⟩
  · rcases (execute_render m hnormal hclear htrim).2 with
      ⟨texts, hshows, hfault, houtput⟩ | ⟨e, err, f, hfails, -⟩
    · rw [segmentsText_of_shows hshows] at htext
      exact ⟨hfault, houtput.trans (congrArg (m.output ++ [·]) (Option.some.inj htext))⟩
    · rw [segmentsText_of_fails hfails] at htext
      cases htext
  · rcases (execute_render m (by decide) (by decide) htrim').2
      with ⟨texts, hshows, -⟩ | ⟨e, err, f, hfails, hfault, houtput, -, -, hcause⟩
    · cases (segmentsText_of_shows hshows).symm.trans htext'
    · obtain rfl := Except.error.inj ((segmentsText_of_fails hfails).symm.trans htext')
      exact ⟨houtput, f, hfault, hcause⟩

end Machine

end LineScript
