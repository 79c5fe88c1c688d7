/-
LineScript/Proofs/Courses.lean

Which course executing a line takes, and what decides it.  `Course m line o` has one
rule for each way in which a line comes to its end, and the premises of a rule say
when it applies: which statement the line is, that its name has been accepted, where
the value comes from that is bound, what is written.  A line that is refused gets a
fault that quotes no other line (`Fault.Refuses`).

This is the one place where the handlers of the machine are taken apart.  Every line
takes one of these courses (`course_execute`), so that facts about single lines are
proved by going through them, without looking into the machine again.
-/
import LineScript.Machine.Execute
import LineScript.Proofs.Texts

namespace LineScript

open Text

/-! ### What is wrong with a line -/

/-- The source line that the message of a fault quotes at its end, if it quotes one. -/
def Fault.source? : Fault → Option Text
  | declaration line _ | listDeclaration line _ | input line _ | typedInput line _
  | assignment line | inlinePrint line _ | malformed _ line | unknown line => some line
  | reserved _ | boolean _ _ | listOverflow | unsupportedType _ | noInput _ | undefined _
  | assignUndefined _ | condition _ => none

/-- A fault that quotes this line or none. -/
def Fault.Quotes (line : Text) (f : Fault) : Prop :=
  ∀ l, f.source? = some l → l = line ∧ line <:+ f.message

/-- A fault with which a line is refused.  It is more than the warning that a list is
full, and it quotes no other line. -/
structure Fault.Refuses (line : Text) (f : Fault) : Prop where
  kind : f.kind ≠ .listOverflow
  quotes : f.Quotes line

namespace Fault

variable {line : Text} {f : Fault}

theorem quotes_of_source?_eq_none (h : f.source? = none) : f.Quotes line := by
  intro l hl
  rw [h] at hl
  cases hl

/-- A fault that has the line in it quotes it, so that it is no warning. -/
theorem refuses_of_source? (h : f.source? = some line) : f.Refuses line where
  kind := by
    cases f <;> cases h <;> simp [kind]
  quotes := by
    intro l hl
    obtain rfl : line = l := Option.some.inj (h.symm.trans hl)
    refine ⟨rfl, ?_⟩
    cases f <;> cases h <;> exact List.suffix_append _ _

theorem refuses_of_source?_eq_none (h : f.source? = none) (hkind : f.kind ≠ .listOverflow) :
    f.Refuses line :=
  ⟨hkind, quotes_of_source?_eq_none h⟩

end Fault

namespace Machine

/-- A name that is empty or reserved is a reason to refuse the line. -/
theorem refuses_of_nameFault? {line name : Text} {malformed f : Fault}
    (hmalformed : malformed.source? = some line)
    (h : nameFault? name malformed = some f) : f.Refuses line := by
  unfold nameFault? at h
  split at h
  · obtain rfl := Option.some.inj h
    exact Fault.refuses_of_source? hmalformed
  · split at h
    · obtain rfl := Option.some.inj h
      exact Fault.refuses_of_source?_eq_none rfl (by simp [Fault.kind])
    · cases h

/-- The fault of a boolean quotes its literal instead of the line. -/
theorem refuses_literalFault (type : ScalarType) (literal line : Text) (e : LiteralError) :
    (literalFault type literal line e).Refuses line := by
  cases type with
  | bool => exact Fault.refuses_of_source?_eq_none rfl (by simp [literalFault, Fault.kind])
  | _ => exact Fault.refuses_of_source? rfl

/-- A name is accepted if it is neither empty nor reserved. -/
theorem nameFault?_eq_none_iff {name : Text} {malformed : Fault} :
    nameFault? name malformed = none ↔ name ≠ [] ∧ name ∉ keywords := by
  have hreserved : isReserved name = true ↔ name ∈ keywords := List.contains_iff_mem
  unfold nameFault?
  split
  · next hempty => simp [List.isEmpty_iff.1 hempty]
  · next hne =>
      rw [List.isEmpty_iff] at hne
      split
      · next hr => simp [hreserved.1 hr]
      · next hr => simp [hne, mt hreserved.2 hr]

theorem isSome_nameFault?_iff {name : Text} {malformed : Fault} :
    (nameFault? name malformed).isSome = true ↔ ¬ (name ≠ [] ∧ name ∉ keywords) :=
  Option.isSome_iff_ne_none.trans (not_congr nameFault?_eq_none_iff)

end Machine

/-! ### What a line is there to write -/

/-- The statements that are there to write something. -/
def Statement.isOutput : Statement → Bool
  | .print _ => true
  | .inlinePrint _ => true
  | .typeQuery _ => true
  | .declaration _ _ _ => false
  | .listDeclaration _ _ _ => false
  | .input _ => false
  | .typedInput _ _ => false
  | .conditional _ => false
  | .assignment => false
  | .malformed _ => false
  | .unknown => false

/-- What a statement is there to write, if it can be written: a quoted text or the
value of a variable, the kind of a variable, or a text with all its expressions
evaluated. -/
def Machine.result? (m : Machine) : Statement → Option Text
  | .print content =>
      Literal.unquoted? content <|> (m.store.get? content).map Value.text
  | .typeQuery name =>
      (m.store.get? name).map fun v => name ++ " is of type: " ++ v.kind.name
  | .inlinePrint content =>
      (Interpolation.segments content).toOption.bind fun segments =>
        (m.segmentsText segments).toOption
  | _ => none

theorem Machine.isOutput_of_result? {m : Machine} {s : Statement} {t : Text}
    (h : m.result? s = some t) : s.isOutput = true := by
  cases s with
  | print _ | inlinePrint _ | typeQuery _ => rfl
  | _ => cases h

/-- Other statements have nothing to write. -/
theorem Machine.result?_of_not_isOutput {m : Machine} {s : Statement}
    (h : s.isOutput = false) : m.result? s = none := by
  rw [Option.eq_none_iff_forall_ne_some]
  intro t ht
  rw [isOutput_of_result? ht] at h
  cases h

/-! ### What a line asks -/

/-- The name that an input statement is to bind, and how it reads the answer. -/
def Statement.reader? : Statement → Option (Text × (Text → Except LiteralError Value))
  | .input name => some (name, Machine.readNumber)
  | .typedInput name type =>
      (ScalarType.ofName? type).map fun s => (name, Machine.readAnswer s)
  | _ => none

/-- Statements that write do not ask. -/
theorem Statement.reader?_of_isOutput {s : Statement} (h : s.isOutput = true) :
    s.reader? = none := by
  cases s with
  | input _ | typedInput _ _ => cases h
  | _ => rfl

theorem Statement.not_isOutput_of_reader? {s : Statement}
    {x : Text × (Text → Except LiteralError Value)} (h : s.reader? = some x) :
    s.isOutput = false := by
  rw [Bool.eq_false_iff]
  intro houtput
  rw [reader?_of_isOutput houtput] at h
  cases h

namespace Machine

variable {m : Machine} {line : Text}

/-- An input statement asks if it may bind its name. -/
theorem question?_input {name : Text} (hline : Statement.ofLine line = .input name) :
    question? line =
      if name ≠ [] ∧ name ∉ keywords then some (promptFor name) else none := by
  rw [question?, hline]
  simp only [isSome_nameFault?_iff, ite_not]

/-- A typed one asks only if there is such a type. -/
theorem question?_typedInput {name type : Text}
    (hline : Statement.ofLine line = .typedInput name type) :
    question? line =
      if name ≠ [] ∧ name ∉ keywords then
        (ScalarType.ofName? type).map fun _ => typedPromptFor name type
      else none := by
  rw [question?, hline]
  simp only [isSome_nameFault?_iff, ite_not]

/-- A line that reads no answer asks no question. -/
theorem question?_of_reader?_eq_none (h : (Statement.ofLine line).reader? = none) :
    question? line = none := by
  cases hline : Statement.ofLine line with
  | input name =>
      rw [hline] at h
      cases h
  | typedInput name type =>
      rw [hline, Statement.reader?, Option.map_eq_none_iff] at h
      rw [question?_typedInput hline, h]
      exact ite_self _
  | _ => rw [question?, hline]

/-- The answer to the next question, if there is one. -/
def nextAnswer? (m : Machine) : Option Text := m.answers.bind fun a => a.pending.head?

/-- The machine after a question.  Its answer is gone. -/
def asked (m : Machine) (prompt : Text) : Machine :=
  { m with answers := m.answers.map fun a => (a.ask prompt).2 }

/-- Asking takes the next answer and leaves the others. -/
theorem ask_eq (m : Machine) (prompt : Text) :
    m.ask prompt = (m.nextAnswer?, m.asked prompt) := by
  obtain ⟨mode, answers, environment, output⟩ := m
  cases answers <;> rfl

end Machine

/-! ### The courses -/

/-- The courses that executing a line may take. -/
inductive Course (m : Machine) (line : Text) : Outcome → Prop where
  /-- Something is wrong with the line before it has done anything. -/
  | refused {f : Fault} {skipping : Bool} : f.Refuses line →
      Machine.question? line = none → m.result? (Statement.ofLine line) = none →
      Course m line ⟨m, some f, skipping⟩
  /-- A condition is true or false. -/
  | decided {condition : Text} {holds : Bool} :
      Statement.ofLine line = .conditional condition →
      Condition.holds m.store condition = .ok holds → Course m line ⟨m, none, !holds⟩
  /-- An output statement has a result. -/
  | written {t : Text} : m.result? (Statement.ofLine line) = some t →
      Course m line ⟨m.write t, none, false⟩
  /-- A declaration has a literal of its type. -/
  | declared {type : ScalarType} {name literal : Text} {v : Value} :
      Statement.ofLine line = .declaration type name literal →
      name ≠ [] ∧ name ∉ keywords → type.read literal = .ok v →
      Course m line ⟨m.declare name v, none, false⟩
  /-- The declaration of a list has a capacity. -/
  | listed {name capacity elements : Text} {l : BoundedList} :
      Statement.ofLine line = .listDeclaration name capacity elements →
      name ≠ [] ∧ name ∉ keywords → Machine.emptyList capacity = .ok l →
      Course m line
        ⟨m.declare name (l.fill (Machine.elementsOf elements)).1.value,
          if (l.fill (Machine.elementsOf elements)).2.isEmpty then none
          else some .listOverflow, false⟩
  /-- An input statement asks, and there is no answer. -/
  | unanswered {name prompt : Text} {read : Text → Except LiteralError Value} :
      Machine.question? line = some prompt →
      (Statement.ofLine line).reader? = some (name, read) → m.nextAnswer? = none →
      Course m line ⟨m.asked prompt, some (.noInput name), false⟩
  /-- An input statement asks, and cannot read the answer. -/
  | unread {name prompt answer : Text} {read : Text → Except LiteralError Value}
      {e : LiteralError} {f : Fault} :
      Machine.question? line = some prompt →
      (Statement.ofLine line).reader? = some (name, read) →
      m.nextAnswer? = some answer → read answer = .error e → f.Refuses line →
      Course m line ⟨m.asked prompt, some f, false⟩
  /-- An input statement asks, and reads the answer. -/
  | answered {name prompt answer : Text} {read : Text → Except LiteralError Value}
      {v : Value} :
      Machine.question? line = some prompt →
      (Statement.ofLine line).reader? = some (name, read) →
      name ≠ [] ∧ name ∉ keywords → m.nextAnswer? = some answer → read answer = .ok v →
      Course m line ⟨(m.asked prompt).declare name v, none, false⟩
  /-- The two sides of an assignment are a variable and an operand. -/
  | assigned {left operand : Text} : Statement.ofLine line = .assignment →
      fields "=" line = [left, operand] → (m.store.get? (trim left)).isSome = true →
      Course m line
        ⟨m.declare (trim left) (m.store.resolve (trim operand)), none, false⟩

section Courses

variable {m : Machine} {line : Text}

/-- A line that neither asks nor writes may be refused. -/
theorem Course.refused_of_passive {f : Fault} (hf : f.Refuses line)
    (hreader : (Statement.ofLine line).reader? = none)
    (houtput : (Statement.ofLine line).isOutput = false) {skipping : Bool} :
    Course m line ⟨m, some f, skipping⟩ :=
  .refused hf (Machine.question?_of_reader?_eq_none hreader)
    (Machine.result?_of_not_isOutput houtput)

/-- An output statement without a result is refused. -/
theorem Course.refused_of_output {f : Fault} (hf : f.Refuses line)
    (houtput : (Statement.ofLine line).isOutput = true)
    (hresult : m.result? (Statement.ofLine line) = none) :
    Course m line ⟨m, some f, false⟩ :=
  .refused hf (Machine.question?_of_reader?_eq_none (Statement.reader?_of_isOutput houtput))
    hresult

/-- The name is looked at before the literal. -/
theorem course_declareScalar {type : ScalarType} {name literal : Text}
    (hline : Statement.ofLine line = .declaration type name literal) :
    Course m line (m.declareScalar line type name literal) := by
  have hpassive : ∀ {f : Fault}, f.Refuses line → Course m line ⟨m, some f, false⟩ :=
    fun hf => .refused_of_passive hf (by rw [hline]; rfl) (by rw [hline]; rfl)
  unfold Machine.declareScalar
  split
  · next f hf => exact hpassive (Machine.refuses_of_nameFault? rfl hf)
  · next hname =>
      split
      · exact hpassive (Machine.refuses_literalFault _ _ _ _)
      · next v hv => exact .declared hline (Machine.nameFault?_eq_none_iff.1 hname) hv

/-- The name is looked at before the capacity, and the elements last. -/
theorem course_declareList {name capacity elements : Text}
    (hline : Statement.ofLine line = .listDeclaration name capacity elements) :
    Course m line (m.declareList line name capacity elements) := by
  have hpassive : ∀ {f : Fault}, f.Refuses line → Course m line ⟨m, some f, false⟩ :=
    fun hf => .refused_of_passive hf (by rw [hline]; rfl) (by rw [hline]; rfl)
  unfold Machine.declareList
  split
  · next f hf => exact hpassive (Machine.refuses_of_nameFault? rfl hf)
  · next hname =>
      split
      · exact hpassive (Fault.refuses_of_source? rfl)
      · next l hl => exact .listed hline (Machine.nameFault?_eq_none_iff.1 hname) hl

/-- Once the question has been asked, its answer is gone, whether it can be read or not. -/
theorem course_inputWith {name prompt : Text} {read : Text → Except LiteralError Value}
    (hquestion : Machine.question? line = some prompt)
    (hreader : (Statement.ofLine line).reader? = some (name, read))
    (hname : name ≠ [] ∧ name ∉ keywords) {malformed : LiteralError → Fault}
    (hmalformed : ∀ e, (malformed e).source? = some line) :
    Course m line (m.inputWith name prompt read malformed) := by
  unfold Machine.inputWith
  rw [m.ask_eq]
  cases hanswer : m.nextAnswer? with
  | none => exact .unanswered hquestion hreader hanswer
  | some answer =>
      dsimp only
      cases hread : read answer with
      | error e =>
          exact .unread hquestion hreader hanswer hread (Fault.refuses_of_source? (hmalformed e))
      | ok v => exact .answered hquestion hreader hname hanswer hread

/-- A question for a number. -/
theorem course_input {name : Text} (hline : Statement.ofLine line = .input name) :
    Course m line (m.input line name) := by
  have hquestion := Machine.question?_input hline
  unfold Machine.input
  split
  · next f hf =>
      rw [if_neg (Machine.isSome_nameFault?_iff.1 (Option.isSome_of_eq_some hf))] at hquestion
      exact .refused (Machine.refuses_of_nameFault? rfl hf) hquestion (by rw [hline]; rfl)
  · next hname =>
      have hproper := Machine.nameFault?_eq_none_iff.1 hname
      rw [if_pos hproper] at hquestion
      exact course_inputWith hquestion (by rw [hline]; rfl) hproper fun _ => rfl

/-- A question for a value of a type. -/
theorem course_typedInput {name type : Text}
    (hline : Statement.ofLine line = .typedInput name type) :
    Course m line (m.typedInput line name type) := by
  have hquestion := Machine.question?_typedInput hline
  unfold Machine.typedInput
  split
  · next f hf =>
      rw [if_neg (Machine.isSome_nameFault?_iff.1 (Option.isSome_of_eq_some hf))] at hquestion
      exact .refused (Machine.refuses_of_nameFault? rfl hf) hquestion (by rw [hline]; rfl)
  · next hname =>
      have hproper := Machine.nameFault?_eq_none_iff.1 hname
      rw [if_pos hproper] at hquestion
      -- the type is looked at before the question is asked
      cases hs : ScalarType.ofName? type with
      | none =>
          rw [hs] at hquestion
          exact .refused (Fault.refuses_of_source?_eq_none rfl (by simp [Fault.kind])) hquestion
            (by rw [hline]; rfl)
      | some s =>
          rw [hs] at hquestion
          exact course_inputWith hquestion (by rw [hline, Statement.reader?, hs]; rfl) hproper
            fun _ => rfl

/-- A quoted text comes before a variable of that name. -/
theorem course_print {content : Text} (hline : Statement.ofLine line = .print content) :
    Course m line (m.print content) := by
  have hresult : m.result? (Statement.ofLine line) =
      (Literal.unquoted? content <|> (m.store.get? content).map Value.text) := by
    rw [hline]
    rfl
  unfold Machine.print
  cases hquoted : Literal.unquoted? content with
  | some t => exact .written (by rw [hresult, hquoted]; rfl)
  | none =>
      cases hget : m.store.get? content with
      | none =>
          exact .refused_of_output (Fault.refuses_of_source?_eq_none rfl (by simp [Fault.kind]))
            (by rw [hline]; rfl) (by rw [hresult, hquoted, hget]; rfl)
      | some v => exact .written (by rw [hresult, hquoted, hget]; rfl)

theorem course_typeQuery {name : Text} (hline : Statement.ofLine line = .typeQuery name) :
    Course m line (m.typeQuery name) := by
  unfold Machine.typeQuery
  cases hget : m.store.get? name with
  | none =>
      exact .refused_of_output (Fault.refuses_of_source?_eq_none rfl (by simp [Fault.kind]))
        (by rw [hline]; rfl) (by rw [hline, Machine.result?, hget]; rfl)
  | some v => exact .written (by rw [hline, Machine.result?, hget]; rfl)

/-- All segments have a text, or nothing is written. -/
theorem course_inlinePrint {content : Text}
    (hline : Statement.ofLine line = .inlinePrint content) :
    Course m line (m.inlinePrint line content) := by
  have houtput : (Statement.ofLine line).isOutput = true := by
    rw [hline]
    rfl
  unfold Machine.inlinePrint
  cases hsegments : Interpolation.segments content with
  | error e =>
      exact .refused_of_output (Fault.refuses_of_source? rfl) houtput
        (by rw [hline, Machine.result?, hsegments]; rfl)
  | ok segments =>
      dsimp only
      -- one expression without a value is enough for the whole line to fail
      have hresult : m.result? (Statement.ofLine line) =
          (m.segmentsText segments).toOption := by
        rw [hline, Machine.result?, hsegments]
        rfl
      cases htext : m.segmentsText segments with
      | error e =>
          exact .refused_of_output (Fault.refuses_of_source? rfl) houtput
            (by rw [hresult, htext]; rfl)
      | ok t => exact .written (by rw [hresult, htext]; rfl)

theorem course_conditional {condition : Text}
    (hline : Statement.ofLine line = .conditional condition) :
    Course m line (m.conditional condition) := by
  unfold Machine.conditional
  split
  · exact .refused_of_passive (Fault.refuses_of_source?_eq_none rfl (by simp [Fault.kind]))
      (by rw [hline]; rfl) (by rw [hline]; rfl)
  · next holds hholds => exact .decided hline hholds

/-- The left side has to be bound already. -/
theorem course_assign (hline : Statement.ofLine line = .assignment) :
    Course m line (m.assign line) := by
  have hpassive : ∀ {f : Fault}, f.Refuses line → Course m line ⟨m, some f, false⟩ :=
    fun hf => .refused_of_passive hf (by rw [hline]; rfl) (by rw [hline]; rfl)
  unfold Machine.assign
  split
  · next left operand hfields =>
      unfold Store.assign
      cases hget : m.store.get? (trim left) with
      | none => exact hpassive (Fault.refuses_of_source?_eq_none rfl (by simp [Fault.kind]))
      | some old => exact .assigned hline hfields (by rw [hget]; rfl)
  · exact hpassive (Fault.refuses_of_source? rfl)

/-- Every line takes one of the courses. -/
theorem course_execute (m : Machine) (line : Text) : Course m line (m.execute line) := by
  show Course m line (m.perform ⟨line, .ofLine line⟩)
  cases hline : Statement.ofLine line with
  | declaration type name literal => exact course_declareScalar hline
  | listDeclaration name capacity elements => exact course_declareList hline
  | input name => exact course_input hline
  | typedInput name type => exact course_typedInput hline
  | typeQuery name => exact course_typeQuery hline
  | conditional condition => exact course_conditional hline
  | print content => exact course_print hline
  | inlinePrint content => exact course_inlinePrint hline
  | assignment => exact course_assign hline
  | malformed what =>
      exact .refused_of_passive (Fault.refuses_of_source? rfl) (by rw [hline]; rfl)
        (by rw [hline]; rfl)
  | unknown =>
      exact .refused_of_passive (Fault.refuses_of_source? rfl) (by rw [hline]; rfl)
        (by rw [hline]; rfl)

end Courses

end LineScript
