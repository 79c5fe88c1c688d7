/-
LineScript/Proofs/Frame.lean

What executing a line can do to a machine, and what it leaves alone.

`Effect m line o` forgets of the courses of a line why it takes them, and keeps what it
does: it is refused with a fault, it decides a condition, it writes one line, or it binds
the one name that it is about (`boundName?`).  Every course has one of these effects
(`Course.effect`), and what lines leave alone follows from that (`execute_frame`).

A line looks at the mode, at the variables and at the next answer only.  A change of the
machine that leaves these alone commutes with execution (`Unnoticed.execute`); putting
lines in front of the output is one (`unnoticed_prepend`).
-/
import LineScript.Proofs.Courses
import LineScript.Proofs.Stores

namespace LineScript

open Text

/-! ### The name that a line is about -/

/-- The name that a line may bind: the name in a declaration or an input statement,
or the left side of an assignment.  Other statements bind nothing. -/
def Statement.boundName? (line : Text) : Option Text :=
  match Statement.ofLine line with
  | .declaration _ name _ => some name
  | .listDeclaration name _ _ => some name
  | .input name => some name
  | .typedInput name _ => some name
  | .assignment => (cut? "=" line).map fun (left, _) => trim left
  | .typeQuery _ => none
  | .conditional _ => none
  | .print _ => none
  | .inlinePrint _ => none
  | .malformed _ => none
  | .unknown => none

/-- The statements that bind no name: conditions, everything that is only written,
and lines that are no statement. -/
def Statement.isPassive : Statement → Bool
  | .conditional _ => true
  | .print _ => true
  | .inlinePrint _ => true
  | .typeQuery _ => true
  | .malformed _ => true
  | .unknown => true
  | .declaration _ _ _ => false
  | .listDeclaration _ _ _ => false
  | .input _ => false
  | .typedInput _ _ => false
  | .assignment => false

/-- A statement that binds nothing is about no name. -/
theorem Statement.boundName?_of_isPassive {line : Text}
    (h : (Statement.ofLine line).isPassive = true) : Statement.boundName? line = none := by
  unfold boundName?
  cases hline : Statement.ofLine line <;> simp_all [isPassive]

/-- Two fields begin with what stands before the first separator. -/
theorem cut?_of_fields {b : UInt8} {t l r : Text} (h : fields [b] t = [l, r]) :
    ∃ rest, cut? [b] t = some (l, rest) := by
  obtain ⟨hdrop, hl, -⟩ := fields_eq_pair_iff.1 h
  obtain ⟨dropped, ht⟩ : dropTrailing (· == b) t <+: t := List.rdropWhile_prefix _ t
  rw [hdrop, List.append_assoc, List.cons_append] at ht
  exact ⟨r ++ dropped, by rw [← ht, cut?_byte hl]⟩

/-! ### The effect of a line -/

/-- How a line may come out. -/
inductive Effect (m : Machine) (line : Text) : Outcome → Prop where
  /-- With a fault.  A question may have been asked. -/
  | refused {answers : Option Answers} {f : Fault} {skipping : Bool} :
      f.kind ≠ .listOverflow → Effect m line ⟨{ m with answers }, some f, skipping⟩
  /-- With nothing done but deciding whether to skip. -/
  | decided {skipping : Bool} : Effect m line ⟨m, none, skipping⟩
  /-- With one line written. -/
  | written {text : Text} : Effect m line ⟨m.write text, none, false⟩
  /-- With the name bound that the line is about, and perhaps a warning.  An
  assignment binds only names that are bound already. -/
  | bound {answers : Option Answers} {name : Text} {v : Value} {fault : Option Fault} :
      Statement.boundName? line = some name →
      (∀ f, fault = some f → f.kind = .listOverflow) →
      (Statement.ofLine line = .assignment → (m.store.get? name).isSome = true) →
      Effect m line ⟨({ m with answers } : Machine).declare name v, fault, false⟩

variable {m : Machine} {line : Text}

/-- An input statement is about the name that it is to bind. -/
theorem Statement.boundName?_of_reader? {name : Text}
    {read : Text → Except LiteralError Value}
    (h : (Statement.ofLine line).reader? = some (name, read)) :
    Statement.boundName? line = some name := by
  unfold boundName?
  cases hline : Statement.ofLine line with
  | input name' =>
      rw [hline] at h
      obtain ⟨rfl, -⟩ := Prod.mk.inj (Option.some.inj h)
      rfl
  | typedInput name' type =>
      rw [hline] at h
      obtain ⟨s, -, hs⟩ := Option.map_eq_some_iff.1 h
      obtain ⟨rfl, -⟩ := Prod.mk.inj hs
      rfl
  | _ => rw [hline] at h; cases h

/-- Equals signs at the end are dropped, so the left side stands before the first one. -/
theorem Statement.boundName?_of_assignment {left operand : Text}
    (hline : Statement.ofLine line = .assignment)
    (hfields : fields "=" line = [left, operand]) :
    Statement.boundName? line = some (trim left) := by
  obtain ⟨rest, hcut⟩ := cut?_of_fields hfields
  have hcut' : cut? "=" line = some (left, rest) := hcut
  simp [boundName?, hline, hcut']

/-- What a line does on its course. -/
theorem Course.effect {o : Outcome} (h : Course m line o) : Effect m line o := by
  cases h with
  | refused hf => exact @Effect.refused m line m.answers _ _ hf.kind
  | decided => exact .decided
  | written => exact .written
  | declared hline =>
      exact @Effect.bound m line m.answers _ _ none (by simp [Statement.boundName?, hline])
        (by simp) (by simp [hline])
  | listed hline =>
      refine @Effect.bound m line m.answers _ _ _ (by simp [Statement.boundName?, hline]) ?_
        (by simp [hline])
      intro f hf
      split at hf
      · cases hf
      · obtain rfl := Option.some.inj hf
        rfl
  | unanswered => exact .refused (by simp [Fault.kind])
  | unread _ _ _ _ hf => exact .refused hf.kind
  | answered _ hreader =>
      refine .bound (Statement.boundName?_of_reader? hreader) (by simp) fun hline => ?_
      rw [hline] at hreader
      cases hreader
  | assigned hline hfields hget =>
      exact @Effect.bound m line m.answers _ _ none
        (Statement.boundName?_of_assignment hline hfields) (by simp) fun _ => hget

/-! ### What a line leaves alone -/

/-- A fault other than the warning that a list is full. -/
def Outcome.Refused (o : Outcome) : Prop :=
  ∃ f, o.fault = some f ∧ f.kind ≠ .listOverflow

namespace Effect

variable {o : Outcome} (h : Effect m line o)
include h

/-- A line that is refused changes no variable. -/
theorem store_of_refused (hrefused : o.Refused) : o.machine.store = m.store := by
  obtain ⟨f, hf, hkind⟩ := hrefused
  cases h with
  | refused _ => rfl
  | decided => rfl
  | written => rfl
  | bound _ hfault _ => exact absurd (hfault f hf) hkind

/-- At most one variable changes, the one that the line is about. -/
theorem store_eq_or_declare : o.machine.store = m.store ∨
    ∃ n v, Statement.boundName? line = some n ∧ o.machine.store = m.store.declare n v := by
  cases h with
  | refused _ => exact .inl rfl
  | decided => exact .inl rfl
  | written => exact .inl rfl
  | @bound _ name v _ hname _ _ => exact .inr ⟨name, v, hname, rfl⟩

/-- Under any other name the same is found as before. -/
theorem get?_of_ne {n : Text} (hn : Statement.boundName? line ≠ some n) :
    o.machine.store.get? n = m.store.get? n := by
  rcases h.store_eq_or_declare with he | ⟨name, v, hname, he⟩
  · rw [he]
  · have hne : n ≠ name := by
      rintro rfl
      exact hn hname
    rw [he, Store.get?_declare, if_neg hne]

theorem store_of_boundName?_eq_none (hnone : Statement.boundName? line = none) :
    o.machine.store = m.store := by
  rcases h.store_eq_or_declare with he | ⟨name, v, hname, -⟩
  · exact he
  · simp [hnone] at hname

/-- An assignment does not change which names are bound. -/
theorem isSome_get?_of_assignment (hline : Statement.ofLine line = .assignment)
    (n : Text) :
    (o.machine.store.get? n).isSome = (m.store.get? n).isSome := by
  cases h with
  | refused _ => rfl
  | decided => rfl
  | written => rfl
  | @bound _ name v _ _ _ hassign =>
      show ((m.store.declare name v).get? n).isSome = (m.store.get? n).isSome
      rw [Store.get?_declare]
      split
      · next he => rw [he, hassign hline, Option.isSome_some]
      · rfl

/-- At most one line is written, and none by a line that is refused. -/
theorem output : ∃ lines, o.machine.output = m.output ++ lines ∧ lines.length ≤ 1 ∧
    (o.Refused → lines = []) := by
  cases h with
  | refused _ => exact ⟨[], by simp, by simp, fun _ => rfl⟩
  | decided => exact ⟨[], by simp, by simp, fun _ => rfl⟩
  | @written text =>
      refine ⟨[text], rfl, by simp, ?_⟩
      rintro ⟨f, hf, -⟩
      cases hf
  | bound _ _ _ => exact ⟨[], by simp [Machine.declare], by simp, fun _ => rfl⟩

end Effect

/-- A line that is refused with a fault, or that is about no name, leaves the
variables as they were.  Any other line changes at most the binding of the name that
it is about, and an assignment adds no name.  Lines are only added to the output, at
most one, and none by a line that is refused. -/
theorem execute_frame (m : Machine) (line : Text) :
    ((m.execute line).Refused → (m.execute line).machine.store = m.store) ∧
    ((Statement.ofLine line).isPassive = true →
      (m.execute line).machine.store = m.store) ∧
    ((m.execute line).machine.store = m.store ∨
      ∃ n v, Statement.boundName? line = some n ∧
        (m.execute line).machine.store = m.store.declare n v) ∧
    (∀ n, Statement.boundName? line ≠ some n →
      (m.execute line).machine.store.get? n = m.store.get? n) ∧
    (Statement.ofLine line = .assignment → ∀ n,
      ((m.execute line).machine.store.get? n).isSome = (m.store.get? n).isSome) ∧
    (∃ lines, (m.execute line).machine.output = m.output ++ lines ∧ lines.length ≤ 1 ∧
      ((m.execute line).Refused → lines = [])) := by
  have h := (course_execute m line).effect
  refine ⟨h.store_of_refused, fun hpassive => ?_, h.store_eq_or_declare,
    fun n => h.get?_of_ne, h.isSome_get?_of_assignment, h.output⟩
  exact h.store_of_boundName?_eq_none (Statement.boundName?_of_isPassive hpassive)

/-! ### What a line does not look at -/

/-- A change of machines that no line takes notice of.  It leaves alone what lines look
at, and it may be made before a line writes, declares or asks as well as behind. -/
structure Machine.Unnoticed (change : Machine → Machine) : Prop where
  mode (m : Machine) : (change m).mode = m.mode
  store (m : Machine) : (change m).store = m.store
  write (m : Machine) (t : Text) : (change m).write t = change (m.write t)
  declare (m : Machine) (name : Text) (v : Value) :
    (change m).declare name v = change (m.declare name v)
  ask (m : Machine) (prompt : Text) :
    (change m).ask prompt = ((m.ask prompt).1, change (m.ask prompt).2)

/-- The same change for the machine that a line leaves. -/
def Outcome.change (change : Machine → Machine) (o : Outcome) : Outcome :=
  { o with machine := change o.machine }

namespace Machine.Unnoticed

variable {change : Machine → Machine} (h : Unnoticed change) (m : Machine)
include h

theorem declareScalar (line : Text) (type : ScalarType) (name literal : Text) :
    (change m).declareScalar line type name literal =
      (m.declareScalar line type name literal).change change := by
  unfold Machine.declareScalar
  split
  · rfl
  · split
    · rfl
    · rw [h.declare]
      rfl

theorem declareList (line name capacity elements : Text) :
    (change m).declareList line name capacity elements =
      (m.declareList line name capacity elements).change change := by
  unfold Machine.declareList
  split
  · rfl
  · split
    · rfl
    · dsimp only
      rw [h.declare]
      rfl

/-- The next answer is the same on both sides, since it is looked at by asking. -/
theorem inputWith (name prompt : Text) (read : Text → Except LiteralError Value)
    (malformed : LiteralError → Fault) :
    (change m).inputWith name prompt read malformed =
      (m.inputWith name prompt read malformed).change change := by
  unfold Machine.inputWith
  rw [h.ask]
  obtain ⟨answer, m'⟩ := m.ask prompt
  cases answer with
  | none => rfl
  | some answer =>
      dsimp only
      cases read answer with
      | error e => rfl
      | ok v =>
          dsimp only
          rw [h.declare]
          rfl

theorem input (line name : Text) :
    (change m).input line name = (m.input line name).change change := by
  unfold Machine.input
  split
  · rfl
  · exact h.inputWith m _ _ _ _

theorem typedInput (line name type : Text) :
    (change m).typedInput line name type = (m.typedInput line name type).change change := by
  unfold Machine.typedInput
  split
  · rfl
  · split
    · rfl
    · exact h.inputWith m _ _ _ _

/-- Expressions are evaluated with the mode and the variables only. -/
theorem segmentsText (ss : List Segment) :
    (change m).segmentsText ss = m.segmentsText ss := by
  have hsegment : ∀ s, (change m).segmentText s = m.segmentText s := by
    intro s
    cases s with
    | literal t => rfl
    | expression t => rw [segmentText, segmentText, h.mode, h.store]
  induction ss with
  | nil => rfl
  | cons s ss ih => rw [Machine.segmentsText, Machine.segmentsText, ih, hsegment]

theorem inlinePrint (line content : Text) :
    (change m).inlinePrint line content = (m.inlinePrint line content).change change := by
  unfold Machine.inlinePrint
  cases Interpolation.segments content with
  | error e => rfl
  | ok segments =>
      simp only [h.segmentsText]
      cases m.segmentsText segments with
      | error e => rfl
      | ok t => simp [Outcome.change, h.write]

theorem print (content : Text) :
    (change m).print content = (m.print content).change change := by
  unfold Machine.print
  rw [h.store]
  cases Literal.unquoted? content with
  | some t => simp [Outcome.change, h.write]
  | none =>
      cases m.store.get? content with
      | none => rfl
      | some v => simp [Outcome.change, h.write]

theorem typeQuery (name : Text) :
    (change m).typeQuery name = (m.typeQuery name).change change := by
  unfold Machine.typeQuery
  rw [h.store]
  cases m.store.get? name with
  | none => rfl
  | some v => simp [Outcome.change, h.write]

/-- Assigning is declaring, for a name that is found among the variables. -/
theorem assign (line : Text) :
    (change m).assign line = (m.assign line).change change := by
  unfold Machine.assign Store.assign
  rw [h.store]
  split
  · next left operand _ =>
      cases m.store.get? (trim left) with
      | none => rfl
      | some old =>
          -- binding the name again is declaring it
          have hdeclare := h.declare m (trim left) (m.store.resolve (trim operand))
          simp only [Machine.declare, h.store] at hdeclare
          simp only [Outcome.change, hdeclare]
  · rfl

theorem conditional (condition : Text) :
    (change m).conditional condition = (m.conditional condition).change change := by
  unfold Machine.conditional
  rw [h.store]
  split <;> rfl

/-- A line does the same whether the change has been made before it or is made behind. -/
theorem execute (line : Text) :
    (change m).execute line = (m.execute line).change change := by
  show (change m).perform ⟨line, .ofLine line⟩ = (m.perform ⟨line, .ofLine line⟩).change change
  cases Statement.ofLine line with
  | declaration type name literal => exact h.declareScalar m line type name literal
  | listDeclaration name capacity elements =>
      exact h.declareList m line name capacity elements
  | input name => exact h.input m line name
  | typedInput name type => exact h.typedInput m line name type
  | typeQuery name => exact h.typeQuery m name
  | conditional condition => exact h.conditional m condition
  | print content => exact h.print m content
  | inlinePrint content => exact h.inlinePrint m line content
  | assignment => exact h.assign m line
  | malformed what => rfl
  | unknown => rfl

end Machine.Unnoticed

/-- A machine that has written some lines before. -/
def Machine.prepend (lines : List Text) (m : Machine) : Machine :=
  { m with output := lines ++ m.output }

/-- What has been written before is not looked at. -/
theorem Machine.unnoticed_prepend (lines : List Text) : Unnoticed (prepend lines) where
  mode _ := rfl
  store _ := rfl
  write m t := by simp [prepend, write]
  declare _ _ _ := rfl
  ask m prompt := by
    obtain ⟨mode, answers, environment, output⟩ := m
    cases answers <;> rfl

end LineScript
