/-
LineScript/Proofs/Questions.lean

Questions and their answers.  A line asks a question exactly if it is an input
statement with a name that is accepted and, where it names a type, with one that has
literals (`question?_eq_some_iff`).  Every question takes the next answer, whatever
becomes of it, and nothing else takes one.

So over any number of runs the k-th question gets the k-th answer, as long as there are
answers left (`answers_in_order`).
-/
import LineScript.Proofs.Executions

namespace LineScript

open Text

/-! ### Which lines ask -/

theorem ScalarType.isSome_ofName?_iff {t : Text} :
    (ofName? t).isSome = true ↔ t ∈ (["int", "double", "string", "bool"] : List Text) := by
  have hnames : (["int", "double", "string", "bool"] : List Text) = all.map name := rfl
  rw [hnames, ofName?, List.find?_isSome, List.mem_map]
  simp only [beq_iff_eq]

namespace Machine

variable {line prompt : Text}

/-- A question is asked by input statements with a proper name, for a number or for a
value of a type that has literals, and by no other line. -/
theorem question?_eq_some_iff :
    question? line = some prompt ↔
      (∃ name, Statement.ofLine line = .input name ∧ name ≠ [] ∧ name ∉ keywords ∧
        prompt = "Enter value for " ++ name ++ ":") ∨
      ∃ name type, Statement.ofLine line = .typedInput name type ∧ name ≠ [] ∧
        name ∉ keywords ∧ type ∈ (["int", "double", "string", "bool"] : List Text) ∧
        prompt = "Enter value for " ++ name ++ " (type: " ++ type ++ "):" := by
  constructor
  · intro h
    cases hline : Statement.ofLine line with
    | input name =>
        rw [question?_input hline] at h
        split at h
        · next hname => exact .inl ⟨name, rfl, hname.1, hname.2, (Option.some.inj h).symm⟩
        · cases h
    | typedInput name type =>
        rw [question?_typedInput hline] at h
        split at h
        · next hname =>
            obtain ⟨s, hs, hprompt⟩ := Option.map_eq_some_iff.1 h
            have htype := ScalarType.isSome_ofName?_iff.1 (Option.isSome_of_eq_some hs)
            exact .inr ⟨name, type, rfl, hname.1, hname.2, htype, hprompt.symm⟩
        · cases h
    | _ =>
        rw [question?, hline] at h
        cases h
  · rintro (⟨name, hline, hne, hkeyword, rfl⟩ |
      ⟨name, type, hline, hne, hkeyword, htype, rfl⟩)
    · rw [question?_input hline, if_pos ⟨hne, hkeyword⟩]
      rfl
    · obtain ⟨s, hs⟩ := Option.isSome_iff_exists.1 (ScalarType.isSome_ofName?_iff.2 htype)
      rw [question?_typedInput hline, if_pos ⟨hne, hkeyword⟩, hs]
      rfl

end Machine

/-! ### What becomes of the answers -/

/-- A question takes an answer, whether it can be read or not, and a line that asks
nothing takes none. -/
theorem Course.answers {m : Machine} {line : Text} {o : Outcome} (h : Course m line o) :
    o.machine.answers =
      match Machine.question? line with
      | none => m.answers
      | some prompt => m.answers.map fun a => (a.ask prompt).2 := by
  cases h with
  | refused _ hquestion => rw [hquestion]
  | unanswered hquestion | unread hquestion | answered hquestion =>
      rw [hquestion]
      rfl
  | decided hline => rw [Machine.question?, hline]
  | declared hline | listed hline | assigned hline =>
      rw [Machine.question?, hline]
      rfl
  | written hresult =>
      have hreader := Statement.reader?_of_isOutput (Machine.isOutput_of_result? hresult)
      rw [Machine.question?_of_reader?_eq_none hreader]
      rfl

/-- What comes of an input statement that receives an answer, or none.  The name is
bound to the value of the answer; if there is none, or it cannot be read, the statement
is refused and the variables stay as they are. -/
def Receives (m : Machine) (line : Text) (answer : Option Text) (o : Outcome) : Prop :=
  ∃ name read, (Statement.ofLine line).reader? = some (name, read) ∧
    match answer with
    | none => o.fault = some (.noInput name) ∧ o.machine.store = m.store
    | some answer =>
        match read answer with
        | .error _ => o.Refused ∧ o.machine.store = m.store
        | .ok v => o.fault = none ∧ o.machine.store = m.store.declare name v

/-- A line that asks receives the next answer, whatever it makes of it. -/
theorem Course.receives {m : Machine} {line prompt : Text} {o : Outcome}
    (h : Course m line o) (hasks : Machine.question? line = some prompt) :
    Receives m line m.nextAnswer? o := by
  have hnone : Machine.question? line ≠ none := by
    rw [hasks]
    exact Option.some_ne_none prompt
  cases h with
  | @unanswered name _ read _ hreader hanswer =>
      refine ⟨name, read, hreader, ?_⟩
      rw [hanswer]
      exact ⟨rfl, rfl⟩
  | @unread name _ answer read e f _ hreader hanswer hread hf =>
      refine ⟨name, read, hreader, ?_⟩
      rw [hanswer]
      dsimp only
      rw [hread]
      exact ⟨⟨f, rfl, hf.kind⟩, rfl⟩
  | @answered name _ answer read v _ hreader _ hanswer hread =>
      refine ⟨name, read, hreader, ?_⟩
      rw [hanswer]
      dsimp only
      rw [hread]
      exact ⟨rfl, rfl⟩
  -- in the other courses nothing is asked
  | refused _ hquestion => exact absurd hquestion hnone
  | decided hline | declared hline | listed hline | assigned hline =>
      exact absurd (Machine.question?_of_reader?_eq_none (by rw [hline]; rfl)) hnone
  | written hresult =>
      have hreader := Statement.reader?_of_isOutput (Machine.isOutput_of_result? hresult)
      exact absurd (Machine.question?_of_reader?_eq_none hreader) hnone

/-! ### Whole runs -/

/-- The question that an execution asks. -/
def Execution.question? (e : Execution) : Option Text := Machine.question? e.line

/-- Executions take one answer for each question, in order, and put the questions on
record. -/
theorem Leads.answers {m m' : Machine} {es : List Execution} (h : Leads m es m')
    {pending prompts : List Text} (hm : m.answers = some ⟨pending, prompts⟩) :
    m'.answers =
      some ⟨pending.drop (es.filterMap Execution.question?).length,
        prompts ++ es.filterMap Execution.question?⟩ := by
  induction h generalizing pending prompts with
  | refl => simpa using hm
  | start _ ih => exact ih hm
  | @execute m' e es _ ih =>
      have hafter : e.after.answers = match e.question? with
          | none => e.machine.answers
          | some prompt => e.machine.answers.map fun a => (a.ask prompt).2 :=
        e.answers_after.trans e.course.answers
      cases hq : e.question? with
      | none =>
          rw [hq] at hafter
          rw [List.filterMap_cons_none hq]
          exact ih (hafter.trans hm)
      | some prompt =>
          rw [hq] at hafter
          dsimp only at hafter
          rw [hm] at hafter
          rw [List.filterMap_cons_some hq, ih hafter]
          simp

/-- Over any scripts that are run one after the other with the given answers, every
question gets the answer that has its number, if there is one, and no other line gets
any.  Behind `k` questions the first `k` answers are gone and the questions are on
record.  The lines that ask are the input statements whose name is neither empty nor
reserved, and whose type, if they name one, is one of the four that have literals. -/
theorem answers_in_order (m : Machine) (answers sources : List Text) :
    let m : Machine := { m with answers := some ⟨answers, []⟩ }
    let es := m.allExecutions sources
    (m.runs sources).answers =
      some ⟨answers.drop (es.filterMap Execution.question?).length,
        es.filterMap Execution.question?⟩ ∧
    (∀ before e after, es = before ++ e :: after →
      let asked := before.filterMap Execution.question?
      e.machine.answers = some ⟨answers.drop asked.length, asked⟩ ∧
      (e.question? = none → e.outcome.machine.answers = e.machine.answers) ∧
      ∀ prompt, e.question? = some prompt →
        Receives e.machine e.line answers[asked.length]? e.outcome ∧
          e.outcome.machine.answers =
            some ⟨answers.drop (asked.length + 1), asked ++ [prompt]⟩) ∧
    ∀ line prompt, Machine.question? line = some prompt ↔
      (∃ name, Statement.ofLine line = .input name ∧ name ≠ [] ∧ name ∉ keywords ∧
        prompt = "Enter value for " ++ name ++ ":") ∨
      ∃ name type, Statement.ofLine line = .typedInput name type ∧ name ≠ [] ∧
        name ∉ keywords ∧ type ∈ (["int", "double", "string", "bool"] : List Text) ∧
        prompt = "Enter value for " ++ name ++ " (type: " ++ type ++ "):" := by
  intro m es
  have hruns : Leads m es (m.runs sources) := Leads.of_runs m sources
  refine ⟨hruns.answers rfl, ?_, fun line prompt => Machine.question?_eq_some_iff⟩
  intro before e after hes asked
  -- the line finds what the questions before it have left
  have hfinds : e.machine.answers = some ⟨answers.drop asked.length, asked⟩ := by
    rw [hes] at hruns
    exact hruns.split.answers rfl
  have hnext : e.machine.nextAnswer? = answers[asked.length]? := by
    rw [Machine.nextAnswer?, hfinds]
    exact List.head?_drop
  refine ⟨hfinds, fun hquestion => ?_, fun prompt hquestion => ⟨?_, ?_⟩⟩
  · rw [e.course.answers, show Machine.question? e.line = none from hquestion]
  · rw [← hnext]
    exact e.course.receives hquestion
  · rw [e.course.answers, show Machine.question? e.line = some prompt from hquestion, hfinds]
    simp [Answers.ask]

example :
    let m : Machine := { mode := .legacy, answers := some ⟨["one", "2"], []⟩ }
    (m.runs ["<in>(x)\n<in>(int)\n<in>(y).to<list>", "<in>(y).to<int>\n<in>(z)"]).answers =
      some ⟨[], ["Enter value for x:", "Enter value for y (type: int):",
        "Enter value for z:"]⟩ := by
  decide +kernel

end LineScript
