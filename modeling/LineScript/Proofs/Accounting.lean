/-
LineScript/Proofs/Accounting.lean

The books of a run.  Every line that is executed leaves at most one line in the
output: the message of what went wrong with it, or else what it was there to write
(`Execution.written?`).  The output of a run consists of these lines, in the order of
the script, and the run has counted those of them that report an error
(`run_accounting`).
-/
import LineScript.Proofs.Executions

namespace LineScript

open Text

/-! ### The line that an execution leaves -/

namespace Course

variable {m : Machine} {line : Text} {o : Outcome} (h : Course m line o)
include h

/-- Without a fault, the output statements have a result, and no other. -/
theorem isSome_result? (hfault : o.fault = none) :
    (m.result? (Statement.ofLine line)).isSome = (Statement.ofLine line).isOutput := by
  cases h with
  | refused | unanswered | unread => cases hfault
  | written hresult => rw [Machine.isOutput_of_result? hresult, hresult, Option.isSome_some]
  | decided hline | declared hline | listed hline | assigned hline =>
      rw [hline]
      rfl
  | answered _ hreader =>
      have houtput := Statement.not_isOutput_of_reader? hreader
      rw [Machine.result?_of_not_isOutput houtput, houtput, Option.isSome_none]

/-- A line writes its result, or nothing if there is a fault. -/
theorem output :
    o.machine.output =
      m.output ++
        if o.fault.isSome then [] else (m.result? (Statement.ofLine line)).toList := by
  cases h with
  | refused => simp
  | written hresult => simp [hresult, Machine.write]
  | decided hline => simp [hline, Machine.result?]
  | declared hline | listed hline | assigned hline =>
      simp [hline, Machine.result?, Machine.declare]
  | unanswered | unread => simp [Machine.asked]
  | answered _ hreader =>
      have houtput := Statement.not_isOutput_of_reader? hreader
      simp [Machine.result?_of_not_isOutput houtput, Machine.asked, Machine.declare]

end Course

namespace Execution

variable (e : Execution)

/-- The statement that is executed. -/
def statement : Statement := Statement.ofLine e.line

/-- The line that an execution leaves in the output: the message of what went wrong, or
else what the statement was there to write. -/
def written? : Option Text :=
  match e.outcome.fault with
  | some f => some f.message
  | none => e.machine.result? e.statement

/-- A line with a fault has written nothing before its message. -/
theorem output_of_fault {f : Fault} (hf : e.outcome.fault = some f) :
    e.outcome.machine.output = e.machine.output := by
  rw [e.course.output, hf]
  exact List.append_nil _

/-- Output statements always leave a line, other statements leave one for a fault. -/
theorem isSome_written? :
    e.written?.isSome = (e.statement.isOutput || e.outcome.fault.isSome) := by
  unfold written?
  cases hf : e.outcome.fault with
  | some f => simp
  | none =>
      show (e.machine.result? (Statement.ofLine e.line)).isSome =
        ((Statement.ofLine e.line).isOutput || false)
      rw [e.course.isSome_result? hf, Bool.or_false]

/-- The output behind a line is the one before it and the line that it leaves. -/
theorem output_after : e.after.output = e.machine.output ++ e.written?.toList := by
  unfold after written?
  cases hf : e.outcome.fault with
  | some f =>
      show e.outcome.machine.output ++ [f.message] = e.machine.output ++ [f.message]
      rw [e.output_of_fault hf]
  | none =>
      have houtput := e.course.output
      rw [hf] at houtput
      exact houtput

end Execution

/-! ### Whole runs -/

namespace Run

/-- Lines in a row leave behind what they write or report, in their order. -/
theorem output_foldl (r : Run) (ls : List Text) :
    (ls.foldl step r).machine.output =
      r.machine.output ++ (r.executions ls).filterMap Execution.written? := by
  induction ls generalizing r with
  | nil => simp [executions]
  | cons l ls ih =>
      rw [List.foldl_cons, ih, executions, List.filterMap_append]
      cases he : r.execution? l with
      | none => simp [(step_of_execution?_eq_none he).1]
      | some e =>
          obtain rfl := machine_of_execution? he
          rw [(step_of_execution? he).1, Execution.output_after]
          cases hw : Execution.written? ⟨r.machine, l⟩ <;> simp [hw]

/-- The errors of lines in a row add up. -/
theorem errors_foldl (r : Run) (ls : List Text) :
    (ls.foldl step r).errors = r.errors + (r.executions ls).countP Execution.isError := by
  induction ls generalizing r with
  | nil => simp [executions]
  | cons l ls ih =>
      rw [List.foldl_cons, ih, executions, List.countP_append]
      cases he : r.execution? l with
      | none => simp [(step_of_execution?_eq_none he).2]
      | some e =>
          rw [(step_of_execution? he).2, Nat.add_assoc]
          simp [List.countP_cons]

/-- A line changes the machine if it is executed, and then by its execution only. -/
theorem machine_step (r : Run) (line : Text) :
    (r.step line).machine =
      if line ≠ [] ∧ r.skipping = false then Execution.after ⟨r.machine, line⟩
      else r.machine := by
  cases he : r.execution? line with
  | none =>
      rw [(step_of_execution?_eq_none he).1, if_neg]
      intro hexecuted
      simp [execution?, hexecuted] at he
  | some e =>
      obtain rfl := machine_of_execution? he
      rw [(step_of_execution? he).1, if_pos]
      unfold execution? at he
      split at he
      · cases he
      · next hexecuted => simpa using hexecuted

end Run

/-- The output of a run consists of the lines that its executions leave, and its number
of errors is the number of executions that went wrong.  Statements that are there to
write something leave one line each, with their result or the message of what went
wrong; other statements leave one line if something went wrong, be it a full list, and
none otherwise.  A statement that goes wrong has written nothing by itself.  Lines are
executed, whatever happened before, if there is something in them and the run comes to
them while it is not skipping; other lines do nothing. -/
theorem run_accounting (m : Machine) (source : Text) :
    (m.run source).machine.output =
      (m.executions source).filterMap Execution.written? ∧
    (m.run source).errors = (m.executions source).countP Execution.isError ∧
    (∀ e ∈ m.executions source,
      e.written?.isSome = (e.statement.isOutput || e.outcome.fault.isSome) ∧
      ∀ f, e.outcome.fault = some f →
        e.written? = some f.message ∧ e.outcome.machine.output = e.machine.output) ∧
    m.run source = m.reach (split "\n" source) ∧
    ∀ before line,
      (m.reach (before ++ [line])).machine =
        if trim line ≠ [] ∧ (m.reach before).skipping = false then
          Execution.after ⟨(m.reach before).machine, trim line⟩
        else (m.reach before).machine := by
  refine ⟨?_, ?_, fun e _ => ⟨e.isSome_written?, fun f hf => ⟨?_, e.output_of_fault hf⟩⟩,
    rfl, fun before line => ?_⟩
  · -- a run starts with an empty output, whatever an earlier one has written
    rw [m.executions_eq]
    exact Run.output_foldl { machine := m.startRun } _
  · rw [m.executions_eq]
    apply (Run.errors_foldl { machine := m.startRun } _).trans
    exact Nat.zero_add _
  · rw [Execution.written?, hf]
  · rw [m.reach_concat]
    exact (m.reach before).machine_step (trim line)

example :
    let r := Machine.run { mode := .legacy, output := ["old"] }
      (ofLines ["(y)", "", "list<l>1(a,b)", "if (l) \x7b", "(l)", "\x7d", "type<l>"])
    r.machine.output =
      [("Undefined variable: y" : Text),
        "Warning: List exceeded max size. Remaining elements ignored.",
        "Invalid condition: l", "l is of type: list"] ∧ r.errors = 2 := by
  decide +kernel

end LineScript
