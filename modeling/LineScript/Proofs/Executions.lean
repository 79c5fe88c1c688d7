/-
LineScript/Proofs/Executions.lean

The lines that a run executes.  A line is executed if there is something in it and
the run comes to it while it is not skipping (`Machine.executions`); every other line
leaves the machine as it is.

So a machine gets from one state to another by executions, one after the other, and
by starting runs (`Leads`).  What each execution and each start preserve holds at every
point of every run (`Leads.invariant`), and every execution finds the machine that the
executions before it have left (`Leads.split`).
-/
import LineScript.Proofs.Blocks
import LineScript.Proofs.Courses

namespace LineScript

open Text

/-! ### Executions -/

/-- A line at the moment of its execution, with the machine as the line finds it. -/
structure Execution where
  machine : Machine
  line : Text

namespace Execution

variable (e : Execution)

/-- What comes out of the line. -/
def outcome : Outcome := e.machine.execute e.line

theorem course : Course e.machine e.line e.outcome := course_execute e.machine e.line

/-- The machine behind the line, when the message of what went wrong is written. -/
def after : Machine :=
  match e.outcome.fault with
  | none => e.outcome.machine
  | some f => e.outcome.machine.write f.message

/-- Whether more went wrong than a list being full. -/
def isError : Bool :=
  e.outcome.fault.any fun f => f.kind != .listOverflow

/-- Reporting what went wrong does not change the variables. -/
@[simp] theorem store_after : e.after.store = e.outcome.machine.store := by
  unfold after
  split <;> rfl

/-- Nor does it change the answers that are left. -/
@[simp] theorem answers_after : e.after.answers = e.outcome.machine.answers := by
  unfold after
  split <;> rfl

end Execution

/-! ### Which lines are executed -/

namespace Run

variable {r : Run} {line : Text} {e : Execution}

/-- The execution of a line to which a run has come, given without the white space
around it.  There is none if nothing is left of the line or the run is skipping. -/
def execution? (r : Run) (line : Text) : Option Execution :=
  if line = [] ∨ r.skipping = true then none else some ⟨r.machine, line⟩

/-- A line that is executed is executed on the machine of the run. -/
theorem machine_of_execution? (h : r.execution? line = some e) : e = ⟨r.machine, line⟩ := by
  unfold execution? at h
  split at h
  · cases h
  · exact (Option.some.inj h).symm

/-- A line that is not executed changes at most whether the run is skipping. -/
theorem step_of_execution?_eq_none (h : r.execution? line = none) :
    (r.step line).machine = r.machine ∧ (r.step line).errors = r.errors := by
  unfold step
  split
  · exact ⟨rfl, rfl⟩
  · next hne =>
      split
      · exact ⟨rfl, rfl⟩
      · next hnormal =>
          -- there is something in the line and the run is not skipping
          have hexecuted : ¬ (line = [] ∨ r.skipping = true) := by
            rintro (rfl | hskip)
            · exact hne rfl
            · exact hnormal hskip
          rw [execution?, if_neg hexecuted] at h
          cases h

/-- A line that is executed leaves the machine behind it, and counts if it is an
error. -/
theorem step_of_execution? (h : r.execution? line = some e) :
    (r.step line).machine = e.after ∧
      (r.step line).errors = r.errors + if e.isError then 1 else 0 := by
  have hexecuted : ¬ (line = [] ∨ r.skipping = true) := by
    intro hnone
    rw [execution?, if_pos hnone] at h
    cases h
  obtain ⟨hne, hskip⟩ := not_or.1 hexecuted
  obtain rfl := machine_of_execution? h
  have hstep : r.step line =
      Run.report { r with
        machine := (r.machine.execute line).machine
        skipping := (r.machine.execute line).skipping } (r.machine.execute line).fault := by
    rw [step, if_neg (by simpa using hne), if_neg hskip]
  rw [hstep]
  unfold Execution.after Execution.isError Execution.outcome
  cases (r.machine.execute line).fault with
  | none => exact ⟨rfl, rfl⟩
  | some f =>
      refine ⟨rfl, ?_⟩
      show (if f.isWarning then r.errors else r.errors + 1) =
        r.errors + if f.kind != .listOverflow then 1 else 0
      -- A list that is too long is the only fault that is not counted.
      have hwarning : f.isWarning = !(f.kind != .listOverflow) := by
        simp [Fault.isWarning, FaultKind.isWarning, bne]
      rw [hwarning]
      cases f.kind != .listOverflow <;> rfl

/-- The executions from a run on, over lines without white space around them. -/
def executions (r : Run) : List Text → List Execution
  | [] => []
  | l :: ls => (r.execution? l).toList ++ (r.step l).executions ls

end Run

/-- The lines that running a script executes, in their order: those with something in
them to which the run comes while it is not skipping. -/
def Machine.executions (m : Machine) (source : Text) : List Execution :=
  (split "\n" source).zipIdx.filterMap fun (line, i) =>
    (m.reach ((split "\n" source).take i)).execution? (trim line)

theorem Machine.reach_concat (m : Machine) (before : List Text) (line : Text) :
    m.reach (before ++ [line]) = (m.reach before).step (trim line) :=
  m.reach_append before [line]

/-- The executions of a script from some line on are those of the run that has come there. -/
theorem Machine.executions_behind (m : Machine) (before ls : List Text) :
    ((ls.zipIdx before.length).filterMap fun (line, i) =>
        (m.reach ((before ++ ls).take i)).execution? (trim line)) =
      (m.reach before).executions (ls.map trim) := by
  -- Each line finds the run as the lines before it have left it.
  induction ls generalizing before with
  | nil => rfl
  | cons l ls ih =>
      have hrest := ih (before ++ [l])
      rw [m.reach_concat, List.length_append, List.length_singleton, List.append_assoc,
        List.singleton_append] at hrest
      rw [List.map_cons, Run.executions, List.zipIdx_cons, ← hrest, List.filterMap_cons]
      dsimp only
      rw [List.take_left]
      cases (m.reach before).execution? (trim l) <;> rfl

theorem Machine.executions_eq (m : Machine) (source : Text) :
    m.executions source =
      Run.executions { machine := m.startRun } ((split "\n" source).map trim) :=
  m.executions_behind [] (split "\n" source)

/-! ### Runs one after the other -/

/-- The machine after scripts have been run one after the other. -/
def Machine.runs (m : Machine) (sources : List Text) : Machine :=
  sources.foldl (fun m source => (m.run source).machine) m

/-- The lines that running scripts one after the other executes. -/
def Machine.allExecutions (m : Machine) : List Text → List Execution
  | [] => []
  | source :: rest => m.executions source ++ (m.run source).machine.allExecutions rest

/-- Executing `es` one after the other leads from a machine to another, where runs are
started in between. -/
inductive Leads : Machine → List Execution → Machine → Prop where
  | refl {m : Machine} : Leads m [] m
  | start {m m' : Machine} {es : List Execution} :
      Leads m.startRun es m' → Leads m es m'
  | execute {m' : Machine} {e : Execution} {es : List Execution} :
      Leads e.after es m' → Leads e.machine (e :: es) m'

namespace Leads

variable {m m' m'' : Machine} {es es' : List Execution}

/-- One run leads on from where another has come to. -/
theorem trans (h : Leads m es m') (h' : Leads m' es' m'') : Leads m (es ++ es') m'' := by
  induction h with
  | refl => exact h'
  | start _ ih => exact .start (ih h')
  | execute _ ih => exact .execute (ih h')

/-- Every execution finds the machine that those before it have left. -/
theorem split {before after : List Execution} {e : Execution}
    (h : Leads m (before ++ e :: after) m') : Leads m before e.machine := by
  generalize hes : before ++ e :: after = es at h
  induction h generalizing before with
  | refl => simp at hes
  | start _ ih => exact .start (ih hes)
  | execute _ ih =>
      cases before with
      | nil =>
          obtain ⟨rfl, -⟩ := List.cons.inj hes
          exact .refl
      | cons e' before =>
          obtain ⟨rfl, hrest⟩ := List.cons.inj hes
          exact .execute (ih hrest)

/-- What the start of a run and every execution preserve holds all the way. -/
theorem invariant {P : Machine → Prop} (hstart : ∀ m : Machine, P m → P m.startRun)
    (hexecute : ∀ e : Execution, P e.machine → P e.after) (h : Leads m es m') (hm : P m) :
    P m' := by
  induction h with
  | refl => exact hm
  | start _ ih => exact ih (hstart _ hm)
  | execute _ ih => exact ih (hexecute _ hm)

/-- Lines in a row lead through their executions to the machine behind them. -/
theorem of_lines (r : Run) (ls : List Text) :
    Leads r.machine (r.executions ls) (ls.foldl Run.step r).machine := by
  induction ls generalizing r with
  | nil => exact .refl
  | cons l ls ih =>
      have hrest := ih (r.step l)
      rw [Run.executions, List.foldl_cons]
      cases he : r.execution? l with
      | none =>
          rw [(Run.step_of_execution?_eq_none he).1] at hrest
          exact hrest
      | some e =>
          rw [(Run.step_of_execution? he).1] at hrest
          obtain rfl := Run.machine_of_execution? he
          exact .execute hrest

theorem of_reach (m : Machine) (before : List Text) :
    ∃ es, Leads m es (m.reach before).machine :=
  ⟨_, .start (of_lines { machine := m.startRun } (before.map trim))⟩

/-- A script leads through its executions, from the start of a run on. -/
theorem of_run (m : Machine) (source : Text) :
    Leads m (m.executions source) (m.run source).machine := by
  rw [m.executions_eq]
  exact .start (of_lines { machine := m.startRun } ((Text.split "\n" source).map trim))

/-- Scripts that are run one after the other lead through all their executions. -/
theorem of_runs (m : Machine) (sources : List Text) :
    Leads m (m.allExecutions sources) (m.runs sources) := by
  induction sources generalizing m with
  | nil => exact .refl
  | cons source rest ih => exact (of_run m source).trans (ih (m.run source).machine)

end Leads

end LineScript
