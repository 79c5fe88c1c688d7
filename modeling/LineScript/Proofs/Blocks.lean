/-
LineScript/Proofs/Blocks.lean

The meaning of blocks.  A script is taken apart at a line with a condition that the
run reaches while it is not skipping.

* If the condition holds, the line might as well not be there.
* If it does not hold or cannot be decided, the line and its block might as well
  not be there, up to and including the next closing brace, or up to the end of the
  script if there is none.  An undecided condition leaves its message in the output
  and counts as an error.
* What stands in a block that is skipped does not matter at all.

The last two rest on what skipping does (`foldl_skipping`) and on the fact that a
run never looks at what it has written (`Run.foldl_shift`).
-/
import LineScript.Machine.Run
import LineScript.Proofs.Frame

namespace LineScript

open Text

/-! ### Scripts and their lines -/

/-- The script with given lines. -/
def ofLines (ls : List Text) : Text := join "\n" ls

/-- The run when it has come to the end of the lines `before`. -/
def Machine.reach (m : Machine) (before : List Text) : Run :=
  (before.map trim).foldl Run.step { machine := m.startRun }

/-- A script is run line by line. -/
theorem Machine.run_ofLines (m : Machine) {ls : List Text}
    (h : ∀ l ∈ ls, byte '\n' ∉ l) : m.run (ofLines ls) = m.reach ls := by
  cases ls with
  | nil => rfl
  | cons l ls =>
      have hsplit : split "\n" (ofLines (l :: ls)) = l :: ls :=
        split_join (by simp) h
      rw [run, scriptLines, hsplit]
      rfl

/-- A script with lines added at its end is run up to there first. -/
theorem Machine.run_append_ofLines (m : Machine) (source : Text) {ls : List Text}
    (hne : ls ≠ []) (h : ∀ l ∈ ls, byte '\n' ∉ l) :
    m.run (source ++ "\n" ++ ofLines ls) = (ls.map trim).foldl Run.step (m.run source) := by
  have hlines : split "\n" (ofLines ls) = ls := split_join hne h
  have hsplit : split "\n" (source ++ "\n" ++ ofLines ls) = split "\n" source ++ ls :=
    calc split "\n" (source ++ "\n" ++ ofLines ls)
        = split "\n" (source ++ byte '\n' :: ofLines ls) := by
          rw [List.append_assoc]
          rfl
      _ = split "\n" source ++ split "\n" (ofLines ls) := split_append_byte _ _ _
      _ = split "\n" source ++ ls := by rw [hlines]
  rw [run, scriptLines, hsplit, List.map_append, List.foldl_append]
  rfl

/-- A run goes on behind the lines that it has come to. -/
theorem Machine.run_eq_foldl (m : Machine) {source line : Text}
    {before after : List Text} (h : split "\n" source = before ++ line :: after) :
    m.run source =
      (after.map trim).foldl Run.step ((m.reach before).step (trim line)) := by
  rw [run, scriptLines, h, List.map_append, List.foldl_append, List.map_cons,
    List.foldl_cons]
  rfl

/-- A script goes on from where its first lines have come to. -/
theorem Machine.reach_append (m : Machine) (before after : List Text) :
    m.reach (before ++ after) = (after.map trim).foldl Run.step (m.reach before) := by
  rw [reach, List.map_append, List.foldl_append]
  rfl

/-! ### Skipping -/

/-- Whether a line closes a block. -/
def closesBlock (l : Text) : Bool := trim l == Text.ofString "\x7d"

/-- The lines behind a block that begins with the lines `ls`. -/
def afterBlock (ls : List Text) : List Text :=
  (ls.dropWhile fun l => !closesBlock l).drop 1

namespace Run

variable {r : Run}

/-- While a block is skipped, other lines than a closing brace do nothing. -/
theorem step_skipping (hr : r.skipping = true) {l : Text} (hl : closesBlock l = false) :
    r.step (trim l) = r := by
  obtain ⟨machine, skipping, errors⟩ := r
  obtain rfl : skipping = true := hr
  unfold step
  split
  · rfl
  · unfold closesBlock at hl
    rw [if_pos rfl, hl]
    rfl

/-- A closing brace ends the skipping, and does nothing else. -/
theorem step_closing (hr : r.skipping = true) {l : Text} (hl : closesBlock l = true) :
    r.step (trim l) = { r with skipping := false } := by
  have hbrace : trim l = Text.ofString "\x7d" := beq_iff_eq.1 hl
  rw [hbrace, step, if_neg (by decide), if_pos hr]
  rfl

/-- Lines that close no block change nothing while skipping. -/
theorem foldl_body (hr : r.skipping = true) {body : List Text}
    (hbody : ∀ l ∈ body, closesBlock l = false) :
    (body.map trim).foldl step r = r := by
  induction body with
  | nil => rfl
  | cons l body ih =>
      obtain ⟨hl, hbody⟩ := List.forall_mem_cons.1 hbody
      rw [List.map_cons, List.foldl_cons, step_skipping hr hl]
      exact ih hbody

/-- Skipping ends behind the next closing brace. -/
theorem foldl_skipping (hr : r.skipping = true) (ls : List Text) :
    ((ls.map trim).foldl step r).machine =
        (((afterBlock ls).map trim).foldl step { r with skipping := false }).machine ∧
      ((ls.map trim).foldl step r).errors =
        (((afterBlock ls).map trim).foldl step { r with skipping := false }).errors := by
  induction ls with
  | nil => exact ⟨rfl, rfl⟩
  | cons l ls ih =>
      rw [List.map_cons, List.foldl_cons]
      cases hl : closesBlock l with
      | true =>
          have hafter : afterBlock (l :: ls) = ls := by simp [afterBlock, hl]
          rw [step_closing hr hl, hafter]
          exact ⟨rfl, rfl⟩
      | false =>
          have hafter : afterBlock (l :: ls) = afterBlock ls := by simp [afterBlock, hl]
          rw [step_skipping hr hl, hafter]
          exact ih

/-! ### What a run does not look at -/

/-- A run with its machine changed, and with some errors made before. -/
def change (change : Machine → Machine) (k : Nat) (r : Run) : Run :=
  { r with machine := change r.machine, errors := k + r.errors }

section Change

variable {g : Machine → Machine} (hg : Machine.Unnoticed g) (k : Nat)
include hg

theorem report_change (r : Run) (fault : Option Fault) :
    (r.change g k).report fault = (r.report fault).change g k := by
  cases fault with
  | none => rfl
  | some f =>
      simp only [report, change, hg.write]
      cases f.isWarning <;> rfl

/-- A line does the same to a changed run, if no line takes notice of the change. -/
theorem step_change (r : Run) (line : Text) :
    (r.change g k).step line = (r.step line).change g k := by
  have hmachine : (r.change g k).machine = g r.machine := rfl
  have hskipping : (r.change g k).skipping = r.skipping := rfl
  -- Whether a line is executed depends on the line and on skipping only.
  unfold step
  rw [hskipping, hmachine, hg.execute]
  split
  · rfl
  · split
    · rfl
    · exact report_change hg k { r with
          machine := (r.machine.execute line).machine
          skipping := (r.machine.execute line).skipping } (r.machine.execute line).fault

/-- Nor do lines in a row take notice of it. -/
theorem foldl_change (ls : List Text) (r : Run) :
    ls.foldl step (r.change g k) = (ls.foldl step r).change g k := by
  induction ls generalizing r with
  | nil => rfl
  | cons l ls ih => rw [List.foldl_cons, step_change hg, ih, List.foldl_cons]

end Change

/-- A run that has written some lines and made some errors before. -/
def shift (lines : List Text) (k : Nat) (r : Run) : Run :=
  r.change (Machine.prepend lines) k

theorem foldl_shift (lines : List Text) (k : Nat) (ls : List Text) (r : Run) :
    ls.foldl step (r.shift lines k) = (ls.foldl step r).shift lines k :=
  foldl_change (Machine.unnoticed_prepend lines) k ls r

/-- The same lines from runs that differ in one line written and one error. -/
theorem foldl_write (ls : List Text) (r : Run) (line : Text) :
    ∃ written,
      (ls.foldl step r).machine.output = r.machine.output ++ written ∧
      (ls.foldl step { r with machine := r.machine.write line, errors := r.errors + 1 }) =
        { ls.foldl step r with
          machine := { (ls.foldl step r).machine with
            output := r.machine.output ++ line :: written }
          errors := (ls.foldl step r).errors + 1 } := by
  -- Both runs are one that starts with nothing written and no errors, shifted.
  obtain ⟨⟨mode, answers, environment, output⟩, skipping, errors⟩ := r
  let start : Run := ⟨⟨mode, answers, environment, []⟩, skipping, 0⟩
  have hfirst : (⟨⟨mode, answers, environment, output⟩, skipping, errors⟩ : Run) =
      start.shift output errors := by
    simp [start, shift, change, Machine.prepend]
  have hsecond : (⟨⟨mode, answers, environment, output ++ [line]⟩, skipping, errors + 1⟩ : Run) =
      start.shift (output ++ [line]) (errors + 1) := by
    simp [start, shift, change, Machine.prepend]
  refine ⟨(ls.foldl step start).machine.output, ?_, ?_⟩
  · rw [hfirst, foldl_shift]
    simp [shift, change, Machine.prepend, start]
  · simp only [Machine.write]
    rw [hsecond, hfirst, foldl_shift, foldl_shift]
    simp [shift, change, Machine.prepend, Nat.add_right_comm]

/-! ### Conditions -/

/-- A condition that is reached decides whether to skip, and is reported if it
cannot be decided. -/
theorem step_conditional (hr : r.skipping = false) {line condition : Text}
    (hline : Statement.ofLine line = .conditional condition) :
    r.step line =
      match Condition.holds r.machine.store condition with
      | .ok b => { r with skipping := !b }
      | .error e =>
          { r with
            machine := r.machine.write e.message, skipping := true
            errors := r.errors + 1 } := by
  have hne : ¬ line.isEmpty = true := by
    intro he
    have hunknown : Statement.ofLine [] = .unknown := by decide
    rw [List.isEmpty_iff.1 he, hunknown] at hline
    cases hline
  have hexecute : r.machine.execute line = r.machine.conditional condition := by
    rw [r.machine.execute_eq_perform hline, Machine.perform]
  rw [step, if_neg hne, hr, if_neg Bool.false_ne_true, hexecute, Machine.conditional]
  cases Condition.holds r.machine.store condition <;> rfl

end Run

/-! ### Blocks -/

namespace Machine

variable (m : Machine) {source line condition : Text} {before after : List Text}
  (hlines : split "\n" source = before ++ line :: after)
  (hnormal : (m.reach before).skipping = false)
  (hline : Statement.ofLine (trim line) = .conditional condition)

include hlines

/-- A script is run from behind its first lines on. -/
theorem run_ofLines_append (ls : List Text) (hls : ls <:+ after) :
    m.run (ofLines (before ++ ls)) = (ls.map trim).foldl Run.step (m.reach before) := by
  have hfree : ∀ l ∈ before ++ line :: after, byte '\n' ∉ l := by
    intro l hl
    rw [← hlines] at hl
    exact not_mem_of_mem_split hl
  rw [m.run_ofLines, m.reach_append]
  refine List.forall_mem_append.2 ⟨fun l hl => hfree l (by simp [hl]), fun l hl => ?_⟩
  exact hfree l (by simp [hls.subset hl])

/-- The same with the block left out. -/
theorem run_ofLines_afterBlock :
    m.run (ofLines (before ++ afterBlock after)) =
      ((afterBlock after).map trim).foldl Run.step (m.reach before) :=
  m.run_ofLines_append hlines _ ((List.drop_suffix 1 _).trans (List.dropWhile_suffix _))

include hnormal hline

/-- A condition that holds might as well not be there. -/
theorem run_of_holds
    (hholds : Condition.holds (m.reach before).machine.store condition = .ok true) :
    m.run source = m.run (ofLines (before ++ after)) := by
  rw [m.run_ofLines_append hlines after (List.suffix_refl _), m.run_eq_foldl hlines,
    Run.step_conditional hnormal hline, hholds]
  have hsame : { m.reach before with skipping := !true } = m.reach before := by
    rw [Bool.not_true, ← hnormal]
  dsimp only
  rw [hsame]

/-- A condition that does not hold might as well not be there, nor its block. -/
theorem run_of_fails
    (hholds : Condition.holds (m.reach before).machine.store condition = .ok false) :
    (m.run source).machine = (m.run (ofLines (before ++ afterBlock after))).machine ∧
      (m.run source).errors = (m.run (ofLines (before ++ afterBlock after))).errors := by
  rw [m.run_ofLines_afterBlock hlines, m.run_eq_foldl hlines,
    Run.step_conditional hnormal hline, hholds]
  -- Behind its block, the run is again as it was when it came to the condition.
  have hsame : { m.reach before with skipping := false } = m.reach before := by
    rw [← hnormal]
  have hskip := @Run.foldl_skipping { m.reach before with skipping := true } rfl after
  rw [hsame] at hskip
  exact hskip

/-- The same for a condition that cannot be decided, except for its message and the
error that it counts as. -/
theorem run_of_undecided {e : ConditionError}
    (hholds : Condition.holds (m.reach before).machine.store condition = .error e) :
    (m.run source).errors = (m.run (ofLines (before ++ afterBlock after))).errors + 1 ∧
      ∃ written,
        (m.run (ofLines (before ++ afterBlock after))).machine.output =
          (m.reach before).machine.output ++ written ∧
        (m.run source).machine =
          { (m.run (ofLines (before ++ afterBlock after))).machine with
            output := (m.reach before).machine.output ++ e.message :: written } := by
  rw [m.run_ofLines_afterBlock hlines, m.run_eq_foldl hlines,
    Run.step_conditional hnormal hline, hholds]
  dsimp only
  -- Behind its block, the run differs from the one without it in the message and the error.
  have hskip := @Run.foldl_skipping { m.reach before with
    machine := (m.reach before).machine.write e.message
    skipping := true
    errors := (m.reach before).errors + 1 } rfl after
  dsimp only at hskip
  obtain ⟨written, houtput, hwrite⟩ :=
    Run.foldl_write ((afterBlock after).map trim) (m.reach before) e.message
  rw [hnormal] at hwrite
  rw [hwrite] at hskip
  exact ⟨hskip.2, written, houtput, hskip.1⟩

omit hlines in
/-- What stands in a block that is skipped does not matter. -/
theorem run_eq_of_body {source' : Text} {body body' rest : List Text}
    (hlines : split "\n" source = before ++ line :: (body ++ rest))
    (hlines' : split "\n" source' = before ++ line :: (body' ++ rest))
    (hfails : Condition.holds (m.reach before).machine.store condition ≠ .ok true)
    (hbody : ∀ l ∈ body, closesBlock l = false)
    (hbody' : ∀ l ∈ body', closesBlock l = false) : m.run source = m.run source' := by
  have hskip : ((m.reach before).step (trim line)).skipping = true := by
    rw [Run.step_conditional hnormal hline]
    cases hholds : Condition.holds (m.reach before).machine.store condition with
    | error e => rfl
    | ok b =>
        cases b with
        | false => rfl
        | true => exact absurd hholds hfails
  rw [m.run_eq_foldl hlines, m.run_eq_foldl hlines', List.map_append, List.foldl_append,
    List.map_append, List.foldl_append, Run.foldl_body hskip hbody,
    Run.foldl_body hskip hbody']

end Machine

/-- A line with a condition and what it means for a script.  `before` are the lines
before it and `after` the lines behind it; the run reaches it while it is not
skipping. -/
theorem run_conditional (m : Machine) {source line condition : Text}
    {before after : List Text} (hlines : split "\n" source = before ++ line :: after)
    (hnormal : (m.reach before).skipping = false)
    (hline : Statement.ofLine (trim line) = .conditional condition) :
    (match Condition.holds (m.reach before).machine.store condition with
      | .ok true => m.run source = m.run (ofLines (before ++ after))
      | .ok false =>
          (m.run source).machine =
              (m.run (ofLines (before ++ afterBlock after))).machine ∧
            (m.run source).errors = (m.run (ofLines (before ++ afterBlock after))).errors
      | .error e =>
          (m.run source).errors =
              (m.run (ofLines (before ++ afterBlock after))).errors + 1 ∧
            ∃ written,
              (m.run (ofLines (before ++ afterBlock after))).machine.output =
                (m.reach before).machine.output ++ written ∧
              (m.run source).machine =
                { (m.run (ofLines (before ++ afterBlock after))).machine with
                  output := (m.reach before).machine.output ++ e.message :: written }) ∧
    (Condition.holds (m.reach before).machine.store condition ≠ .ok true →
      ∀ body body' rest source', after = body ++ rest →
        split "\n" source' = before ++ line :: (body' ++ rest) →
        (∀ l ∈ body ++ body', closesBlock l = false) → m.run source' = m.run source) := by
  refine ⟨?_, ?_⟩
  · cases hholds : Condition.holds (m.reach before).machine.store condition with
    | error e => exact m.run_of_undecided hlines hnormal hline hholds
    | ok b =>
        cases b with
        | true => exact m.run_of_holds hlines hnormal hline hholds
        | false => exact m.run_of_fails hlines hnormal hline hholds
  · intro hfails body body' rest source' hsplit hlines' hbodies
    subst hsplit
    obtain ⟨hbody, hbody'⟩ := List.forall_mem_append.1 hbodies
    exact m.run_eq_of_body hnormal hline hlines' hlines hfails hbody' hbody

/-- A condition without a comparison, over a block that has a condition of its own. -/
theorem run_conditional_undecided :
    let m : Machine := { mode := .legacy }
    let before : List Text := ["int<x>1"]
    let line : Text := "if (x) \x7b"
    let body : List Text := ["if (x > 0) \x7b", "<in>(y)"]
    let rest : List Text := [" \x7d ", "(x)"]
    (m.reach before).skipping = false ∧
      Statement.ofLine (trim line) = .conditional "x" ∧
      (m.run (ofLines (before ++ line :: (body ++ rest)))).errors = 1 ∧
      m.run (ofLines (before ++ line :: rest)) =
        m.run (ofLines (before ++ line :: (body ++ rest))) := by
  intro m before line body rest
  have hlines : split "\n" (ofLines (before ++ line :: (body ++ rest))) =
      before ++ line :: (body ++ rest) := by decide
  have hnormal : (m.reach before).skipping = false := by decide
  have hline : Statement.ofLine (trim line) = .conditional "x" := by decide
  have hholds : Condition.holds (m.reach before).machine.store "x" =
      .error (.noComparison "x") := rfl
  have h := run_conditional m hlines hnormal hline
  rw [hholds] at h
  obtain ⟨⟨herrors, -⟩, hbody⟩ := h
  refine ⟨hnormal, hline, herrors.trans (by decide), ?_⟩
  exact hbody nofun body [] rest _ rfl (by decide) (by decide)

end LineScript
