/-
LineScript/Proofs/Sessions.lean

The shell and its console.

The console tells from the beginning of a line whether it reports an error.  The messages
of faults begin accordingly, whatever texts they quote: the line that is written for a
fault is shown as an error, or as a warning if it is only that (`fault_shown`).

A session is a sequence of lines that are typed in.  Running the buffer at the end of a
session comes to the same as running it on a new machine that has the answers which are
left (`run_of_session`).  Two facts carry this: the buffer holds the lines that were
collected since it was last emptied, and a machine brings nothing to a run but its mode and
its answers (`run_eq_change_fresh`), so that what commands do to the output does not
matter.
-/
import LineScript.Proofs.Accounting
import LineScript.Proofs.Forms
import LineScript.Proofs.Questions
import LineScript.Shell.Basic

namespace LineScript

open Text

/-! ### How faults are shown -/

namespace Console

/-- A line is an error by how it begins. -/
theorem isErrorLine_append {p : Text} (h : isErrorLine p = true) (t : Text) :
    isErrorLine (p ++ t) = true := by
  obtain ⟨b, hb, hp⟩ := List.any_eq_true.1 h
  rw [List.isPrefixOf_iff_prefix] at hp
  refine List.any_eq_true.2 ⟨b, hb, ?_⟩
  rw [List.isPrefixOf_iff_prefix]
  exact hp.trans (List.prefix_append p t)

/-- No line is taken for an error that is taken for a warning. -/
theorem isErrorLine_warning (t : Text) : isErrorLine ("Warning:" ++ t) = false := rfl

theorem shown_warning (t : Text) : shown ("Warning:" ++ t) = warning (trim t) := by
  rw [shown, after?_append]

/-- A line that is an error is not taken for a warning. -/
theorem shown_error {t : Text} (h : isErrorLine t = true) : shown t = error t := by
  unfold shown
  split
  · next rest hrest =>
      rw [after?_eq_some_iff.1 hrest, isErrorLine_warning] at h
      cases h
  · exact if_pos h

end Console

/-- Every message begins like an error, whatever it quotes, except that of a warning. -/
theorem Fault.isErrorLine_message {f : Fault} (h : f.isWarning = false) :
    Console.isErrorLine f.message = true := by
  cases f with
  | listOverflow => cases h
  | declaration _ _ | boolean _ _ | listDeclaration _ _ | input _ _ | typedInput _ _
  | noInput _ | undefined _ | assignUndefined _ | assignment _ | inlinePrint _ _
  | unknown _ => exact Console.isErrorLine_append (by decide +kernel) _
  | reserved _ | unsupportedType _ =>
      rw [message, List.append_assoc]
      exact Console.isErrorLine_append (by decide +kernel) _
  | malformed _ _ =>
      rw [message, List.append_assoc, List.append_assoc]
      exact Console.isErrorLine_append (by decide +kernel) _
  | condition cause =>
      cases cause with
      | noComparison _ | operands _ => exact Console.isErrorLine_append (by decide +kernel) _
      | notNumbers _ _ =>
          rw [message, ConditionError.message, List.append_assoc, List.append_assoc]
          exact Console.isErrorLine_append (by decide +kernel) _

/-- The only warning is that a list is full. -/
theorem Fault.message_of_isWarning {f : Fault} (h : f.isWarning = true) :
    f.message =
      "Warning:" ++ Text.ofString " List exceeded max size. Remaining elements ignored." := by
  cases f with
  | listOverflow => decide +kernel
  | _ => cases h

/-- The line that a run writes for what went wrong with a statement is shown as an error,
or as a warning if the statement has been executed nevertheless. -/
theorem fault_shown (m : Machine) (line : Text) {f : Fault}
    (hf : (m.execute line).fault = some f) :
    (f.isWarning = false → Console.isErrorLine f.message = true ∧
      Console.shown f.message = Console.error f.message) ∧
    (f.isWarning = true → Console.isErrorLine f.message = false ∧
      ∃ rest, f.message = "Warning:" ++ rest ∧
        Console.shown f.message = Console.warning (trim rest)) ∧
    ∀ r : Run, r.machine = m → r.skipping = false → line ≠ [] →
      (r.step line).machine.output = m.output ++ [f.message] := by
  refine ⟨fun herror => ?_, fun hwarning => ?_, ?_⟩
  · have hline := Fault.isErrorLine_message herror
    exact ⟨hline, Console.shown_error hline⟩
  · rw [Fault.message_of_isWarning hwarning]
    exact ⟨Console.isErrorLine_warning _, _, rfl, Console.shown_warning _⟩
  · rintro r rfl hnormal hne
    have hf' : (Execution.mk r.machine line).outcome.fault = some f := hf
    rw [r.machine_step, if_pos ⟨hne, hnormal⟩, Execution.output_after, Execution.written?, hf']
    rfl

/-- An error whose message quotes a text that begins like a warning, and a warning. -/
theorem fault_shown_both :
    let m : Machine := { mode := .legacy }
    (m.execute "(Warning:)").fault = some (.undefined "Warning:") ∧
      Console.shown "Undefined variable: Warning:" =
        Console.error "Undefined variable: Warning:" ∧
      (m.execute "list<l>1(a,b)").fault = some .listOverflow ∧
      Console.isErrorLine (Fault.message .listOverflow) = false := by
  intro m
  have hprint : (m.execute "(Warning:)").fault = some (.undefined "Warning:") := by
    have hline : Statement.ofLine "(Warning:)" = .print (trim "Warning:") :=
      Statement.ofLine_print "Warning:"
    rw [m.execute_eq_perform hline,
      trim_eq_self ⟨⟨byte 'W', rfl, rfl⟩, ⟨byte ':', rfl, rfl⟩⟩]
    rfl
  have hlist : (m.execute "list<l>1(a,b)").fault = some .listOverflow := by
    have hline : Statement.ofLine "list<l>1(a,b)" = .listDeclaration "l" (trim "1") "a,b" :=
      Statement.ofLine_listDeclaration (by decide) (by decide) "a,b"
    rw [m.execute_eq_perform hline,
      trim_eq_self ⟨⟨byte '1', rfl, rfl⟩, ⟨byte '1', rfl, rfl⟩⟩]
    rfl
  exact ⟨hprint, ((fault_shown m _ hprint).1 rfl).2, hlist, ((fault_shown m _ hlist).2.1 rfl).1⟩

/-! ### Runs and what was before them -/

namespace Machine

/-- A machine with questions asked and runs made before. -/
def experienced (prompts : List Text) (runs : Nat) (m : Machine) : Machine :=
  { m with
    answers := m.answers.map fun a => ⟨a.pending, prompts ++ a.prompts⟩
    environment := { m.environment with runs := runs + m.environment.runs } }

section Experienced

variable (prompts : List Text) (runs : Nat) (m : Machine)

@[simp] theorem output_experienced : (m.experienced prompts runs).output = m.output := rfl

@[simp] theorem store_experienced : (m.experienced prompts runs).store = m.store := rfl

@[simp] theorem answers_experienced :
    (m.experienced prompts runs).answers =
      m.answers.map fun a => ⟨a.pending, prompts ++ a.prompts⟩ := rfl

end Experienced

/-- What was asked before and how many runs there have been is not looked at. -/
theorem unnoticed_experienced (prompts : List Text) (runs : Nat) :
    Unnoticed (experienced prompts runs) where
  mode _ := rfl
  store _ := rfl
  write _ _ := rfl
  declare _ _ _ := rfl
  ask m prompt := by
    obtain ⟨mode, answers, environment, output⟩ := m
    cases answers with
    | none => rfl
    | some a => simp [experienced, ask, Answers.ask]

/-- A new machine with the mode and the answers of a given one. -/
def fresh (m : Machine) : Machine :=
  { mode := m.mode, answers := m.answers.map fun a => ⟨a.pending, []⟩ }

/-- The questions that have been asked. -/
def prompts (m : Machine) : List Text := (m.answers.map Answers.prompts).getD []

/-- A machine brings nothing to a run but its mode and the answers that are left. -/
theorem run_eq_change_fresh (m : Machine) (source : Text) :
    m.run source =
      (m.fresh.run source).change (experienced m.prompts m.environment.runs) 0 := by
  have hstart : m.startRun = m.fresh.startRun.experienced m.prompts m.environment.runs := by
    obtain ⟨mode, answers, environment, output⟩ := m
    cases answers with
    | none => rfl
    | some a => simp [startRun, fresh, experienced, prompts, Environment.startRun]
  have hrun := Run.foldl_change (unnoticed_experienced m.prompts m.environment.runs) 0
    (scriptLines source) { machine := m.fresh.startRun }
  rw [run, run, ← hrun, hstart]
  rfl

end Machine

/-- A run begins by forgetting what has been written. -/
theorem Machine.run_forgets (m : Machine) (output : List Text) (source : Text) :
    Machine.run { m with output } source = m.run source := by
  have hstart : startRun { m with output } = m.startRun := rfl
  rw [run, run, hstart]

/-- Another script is run by the machine that the others have left. -/
theorem Machine.runs_concat (m : Machine) (sources : List Text) (source : Text) :
    m.runs (sources ++ [source]) = ((m.runs sources).run source).machine := by
  rw [runs, List.foldl_append]
  rfl

/-- No line changes the mode. -/
theorem Effect.mode {m : Machine} {line : Text} {o : Outcome} (h : Effect m line o) :
    o.machine.mode = m.mode := by
  cases h <;> rfl

theorem Execution.mode_after (e : Execution) : e.after.mode = e.machine.mode := by
  unfold after
  split
  · exact (course_execute e.machine e.line).effect.mode
  · exact (course_execute e.machine e.line).effect.mode

/-- So no run does. -/
theorem Leads.mode {m m' : Machine} {es : List Execution} (h : Leads m es m') :
    m'.mode = m.mode :=
  h.invariant (P := fun m' => m'.mode = m.mode) (fun _ hm => hm)
    (fun e he => e.mode_after.trans he) rfl

/-! ### Sessions -/

/-- The shell after lines have been typed in one after the other. -/
def Shell.enterAll (s : Shell) (lines : List Text) : Shell :=
  lines.foldl (fun s line => (s.enter line).shell) s

/-- Lines that go to the buffer: neither commands nor the word `clear`. -/
def isCollected (line : Text) : Bool :=
  trim line != Text.ofString "clear" && !(Text.ofString ":").isPrefixOf (trim line)

/-- The lines that have been collected since the buffer was last emptied. -/
def collected (lines : List Text) : List Text :=
  (lines.reverse.takeWhile fun line => trim line != Text.ofString ":new").reverse.filter
    isCollected

/-- The scripts that have been run in a session, each made of the lines that had been
collected before. -/
def scriptsRun (lines : List Text) : List Text :=
  lines.zipIdx.filterMap fun (line, i) =>
    if trim line = Text.ofString ":run" then some (join "\n" (collected (lines.take i)))
    else none

/-- Another line clears the collection, is added to it, or leaves it alone. -/
theorem collected_concat (lines : List Text) (line : Text) :
    collected (lines ++ [line]) =
      if trim line = Text.ofString ":new" then []
      else if isCollected line then collected lines ++ [line] else collected lines := by
  unfold collected
  rw [List.reverse_append, List.reverse_singleton, List.singleton_append, List.takeWhile_cons]
  split
  · next hnew =>
      rw [bne_iff_ne] at hnew
      rw [if_neg hnew, List.reverse_cons, List.filter_append]
      cases hline : isCollected line <;> simp [hline]
  · next hnew =>
      rw [bne_iff_ne, not_not] at hnew
      rw [if_pos hnew]
      rfl

/-- Another line runs what has been collected so far, if it is the command for that. -/
theorem scriptsRun_concat (lines : List Text) (line : Text) :
    scriptsRun (lines ++ [line]) =
      if trim line = Text.ofString ":run" then
        scriptsRun lines ++ [join "\n" (collected lines)]
      else scriptsRun lines := by
  -- what had been collected before a run does not depend on the lines behind it
  have hbefore : (lines.zipIdx.filterMap fun (l, i) =>
      if trim l = Text.ofString ":run" then
        some (join "\n" (collected ((lines ++ [line]).take i)))
      else none) = scriptsRun lines := by
    refine List.filterMap_congr fun ⟨l, i⟩ hmem => ?_
    have hi : i ≤ lines.length := by
      have hlt := List.snd_lt_of_mem_zipIdx hmem
      omega
    dsimp only
    rw [List.take_append_of_le_length hi]
  rw [scriptsRun, List.zipIdx_append, List.filterMap_append, hbefore]
  split
  · next hrun => simp [hrun]
  · next hrun => simp [hrun]

/-- What a line that is typed in does to the shell. -/
inductive Entered (s : Shell) (line : Text) : Shell → Prop where
  | run : trim line = Text.ofString ":run" →
      Entered s line { s with machine := (s.machine.run (join "\n" s.buffer)).machine }
  | emptied : trim line = Text.ofString ":new" → Entered s line { s with buffer := [] }
  | collected : isCollected line = true →
      Entered s line { s with buffer := s.buffer ++ [line] }
  /-- Any other command, and clearing the console. -/
  | other {output : List Text} : trim line ≠ Text.ofString ":run" →
      trim line ≠ Text.ofString ":new" → isCollected line = false →
      Entered s line { s with machine := { s.machine with output } }

section Entering

variable (s : Shell) {line : Text}

/-- Commands are not collected. -/
theorem isCollected_of_command {command : Text} (h : trim line = Text.ofString ":" ++ command) :
    isCollected line = false := by
  have hcolon : (Text.ofString ":").isPrefixOf (trim line) = true := by
    rw [h, List.isPrefixOf_iff_prefix]
    exact List.prefix_append _ _
  rw [isCollected, hcolon, Bool.not_true, Bool.and_false]

/-- Commands for the console change nothing but the output. -/
theorem shell_route (command : Text) :
    ∃ output, (s.route command).shell = { s with machine := { s.machine with output } } := by
  refine ⟨Console.route command s.machine.output, ?_⟩
  unfold Shell.route
  dsimp only
  split <;> rfl

/-- What each command does, one case for each. -/
theorem entered_execute {command : Text} (h : trim line = Text.ofString ":" ++ command) :
    Entered s line (s.execute command).shell := by
  have hcollected := isCollected_of_command h
  -- a command that is none of those which run or empty the buffer
  have hother : ∀ output, command ≠ Text.ofString "run" → command ≠ Text.ofString "new" →
      Entered s line { s with machine := { s.machine with output } } := by
    intro output hrun hnew
    refine .other ?_ ?_ hcollected
    · rw [h]
      exact fun he => hrun (List.append_cancel_left he)
    · rw [h]
      exact fun he => hnew (List.append_cancel_left he)
  unfold Shell.execute
  split
  · next hquit =>
      refine hother s.machine.output ?_ ?_
      · rintro rfl
        revert hquit
        decide
      · rintro rfl
        revert hquit
        decide
  · split
    · next hrun =>
        subst hrun
        exact .run h
    · next hrun =>
        split
        · next hshow => exact hother s.machine.output hrun (by rw [hshow]; decide)
        · split
          · next hnew =>
              subst hnew
              exact .emptied h
          · next hnew =>
              split
              · exact hother s.machine.output hrun hnew
              · split
                · exact hother s.machine.output hrun hnew
                · obtain ⟨output, houtput⟩ := shell_route s command
                  rw [houtput]
                  exact hother output hrun hnew

/-- A line is a command, is collected, or is empty. -/
theorem entered_enter (line : Text) : Entered s line (s.enter line).shell := by
  unfold Shell.enter
  dsimp only
  split
  · next hclear =>
      obtain ⟨output, houtput⟩ := shell_route s (trim line)
      rw [houtput]
      refine .other ?_ ?_ ?_
      · rw [hclear]
        decide
      · rw [hclear]
        decide
      · rw [isCollected, hclear]
        rfl
  · next hclear =>
      split
      · next command hcommand => exact entered_execute s (after?_eq_some_iff.1 hcommand)
      · next hnone =>
          refine .collected ?_
          rw [after?_eq_none_iff, ← List.isPrefixOf_iff_prefix] at hnone
          simp [isCollected, hclear, hnone]

/-- A run in a session is a run of its own, apart from what has been asked and run before. -/
theorem Shell.machine_run :
    s.run.shell.machine =
      (s.machine.fresh.run (join "\n" s.buffer)).machine.experienced s.machine.prompts
        s.machine.environment.runs := by
  show (s.machine.run (join "\n" s.buffer)).machine = _
  rw [s.machine.run_eq_change_fresh]
  rfl

theorem Shell.enter_run (hline : trim line = Text.ofString ":run") : s.enter line = s.run := by
  unfold enter
  rw [hline]
  rfl

end Entering

/-- The shell at the end of a session: what has been collected is in the buffer, and the
machine is the one that the runs have left, but for its output. -/
structure InSession (m : Machine) (lines : List Text) (s : Shell) : Prop where
  buffer : s.buffer = collected lines
  machine : ∃ output, s.machine = { m.runs (scriptsRun lines) with output }

namespace InSession

variable {m : Machine} {lines : List Text} {s s' : Shell} {line : Text}

/-- A session goes on with what one more line does. -/
theorem concat (h : InSession m lines s) (hline : Entered s line s') :
    InSession m (lines ++ [line]) s' := by
  obtain ⟨output, hmachine⟩ := h.machine
  cases hline with
  | run hrun =>
      have hnew : trim line ≠ Text.ofString ":new" := by
        rw [hrun]
        decide
      refine ⟨?_, ?_⟩
      · rw [collected_concat, if_neg hnew, isCollected_of_command hrun]
        exact h.buffer
      · have hscript : s.machine.run (join "\n" s.buffer) =
            (m.runs (scriptsRun lines)).run (join "\n" (collected lines)) := by
          rw [h.buffer, hmachine, Machine.run_forgets]
        -- A run forgets the output that it finds, and only the output is not known.
        refine ⟨((m.runs (scriptsRun lines)).run (join "\n" (collected lines))).machine.output, ?_⟩
        rw [scriptsRun_concat, if_pos hrun, Machine.runs_concat]
        exact congrArg Run.machine hscript
  | emptied hnew =>
      have hrun : trim line ≠ Text.ofString ":run" := by
        rw [hnew]
        decide
      refine ⟨?_, ?_⟩
      · rw [collected_concat, if_pos hnew]
      · rw [scriptsRun_concat, if_neg hrun]
        exact h.machine
  | collected hcollected =>
      have hnot : ∀ command, trim line ≠ Text.ofString ":" ++ command := by
        intro command he
        rw [isCollected_of_command he] at hcollected
        cases hcollected
      have hnew : trim line ≠ Text.ofString ":new" := hnot "new"
      have hrun : trim line ≠ Text.ofString ":run" := hnot "run"
      refine ⟨?_, ?_⟩
      · rw [collected_concat, if_neg hnew, if_pos hcollected, ← h.buffer]
      · rw [scriptsRun_concat, if_neg hrun]
        exact h.machine
  | other hrun hnew hcollected =>
      refine ⟨?_, ?_⟩
      · rw [collected_concat, if_neg hnew, hcollected]
        exact h.buffer
      · rw [scriptsRun_concat, if_neg hrun, hmachine]
        exact ⟨_, rfl⟩

/-- Any lines whatever make a session. -/
theorem enterAll (m : Machine) (hasScreen : Bool) (lines : List Text) :
    InSession m lines (Shell.enterAll { machine := m, hasScreen } lines) := by
  induction lines using List.reverseRecOn with
  | nil => exact ⟨rfl, m.output, rfl⟩
  | append_singleton lines line ih =>
      rw [Shell.enterAll, List.foldl_append]
      exact ih.concat (entered_enter _ line)

end InSession

/-- Running the buffer at the end of a session.  The lines on the console and the variables
are those of a new machine of the same mode which runs the lines that were collected since
the buffer was last emptied.  Its answers are those that are left behind the questions
which the earlier runs of the session have asked. -/
theorem run_of_session (mode : Mode) (answers : List Text) (hasScreen : Bool)
    (lines : List Text) {line : Text} (hline : trim line = Text.ofString ":run") :
    let s : Shell := { machine := { mode, answers := some ⟨answers, []⟩ }, hasScreen }
    let asked := (s.machine.allExecutions (scriptsRun lines)).filterMap Execution.question?
    let fresh : Machine := { mode, answers := some ⟨answers.drop asked.length, []⟩ }
    let r := fresh.run (join "\n" (collected lines))
    let response := (s.enterAll lines).enter line
    response.shell.machine.output = r.machine.output ∧
      response.shell.machine.store = r.machine.store ∧
      response.printed = r.machine.output.flatMap Console.shown ∧
      response.shell.buffer = collected lines ∧
      response.shell.machine.answers =
        r.machine.answers.map fun a => ⟨a.pending, asked ++ a.prompts⟩ := by
  intro s asked fresh r response
  have hsession := InSession.enterAll s.machine hasScreen lines
  obtain ⟨output, hmachine⟩ := hsession.machine
  -- Of the scripts that were run before, a new run sees only the answers that they left.
  have hleads := Leads.of_runs s.machine (scriptsRun lines)
  have hmode : (s.enterAll lines).machine.mode = mode := by
    rw [hmachine]
    exact hleads.mode
  have hanswers : (s.enterAll lines).machine.answers =
      some ⟨answers.drop asked.length, asked⟩ := by
    rw [hmachine]
    exact hleads.answers rfl
  have hfresh : (s.enterAll lines).machine.fresh = fresh := by
    rw [Machine.fresh, hmode, hanswers]
    rfl
  have hprompts : (s.enterAll lines).machine.prompts = asked := by
    rw [Machine.prompts, hanswers]
    rfl
  have hresponse : response = (s.enterAll lines).run := Shell.enter_run _ hline
  have hafter : response.shell.machine =
      r.machine.experienced asked (s.enterAll lines).machine.environment.runs := by
    rw [hresponse, Shell.machine_run, hfresh, hprompts, hsession.buffer]
  have hprinted : response.printed = response.shell.machine.output.flatMap Console.shown := by
    rw [hresponse]
    rfl
  have hbuffer : response.shell.buffer = collected lines := by
    rw [hresponse]
    exact hsession.buffer
  rw [hprinted, hafter]
  exact ⟨Machine.output_experienced _ _ _, Machine.store_experienced _ _ _,
    congrArg _ (Machine.output_experienced _ _ _), hbuffer, Machine.answers_experienced _ _ _⟩

/-- A session in which an earlier run has taken an answer.  Its script has been dropped, and
what is not a statement has left no trace. -/
theorem run_of_session_second :
    let s : Shell := { machine := { mode := .precedence, answers := some ⟨["1", "2"], []⟩ } }
    let lines : List Text :=
      ["<in>(x)", ":run", ":frob", ":new", " <in>(y)", "clear", "(x)", ":quit", ":vars", "(y)"]
    let fresh : Machine := { mode := .precedence, answers := some ⟨["2"], []⟩ }
    trim " :run\t" = Text.ofString ":run" ∧
      collected lines = ([" <in>(y)", "(x)", "(y)"] : List Text) ∧
      ((s.enterAll lines).enter " :run\t").shell.machine.output =
        (fresh.run " <in>(y)\n(x)\n(y)").machine.output := by
  intro s lines fresh
  have hline : trim " :run\t" = Text.ofString ":run" := by decide +kernel
  have hcollected : collected lines = ([" <in>(y)", "(x)", "(y)"] : List Text) := by
    decide +kernel
  have hasked : (s.machine.allExecutions (scriptsRun lines)).filterMap Execution.question? =
      ([Text.ofString "Enter value for x:"] : List Text) := by decide +kernel
  have hscript : join "\n" [" <in>(y)", "(x)", "(y)"] =
      Text.ofString " <in>(y)\n(x)\n(y)" := by decide
  refine ⟨hline, hcollected, (run_of_session .precedence ["1", "2"] false lines hline).1.trans ?_⟩
  rw [hasked, hcollected, hscript]
  rfl

end LineScript
