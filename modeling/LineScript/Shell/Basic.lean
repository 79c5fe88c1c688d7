/-
LineScript/Shell/Basic.lean

The shell.  Lines that are typed in are collected in a buffer; commands begin
with a colon:

    :run        run the lines of the buffer as a script
    :show       show the buffer
    :new        empty the buffer
    :vars       show the variables of the latest run
    :keywords   show the reserved words
    :quit, :q   leave the shell

Any other command, and the word `clear` by itself, goes to the console.
-/
import LineScript.Machine.Run
import LineScript.Shell.Console
import LineScript.Shell.Outline

namespace LineScript

open Text

/-- The state of a shell.  The lines that its console holds are the output of
the machine. -/
structure Shell where
  machine : Machine
  buffer : List Text := []
  hasScreen : Bool := false

/-- What a command leads to: the shell afterwards, whether it is to be left,
and what is printed on the console and on the screen. -/
structure Response where
  shell : Shell
  quit : Bool := false
  printed : Text := []
  screen : Text := []

namespace Shell

/-! ### Commands -/

/-- What is written to the screen when the console is cleared. -/
def clearing (s : Shell) : Text :=
  if s.hasScreen then Console.clearScreen else []

/-- Hand a command to the console. -/
def route (s : Shell) (command : Text) : Response :=
  let output := Console.route command s.machine.output
  let shell := { s with machine := { s.machine with output } }
  if output.isEmpty then { shell, screen := s.clearing }
  else
    { shell,
      printed := (output.drop s.machine.output.length).flatMap Console.shown }

/-- Run the lines of the buffer. -/
def run (s : Shell) : Response :=
  let r := s.machine.run (join "\n" s.buffer)
  { shell := { s with machine := r.machine },
    printed := r.machine.output.flatMap Console.shown,
    screen := s.clearing }

/-- A number with spaces before it, at least three characters wide. -/
def numbered (n : Nat) : Text :=
  let digits := Text.ofNat n
  List.replicate (3 - digits.length) (byte ' ') ++ digits

/-- The lines of the buffer with their numbers. -/
def listing (s : Shell) : Text :=
  (s.buffer.zipIdx 1).flatMap fun (line, n) =>
    numbered n ++ "  " ++ line ++ "\n"

/-- The variables as an outline. -/
def outline (s : Shell) : Text :=
  match s.machine.store.toList with
  | [] => Console.info "no variables"
  | vs =>
      "variables\n" ++ OutlineItem.lines (vs.map OutlineItem.ofVariable) ++
        "\n"

/-- Execute a command, given without its colon. -/
def execute (s : Shell) (command : Text) : Response :=
  if command = Text.ofString "quit" ∨ command = Text.ofString "q" then
    { shell := s, quit := true }
  else if command = Text.ofString "run" then s.run
  else if command = Text.ofString "show" then
    { shell := s, printed := s.listing }
  else if command = Text.ofString "new" then
    { shell := { s with buffer := [] } }
  else if command = Text.ofString "vars" then
    { shell := s, printed := s.outline }
  else if command = Text.ofString "keywords" then
    { shell := s, printed := Console.info ("reserved: " ++ join " " keywords) }
  else s.route command

/-- What a line that is typed in leads to. -/
def enter (s : Shell) (line : Text) : Response :=
  let trimmed := trim line
  if trimmed = Text.ofString "clear" then s.route trimmed
  else
    match after? ":" trimmed with
    | some command => s.execute command
    | none => { shell := { s with buffer := s.buffer ++ [line] } }

end Shell

/-! ### Script files -/

/-- What running a script file leads to: the machine afterwards, the exit code,
and what is printed. -/
structure ScriptResult where
  machine : Machine
  code : Nat
  printed : Text

/-- Run a script file, of which nothing is known if it cannot be read.  The
machine keeps its answers and the lines on the console, but starts without
variables and runs. -/
def runScript (m : Machine) : Option Text → ScriptResult
  | none => ⟨m, 2, []⟩
  | some source =>
      let r := { m with environment := {} }.run source
      ⟨r.machine, if r.errors = 0 then 0 else 1,
        r.machine.output.flatMap Console.shown⟩

end LineScript
