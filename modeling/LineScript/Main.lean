/-
LineScript/Main.lean

The command line.  With a script file it runs the script; otherwise it reads
lines for the shell until the input ends or the shell is left.
-/
import LineScript.Shell.Basic
import LineScript.Shell.Options

namespace LineScript

namespace CommandLine

/-- Print a text. -/
def printText (t : Text) : IO Unit := do
  let stdout ← IO.getStdout
  stdout.write (ByteArray.mk t.toArray)
  stdout.flush

/-- Read a line without the line feed at its end, or nothing at the end of the
input. -/
def readLine? (prompt : Text) : IO (Option Text) := do
  printText prompt
  let line := Text.ofString (← (← IO.getStdin).getLine)
  if line.isEmpty then return none
  return some (line.filter fun b => b != Text.byte '\n' && b != Text.byte '\r')

/-- Give a line that asks a question the answer to it from the terminal. -/
def answerQuestion (m : Machine) (line : Text) : IO Machine := do
  match Machine.question? line with
  | none => return m
  | some prompt =>
      let answer ← readLine? (prompt ++ " ")
      return { m with answers := some ⟨answer.toList, []⟩ }

/-- Execute the lines of a script, asking its questions on the terminal and
printing what it writes. -/
def runLines (r : Run) : List Text → IO Run
  | [] => return r
  | line :: rest => do
      let m ← if r.skipping then pure r.machine
        else answerQuestion r.machine line
      let next := Run.step { r with machine := m } line
      let written := next.machine.output.drop r.machine.output.length
      printText (written.flatMap Console.shown)
      runLines next rest

/-- Run a script, asking its questions on the terminal. -/
def runAsking (m : Machine) (source : Text) : IO Run :=
  runLines { machine := m.startRun } (scriptLines source)

/-- Why a script file cannot be read. -/
def unreadable (file : String) : IO.Error → Text
  | .noFileOrDirectory _ _ _ =>
      "Unable to read script: open " ++ Text.ofString file ++
        ": no such file or directory"
  | e => "Unable to read script: " ++ Text.ofString (toString e)

/-- Read a script file, if that is possible. -/
def readScript? (file : String) : IO (Option Text) := do
  try
    let bytes ← IO.FS.readBinFile file
    return some bytes.data.toList
  catch e =>
    printText (Console.error (unreadable file e))
    return none

/-- Run a script file and give the exit code. -/
def scriptMain (m : Machine) (file : String) (asking : Bool) : IO UInt32 := do
  match ← readScript? file with
  | none => return 2
  | some source =>
      if asking then
        let r ← runAsking m source
        return if r.errors = 0 then 0 else 1
      else
        let result := runScript m (some source)
        printText result.printed
        return UInt32.ofNat result.code

/-- What a line that is typed in leads to, questions being asked on the
terminal if there are no prepared answers. -/
def respond (s : Shell) (asking : Bool) (line : Text) : IO Response := do
  if asking && Text.trim line == Text.ofString ":run" then
    printText s.clearing
    let r ← runAsking s.machine (Text.join "\n" s.buffer)
    return { shell := { s with machine := r.machine } }
  else
    let r := s.enter line
    printText (r.screen ++ r.printed)
    return r

/-- The prompt of the shell. -/
def prompt : Text := "kot> "

/-- Read lines until the input ends or the shell is left. -/
partial def shellLoop (s : Shell) (asking : Bool) : IO Unit := do
  match ← readLine? prompt with
  | none => return
  | some line =>
      let r ← respond s asking line
      if r.quit then return
      shellLoop r.shell asking

/-- The shell. -/
def shellMain (s : Shell) (asking : Bool) : IO UInt32 := do
  printText (Console.info "Welcome to kot")
  printText (Console.info "Enter statements, then :run. Quit with <ctrl>D")
  shellLoop s asking
  IO.eprintln "Good bye!"
  return 0

/-- Do what the options ask for. -/
def start (o : Options) (mode : Mode) : IO UInt32 := do
  let terminal ← (← IO.getStdin).isTty
  let m : Machine := { mode, answers := some (Answers.ofList o.answers) }
  match o.script with
  | some file => scriptMain m file (o.answers.isEmpty && terminal)
  | none =>
      shellMain { machine := m, hasScreen := terminal } o.answers.isEmpty

end CommandLine

end LineScript

/-- The command line. -/
def main (args : List String) : IO UInt32 := do
  match LineScript.Options.read {} args with
  | .error e =>
      IO.eprintln (LineScript.Text.display e.message)
      return 2
  | .ok o =>
      match o.mode with
      | .error e =>
          LineScript.CommandLine.printText (LineScript.Console.error e.message)
          return 2
      | .ok mode => LineScript.CommandLine.start o mode
