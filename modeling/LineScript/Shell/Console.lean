/-
LineScript/Shell/Console.lean

How lines are shown on the console: warnings and errors after a label, other
lines as they are.
-/
import LineScript.Text.Blank

namespace LineScript

open Text

namespace Console

/-! ### Labels -/

/-- A message after a label.  Further lines of the message are indented, and of
the line feeds at its end one is kept. -/
def labelled (label message : Text) : Text :=
  let body := dropTrailing (· == byte '\n') message
  let kept := (message.drop body.length).take 1
  let indent := "\n" ++ List.replicate (label.length + 3) (byte ' ')
  " " ++ label ++ "  " ++ join indent (split "\n" body) ++ kept ++ "\n"

/-- A message for information. -/
def info (message : Text) : Text := labelled "  >>" message

/-- An error message. -/
def error (message : Text) : Text := labelled "  Error" message

/-- A warning. -/
def warning (message : Text) : Text := labelled "  Warning" message

/-! ### Lines -/

/-- How lines begin that report an error. -/
def errorBeginnings : List Text :=
  ["Error", "Undefined variable:", "Unknown command:", "Invalid assignment:",
    "Invalid condition:", "No input provided"]

/-- Whether a line reports an error. -/
def isErrorLine (line : Text) : Bool :=
  errorBeginnings.any fun p => p.isPrefixOf line

/-- How a line of output is shown. -/
def shown (line : Text) : Text :=
  match after? "Warning:" line with
  | some message => warning (trim message)
  | none => if isErrorLine line then error line else line ++ "\n"

/-- What a terminal does to clear its screen: the cursor goes home and the
display is erased. -/
def clearScreen : Text := "\x1b[H\x1b[2J"

/-- The lines of output after a terminal command: `clear` takes them away, and
there is no other command. -/
def route (command : Text) (lines : List Text) : List Text :=
  if trim command = Text.ofString "clear" then []
  else lines ++ ["Unknown command: " ++ trim command]

end Console

end LineScript
