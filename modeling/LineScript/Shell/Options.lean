/-
LineScript/Shell/Options.lean

The options of the command line: `-reducer` chooses the mode of evaluation,
`-input` prepares answers, `-trace` is accepted, and the first argument that is
not an option names a script file.
-/
import LineScript.Expression.Mode

namespace LineScript

open Text

/-- What the command line asks for. -/
structure Options where
  reducer : Text := []
  answers : Text := []
  script : Option String := none

/-- Why a command line cannot be understood. -/
inductive OptionError where
  | malformed (argument : Text)
  | unknown (option : Text)
  | noValue (option : Text)
  deriving DecidableEq

/-- The message of an option error. -/
def OptionError.message : OptionError → Text
  | .malformed argument => "bad flag syntax: " ++ argument
  | .unknown option => "flag provided but not defined: -" ++ option
  | .noValue option => "flag needs an argument: -" ++ option

namespace Options

/-- The text of an option, without its one or two dashes. -/
def option? (argument : Text) : Option Text :=
  (after? "--" argument <|> after? "-" argument).bind fun option =>
    if option.isEmpty then none else some option

/-- The text of an option begins with its name, so neither with a dash nor with
the sign before its value. -/
def isMalformed (option : Text) : Bool :=
  option.head? = some (byte '-') || option.head? = some (byte '=')

/-- The names of the options. -/
def names : List Text := ["reducer", "input", "trace"]

/-- Set an option. -/
def set (o : Options) (name value : Text) : Except OptionError Options :=
  if name = Text.ofString "reducer" then .ok { o with reducer := value }
  else if name = Text.ofString "input" then .ok { o with answers := value }
  else if name = Text.ofString "trace" then .ok o
  else .error (.unknown name)

/-- Read the arguments of a command line. -/
def read (o : Options) : List String → Except OptionError Options
  | [] => .ok o
  | argument :: rest =>
      if argument = "--" then .ok { o with script := rest.head? }
      else
        match option? argument with
        | none => .ok { o with script := some argument }
        | some option =>
            if isMalformed option then .error (.malformed argument)
            else
              match cut? "=" option, rest with
              | some (name, value), rest => do read (← o.set name value) rest
              | none, value :: rest => do read (← o.set option value) rest
              | none, [] =>
                  .error (if option ∈ names then .noValue option
                    else .unknown option)

/-- The mode of evaluation. -/
def mode (o : Options) : Except UnknownMode Mode :=
  if o.reducer.isEmpty then .ok (Mode.configured []) else Mode.ofName o.reducer

end Options

end LineScript
