/-
LineScript/Scanner/Lexer.lean

Lexers: lists of rules, each a pattern with the kind of token that it makes.
At each place the longest text that some pattern describes becomes a token, and
of the patterns that describe it the first one decides its kind.  Rules without
a kind are for white space and the like: what they describe is left out.

Where no pattern describes any beginning of what is left, scanning fails and
goes on behind the byte at which the last pattern gave up, or ends if the text
ended before that.
-/
import LineScript.Scanner.Pattern
import LineScript.Scanner.Token
import LineScript.Text.Quoted

namespace LineScript

open Text

/-! ### Rules -/

/-- A pattern and the kind of the tokens that it describes, if it describes
tokens. -/
structure Rule where
  pattern : Pattern
  kind : Option TokenKind

/-- A lexer is a list of rules, the first ones taking precedence. -/
structure Lexer where
  rules : List Rule

namespace Lexer

/-- Add a rule for each of the given texts. -/
def withLiterals (l : Lexer) (literals : List (Text × TokenKind)) : Lexer :=
  ⟨l.rules ++ literals.map fun (t, k) => ⟨.literal t, some k⟩⟩

/-- Add a rule for each of the given words, which are written in lower case. -/
def withKeywords (l : Lexer) (words : List (Text × TokenKind)) : Lexer :=
  l.withLiterals (words.map fun (t, k) => (lowerAscii t, k))

/-- The rules for what may follow a byte. -/
def derive (l : Lexer) (x : UInt8) : Lexer :=
  ⟨l.rules.map fun r => { r with pattern := r.pattern.derive x }⟩

/-- The first rule that describes the empty text. -/
def accepting? (l : Lexer) : Option Rule :=
  l.rules.find? (·.pattern.nullable)

/-- Whether all patterns have given up. -/
def isDead (l : Lexer) : Bool := l.rules.all (·.pattern.isNothing)

end Lexer

/-! ### One step -/

/-- What a lexer does at the beginning of a text. -/
inductive Step where
  /-- The longest match and the kind of its token, if it is a token. -/
  | matched (width : Nat) (kind : Option TokenKind)
  /-- No match; scanning goes on behind `width` bytes. -/
  | failed (width : Nat)
  deriving DecidableEq

/-- The number of bytes that a step takes. -/
def Step.width : Step → Nat
  | .matched w _ => w
  | .failed w => w

/-- The step after `n` bytes have been read, with the longest match so far. -/
def Step.ofBest (n : Nat) : Option (Nat × Option TokenKind) → Step
  | some (w, k) => .matched w k
  | none => .failed n

namespace Lexer

/-- Read on while some pattern may still match.  `l` has the rules for what may
follow the `n` bytes read so far, and `best` is the longest match among them. -/
def munch (l : Lexer) (n : Nat) (best : Option (Nat × Option TokenKind)) :
    Text → Step
  | [] => .ofBest n best
  | b :: t =>
      let l := l.derive b
      if l.isDead then .ofBest (n + 1) best
      else
        match l.accepting? with
        | some r => munch l (n + 1) (some (n + 1, r.kind)) t
        | none => munch l (n + 1) best t

/-- What a lexer does at the beginning of a text. -/
def step (l : Lexer) (t : Text) : Step := l.munch 0 none t

end Lexer

/-! ### Scanning a text -/

/-- A part of a text from which no token could be made. -/
structure ScanError where
  source : Text
  span : Span
  deriving DecidableEq

namespace ScanError

/-- Line and column one byte further.  A line feed counts as column zero of the
line that it begins. -/
def advance : Nat × Nat → UInt8 → Nat × Nat
  | (line, column), b =>
      if b = byte '\n' then (line + 1, 0) else (line, column + 1)

/-- Line and column of the byte at a position, both counted from one. -/
def location (source : Text) (position : Nat) : Text :=
  let (line, column) := (source.take (position + 1)).foldl advance (1, 0)
  Text.ofNat line ++ ":" ++ Text.ofNat column

/-- The message of a scan error. -/
def message (e : ScanError) : Text :=
  let failing := min e.span.behind (e.source.length - 1)
  let unmatched :=
    (e.source.drop e.span.first).take (e.span.behind - e.span.first)
  "Lexer error: could not match text starting at " ++
    location e.source e.span.first ++ " failing at " ++
    location e.source failing ++ ".\n\tunmatched text: " ++ quoted unmatched

end ScanError

/-- What scanning a text brings up. -/
inductive ScanEvent where
  | token (t : Token)
  | error (e : ScanError)
  deriving DecidableEq

namespace ScanEvent

/-- The token of an event. -/
def token? : ScanEvent → Option Token
  | token t => some t
  | error _ => none

/-- The error of an event. -/
def error? : ScanEvent → Option ScanError
  | token _ => none
  | error e => some e

end ScanEvent

namespace Lexer

/-- The event at a place of a walk, if the step there brings one up. -/
def eventAt (l : Lexer) (source : Text) (position : Nat) (rest : Text) :
    Option ScanEvent :=
  match l.step rest with
  | .matched w (some k) =>
      some (.token ⟨k, rest.take w, ⟨position, position + w⟩⟩)
  | .matched _ none => none
  | .failed w => some (.error ⟨source, ⟨position, position + w⟩⟩)

/-- The position behind the last step, after a walk that started at `start`. -/
def reached (l : Lexer) (start : Nat) (places : List (Nat × Text)) : Nat :=
  places.foldl (fun _ (position, rest) => position + (l.step rest).width) start

/-- All events of scanning a text.  The last one is the end token, where the
last step has come to. -/
def scan (l : Lexer) (source : Text) : List ScanEvent :=
  let places := walk (fun rest => (l.step rest).width) source
  places.filterMap (fun (position, rest) => l.eventAt source position rest)
  ++ [.token (.endAt (l.reached 0 places))]

/-- The tokens of a text, if all of it can be scanned, or else the first
error. -/
def tokens (l : Lexer) (source : Text) : Except ScanError (List Token) :=
  let events := l.scan source
  match events.findSome? ScanEvent.error? with
  | some e => .error e
  | none => .ok (events.filterMap ScanEvent.token?)

end Lexer

end LineScript
