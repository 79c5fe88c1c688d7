/-
LineScript/Scanner/Pattern.lean

Patterns for texts: regular expressions over bytes.  `Matches` says which texts
a pattern describes.  To read a text against a pattern, the pattern is replaced,
byte by byte, by the pattern of what may follow (`derive`); the text read so far
is described by the pattern if the empty text is described by what remains, and
no continuation of it is described if nothing remains.
-/
import LineScript.Text.Basic

namespace LineScript

/-- A regular expression over bytes. -/
inductive Pattern where
  /-- Describes no text. -/
  | nothing
  /-- Describes the empty text. -/
  | empty
  /-- Describes the single bytes that `p` accepts. -/
  | one (p : UInt8 → Bool)
  /-- Describes a text of the first pattern followed by one of the second. -/
  | seq (a b : Pattern)
  /-- Describes the texts of both patterns. -/
  | alt (a b : Pattern)
  /-- Describes any number of texts of the pattern, one after the other. -/
  | star (a : Pattern)

namespace Pattern

/-- The texts that a pattern describes. -/
inductive Matches : Pattern → Text → Prop where
  | empty : Matches .empty []
  | one {p : UInt8 → Bool} {b : UInt8} : p b = true → Matches (.one p) [b]
  | seq {a b : Pattern} {s t : Text} :
      Matches a s → Matches b t → Matches (.seq a b) (s ++ t)
  | altLeft {a b : Pattern} {t : Text} : Matches a t → Matches (.alt a b) t
  | altRight {a b : Pattern} {t : Text} : Matches b t → Matches (.alt a b) t
  | starNil {a : Pattern} : Matches (.star a) []
  | starCons {a : Pattern} {s t : Text} :
      Matches a s → Matches (.star a) t → Matches (.star a) (s ++ t)

/-! ### Common patterns -/

/-- A pattern or the empty text. -/
def opt (a : Pattern) : Pattern := alt a empty

/-- A pattern at least once. -/
def plus (a : Pattern) : Pattern := seq a (star a)

/-- Exactly the given text. -/
def literal (t : Text) : Pattern :=
  t.foldr (fun b a => seq (one (· == b)) a) empty

/-! ### Reading a byte -/

/-- Whether a pattern describes the empty text. -/
def nullable : Pattern → Bool
  | nothing => false
  | empty => true
  | one _ => false
  | seq a b => a.nullable && b.nullable
  | alt a b => a.nullable || b.nullable
  | star _ => true

/-- Whether a pattern has been reduced to one that describes no text. -/
def isNothing : Pattern → Bool
  | nothing => true
  | _ => false

/-- `seq`, reduced where one of the patterns is trivial. -/
def andThen (a b : Pattern) : Pattern :=
  match a, b with
  | nothing, _ => nothing
  | _, nothing => nothing
  | empty, b => b
  | a, b => seq a b

/-- `alt`, reduced where one of the patterns describes nothing. -/
def orElse (a b : Pattern) : Pattern :=
  match a, b with
  | nothing, b => b
  | a, nothing => a
  | a, b => alt a b

/-- The pattern of what may follow the byte `x` in a text of the pattern. -/
def derive (x : UInt8) : Pattern → Pattern
  | nothing => nothing
  | empty => nothing
  | one p => if p x then empty else nothing
  | seq a b =>
      if a.nullable then orElse (andThen (a.derive x) b) (b.derive x)
      else andThen (a.derive x) b
  | alt a b => orElse (a.derive x) (b.derive x)
  | star a => andThen (a.derive x) (star a)

end Pattern

end LineScript
