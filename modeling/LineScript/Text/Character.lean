/-
LineScript/Text/Character.lean

The characters of a text.  A text is read as UTF-8 from left to right; a byte
that is not part of a well-formed character counts as a character of its own,
so that the bytes of all characters together are always the text again.
-/
import LineScript.Text.Walk

namespace LineScript

/-- What a text consists of: well-formed characters, and stray bytes that belong
to none. -/
inductive Character where
  | valid (c : Char)
  | stray (b : UInt8)
  deriving DecidableEq

/-- The bytes of a character. -/
def Character.bytes : Character → Text
  | .valid c => String.utf8EncodeChar c
  | .stray b => [b]

/-- The character to show, with U+FFFD in place of a stray byte. -/
def Character.shown : Character → Char
  | .valid c => c
  | .stray _ => '�'

namespace Text

/-- The six low bits of a continuation byte. -/
def continuation? (b : UInt8) : Option Nat :=
  if 0x80 ≤ b ∧ b < 0xC0 then some (b.toNat - 0x80) else none

/-- The character with code point `n`, if it is a scalar value of at least
`least`; smaller ones have a shorter encoding. -/
def scalar? (least n : Nat) : Option Char :=
  if h : least ≤ n ∧ n.isValidChar then some (Char.ofNatAux n h.2) else none

/-- The well-formed character that a text begins with. -/
def firstChar? : Text → Option Char
  | [] => none
  | a :: t =>
      if a < 0x80 then
        scalar? 0 a.toNat
      else if a < 0xC0 then
        none
      else if a < 0xE0 then do
        let b ← t[0]?.bind continuation?
        scalar? 0x80 ((a.toNat - 0xC0) * 64 + b)
      else if a < 0xF0 then do
        let b ← t[0]?.bind continuation?
        let c ← t[1]?.bind continuation?
        scalar? 0x800 (((a.toNat - 0xE0) * 64 + b) * 64 + c)
      else do
        let b ← t[0]?.bind continuation?
        let c ← t[1]?.bind continuation?
        let d ← t[2]?.bind continuation?
        scalar? 0x10000 ((((a.toNat - 0xF0) * 64 + b) * 64 + c) * 64 + d)

/-- The character that a text begins with, well-formed or stray. -/
def first? (t : Text) : Option Character :=
  match firstChar? t with
  | some c => some (.valid c)
  | none => t.head?.map .stray

/-- The number of bytes of the character that a text begins with. -/
def firstWidth (t : Text) : Nat :=
  match first? t with
  | some c => c.bytes.length
  | none => 0

/-- The characters of a text in order. -/
def characters (t : Text) : List Character :=
  (walk firstWidth t).filterMap fun (_, rest) => first? rest

/-- A text as a string, each stray byte shown as U+FFFD. -/
def display (t : Text) : String :=
  String.ofList (t.characters.map Character.shown)

/-- Put `new` at the beginning of a text and after each of its characters. -/
def interleave (new t : Text) : Text :=
  new ++ t.characters.flatMap fun c => c.bytes ++ new

/-- Replace each occurrence of `old`, from left to right, by `new`.  The empty
text occurs at the beginning and after each character. -/
def replace (old new t : Text) : Text :=
  if old = [] then interleave new t else join new (split old t)

end Text

end LineScript
