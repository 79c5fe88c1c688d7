/-
LineScript/Text/Basic.lean

Text as the language sees it: a list of bytes, as a rule UTF-8.  Positions and
lengths are counted in bytes, and cutting a text may split a character, so a
text need not be well-formed.

The operations here look for a fixed piece of text inside another one:

* `after?` and `before?` take away a given beginning or end;
* `cut?` divides a text at the first occurrence of a separator;
* `split` divides it at every occurrence, scanning from the left.

All of them recurse on the text itself, so they compute in the kernel.
-/

namespace LineScript

/-- Text is a list of bytes. -/
abbrev Text := List UInt8

namespace Text

/-- The UTF-8 bytes of a string. -/
def ofString (s : String) : Text :=
  s.toList.flatMap String.utf8EncodeChar

instance : Coe String Text := ⟨ofString⟩

/-! ### Bytes -/

/-- The byte of an ASCII character. -/
abbrev byte (c : Char) : UInt8 := c.toUInt8

/-- The bytes `0` to `9`. -/
def isDigit (b : UInt8) : Bool := byte '0' ≤ b && b ≤ byte '9'

/-- The bytes `a` to `z`. -/
def isLower (b : UInt8) : Bool := byte 'a' ≤ b && b ≤ byte 'z'

/-- The bytes `A` to `Z`. -/
def isUpper (b : UInt8) : Bool := byte 'A' ≤ b && b ≤ byte 'Z'

/-- A byte that can begin a name: an ASCII letter or an underscore. -/
def isNameStart (b : UInt8) : Bool :=
  isLower b || isUpper b || b == byte '_'

/-- A byte that can continue a name. -/
def isNamePart (b : UInt8) : Bool := isNameStart b || isDigit b

/-- Upper-case ASCII letters in lower case, every other byte as it is. -/
def lowerAscii (t : Text) : Text :=
  t.map fun b => if isUpper b then b + 32 else b

/-! ### Numbers in base ten -/

/-- The decimal digits of a natural number. -/
def ofNat (n : Nat) : Text := (Nat.toDigits 10 n).map byte

/-- The decimal digits of an integer, after a minus sign if it is negative. -/
def ofInt : Int → Text
  | .ofNat n => ofNat n
  | .negSucc n => byte '-' :: ofNat (n + 1)

/-- The natural number that a text of decimal digits denotes. -/
def toNat (digits : Text) : Nat :=
  digits.foldl (fun n b => 10 * n + (b.toNat - 48)) 0

/-! ### Beginnings and ends -/

/-- What follows `p` in a text that begins with `p`. -/
def after? : (p t : Text) → Option Text
  | [], t => some t
  | _ :: _, [] => none
  | a :: p, b :: t => if a = b then after? p t else none

/-- What precedes `s` in a text that ends with `s`. -/
def before? (s t : Text) : Option Text :=
  (after? s.reverse t.reverse).map List.reverse

/-- What stands between `p` and `s` in a text that begins with `p`, the rest of
which ends with `s`. -/
def between? (p s t : Text) : Option Text :=
  (after? p t).bind (before? s)

/-- Take the bytes that `p` accepts off the end of a text. -/
def dropTrailing (p : UInt8 → Bool) (t : Text) : Text :=
  (t.reverse.dropWhile p).reverse

/-! ### Separators -/

/-- Divide a text at the first occurrence of `sep`: what stands before it and
what stands after it. -/
def cut? (sep : Text) : Text → Option (Text × Text)
  | [] => (after? sep []).map fun r => ([], r)
  | b :: t =>
      match after? sep (b :: t) with
      | some r => some ([], r)
      | none => (cut? sep t).map fun (l, r) => (b :: l, r)

/-- Whether `piece` occurs in a text. -/
def occursIn (piece t : Text) : Bool := (cut? piece t).isSome

/-- The field in which the text starts and the fields after it, when the first
`skip` bytes belong to a separator already seen. -/
def fieldsFrom (sep : Text) : (skip : Nat) → Text → Text × List Text
  | _, [] => ([], [])
  | n + 1, _ :: t => fieldsFrom sep n t
  | 0, b :: t =>
      if sep.isPrefixOf (b :: t) then
        let (first, more) := fieldsFrom sep (sep.length - 1) t
        ([], first :: more)
      else
        let (first, more) := fieldsFrom sep 0 t
        (b :: first, more)

/-- The fields of a text between the occurrences of a non-empty separator.
There is always at least one. -/
def split (sep t : Text) : List Text :=
  let (first, more) := fieldsFrom sep 0 t
  first :: more

/-- The fields of a text, without the empty ones at its end. -/
def fields (sep t : Text) : List Text :=
  ((split sep t).reverse.dropWhile List.isEmpty).reverse

/-- Put texts together, with `sep` between neighbours. -/
def join (sep : Text) (ts : List Text) : Text := sep.intercalate ts

end Text

end LineScript
