/-
LineScript/Value/Basic.lean

The values of scripts: integers, doubles, strings, booleans and lists, and an
undefined value that no variable of a script ever has.  A list has a capacity,
fixed when it is declared, and never holds more elements than that.
-/
import LineScript.Value.Literal

namespace LineScript

open Text

/-! ### Kinds -/

/-- The kinds of values. -/
inductive Kind where
  | undefined
  | int
  | double
  | string
  | bool
  | list
  deriving DecidableEq

namespace Kind

/-- The name of a kind, as it is spelled in scripts. -/
def name : Kind → Text
  | undefined => "undefined"
  | int => "int"
  | double => "double"
  | string => "string"
  | bool => "bool"
  | list => "list"

/-- The kinds that have a type name. -/
def named : List Kind := [int, double, string, bool, list]

/-- The kind of a type name, undefined for any other text. -/
def ofName (t : Text) : Kind :=
  (named.find? (fun k => k.name == t)).getD undefined

/-- The code of a kind. -/
def code : Kind → Nat
  | undefined => 0
  | int => 1
  | double => 2
  | string => 3
  | bool => 4
  | list => 5

/-- The kind with a given code. -/
def ofCode? (n : Nat) : Option Kind :=
  (undefined :: named).find? (fun k => k.code == n)

/-- The text for a kind given by an eight-bit code.  Codes above those of the
kinds are shown as numbers, negative codes have no text. -/
def describe? (code : Int8) : Option Text :=
  if code < 0 then none
  else
    match ofCode? code.toInt.toNat with
    | some k => some k.name
    | none => some ("kind(" ++ Text.ofInt code.toInt ++ ")")

end Kind

/-! ### Values -/

/-- A value of a script. -/
inductive Value where
  | undefined
  | int (n : Int64)
  | double (f : Float)
  | string (t : Text)
  | bool (b : Bool)
  | list (capacity : Nat) (elements : List Value)
  deriving Inhabited

namespace Value

/-- The kind of a value. -/
def kind : Value → Kind
  | undefined => .undefined
  | int _ => .int
  | double _ => .double
  | string _ => .string
  | bool _ => .bool
  | list _ _ => .list

mutual

/-- The text of a value, as it is printed and as it is put into expressions. -/
def text : Value → Text
  | undefined => "null"
  | int n => Text.ofInt n.toInt
  | double f => Double.spell f
  | string t => t
  | bool b => if b then "true" else "false"
  | list _ elements => "[" ++ join ", " (texts elements) ++ "]"

/-- The texts of values in order. -/
def texts : List Value → List Text
  | [] => []
  | v :: vs => v.text :: texts vs

end

/-- A value as a double.  What is neither an integer nor a double is read from
its text. -/
def toDouble : Value → Except LiteralError Float
  | int n => .ok (Double.ofInt n.toInt)
  | double f => .ok f
  | v => Literal.double v.text

end Value

/-! ### Lists -/

/-- Why a list cannot be made. -/
inductive ListError where
  | negativeCapacity (capacity : Int)
  | tooMany (count : Nat) (capacity : Int)
  deriving DecidableEq

/-- The message of a list error. -/
def ListError.message : ListError → Text
  | .negativeCapacity n => "negative list capacity " ++ Text.ofInt n
  | .tooMany count capacity =>
      Text.ofNat count ++ " elements exceed list capacity " ++
        Text.ofInt capacity

/-- A list under construction. -/
structure BoundedList where
  capacity : Nat
  elements : List Value
  fits : elements.length ≤ capacity

namespace BoundedList

/-- The empty list with a given capacity. -/
def empty (capacity : Int) : Except ListError BoundedList :=
  if capacity < 0 then .error (.negativeCapacity capacity)
  else .ok ⟨capacity.toNat, [], Nat.zero_le _⟩

/-- Add an element at the end, if there is room for it. -/
def add? (l : BoundedList) (v : Value) : Option BoundedList :=
  if h : l.elements.length < l.capacity then
    some ⟨l.capacity, l.elements ++ [v], by rw [List.length_append]; exact h⟩
  else none

/-- Add elements one after the other, up to the first for which there is no
room.  It is left over, with all that follow it. -/
def fill (l : BoundedList) : List Value → BoundedList × List Value
  | [] => (l, [])
  | v :: vs =>
      match l.add? v with
      | none => (l, v :: vs)
      | some l => l.fill vs

/-- The finished list. -/
def value (l : BoundedList) : Value := .list l.capacity l.elements

/-- The list with a given capacity and exactly the given elements. -/
def ofElements (capacity : Int) (vs : List Value) : Except ListError Value :=
  match empty capacity with
  | .error e => .error e
  | .ok l =>
      let (l, rest) := l.fill vs
      if rest.isEmpty then .ok l.value
      else .error (.tooMany vs.length capacity)

end BoundedList

end LineScript
