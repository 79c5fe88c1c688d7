/-
LineScript/Shell/Outline.lean

Variables as an outline: one item for each, and below a list its elements.

    variables
    ├──long : string = text
    └─┬l : list<3>
      ├──a
      └──b
-/
import LineScript.Store.Basic

namespace LineScript

open Text

/-- An item of an outline and what stands below it. -/
structure OutlineItem where
  text : Text
  children : List Text

namespace OutlineItem

/-- The item for a variable. -/
def ofVariable (v : Variable) : OutlineItem :=
  match v.value with
  | .list capacity elements =>
      ⟨v.name ++ " : list<" ++ Text.ofNat capacity ++ ">", Value.texts elements⟩
  | value =>
      ⟨v.name ++ " : " ++ value.kind.name ++ " = " ++ value.text, []⟩

/-- Put together what `inner` gives for each member of a list but the last, and
what `last` gives for that one. -/
def concatMap {α : Type} (inner last : α → Text) : List α → Text
  | [] => []
  | [x] => last x
  | x :: y :: rest => inner x ++ concatMap inner last (y :: rest)

/-- The lines of what stands below an item. -/
def childLines (indent : Text) (children : List Text) : Text :=
  concatMap (fun t => indent ++ "├──" ++ t ++ "\n")
    (fun t => indent ++ "└──" ++ t ++ "\n") children

/-- The lines of an item.  `corner` is where the line to it branches off, and
`indent` stands before the lines below it. -/
def itemLines (corner indent : Text) (item : OutlineItem) : Text :=
  let branch : Text := if item.children.isEmpty then "──" else "─┬"
  corner ++ branch ++ item.text ++ "\n" ++ childLines indent item.children

/-- The lines of an outline. -/
def lines (items : List OutlineItem) : Text :=
  concatMap (itemLines "├" "│ ") (itemLines "└" "  ") items

end OutlineItem

end LineScript
