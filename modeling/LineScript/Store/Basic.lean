/-
LineScript/Store/Basic.lean

The variables of a script.  A store holds at most one variable of each name,
in the order in which variables are visited, so that two stores with the same
bindings are equal.
-/
import LineScript.Store.Order
import LineScript.Value.Basic

namespace LineScript

open Text

/-- A variable: a name bound to a value. -/
structure Variable where
  name : Text
  value : Value

/-- A variable as shown in reports. -/
def Variable.describe (v : Variable) : Text :=
  "<var '" ++ v.name ++ "':" ++ v.value.kind.name ++ ">"

/-- The name of a variable that was used, but never declared. -/
structure UndefinedVariable where
  name : Text
  deriving DecidableEq

/-- The message for the use of an undeclared variable. -/
def UndefinedVariable.message (e : UndefinedVariable) : Text :=
  "undefined variable: " ++ e.name

/-! ### Ordered lists of variables -/

/-- Variables in the order of their names, no name twice. -/
def Ordered (vs : List Variable) : Prop :=
  vs.Pairwise fun v w => nameBefore v.name w.name = true

/-- Put a variable into an ordered list, in place of the one with its name if
there is one. -/
def insertVariable (v : Variable) : List Variable → List Variable
  | [] => [v]
  | w :: ws =>
      if v.name = w.name then v :: ws
      else if nameBefore v.name w.name then v :: w :: ws
      else w :: insertVariable v ws

/-- What is there after a variable has been inserted. -/
theorem mem_insertVariable {v x : Variable} {ws : List Variable}
    (h : x ∈ insertVariable v ws) : x = v ∨ x ∈ ws := by
  induction ws with
  | nil => simpa [insertVariable] using h
  | cons w ws ih =>
      simp only [insertVariable] at h
      split at h
      · rcases List.mem_cons.1 h with h | h
        · exact .inl h
        · exact .inr (List.mem_cons_of_mem _ h)
      · split at h
        · exact List.mem_cons.1 h
        · rcases List.mem_cons.1 h with h | h
          · exact .inr (h ▸ List.mem_cons_self)
          · exact (ih h).imp_right (List.mem_cons_of_mem _)

/-- Inserting keeps the order. -/
theorem ordered_insertVariable (v : Variable) {ws : List Variable}
    (h : Ordered ws) : Ordered (insertVariable v ws) := by
  induction ws with
  | nil => simp [insertVariable, Ordered]
  | cons w ws ih =>
      obtain ⟨hw, hws⟩ := List.pairwise_cons.1 h
      simp only [insertVariable]
      split
      · rename_i hname
        exact List.pairwise_cons.2 ⟨fun x hx => hname ▸ hw x hx, hws⟩
      · rename_i hname
        split
        · rename_i hbefore
          refine List.pairwise_cons.2 ⟨fun x hx => ?_, h⟩
          rcases List.mem_cons.1 hx with rfl | hx
          · exact hbefore
          · exact nameBefore_trans hbefore (hw x hx)
        · rename_i hbefore
          refine List.pairwise_cons.2 ⟨fun x hx => ?_, ih hws⟩
          rcases mem_insertVariable hx with rfl | hx
          · exact (nameBefore_total hname).resolve_left hbefore
          · exact hw x hx

/-! ### Stores -/

/-- The variables of a script, in the order in which they are visited. -/
structure Store where
  toList : List Variable
  ordered : Ordered toList

namespace Store

/-- The store without variables. -/
def empty : Store := ⟨[], List.Pairwise.nil⟩

/-- The number of variables. -/
def size (s : Store) : Nat := s.toList.length

/-- The variable with a given name. -/
def lookup? (s : Store) (name : Text) : Option Variable :=
  s.toList.find? fun v => v.name == name

/-- The value bound to a name. -/
def get? (s : Store) (name : Text) : Option Value :=
  (s.lookup? name).map Variable.value

/-- Bind a name to a value, whether it is bound already or not. -/
def declare (s : Store) (name : Text) (v : Value) : Store :=
  ⟨insertVariable ⟨name, v⟩ s.toList, ordered_insertVariable _ s.ordered⟩

/-- Bind a name to a value, and give the variable of that name before. -/
def exchange (s : Store) (name : Text) (v : Value) : Store × Option Variable :=
  (s.declare name v, s.lookup? name)

/-- Bind a name that is bound already to another value, which may be of
another kind. -/
def assign (s : Store) (name : Text) (v : Value) :
    Except UndefinedVariable Store :=
  match s.get? name with
  | some _ => .ok (s.declare name v)
  | none => .error ⟨name⟩

/-- The value that an operand stands for: that of a variable, or else a double
if there is a point in it, or else an integer.  What is neither a variable nor
a number is a string. -/
def resolve (s : Store) (operand : Text) : Value :=
  match s.get? operand with
  | some v => v
  | none =>
      if occursIn "." operand then
        match Literal.double operand with
        | .ok f => .double f
        | .error _ => .string operand
      else
        match Literal.int operand with
        | .ok n => .int n
        | .error _ => .string operand

end Store

/-! ### Reserved words and runs -/

/-- The words that no variable may have as its name, in lexical order. -/
def keywords : List Text :=
  ["bool", "double", "in", "int", "list", "string", "to", "type"]

/-- Whether a name is reserved. -/
def isReserved (name : Text) : Bool := keywords.contains name

/-- What lasts from one run to the next: the variables of the latest run, and
the number of runs so far. -/
structure Environment where
  store : Store := .empty
  runs : Nat := 0

/-- Start a run without variables. -/
def Environment.startRun (e : Environment) : Environment :=
  { store := .empty, runs := e.runs + 1 }

end LineScript
