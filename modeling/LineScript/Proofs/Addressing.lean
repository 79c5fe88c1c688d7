/-
LineScript/Proofs/Addressing.lean

Under which names variables are found again.  Prints, assignments and conditions trim a name
before they look for it, so what they find is the variable with the trimmed name
(`Machine.finds_of_get?_trim`).

An input statement trims the name that it binds, and an assignment binds no name that is not
bound already.  Declarations take a name as it stands between `<` and `>`.  So if there is white
space around the name of a variable, it has been declared in this way
(`Machine.trimmed_or_declared`): by one line, then along a run.

Main result: variables are found again by all these statements if there is no white space
around their names, and otherwise by type queries (`Machine.reachable_variable_found`).
-/
import LineScript.Proofs.Assignments
import LineScript.Proofs.Conditions
import LineScript.Proofs.Executions
import LineScript.Proofs.Recognition

namespace LineScript

open Text

/-! ### Where names come from -/

namespace Statement

/-- The name that a declaration takes as it stands. -/
def declaredName? : Statement → Option Text
  | .declaration _ name _ => some name
  | .listDeclaration name _ _ => some name
  | _ => none

variable {line name : Text}

/-- A declared name ends at the first `>`. -/
theorem not_mem_of_declaredName? (h : (ofLine line).declaredName? = some name) :
    byte '>' ∉ name := by
  have hline := recognised_ofLine line
  generalize ofLine line = s at h hline
  cases hline with
  | declaration hname | listDeclaration hname =>
      obtain rfl := Option.some.inj h
      exact hname
  | _ => cases h

/-- The name in an input statement is trimmed when the line is recognised. -/
theorem trim_of_reader? {read : Text → Except LiteralError Value}
    (h : (ofLine line).reader? = some (name, read)) : trim name = name := by
  have hline := recognised_ofLine line
  generalize ofLine line = s at h hline
  cases hline with
  | input =>
      obtain ⟨rfl, -⟩ := Prod.mk.inj (Option.some.inj h)
      exact trim_trim _
  | typedInput =>
      obtain ⟨s, -, hs⟩ := Option.map_eq_some_iff.1 h
      obtain ⟨rfl, -⟩ := Prod.mk.inj hs
      exact trim_trim _
  | _ => cases h

end Statement

/-- A store has the names that it had before and the one that is declared. -/
theorem Store.isSome_get?_declare {s : Store} {name n : Text} {v : Value}
    (h : ((s.declare name v).get? n).isSome = true) :
    (s.get? n).isSome = true ∨ n = name := by
  rw [get?_declare] at h
  split at h
  · next hn => exact .inr hn
  · exact .inl h

/-- The names behind a line: those before it, a trimmed one, or the one that it declares. -/
theorem Course.trimmed_or_declared {m : Machine} {line : Text} {o : Outcome}
    (hcourse : Course m line o) {x : Text} (hx : (o.machine.store.get? x).isSome = true) :
    (m.store.get? x).isSome = true ∨ trim x = x ∨
      (Statement.ofLine line).declaredName? = some x := by
  cases hcourse with
  | refused | decided | written | unanswered | unread => exact .inl hx
  | declared hline =>
      refine (Store.isSome_get?_declare hx).imp_right fun hname => .inr ?_
      rw [hline, hname]
      rfl
  | listed hline =>
      refine (Store.isSome_get?_declare hx).imp_right fun hname => .inr ?_
      rw [hline, hname]
      rfl
  | answered _ hreader =>
      refine (Store.isSome_get?_declare hx).imp_right fun hname => .inl ?_
      rw [hname]
      exact Statement.trim_of_reader? hreader
  | assigned _ _ hbound =>
      -- the name is bound already
      rcases Store.isSome_get?_declare hx with h | rfl
      · exact .inl h
      · exact .inl hbound

/-- Along a run, names come from nowhere but the lines that are executed. -/
theorem Leads.trimmed_or_declared {m m' : Machine} {es : List Execution} (h : Leads m es m')
    {x : Text} (hx : (m'.store.get? x).isSome = true) :
    (m.store.get? x).isSome = true ∨ trim x = x ∨
      ∃ e ∈ es, (Statement.ofLine e.line).declaredName? = some x := by
  induction h with
  | refl => exact .inl hx
  | start _ ih =>
      rcases ih hx with hempty | h
      · cases hempty
      · exact .inr h
  | @execute _ e es _ ih =>
      rcases ih hx with hbound | htrim | ⟨e', he', hdeclared⟩
      · rw [e.store_after] at hbound
        refine (e.course.trimmed_or_declared hbound).imp_right fun h => ?_
        exact h.imp_right fun hdeclared => ⟨e, List.mem_cons_self, hdeclared⟩
      · exact .inr (.inl htrim)
      · exact .inr (.inr ⟨e', List.mem_cons_of_mem e he', hdeclared⟩)

/-- Only lines of the script are executed. -/
theorem Run.line_mem_of_mem_executions {r : Run} {ls : List Text} {e : Execution}
    (he : e ∈ r.executions ls) : e.line ∈ ls := by
  induction ls generalizing r with
  | nil => cases he
  | cons l ls ih =>
      rcases List.mem_append.1 he with hfirst | hrest
      · rw [machine_of_execution? (Option.mem_toList.1 hfirst)]
        exact List.mem_cons_self
      · exact List.mem_cons_of_mem l (ih hrest)

/-- If there is white space around the name of a variable, one of the lines so far has declared
it with this white space. -/
theorem Machine.trimmed_or_declared (m : Machine) (lines : List Text) {x : Text}
    (hx : ((m.reach lines).machine.store.get? x).isSome = true) :
    trim x = x ∨ ∃ l ∈ lines, (Statement.ofLine (trim l)).declaredName? = some x := by
  rcases (Leads.of_lines { machine := m.startRun } (lines.map trim)).trimmed_or_declared hx with
    hempty | htrim | ⟨e, he, hdeclared⟩
  · cases hempty
  · exact .inl htrim
  · obtain ⟨l, hl, hline⟩ := List.mem_map.1 (Run.line_mem_of_mem_executions he)
    exact .inr ⟨l, hl, by rw [hline, hdeclared]⟩

/-! ### Finding a variable -/

namespace Machine

open Assignment Condition

/-- What comes out of a line that binds a name and does nothing else. -/
structure Binds (m : Machine) (name : Text) (v : Value) (o : Outcome) : Prop where
  bound : o.machine.store.get? name = some v
  others {n : Text} : n ≠ name → o.machine.store.get? n = m.store.get? n
  kept : o = ⟨{ m with environment := { m.environment with store := o.machine.store } },
    none, false⟩

/-- Declaring binds the name and keeps the rest of the machine. -/
theorem binds_declare (m : Machine) (name : Text) (v : Value) :
    m.Binds name v ⟨m.declare name v, none, false⟩ where
  bound := by
    show (m.store.declare name v).get? name = some v
    rw [Store.get?_declare, if_pos rfl]
  others {n} hn := by
    show (m.store.declare name v).get? n = m.store.get? n
    rw [Store.get?_declare, if_neg hn]
  kept := rfl

/-- The statements in which the name `x` stands find the value `v`.  These are the statements
that trim the name which they look for, so there may be any white space around it. -/
structure Finds (m : Machine) (x : Text) (v : Value) : Prop where
  /-- A print writes the value, unless the name is a quoted text. -/
  print {t : Text} : trim t = trim x → Literal.unquoted? (trim x) = none →
    m.execute ("(" ++ t ++ ")") = ⟨{ m with output := m.output ++ [v.text] }, none, false⟩
  /-- An assignment with the name on the left binds it. -/
  target {line left right : Text} : Statement.ofLine line = .assignment →
    Separates left right line → trim left = trim x →
    m.Binds (trim x) (m.store.resolve (trim right)) (m.execute line)
  /-- An assignment with the name on the right takes the value over. -/
  source {line left right : Text} {old : Value} : Statement.ofLine line = .assignment →
    Separates left right line → trim right = trim x → m.store.get? (trim left) = some old →
    m.Binds (trim left) v (m.execute line)
  /-- A condition with the name on the left compares the value. -/
  left {op s t r : Text} {means : Float → Float → Prop} : (op, means) ∈ Comparison.meanings →
    Side (trim x) s → Side r t →
    m.Decides means v (m.store.resolve r) (m.execute ("if (" ++ s ++ op ++ t ++ ") \x7b"))
  /-- A condition with the name on the right compares the value. -/
  right {op s t l : Text} {means : Float → Float → Prop} : (op, means) ∈ Comparison.meanings →
    Side l s → Side (trim x) t →
    m.Decides means (m.store.resolve l) v (m.execute ("if (" ++ s ++ op ++ t ++ ") \x7b"))

/-- What is found is the variable whose name is the trimmed one. -/
theorem finds_of_get?_trim (m : Machine) {x : Text} {v : Value}
    (hv : m.store.get? (trim x) = some v) : m.Finds x v := by
  have hresolve : m.store.resolve (trim x) = v := by rw [Store.resolve, hv]
  constructor
  case print =>
    intro t ht hquoted
    exact m.execute_print_variable hv ht hquoted
  case target =>
    intro line left right hline hsep hleft
    rw [← hleft] at hv ⊢
    rw [m.execute_bound hline hsep hv]
    exact m.binds_declare _ _
  case source =>
    intro line left right old hline hsep hright hold
    rw [m.execute_bound hline hsep hold, hright, hresolve]
    exact m.binds_declare _ _
  case left =>
    intro op s t r means hop hs ht
    rw [← hresolve]
    exact m.decides_sides hop hs ht
  case right =>
    intro op s t l means hop hs ht
    rw [← hresolve]
    exact m.decides_sides hop hs ht

/-- Behind any number `k` of lines of a script, a variable is found wherever its name stands in
a print, an assignment or a condition, if there is no white space around its name.  Otherwise
one of these lines has declared it with this white space.  A type query still finds it, but
prints, assignments and conditions look for the variable with the trimmed name. -/
theorem reachable_variable_found (m₀ : Machine) (source : Text) (k : Nat) :
    let lines := (split "\n" source).take k
    let m := (m₀.reach lines).machine
    ∀ x v, m.store.get? x = some v →
      (trim x = x → m.Finds x v) ∧
      (trim x ≠ x →
        (∃ l ∈ lines, (Statement.ofLine (trim l)).declaredName? = some x) ∧
        m.execute ("type<" ++ x ++ ">") =
          ⟨{ m with output := m.output ++ [x ++ " is of type: " ++ v.kind.name] }, none,
            false⟩ ∧
        ∀ w, m.store.get? (trim x) = some w → m.Finds x w) := by
  intro lines m x v hv
  refine ⟨fun htrim => ?_, fun htrim => ?_⟩
  · refine m.finds_of_get?_trim ?_
    rw [htrim, hv]
  · have hbound : (m.store.get? x).isSome = true := by rw [hv, Option.isSome_some]
    obtain ⟨l, hl, hdeclared⟩ := (m₀.trimmed_or_declared lines hbound).resolve_left htrim
    have hname := Statement.not_mem_of_declaredName? hdeclared
    exact ⟨⟨l, hl, hdeclared⟩, m.execute_typeQuery hv hname, fun w hw => m.finds_of_get?_trim hw⟩

/-- The second of two variables is found wherever either name stands, and the first one by a
type query only. -/
theorem reachable_variable_found_padded :
    let m := (({ mode := .legacy } : Machine).reach
      ((split "\n" "int< x >5\nstring<x>\"a\"").take 2)).machine
    (m.store.get? " x " = some (.int 5) ∧ trim " x " ≠ Text.ofString " x " ∧
      m.store.get? "x" = some (.string "a")) ∧
    m.Finds "x" (.string "a") ∧ m.Finds " x " (.string "a") ∧
    ((m.execute "(x)").machine.output = [Text.ofString "a"] ∧
      (m.execute "(\tx )").machine.output = [Text.ofString "a"] ∧
      (m.execute "type< x >").machine.output = [Text.ofString " x  is of type: int"]) ∧
    ((m.execute " x  = 6").machine.store.get? "x" = some (.int 6) ∧
      (m.execute " x  = 6").machine.store.get? " x " = some (.int 5)) ∧
    (m.execute "if ( x >3) \x7b").fault =
      some (.condition (.notNumbers (.string "a") (.int 3))) := by
  intro m
  have hfirst : m.store.get? " x " = some (.int 5) := rfl
  have hsecond : m.store.get? "x" = some (.string "a") := rfl
  have hwhite : trim " x " ≠ Text.ofString " x " := by decide
  have hfound := reachable_variable_found { mode := .legacy } "int< x >5\nstring<x>\"a\"" 2
  obtain ⟨-, htype, hpadded⟩ := (hfound _ _ hfirst).2 hwhite
  have hfinds := (hfound _ _ hsecond).1 (by decide)
  have hfinds' := hpadded _ hsecond
  have hop : (Text.ofString ">", fun a b : Float => b < a) ∈ Comparison.meanings := by
    simp [Comparison.meanings]
  have hx : IsOperand (trim " x ") := ⟨by decide, by decide, by decide, by decide⟩
  have hthree : IsOperand "3" := ⟨by decide, by decide, by decide, by decide⟩
  have hbinds := hfinds'.target (show Statement.ofLine " x  = 6" = .assignment from rfl)
    (show Separates " x  " " 6" " x  = 6" from ⟨by decide, by decide, by decide⟩) (by decide)
  have hdecides := hfinds'.left hop (hx.between (u := " ") (v := " ") (by decide) (by decide))
    (hthree.between (u := []) (v := []) (by decide) (by decide))
  have hword : ∀ a, (Value.string "a").toDouble ≠ .ok a := by
    intro a ha
    cases ha
  exact ⟨⟨hfirst, hwhite, hsecond⟩, hfinds, hfinds',
    ⟨congrArg (·.machine.output) (hfinds.print (t := "x") (by decide) (by decide)),
      congrArg (·.machine.output) (hfinds'.print (t := "\tx ") (by decide) (by decide)),
      congrArg (·.machine.output) htype⟩,
    ⟨hbinds.bound, (hbinds.others (by decide)).trans hfirst⟩,
    congrArg (·.fault) (hdecides.error (.inl hword))⟩

/-- A variable is not found by the statements that trim its name, and another one is not found
by a print, which takes its name for a quoted text. -/
theorem reachable_variable_not_found :
    let m := (({ mode := .legacy } : Machine).reach ["int< x >5", "int<\"q\">5"]).machine
    (m.store.get? " x " = some (.int 5) ∧ trim " x " ≠ Text.ofString " x " ∧
      m.execute "( x )" = ⟨m, some (.undefined "x"), false⟩ ∧
      m.execute "x = 6" = ⟨m, some (.assignUndefined ⟨"x"⟩), false⟩ ∧
      m.execute "if ( x > 3) \x7b" =
        ⟨m, some (.condition (.notNumbers (.string "x") (.int 3))), true⟩) ∧
    m.store.get? "\"q\"" = some (.int 5) ∧
      m.execute "(\"q\")" = ⟨{ m with output := [Text.ofString "q"] }, none, false⟩ := by
  intro m
  have hx : IsOperand "x" := ⟨by decide, by decide, by decide, by decide⟩
  have hthree : IsOperand "3" := ⟨by decide, by decide, by decide, by decide⟩
  have hop : (Text.ofString ">", fun a b : Float => b < a) ∈ Comparison.meanings := by
    simp [Comparison.meanings]
  have hdecides := m.decides_sides hop
    (hx.between (u := " ") (v := " ") (by decide) (by decide))
    (hthree.between (u := " ") (v := []) (by decide) (by decide))
  have hword : ∀ a, (Value.string "x").toDouble ≠ .ok a := by
    intro a ha
    cases ha
  exact ⟨⟨rfl, by decide, rfl, rfl, hdecides.error (.inl hword)⟩, rfl, rfl⟩

end Machine

end LineScript
