/-
LineScript/Proofs/Forms.lean

The forms of statements, and how they are recognised.  `Written s line` says that `line` is
the statement `s` in its form: a name that is closed by `>` has no `>` in it, a text that
is trimmed is trimmed already, and so on.  Apart from that the parts of a statement may
hold any bytes, those of the other forms included.

A line in a form is recognised as the statement that was written, with the line as its
source, and what goes wrong with it quotes no other line (`ofLine_of_written`).  The forms
are told apart by what a line begins with, so that no form takes a line away from another.
A delimiter is found where it was put, since it cannot begin in the part before it and end
behind it.
-/
import LineScript.Proofs.Courses

namespace LineScript

open Text

/-! ### The forms -/

/-- How statements are written.  Assignments and lines of no form are left out: there is
nothing to be found in them. -/
inductive Statement.Written : Statement → Text → Prop where
  | declaration {type : ScalarType} {name literal : Text} :
      byte '>' ∉ name → trim literal = literal →
      Written (.declaration type name literal) (type.name ++ "<" ++ name ++ ">" ++ literal)
  | listDeclaration {name capacity elements : Text} :
      byte '>' ∉ name → trim capacity = capacity → byte '(' ∉ capacity →
      Written (.listDeclaration name capacity elements)
        ("list<" ++ name ++ ">" ++ capacity ++ "(" ++ elements ++ ")")
  | input {name : Text} : trim name = name →
      Written (.input name) ("<in>(" ++ name ++ ")")
  | typedInput {name type : Text} : trim name = name → trim type = type →
      ¬ Text.ofString ").to<" <:+: name →
      Written (.typedInput name type) ("<in>(" ++ name ++ ").to<" ++ type ++ ">")
  | typeQuery {name : Text} : byte '>' ∉ name →
      Written (.typeQuery name) ("type<" ++ name ++ ">")
  | conditional {condition : Text} : trim condition = condition → byte ')' ∉ condition →
      ¬ Text.ofString "=<" <:+: condition →
      Written (.conditional condition) ("if (" ++ condition ++ ") \x7b")
  | print {content : Text} : trim content = content →
      Written (.print content) ("(" ++ content ++ ")")
  | inlinePrint {content : Text} : trim content = content →
      Written (.inlinePrint content) ("f(" ++ content ++ ")")

namespace Statement

/-! ### Recognising a form

What a line begins with rules out the forms that are tried before its own, which is seen
by computation: the beginnings of the forms differ within their first bytes. -/

/-- The names of types do not begin like one another. -/
theorem after?_name (s type : ScalarType) (rest : Text) :
    after? (s.name ++ "<") (type.name ++ "<" ++ rest) = if s = type then some rest else none := by
  cases s <;> cases type <;> rfl

/-- The name ends at the first `>`, so the literal may have others in it. -/
theorem ofLine_declaration (type : ScalarType) {name : Text} (hname : byte '>' ∉ name)
    (literal : Text) :
    ofLine (type.name ++ "<" ++ (name ++ byte '>' :: literal)) =
      .declaration type name (trim literal) := by
  have hcut : cut? ">" (name ++ byte '>' :: literal) = some (name, literal) :=
    cut?_byte hname literal
  have hdeclaration : declaration? (type.name ++ "<" ++ (name ++ byte '>' :: literal)) =
      some (.declaration type name (trim literal)) := by
    unfold declaration?
    simp only [after?_name]
    cases type <;> simp [ScalarType.all, hcut]
  rw [ofLine, hdeclaration]
  rfl

/-- The last byte of a list is dropped, whatever it is. -/
theorem ofLine_listDeclaration_ending {name capacity elements : Text} {last : UInt8}
    (hname : byte '>' ∉ name) (hcapacity : byte '(' ∉ capacity)
    (hbracket : byte ')' ∈ name ++ byte '>' :: (capacity ++ byte '(' :: (elements ++ [last]))) :
    ofLine ("list<" ++ (name ++ byte '>' :: (capacity ++ byte '(' :: (elements ++ [last])))) =
      .listDeclaration name (trim capacity) elements := by
  have hcut : cut? ">" (name ++ byte '>' :: (capacity ++ byte '(' :: (elements ++ [last]))) =
      some (name, capacity ++ byte '(' :: (elements ++ [last])) := cut?_byte hname _
  have hcut' : cut? "(" (capacity ++ byte '(' :: (elements ++ [last])) =
      some (capacity, elements ++ [last]) := cut?_byte hcapacity _
  have hoccurs : occursIn ")"
      (name ++ byte '>' :: (capacity ++ byte '(' :: (elements ++ [last]))) = true :=
    occursIn_byte_iff.2 hbracket
  have hlist : listDeclaration? ("list<" ++
      (name ++ byte '>' :: (capacity ++ byte '(' :: (elements ++ [last])))) =
        some (.listDeclaration name (trim capacity) elements) := by
    unfold listDeclaration?
    rw [after?_append]
    simp [hoccurs, hcut, hcut']
  show (listDeclaration? _ <|> _).getD _ = _
  rw [hlist]
  rfl

theorem ofLine_listDeclaration {name capacity : Text} (hname : byte '>' ∉ name)
    (hcapacity : byte '(' ∉ capacity) (elements : Text) :
    ofLine ("list<" ++ (name ++ byte '>' :: (capacity ++ byte '(' :: (elements ++ [byte ')'])))) =
      .listDeclaration name (trim capacity) elements :=
  ofLine_listDeclaration_ending hname hcapacity (by simp)

/-- The last bracket ends the name, whatever brackets are in it. -/
theorem ofLine_input (name : Text) :
    ofLine ("<in>(" ++ (name ++ [byte ')'])) = .input (trim name) := by
  have hinput : input? ("<in>(" ++ (name ++ [byte ')'])) = some (.input (trim name)) := by
    have hend : before? ")" (name ++ [byte ')']) = some name := before?_append name ")"
    unfold input?
    rw [after?_append]
    simp [hend]
  show (input? _ <|> _).getD _ = _
  rw [hinput]
  rfl

/-- The bracket and what follows it are found together, whatever the name ends with. -/
theorem ofLine_typedInput {name : Text} (hname : ¬ Text.ofString ").to<" <:+: name)
    (type : Text) :
    ofLine ("<in>(" ++ (name ++ (Text.ofString ").to<" ++ (type ++ [byte '>'])))) =
      .typedInput (trim name) (trim type) := by
  have hend : before? ")" (name ++ (Text.ofString ").to<" ++ (type ++ [byte '>']))) = none := by
    rw [Option.eq_none_iff_forall_ne_some]
    intro l hl
    have hlast := congrArg List.getLast? ((before?_eq_some_iff (s := [byte ')'])).1 hl)
    rw [← List.append_assoc, ← List.append_assoc, List.getLast?_concat,
      List.getLast?_concat] at hlast
    exact absurd (Option.some.inj hlast) (by decide)
  have hcut : cut? ").to<" (name ++ (Text.ofString ").to<" ++ (type ++ [byte '>']))) =
      some (name, type ++ [byte '>']) := cut?_first (by decide) hname _
  have htype : before? ">" (type ++ [byte '>']) = some type := before?_append type ">"
  have hinput : input? ("<in>(" ++ (name ++ (Text.ofString ").to<" ++ (type ++ [byte '>'])))) =
      some (.typedInput (trim name) (trim type)) := by
    unfold input?
    rw [after?_append]
    simp [hend, hcut, htype]
  show (input? _ <|> _).getD _ = _
  rw [hinput]
  rfl

/-- Nothing is looked for behind the name. -/
theorem ofLine_typeQuery {name : Text} (hname : byte '>' ∉ name) :
    ofLine ("type<" ++ (name ++ [byte '>'])) = .typeQuery name := by
  have hcut : cut? ">" (name ++ [byte '>']) = some (name, []) := cut?_byte hname []
  have hquery : typeQuery? ("type<" ++ (name ++ [byte '>'])) = some (.typeQuery name) := by
    unfold typeQuery?
    rw [after?_append]
    simp [hcut]
  show (typeQuery? _ <|> _).getD _ = _
  rw [hquery]
  rfl

/-- The condition ends at the first closing bracket, and `=<` in it becomes `<=`. -/
theorem ofLine_conditional_replace {condition : Text} (hbracket : byte ')' ∉ condition) :
    ofLine ("if (" ++ (condition ++ Text.ofString ") \x7b")) =
      .conditional (trim (replace "=<" "<=" condition)) := by
  have hopen : occursIn ") \x7b" ("if (" ++ (condition ++ Text.ofString ") \x7b")) = true :=
    occursIn_iff.2 ⟨"if (" ++ condition, [], by simp⟩
  have hreplace : replace "=<" "<=" ("if (" ++ (condition ++ Text.ofString ") \x7b")) =
      "if (" ++ (replace "=<" "<=" condition ++ Text.ofString ") \x7b") := by
    have hfront : replace "=<" "<=" (Text.ofString "if ") = Text.ofString "if " :=
      replace_eq_of_not_infix _ (by decide) (by decide)
    have hbehind : replace "=<" "<=" (Text.ofString " \x7b") = Text.ofString " \x7b" :=
      replace_eq_of_not_infix _ (by decide) (by decide)
    -- neither bracket can be part of `=<`
    calc replace "=<" "<=" (Text.ofString "if " ++ byte '(' ::
          (condition ++ byte ')' :: Text.ofString " \x7b"))
        = Text.ofString "if " ++ byte '(' ::
            (replace "=<" "<=" condition ++ byte ')' :: Text.ofString " \x7b") := by
          rw [replace_append_cons _ (by decide) (by decide), hfront,
            replace_append_cons _ (by decide) (by decide), hbehind]
      _ = "if (" ++ (replace "=<" "<=" condition ++ Text.ofString ") \x7b") := rfl
  have hbracket' : byte ')' ∉ replace "=<" "<=" condition :=
    not_mem_replace _ (by decide) (by decide) hbracket
  have hcut : cut? "(" ("if (" ++ (replace "=<" "<=" condition ++ Text.ofString ") \x7b")) =
      some (Text.ofString "if ", replace "=<" "<=" condition ++ Text.ofString ") \x7b") :=
    cut?_byte (b := byte '(') (l := Text.ofString "if ") (by decide) _
  have hcut' : cut? ")" (replace "=<" "<=" condition ++ Text.ofString ") \x7b") =
      some (replace "=<" "<=" condition, Text.ofString " \x7b") := cut?_byte hbracket' _
  have hconditional : conditional? ("if (" ++ (condition ++ Text.ofString ") \x7b")) =
      some (.conditional (trim (replace "=<" "<=" condition))) := by
    unfold conditional?
    rw [after?_append, hopen, hreplace]
    simp [hcut, hcut']
  show (conditional? _ <|> _).getD _ = _
  rw [hconditional]
  rfl

theorem ofLine_conditional {condition : Text} (hbracket : byte ')' ∉ condition)
    (hless : ¬ Text.ofString "=<" <:+: condition) :
    ofLine ("if (" ++ (condition ++ Text.ofString ") \x7b")) = .conditional (trim condition) := by
  rw [ofLine_conditional_replace hbracket, replace_eq_of_not_infix _ (by decide) hless]

/-- What stands between the outermost brackets is printed. -/
theorem ofLine_print (content : Text) :
    ofLine ("(" ++ (content ++ [byte ')'])) = .print (trim content) := by
  have hprint : print? ("(" ++ (content ++ [byte ')'])) = some (.print (trim content)) := by
    have hbetween : between? "(" ")" ("(" ++ (content ++ [byte ')'])) = some content :=
      between?_append "(" content ")"
    rw [print?, hbetween]
    rfl
  show (print? _ <|> _).getD _ = _
  rw [hprint]
  rfl

/-- The same behind an `f`. -/
theorem ofLine_inlinePrint (content : Text) :
    ofLine ("f(" ++ (content ++ [byte ')'])) = .inlinePrint (trim content) := by
  have hprint : inlinePrint? ("f(" ++ (content ++ [byte ')'])) =
      some (.inlinePrint (trim content)) := by
    have hbetween : between? "f(" ")" ("f(" ++ (content ++ [byte ')'])) = some content :=
      between?_append "f(" content ")"
    rw [inlinePrint?, hbetween]
    rfl
  show (inlinePrint? _ <|> _).getD _ = _
  rw [hprint]
  rfl

end Statement

namespace Machine

variable (m : Machine) {x : Text} {v : Value} (hv : m.store.get? x = some v)
include hv

/-- A variable is printed under its name without the white space around it, unless the name is
a quoted text. -/
theorem execute_print_variable {t : Text} (ht : trim t = x)
    (hquoted : Literal.unquoted? x = none) :
    m.execute ("(" ++ t ++ ")") = ⟨m.write v.text, none, false⟩ := by
  have hline : Statement.ofLine ("(" ++ t ++ ")") = .print x := by
    rw [List.append_assoc, ← ht]
    exact Statement.ofLine_print t
  rw [m.execute_eq_perform hline]
  show m.print x = _
  rw [print, hquoted, hv]

/-- A type query takes the name as it stands, with the white space in it. -/
theorem execute_typeQuery (hx : byte '>' ∉ x) :
    m.execute ("type<" ++ x ++ ">") =
      ⟨m.write (x ++ " is of type: " ++ v.kind.name), none, false⟩ := by
  have hline : Statement.ofLine ("type<" ++ x ++ ">") = .typeQuery x := by
    rw [List.append_assoc]
    exact Statement.ofLine_typeQuery hx
  rw [m.execute_eq_perform hline]
  show m.typeQuery x = _
  rw [typeQuery, hv]

end Machine

/-! ### What is quoted -/

/-- What goes wrong on a course quotes no other line. -/
theorem Course.quotes {m : Machine} {line : Text} {o : Outcome} (h : Course m line o)
    {f : Fault} (hf : o.fault = some f) : f.Quotes line := by
  cases h with
  | refused hrefuses | unread _ _ _ _ hrefuses =>
      obtain rfl := Option.some.inj hf
      exact hrefuses.quotes
  | listed =>
      -- the warning about a list quotes nothing
      dsimp only at hf
      split at hf
      · cases hf
      · obtain rfl := Option.some.inj hf
        exact Fault.quotes_of_source?_eq_none rfl
  | unanswered =>
      obtain rfl := Option.some.inj hf
      exact Fault.quotes_of_source?_eq_none rfl
  | decided | written | declared | answered | assigned => cases hf

/-! ### Lines in a form -/

namespace Statement

/-- A line in a form is recognised as the statement that was written. -/
theorem Written.ofLine_eq {s : Statement} {line : Text} (h : Written s line) :
    ofLine line = s := by
  -- Each form has its lemma of recognition; what is left is that a text without blanks at
  -- its ends is not changed by trimming.
  cases h with
  | @declaration type name literal hname hliteral =>
      have h := ofLine_declaration type hname literal
      rw [hliteral] at h
      rwa [List.append_assoc, List.append_assoc]
  | @listDeclaration name capacity elements hname htrim hcapacity =>
      have h := ofLine_listDeclaration hname hcapacity elements
      rw [htrim] at h
      simp only [List.append_assoc]
      exact h
  | @input name htrim =>
      have h := ofLine_input name
      rw [htrim] at h
      rwa [List.append_assoc]
  | @typedInput name type hname htype hfirst =>
      have h := ofLine_typedInput hfirst type
      rw [hname, htype] at h
      simp only [List.append_assoc]
      exact h
  | @typeQuery name hname =>
      rw [List.append_assoc]
      exact ofLine_typeQuery hname
  | @conditional condition htrim hbracket hless =>
      have h := ofLine_conditional hbracket hless
      rw [htrim] at h
      rwa [List.append_assoc]
  | @print content htrim =>
      have h := ofLine_print content
      rw [htrim] at h
      rwa [List.append_assoc]
  | @inlinePrint content htrim =>
      have h := ofLine_inlinePrint content
      rw [htrim] at h
      rwa [List.append_assoc]

/-- A line in a form is recognised as the statement that was written, whatever bytes its
parts hold, and has this very line as its source.  This is what is executed, and whatever
goes wrong with it quotes no other line. -/
theorem ofLine_of_written {s : Statement} {line : Text} (h : Written s line) :
    (SourceLine.recognise line).source = line ∧
      (SourceLine.recognise line).statement = s ∧ ofLine line = s ∧
      ∀ m : Machine, m.execute line = m.perform ⟨line, s⟩ ∧
        ∀ f, (m.execute line).fault = some f → f.Quotes line :=
  ⟨rfl, h.ofLine_eq, h.ofLine_eq, fun m =>
    ⟨m.execute_eq_perform h.ofLine_eq, fun _ hf => (course_execute m line).quotes hf⟩⟩

/-- A name that ends like the beginning of a delimiter, and a type with brackets of its own. -/
theorem ofLine_of_written_overlapping :
    let line : Text := "<in>(a).to).to<x<(y)=>>"
    Written (.typedInput "a).to" "x<(y)=>") line ∧
      SourceLine.recognise line = ⟨line, .typedInput "a).to" "x<(y)=>"⟩ := by
  intro line
  have h : Written (.typedInput "a).to" "x<(y)=>") line :=
    .typedInput (trim_eq_self ⟨⟨byte 'a', rfl, rfl⟩, ⟨byte 'o', rfl, rfl⟩⟩)
      (trim_eq_self ⟨⟨byte 'x', rfl, rfl⟩, ⟨byte '>', rfl, rfl⟩⟩) (by decide)
  obtain ⟨hsource, hstatement, -⟩ := ofLine_of_written h
  exact ⟨h, congrArg₂ SourceLine.mk hsource hstatement⟩

end Statement

end LineScript
