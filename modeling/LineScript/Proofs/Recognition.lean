/-
LineScript/Proofs/Recognition.lean

What a line looks like, once it is known which statement it is.  `Recognised s line` has one
rule for each form: where the parts of the statement `s` stand in the line, and which bytes
are not in them because a part ends where a delimiter stands first.  Every line looks like
the statement that it is recognised as (`recognised_ofLine`).

This is the way back from the forms in which statements are written: a line need not be
written in the form of its statement.  Behind the name of a type query anything may
follow, and of a list the last byte is dropped, whatever it is.
-/
import LineScript.Proofs.Forms

namespace LineScript

open Text

namespace Statement

/-- How a line looks that is recognised as a statement. -/
inductive Recognised : Statement → Text → Prop where
  | declaration {type : ScalarType} {name rest : Text} : byte '>' ∉ name →
      Recognised (.declaration type name (trim rest))
        (type.name ++ "<" ++ (name ++ byte '>' :: rest))
  | input {t : Text} : Recognised (.input (trim t)) ("<in>(" ++ (t ++ [byte ')']))
  | typedInput {t u : Text} :
      Recognised (.typedInput (trim t) (trim u))
        ("<in>(" ++ (t ++ (Text.ofString ").to<" ++ (u ++ [byte '>']))))
  | typeQuery {name rest : Text} : byte '>' ∉ name →
      Recognised (.typeQuery name) ("type<" ++ (name ++ byte '>' :: rest))
  | listDeclaration {name c elements : Text} {last : UInt8} : byte '>' ∉ name →
      byte '(' ∉ c →
      byte ')' ∈ name ++ byte '>' :: (c ++ byte '(' :: (elements ++ [last])) →
      Recognised (.listDeclaration name (trim c) elements)
        ("list<" ++ (name ++ byte '>' :: (c ++ byte '(' :: (elements ++ [last]))))
  | malformed {rest : Text} : byte ')' ∈ rest →
      Recognised (.malformed "list command") ("list<" ++ rest)
  | conditional {line front condition rest : Text} : Text.ofString "if (" <+: line →
      replace "=<" "<=" line = front ++ byte '(' :: (condition ++ byte ')' :: rest) →
      byte '(' ∉ front → byte ')' ∉ condition → Recognised (.conditional (trim condition)) line
  | print {t : Text} : Recognised (.print (trim t)) ("(" ++ (t ++ [byte ')']))
  | inlinePrint {t : Text} : Recognised (.inlinePrint (trim t)) ("f(" ++ (t ++ [byte ')']))
  | assignment {line : Text} : byte '=' ∈ line → Recognised .assignment line
  | unknown {line : Text} : Recognised .unknown line

variable {line : Text} {s : Statement}

/-! ### The forms one by one -/

/-- What the search for a declaration finds has its form. -/
theorem recognised_declaration? (h : declaration? line = some s) : Recognised s line := by
  obtain ⟨type, -, htype⟩ := List.exists_of_findSome?_eq_some h
  obtain ⟨rest, hafter, hrest⟩ := Option.bind_eq_some_iff.1 htype
  obtain ⟨⟨name, literal⟩, hcut, hs⟩ := Option.bind_eq_some_iff.1 hrest
  obtain ⟨rfl, hname⟩ := (cut?_byte_eq_some_iff (b := byte '>')).1 hcut
  obtain rfl := Option.some.inj hs
  rw [after?_eq_some_iff.1 hafter]
  exact .declaration hname

/-- The same for input statements, of which the one without a type is tried first. -/
theorem recognised_input? (h : input? line = some s) : Recognised s line := by
  obtain ⟨rest, hafter, hrest⟩ := Option.bind_eq_some_iff.1 h
  rw [after?_eq_some_iff.1 hafter]
  split at hrest
  · next name hend =>
      obtain rfl := Option.some.inj hrest
      rw [before?_eq_some_iff.1 hend]
      exact .input
  · obtain ⟨⟨name, rest'⟩, hcut, hrest'⟩ := Option.bind_eq_some_iff.1 hrest
    obtain ⟨type, hend, hs⟩ := Option.bind_eq_some_iff.1 hrest'
    obtain rfl := Option.some.inj hs
    rw [eq_of_cut? hcut, before?_eq_some_iff.1 hend]
    exact .typedInput

theorem recognised_typeQuery? (h : typeQuery? line = some s) : Recognised s line := by
  obtain ⟨rest, hafter, hrest⟩ := Option.bind_eq_some_iff.1 h
  obtain ⟨⟨name, rest'⟩, hcut, hs⟩ := Option.bind_eq_some_iff.1 hrest
  obtain ⟨rfl, hname⟩ := (cut?_byte_eq_some_iff (b := byte '>')).1 hcut
  obtain rfl := Option.some.inj hs
  rw [after?_eq_some_iff.1 hafter]
  exact .typeQuery hname

/-- A line that begins like a list and has a closing bracket somewhere is a list or a
malformed one. -/
theorem listDeclaration?_cases (h : listDeclaration? line = some s) :
    ∃ rest, line = "list<" ++ rest ∧ byte ')' ∈ rest ∧
      (s = .malformed "list command" ∨ ∃ name c elements last, byte '>' ∉ name ∧ byte '(' ∉ c ∧
        rest = name ++ byte '>' :: (c ++ byte '(' :: (elements ++ [last])) ∧
        s = .listDeclaration name (trim c) elements) := by
  obtain ⟨rest, hafter, hrest⟩ := Option.bind_eq_some_iff.1 h
  refine ⟨rest, after?_eq_some_iff.1 hafter, ?_⟩
  -- Only the closing bracket decides whether the line is meant as a list; what else is
  -- missing makes it malformed.
  split at hrest
  · cases hrest
  · next hoccurs =>
      rw [Bool.not_eq_true, Bool.not_eq_false'] at hoccurs
      refine ⟨occursIn_byte_iff.1 hoccurs, ?_⟩
      obtain rfl := Option.some.inj hrest
      unfold Option.getD
      split
      · next s hs =>
          obtain ⟨⟨name, tail⟩, hclose, hs⟩ := Option.bind_eq_some_iff.1 hs
          obtain ⟨⟨c, ending⟩, hopen, hending⟩ := Option.bind_eq_some_iff.1 hs
          obtain ⟨hrest, hname⟩ := (cut?_byte_eq_some_iff (b := byte '>')).1 hclose
          obtain ⟨htail, hc⟩ := (cut?_byte_eq_some_iff (b := byte '(')).1 hopen
          dsimp only at hending
          split at hending
          · cases hending
          · next hne =>
              obtain ⟨elements, last, rfl⟩ :=
                (List.eq_nil_or_concat' ending).resolve_left (by simpa using hne)
              rw [List.dropLast_concat] at hending
              exact .inr ⟨name, c, elements, last, hname, hc, by rw [hrest, htail],
                (Option.some.inj hending).symm⟩
      · exact .inl rfl

/-- The same for lists, malformed ones included. -/
theorem recognised_listDeclaration? (h : listDeclaration? line = some s) :
    Recognised s line := by
  obtain ⟨rest, rfl, hbracket, rfl | ⟨name, c, elements, last, hname, hc, rfl, rfl⟩⟩ :=
    listDeclaration?_cases h
  · exact .malformed hbracket
  · exact .listDeclaration hname hc hbracket

/-- The same for conditions, where the line is rewritten before it is cut. -/
theorem recognised_conditional? (h : conditional? line = some s) : Recognised s line := by
  obtain ⟨start, hafter, hstart⟩ := Option.bind_eq_some_iff.1 h
  split at hstart
  · cases hstart
  · obtain ⟨⟨front, rest⟩, hopen, hrest⟩ := Option.bind_eq_some_iff.1 hstart
    obtain ⟨⟨condition, rest'⟩, hclose, hs⟩ := Option.bind_eq_some_iff.1 hrest
    obtain ⟨hline, hfront⟩ := (cut?_byte_eq_some_iff (b := byte '(')).1 hopen
    obtain ⟨rfl, hcondition⟩ := (cut?_byte_eq_some_iff (b := byte ')')).1 hclose
    obtain rfl := Option.some.inj hs
    exact .conditional ⟨start, (after?_eq_some_iff.1 hafter).symm⟩ hline hfront hcondition

theorem recognised_print? (h : print? line = some s) : Recognised s line := by
  obtain ⟨content, hbetween, rfl⟩ := Option.map_eq_some_iff.1 h
  rw [between?_eq_some_iff.1 hbetween]
  exact .print

theorem recognised_inlinePrint? (h : inlinePrint? line = some s) : Recognised s line := by
  obtain ⟨content, hbetween, rfl⟩ := Option.map_eq_some_iff.1 h
  rw [between?_eq_some_iff.1 hbetween]
  exact .inlinePrint

/-- An assignment has an equals sign somewhere. -/
theorem recognised_assignment? (h : assignment? line = some s) : Recognised s line := by
  rw [assignment?] at h
  split at h
  · next hoccurs =>
      obtain rfl := Option.some.inj h
      exact .assignment (occursIn_byte_iff.1 hoccurs)
  · cases h

/-! ### The first form that fits -/

/-- Trying one search after the other finds nothing new. -/
theorem recognised_orElse {a b : Option Statement} (ha : ∀ {s}, a = some s → Recognised s line)
    (hb : ∀ {s}, b = some s → Recognised s line) {s : Statement} (h : (a <|> b) = some s) :
    Recognised s line := by
  cases a with
  | some _ => exact ha h
  | none => exact hb h

/-- Every line looks like the statement that it is recognised as. -/
theorem recognised_ofLine (line : Text) : Recognised (ofLine line) line := by
  unfold ofLine Option.getD
  split
  · next s hs =>
      exact recognised_orElse recognised_declaration? (recognised_orElse recognised_input?
        (recognised_orElse recognised_typeQuery? (recognised_orElse recognised_listDeclaration?
          (recognised_orElse recognised_conditional? (recognised_orElse recognised_print?
            (recognised_orElse recognised_inlinePrint? recognised_assignment?)))))) hs
  · exact .unknown

end Statement

end LineScript
