/-
LineScript/Proofs/Entries.lean

How values enter a script.  A declaration, a typed question, a question for a number and
an operand read literals on ways of their own, and they take white space off at different
times.  Each either binds the name to what it has read or leaves the variables alone
(`Enters`), so that two of them agree if they have read the same (`Enters.agree`).

Main result: they have read the same (`entries_agree`).  A declaration has lost the white
space at the end of its line before its literal is cut off and trimmed, which makes no
difference to the literal (`trim_trimRight`).
-/
import LineScript.Proofs.Courses
import LineScript.Proofs.Forms
import LineScript.Proofs.Fragment
import LineScript.Proofs.Stores
import LineScript.Proofs.Trimming

namespace LineScript

open Text Expression

/-! ### Names -/

/-- A name for a variable: an identifier that is not reserved. -/
structure Nameable (x : Text) : Prop where
  isIdentifier : isIdentifier x = true
  free : x ∉ keywords

theorem nameable_iff {x : Text} :
    (Expression.isIdentifier x && !isReserved x) = true ↔ Nameable x := by
  rw [Bool.and_eq_true, Bool.not_eq_true', isReserved, ← Bool.not_eq_true,
    List.contains_iff_mem]
  exact ⟨fun h => ⟨h.1, h.2⟩, fun h => ⟨h.isIdentifier, h.free⟩⟩

instance (x : Text) : Decidable (Nameable x) := decidable_of_iff _ nameable_iff

namespace Nameable

variable {x : Text} (hx : Nameable x)
include hx

/-- A name has none of the marks of the language in it. -/
theorem not_mem {b : UInt8} (hb : isNamePart b = false) : b ∉ x := by
  intro hmem
  rw [isNamePart_of_isIdentifier hx.isIdentifier b hmem] at hb
  cases hb

theorem solidEnds : SolidEnds x :=
  Fragment.solidEnds_of_isIdentifier hx.isIdentifier

/-- Such a name is accepted wherever a name is checked. -/
theorem nameFault?_eq_none (malformed : Fault) : Machine.nameFault? x malformed = none := by
  apply Machine.nameFault?_eq_none_iff.2
  refine ⟨?_, hx.free⟩
  rintro rfl
  cases hx.isIdentifier

end Nameable

namespace ScalarType

theorem solidEnds_name (type : ScalarType) : SolidEnds type.name := by
  apply Fragment.solidEnds_of_isIdentifier
  cases type <;> rfl

theorem ofName?_name (type : ScalarType) : ofName? type.name = some type := by
  cases type <;> rfl

end ScalarType

/-! ### One entry -/

/-- A line either binds a name to what has been read or does not change the variables. -/
structure Enters (s : Store) (x : Text) (r : Except LiteralError Value) (o : Outcome) :
    Prop where
  fault : o.fault = none ↔ ∃ v, r = .ok v
  store : o.machine.store = (r.map (s.declare x)).toOption.getD s

namespace Enters

variable {s : Store} {x : Text} {r : Except LiteralError Value} {o o' : Outcome}

theorem error {e : LiteralError} {f : Fault} (hfault : o.fault = some f)
    (hstore : o.machine.store = s) : Enters s x (.error e) o := by
  refine ⟨?_, hstore⟩
  rw [hfault]
  simp

theorem ok {v : Value} (hfault : o.fault = none)
    (hstore : o.machine.store = s.declare x v) : Enters s x (.ok v) o :=
  ⟨⟨fun _ => ⟨v, rfl⟩, fun _ => hfault⟩, hstore⟩

/-- Two entries that have read the same change the variables in the same way. -/
theorem agree (h : Enters s x r o) (h' : Enters s x r o') :
    (o.fault = none ↔ o'.fault = none) ∧ o.machine.store = o'.machine.store :=
  ⟨h.fault.trans h'.fault.symm, h.store.trans h'.store.symm⟩

/-- The name is bound to what has been read. -/
theorem get?_of_ok {v : Value} (h : Enters s x r o) (hr : r = .ok v) :
    o.machine.store.get? x = some v := by
  rw [h.store, hr]
  show (s.declare x v).get? x = some v
  rw [Store.get?_declare, if_pos rfl]

/-- Whatever has been read, the other names stay as they are. -/
theorem get?_of_ne (h : Enters s x r o) {n : Text} (hn : n ≠ x) :
    o.machine.store.get? n = s.get? n := by
  rw [h.store]
  cases r with
  | error e => rfl
  | ok v =>
      show (s.declare x v).get? n = s.get? n
      rw [Store.get?_declare, if_neg hn]

/-- With a fault nothing is bound. -/
theorem store_of_fault (h : Enters s x r o) (hfault : o.fault ≠ none) :
    o.machine.store = s := by
  cases r with
  | error e => exact h.store
  | ok v => exact absurd (h.fault.2 ⟨v, rfl⟩) hfault

end Enters

namespace Machine

variable {m : Machine} {x t : Text}

section Declaration

variable (m : Machine) (hx : Nameable x) {type : ScalarType} {literal : Text}
include hx

/-- A literal that can be read is bound to the name. -/
theorem execute_declaration_ok {v : Value} (hread : type.read (trim literal) = .ok v) :
    m.execute (type.name ++ "<" ++ (x ++ byte '>' :: literal)) =
      ⟨m.declare x v, none, false⟩ := by
  rw [m.execute_eq_perform (Statement.ofLine_declaration type (hx.not_mem rfl) literal)]
  show m.declareScalar _ type x (trim literal) = _
  simp only [declareScalar, hx.nameFault?_eq_none, hread]

/-- A literal that cannot be read is reported, and nothing is bound. -/
theorem execute_declaration_error {e : LiteralError}
    (hread : type.read (trim literal) = .error e) :
    let line := type.name ++ "<" ++ (x ++ byte '>' :: literal)
    m.execute line = ⟨m, some (literalFault type (trim literal) line e), false⟩ := by
  intro line
  rw [m.execute_eq_perform (Statement.ofLine_declaration type (hx.not_mem rfl) literal)]
  show m.declareScalar line type x (trim literal) = _
  simp only [declareScalar, hx.nameFault?_eq_none, hread]

/-- A declaration enters its literal. -/
theorem enters_declaration (type : ScalarType) (literal : Text) :
    Enters m.store x (type.read (trim literal))
      (m.execute (type.name ++ "<" ++ (x ++ byte '>' :: literal))) := by
  cases hread : type.read (trim literal) with
  | error e =>
      rw [m.execute_declaration_error hx hread]
      exact .error rfl rfl
  | ok v =>
      rw [m.execute_declaration_ok hx hread]
      exact .ok rfl rfl

end Declaration

/-- A question enters its answer, which may be read in any way. -/
theorem enters_inputWith (hanswer : m.nextAnswer? = some t) (x prompt : Text)
    (read : Text → Except LiteralError Value) (malformed : LiteralError → Fault) :
    Enters m.store x (read t) (m.inputWith x prompt read malformed) := by
  rw [inputWith, ask_eq, hanswer]
  dsimp only
  cases read t with
  | error e => exact .error rfl rfl
  | ok v => exact .ok rfl rfl

/-- A typed question enters its answer as a value of the type. -/
theorem enters_typedInput (hanswer : m.nextAnswer? = some t) (hx : Nameable x)
    (type : ScalarType) :
    Enters m.store x (readAnswer type t)
      (m.execute ("<in>(" ++ x ++ ").to<" ++ type.name ++ ">")) := by
  have hline : ("<in>(" ++ x ++ ").to<" ++ type.name ++ ">" : Text) =
      "<in>(" ++ (x ++ (Text.ofString ").to<" ++ (type.name ++ [byte '>']))) := by
    simp only [List.append_assoc]
    rfl
  have hcut : ¬ Text.ofString ").to<" <:+: x := by
    intro hpart
    exact hx.not_mem (b := byte ')') rfl (hpart.subset (by decide))
  rw [hline, m.execute_eq_perform (Statement.ofLine_typedInput hcut type.name),
    trim_eq_self hx.solidEnds, trim_eq_self type.solidEnds_name]
  show Enters _ _ _ (m.typedInput _ x type.name)
  unfold typedInput
  rw [hx.nameFault?_eq_none, type.ofName?_name]
  exact enters_inputWith hanswer x _ (readAnswer type) _

/-- A question for a number enters its answer as a number. -/
theorem enters_input (hanswer : m.nextAnswer? = some t) (hx : Nameable x) :
    Enters m.store x (readNumber t) (m.execute ("<in>(" ++ x ++ ")")) := by
  have hline : ("<in>(" ++ x ++ ")" : Text) = "<in>(" ++ (x ++ [byte ')']) := by
    rw [List.append_assoc]
    rfl
  rw [hline, m.execute_eq_perform (Statement.ofLine_input x), trim_eq_self hx.solidEnds]
  show Enters _ _ _ (m.input _ x)
  unfold input
  rw [hx.nameFault?_eq_none]
  exact enters_inputWith hanswer x _ readNumber _

/-! ### What is read -/

/-- The line of a declaration without the white space around it. -/
theorem trim_declaration (type : ScalarType) (x t : Text) :
    trim (type.name ++ "<" ++ x ++ ">" ++ t) =
      type.name ++ "<" ++ (x ++ byte '>' :: trimRight t) := by
  obtain ⟨a, ha, hsolid⟩ := type.solidEnds_name.first
  obtain ⟨w, hw⟩ := List.head?_eq_some_iff.1 ha
  have h := trim_append_solid hsolid (w ++ "<" ++ x) (b := byte '>') rfl t
  have hclose : Text.ofString ">" = [byte '>'] := rfl
  rw [hw, hclose]
  simpa using h

/-- Apart from the white space around a string, an answer is read like a literal. -/
theorem readAnswer_eq {type : ScalarType} (h : type = .string → trim t = t) :
    readAnswer type t = type.read (trim t) := by
  cases type with
  | string => rw [h rfl, readAnswer]
  | int => rfl
  | double => rfl
  | bool => rfl

/-- A number is read as an operand that is not a variable is. -/
theorem readNumber_eq_ok_iff {s : Store} (h : s.get? (trim t) = none) {v : Value} :
    readNumber t = .ok v ↔
      s.resolve (trim t) = v ∧ (v.kind = .int ∨ v.kind = .double) := by
  simp only [readNumber, Store.resolve, h, ScalarType.read]
  split
  · cases Literal.double (trim t) with
    | error e =>
        simp only [Except.map, reduceCtorEq, false_iff]
        rintro ⟨rfl, hkind | hkind⟩
        · cases hkind
        · cases hkind
    | ok f =>
        simp only [Except.map, Except.ok.injEq, iff_self_and]
        rintro rfl
        exact .inr rfl
  · cases Literal.int (trim t) with
    | error e =>
        simp only [Except.map, reduceCtorEq, false_iff]
        rintro ⟨rfl, hkind | hkind⟩
        · cases hkind
        · cases hkind
    | ok n =>
        simp only [Except.map, Except.ok.injEq, iff_self_and]
        rintro rfl
        exact .inl rfl

end Machine

/-- All ways into a script read a text in the same way.  The answer to a typed question is
accepted exactly if the declaration with this literal is, and they change the variables in
the same way; only for strings, where white space around an answer counts, it has to be
without it.  The answer to a question for a number is accepted exactly if the text as an
operand, without a variable of that name, is a number, and the variable is then bound to
this number.  No other variable changes, and none at all if the text is not accepted. -/
theorem entries_agree (m : Machine) {x t : Text} (hx : Nameable x)
    (hanswer : m.nextAnswer? = some t) :
    (∀ type : ScalarType, (type = .string → trim t = t) →
      let asked := m.execute ("<in>(" ++ x ++ ").to<" ++ type.name ++ ">")
      let declared := m.execute (trim (type.name ++ "<" ++ x ++ ">" ++ t))
      (asked.fault = none ↔ declared.fault = none) ∧
        (asked.fault = none ↔ ∃ v, type.read (trim t) = .ok v) ∧
        asked.machine.store = declared.machine.store ∧
        (∀ v, type.read (trim t) = .ok v → asked.machine.store.get? x = some v) ∧
        (∀ n, n ≠ x → asked.machine.store.get? n = m.store.get? n) ∧
        (asked.fault ≠ none → asked.machine.store = m.store)) ∧
    ∀ s : Store, s.get? (trim t) = none →
      let asked := m.execute ("<in>(" ++ x ++ ")")
      let v := s.resolve (trim t)
      (asked.fault = none ↔ v.kind = .int ∨ v.kind = .double) ∧
        (asked.fault = none → asked.machine.store.get? x = some v) ∧
        (∀ n, n ≠ x → asked.machine.store.get? n = m.store.get? n) ∧
        (asked.fault ≠ none → asked.machine.store = m.store) := by
  refine ⟨fun type htype => ?_, fun s hs => ?_⟩
  · have hasked := Machine.enters_typedInput hanswer hx type
    have hdeclared := m.enters_declaration hx type (trimRight t)
    -- The line of the declaration loses the white space behind the literal, and reading the
    -- literal trims it anyway.
    rw [Machine.readAnswer_eq htype] at hasked
    rw [trim_trimRight, ← Machine.trim_declaration] at hdeclared
    obtain ⟨hfault, hstore⟩ := hasked.agree hdeclared
    exact ⟨hfault, hasked.fault, hstore, fun v hread => hasked.get?_of_ok hread,
      fun n => hasked.get?_of_ne, hasked.store_of_fault⟩
  · have hasked := Machine.enters_input hanswer hx
    have hfault : (m.execute ("<in>(" ++ x ++ ")")).fault = none ↔
        (s.resolve (trim t)).kind = .int ∨ (s.resolve (trim t)).kind = .double := by
      rw [hasked.fault]
      simp only [Machine.readNumber_eq_ok_iff hs, exists_eq_left']
    refine ⟨hfault, fun hnone => ?_, fun n => hasked.get?_of_ne, hasked.store_of_fault⟩
    exact hasked.get?_of_ok ((Machine.readNumber_eq_ok_iff hs).2 ⟨rfl, hfault.1 hnone⟩)

/-- The answer is a number with a sign between two blanks of three bytes, one of them
behind a tabulator.  It is accepted for an integer and for a number, but not for a boolean.
The variable `k` keeps its value. -/
theorem entries_agree_between_blanks :
    let t : Text := "\u3000+7\t\u2028"
    let m : Machine :=
      ⟨.legacy, some ⟨[t], []⟩, { store := Store.empty.declare "k" (.bool true) }, []⟩
    (Nameable "n" ∧ m.nextAnswer? = some t ∧ Store.empty.get? (trim t) = none) ∧
      ((m.execute "<in>(n).to<int>").fault = none ∧
        (m.execute "<in>(n).to<int>").machine.store.get? "n" = some (.int 7) ∧
        (m.execute "<in>(n).to<int>").machine.store.get? "k" = some (.bool true)) ∧
      ((m.execute (trim ("int<n>" ++ t))).fault = none ∧
        (m.execute (trim ("int<n>" ++ t))).machine.store.get? "n" = some (.int 7) ∧
        (m.execute (trim ("int<n>" ++ t))).machine.store.get? "k" = some (.bool true)) ∧
      ((m.execute "<in>(n).to<bool>").fault ≠ none ∧
        (m.execute (trim ("bool<n>" ++ t))).fault ≠ none ∧
        (m.execute "<in>(n).to<bool>").machine.store.get? "n" = none) ∧
      ((m.execute "<in>(n)").fault = none ∧
        (m.execute "<in>(n)").machine.store.get? "n" = some (.int 7) ∧
        (m.execute "<in>(n)").machine.store.get? "k" = some (.bool true)) := by
  intro t m
  have hx : Nameable "n" := by decide
  have hanswer : m.nextAnswer? = some t := rfl
  have hread : ScalarType.int.read (trim t) = .ok (.int 7) := rfl
  have hresolve : Store.empty.resolve (trim t) = .int 7 := rfl
  have hk : m.store.get? "k" = some (.bool true) := rfl
  have hother : Text.ofString "k" ≠ "n" := by decide
  obtain ⟨htyped, hnumber⟩ := entries_agree m hx hanswer
  obtain ⟨hagree, hfault, hstore, hbound, hothers, -⟩ := htyped .int (fun h => nomatch h)
  obtain ⟨hagree', hfault', -, -, -, hkept⟩ := htyped .bool (fun h => nomatch h)
  obtain ⟨haccepted, hnumeral, hothers', -⟩ := hnumber .empty rfl
  have hasked := hfault.2 ⟨_, hread⟩
  have hseven := hbound _ hread
  have hkept_k := (hothers _ hother).trans hk
  have hrefused : (m.execute "<in>(n).to<bool>").fault ≠ none := by
    intro hnone
    obtain ⟨v, hv⟩ := hfault'.1 hnone
    cases hv
  have hquestion := haccepted.2 (.inl (by rw [hresolve]; rfl))
  refine ⟨⟨hx, hanswer, rfl⟩, ⟨hasked, hseven, hkept_k⟩, ⟨hagree.1 hasked, ?_, ?_⟩,
    ⟨hrefused, fun hnone => hrefused (hagree'.2 hnone), ?_⟩, hquestion, ?_,
    (hothers' _ hother).trans hk⟩
  · exact hstore ▸ hseven
  · exact hstore ▸ hkept_k
  · have h := hkept hrefused
    exact (congrArg (Store.get? · "n") h).trans rfl
  · exact (hnumeral hquestion).trans (congrArg some hresolve)

end LineScript
