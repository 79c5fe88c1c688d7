/-
LineScript/Proofs/RoundTrip.lean

A value on its way through a script.  The literal of a value is its text, in quotes if it
is a string.  Whatever is between the quotes, trimming leaves a literal as it is
(`HasType.trim_literal`); it is on one line if the value is
(`HasType.newline_not_mem_literal`); and reading it gives the value back
(`HasType.read_literal`).

Main result: a script to which the declaration of a variable, a line that prints it and a
line that asks for its type are added writes the text of the value and the name of the
type in addition, and has the variable bound to the value (`run_declare_print`).
-/
import LineScript.Proofs.Blocks
import LineScript.Proofs.Doubles
import LineScript.Proofs.Entries

namespace LineScript

open Text Expression

/-! ### Numbers without white space -/

theorem isSolid_of_isDigit {b : UInt8} (hb : isDigit b = true) : isSolid b = true :=
  Fragment.isSolid_of_isNamePart (by rw [isNamePart, hb, Bool.or_true])

theorem isSolid_of_isNumeralByte : ∀ b, isNumeralByte b = true → isSolid b = true := by
  decide +kernel

/-- There is no white space in a numeral. -/
theorem Denotes.isSolid {t : Text} {q : ℚ} (h : Denotes t q) : ∀ b ∈ t, isSolid b = true := by
  obtain ⟨w, f, x, -, rfl, hparts, -⟩ := h
  exact fun b hb => isSolid_of_isNumeralByte b (hparts.isNumeralByte_of_mem b hb)

theorem isSolid_of_mem_signed {t : Text} (h : ∀ b ∈ t, isSolid b = true) (negative : Bool) :
    ∀ b ∈ signed negative t, isSolid b = true := by
  cases negative with
  | false => exact h
  | true => exact List.forall_mem_cons.2 ⟨rfl, h⟩

theorem isSolid_of_mem_ofInt (n : ℤ) : ∀ b ∈ Text.ofInt n, isSolid b = true := by
  rw [Numeral.ofInt_eq_signed]
  apply isSolid_of_mem_signed
  exact fun b hb => isSolid_of_isDigit (isDigit_of_mem_ofNat hb)

/-- There is none in the text of a double, be it a number or not. -/
theorem Double.isSolid_of_mem_spell (f : Float) : ∀ b ∈ spell f, isSolid b = true := by
  have hword : ∀ t : Text, t.all isSolid = true → ∀ b ∈ t, isSolid b = true :=
    fun t h => List.all_eq_true.1 h
  rcases Nat.lt_or_ge infinite (magnitudeOf f) with hnan | hnum
  · rw [spell, if_pos hnan]
    exact hword "NaN" rfl
  · rw [spell_eq_signed hnum]
    apply isSolid_of_mem_signed
    rcases hnum.lt_or_eq with hfin | hinf
    · rcases Nat.eq_zero_or_pos (magnitudeOf f) with hzero | hpos
      · rw [hzero]
        exact denotes_zero.isSolid
      · obtain ⟨c, e, -, hdenotes⟩ := denotes_spellMagnitude hpos hfin
        exact hdenotes.isSolid
    · rw [hinf]
      exact hword "Infinity" rfl

/-! ### Literals -/

/-- The values of a type. -/
inductive HasType : Value → ScalarType → Prop where
  | int (n : Int64) : HasType (.int n) .int
  | double (f : Float) : HasType (.double f) .double
  | string (s : Text) : HasType (.string s) .string
  | bool (b : Bool) : HasType (.bool b) .bool

/-- The values of a type are those of its kind. -/
theorem hasType_iff {v : Value} {type : ScalarType} :
    HasType v type ↔ v.kind = type.kind := by
  constructor
  · intro h
    cases h <;> rfl
  · intro h
    cases type with
    | int =>
        cases v with
        | int n => exact .int n
        | _ => cases h
    | double =>
        cases v with
        | double f => exact .double f
        | _ => cases h
    | string =>
        cases v with
        | string s => exact .string s
        | _ => cases h
    | bool =>
        cases v with
        | bool b => exact .bool b
        | _ => cases h

/-- The literal of a value: its text, in quotes if it is a string. -/
def Value.literal : Value → Text
  | .string s => "\"" ++ s ++ "\""
  | v => v.text

/-- What stands between two solid texts does not matter for trimming. -/
theorem solidEnds_between {p q : Text} (hp : SolidEnds p) (t : Text) (hq : SolidEnds q) :
    SolidEnds (p ++ t ++ q) := by
  rw [List.append_assoc]
  exact Fragment.solidEnds_append hp t hq

theorem solidEnds_quoted (s : Text) : SolidEnds ("\"" ++ s ++ "\"") :=
  solidEnds_between ⟨⟨byte '"', rfl, rfl⟩, ⟨byte '"', rfl, rfl⟩⟩ s
    ⟨⟨byte '"', rfl, rfl⟩, ⟨byte '"', rfl, rfl⟩⟩

/-- Quotes around a text are taken off again, whatever quotes are in it. -/
theorem Literal.unquoted?_quoted (s : Text) : unquoted? ("\"" ++ s ++ "\"") = some s := by
  rw [List.append_assoc]
  exact between?_append "\"" s "\""

/-- The literal of a value that is not a string has solid bytes only. -/
theorem HasType.literal_cases {v : Value} {type : ScalarType} (h : HasType v type) :
    (∃ s, v = .string s) ∨ ∀ b ∈ v.literal, isSolid b = true := by
  cases h with
  | int n => exact .inr (isSolid_of_mem_ofInt n.toInt)
  | double f => exact .inr (Double.isSolid_of_mem_spell f)
  | string s => exact .inl ⟨s, rfl⟩
  | bool b =>
      right
      cases b with
      | false => exact List.all_eq_true.1 rfl
      | true => exact List.all_eq_true.1 rfl

/-- A literal has no white space at its ends. -/
theorem HasType.trim_literal {v : Value} {type : ScalarType} (h : HasType v type) :
    trim v.literal = v.literal := by
  rcases h.literal_cases with ⟨s, rfl⟩ | hsolid
  · exact trim_eq_self (solidEnds_quoted s)
  · by_cases hne : v.literal = []
    · rw [hne]
      rfl
    · exact trim_eq_self (Fragment.solidEnds_of_forall hne hsolid)

/-- The literal of a value is on one line, if this is so for strings. -/
theorem HasType.newline_not_mem_literal {v : Value} {type : ScalarType} (h : HasType v type)
    (hline : ∀ s, v = .string s → byte '\n' ∉ s) : byte '\n' ∉ v.literal := by
  rcases h.literal_cases with ⟨s, rfl⟩ | hsolid
  · have hs := hline s rfl
    simp only [Value.literal, List.mem_append, not_or]
    exact ⟨⟨by decide, hs⟩, by decide⟩
  · intro hmem
    cases hsolid _ hmem

/-- An integer is read back from its digits. -/
theorem Numeral.readInt?_ofInt (k : ℤ) : readInt? (Text.ofInt k) = some k := by
  have hdigits : isDigits (Text.ofNat k.natAbs) = true := by
    simpa [isDigits, ofNat_ne_nil] using fun b => isDigit_of_mem_ofNat
  simp only [readInt?, sign_ofInt, hdigits, toNat_ofNat, if_true, decide_eq_true_eq]
  congr 1
  split <;> omega

/-- An integer of 64 bits is read back in full range. -/
theorem Literal.int_ofInt (n : Int64) : Literal.int (Text.ofInt n.toInt) = .ok n := by
  have hrange : inRange n.toInt = true := by
    rw [inRange, Bool.and_eq_true, decide_eq_true_eq, decide_eq_true_eq]
    exact ⟨n.le_toInt, n.toInt_le⟩
  simp only [Literal.int, Numeral.readInt?_ofInt, hrange, if_true, Int64.ofInt_toInt]

/-- Reading the literal of a value gives the value. -/
theorem HasType.read_literal {v : Value} {type : ScalarType} (h : HasType v type) :
    type.read v.literal = .ok v := by
  cases h with
  | int n =>
      show (Literal.int (Text.ofInt n.toInt)).map Value.int = _
      rw [Literal.int_ofInt]
      rfl
  | double f =>
      show (Literal.double (Double.spell f)).map Value.double = _
      rw [Literal.double, Double.read?_spell]
      rfl
  | string s =>
      show Except.ok (Value.string (Literal.unquote ("\"" ++ s ++ "\""))) = _
      rw [Literal.unquote, Literal.unquoted?_quoted]
      rfl
  | bool b => cases b <;> rfl

/-! ### The lines -/

theorem Statement.ofLine_print_trimmed {content : Text} (h : trim content = content) :
    ofLine ("(" ++ content ++ ")") = .print content := by
  rw [List.append_assoc]
  exact (ofLine_print content).trans (by rw [h])

namespace Machine

variable {m : Machine} {x : Text} {v : Value}

/-- A name is not a quoted text, so the variable is printed. -/
theorem execute_print_name (hx : Nameable x) (hv : m.store.get? x = some v) :
    m.execute ("(" ++ x ++ ")") = ⟨m.write v.text, none, false⟩ := by
  have hquoted : Literal.unquoted? x = none := by
    have hfirst : after? "\"" x = none := by
      rw [after?_eq_none_iff]
      intro hp
      exact hx.not_mem (b := byte '"') rfl (hp.subset (by decide))
    rw [Literal.unquoted?, between?, hfirst]
    rfl
  exact m.execute_print_variable hv (trim_eq_self hx.solidEnds) hquoted

/-- A quoted text is printed, and no variable is looked for. -/
theorem execute_print_quoted (m : Machine) (s : Text) :
    m.execute ("(\"" ++ s ++ "\")") = ⟨m.write s, none, false⟩ := by
  have hline : ("(\"" ++ s ++ "\")" : Text) = "(" ++ ("\"" ++ s ++ "\"") ++ ")" := by
    simp only [List.append_assoc]
    rfl
  rw [hline, m.execute_eq_perform
    (Statement.ofLine_print_trimmed (trim_eq_self (solidEnds_quoted s)))]
  show m.print ("\"" ++ s ++ "\"") = _
  rw [print, Literal.unquoted?_quoted]

end Machine

namespace Run

variable {r : Run} (hr : r.skipping = false)
include hr

/-- A line that is executed without a fault changes the machine only. -/
theorem step_of_execute {line : Text} (hne : line ≠ []) {m : Machine}
    (h : r.machine.execute line = ⟨m, none, false⟩) :
    r.step line = { r with machine := m } := by
  obtain ⟨machine, skipping, errors⟩ := r
  obtain rfl : skipping = false := hr
  rw [step, if_neg (by simpa using hne), if_neg (by simp), h]
  rfl

/-- A line between two solid bytes is executed as it is. -/
theorem step_of_solidEnds {line : Text} (hline : SolidEnds line) {m : Machine}
    (h : r.machine.execute line = ⟨m, none, false⟩) :
    r.step (trim line) = { r with machine := m } := by
  rw [trim_eq_self hline]
  refine step_of_execute hr ?_ h
  rintro rfl
  obtain ⟨b, hb, -⟩ := hline.first
  cases hb

/-- The declaration of a value with its own literal binds the name to it. -/
theorem step_declaration {x : Text} (hx : Nameable x) {v : Value} {type : ScalarType}
    (hv : HasType v type) :
    r.step (trim (type.name ++ "<" ++ x ++ ">" ++ v.literal)) =
      { r with machine := r.machine.declare x v } := by
  rw [Machine.trim_declaration]
  apply step_of_execute hr (by simp)
  apply Machine.execute_declaration_ok _ hx
  rw [trim_trimRight, hv.trim_literal, hv.read_literal]

/-- A print of the name writes the text of the value. -/
theorem step_print_name {x : Text} (hx : Nameable x) {v : Value}
    (hv : r.machine.store.get? x = some v) :
    r.step (trim ("(" ++ x ++ ")")) = { r with machine := r.machine.write v.text } := by
  apply step_of_solidEnds hr
  · exact solidEnds_between ⟨⟨byte '(', rfl, rfl⟩, ⟨byte '(', rfl, rfl⟩⟩ x
      ⟨⟨byte ')', rfl, rfl⟩, ⟨byte ')', rfl, rfl⟩⟩
  · exact Machine.execute_print_name hx hv

/-- A type query writes its kind. -/
theorem step_typeQuery {x : Text} (hx : Nameable x) {v : Value}
    (hv : r.machine.store.get? x = some v) :
    r.step (trim ("type<" ++ x ++ ">")) =
      { r with machine := r.machine.write (x ++ " is of type: " ++ v.kind.name) } := by
  apply step_of_solidEnds hr
  · exact solidEnds_between ⟨⟨byte 't', rfl, rfl⟩, ⟨byte '<', rfl, rfl⟩⟩ x
      ⟨⟨byte '>', rfl, rfl⟩, ⟨byte '>', rfl, rfl⟩⟩
  · exact r.machine.execute_typeQuery hv (hx.not_mem rfl)

theorem step_print_quoted (s : Text) :
    r.step (trim ("(\"" ++ s ++ "\")")) = { r with machine := r.machine.write s } := by
  apply step_of_solidEnds hr
  · exact solidEnds_between ⟨⟨byte '(', rfl, rfl⟩, ⟨byte '"', rfl, rfl⟩⟩ s
      ⟨⟨byte '"', rfl, rfl⟩, ⟨byte ')', rfl, rfl⟩⟩
  · exact r.machine.execute_print_quoted s

end Run

/-- The three lines that declare a variable, print it and ask for its type, as they change a
run. -/
theorem Run.declare_print_query {r : Run} (hr : r.skipping = false) {x : Text}
    (hx : Nameable x) {v : Value} {type : ScalarType} (hv : HasType v type) :
    ((r.step (trim (type.name ++ "<" ++ x ++ ">" ++ v.literal))).step
        (trim ("(" ++ x ++ ")"))).step (trim ("type<" ++ x ++ ">")) =
      { r with
        machine := ((r.machine.declare x v).write v.text).write
          (x ++ " is of type: " ++ v.kind.name) } := by
  have hbound : (r.machine.declare x v).store.get? x = some v := by
    show (r.machine.store.declare x v).get? x = some v
    rw [Store.get?_declare, if_pos rfl]
  have hprint := step_print_name (r := { r with machine := r.machine.declare x v }) hr hx hbound
  have hquery := step_typeQuery
    (r := { r with machine := (r.machine.declare x v).write v.text }) hr hx hbound
  rw [step_declaration hr hx hv, hprint, hquery]

/-- When the declaration of a variable with the literal of a value, a line that prints the
variable and a line that asks for its type are added to a script that does not end within
a block to be skipped, two lines are added to the output, the text of the value and the
type.  The variable is bound to the value, and nothing else is different.  A quoted text is
printed as it is without the quotes, whatever bytes are in it. -/
theorem run_declare_print (m : Machine) (source : Text)
    (hnormal : (m.run source).skipping = false) :
    let r := m.run source
    (∀ (x : Text) (v : Value) (type : ScalarType), Nameable x → v.kind = type.kind →
      (∀ s, v = .string s → byte '\n' ∉ s) →
      let r' := m.run (source ++ "\n" ++ ofLines
        [type.name ++ "<" ++ x ++ ">" ++ v.literal, "(" ++ x ++ ")", "type<" ++ x ++ ">"])
      r'.machine.output = r.machine.output ++ [v.text, x ++ " is of type: " ++ type.name] ∧
        (r'.machine.store.get? x = some v ∧
          ∀ n, n ≠ x → r'.machine.store.get? n = r.machine.store.get? n) ∧
        r'.errors = r.errors ∧ r'.skipping = false ∧ r'.machine.answers = r.machine.answers ∧
        r'.machine.mode = r.machine.mode ∧
        r'.machine.environment.runs = r.machine.environment.runs) ∧
    ∀ s : Text, byte '\n' ∉ s →
      let r' := m.run (source ++ "\n" ++ ofLines ["(\"" ++ s ++ "\")"])
      r' = { r with machine := { r.machine with output := r.machine.output ++ [s] } } := by
  intro r
  refine ⟨fun x v type hx hkind hline => ?_, fun s hs => ?_⟩
  · intro r'
    have hv := hasType_iff.2 hkind
    -- The lines are only joined and split again if there is no line break in their parts.
    have hname : byte '\n' ∉ x := hx.not_mem rfl
    have htype : byte '\n' ∉ type.name := by cases type <;> decide
    have hliteral := hv.newline_not_mem_literal hline
    have hlines : ∀ l ∈ [type.name ++ "<" ++ x ++ ">" ++ v.literal, "(" ++ x ++ ")",
        "type<" ++ x ++ ">"], byte '\n' ∉ l := by
      simp only [List.forall_mem_cons, List.mem_append, not_or]
      exact ⟨⟨⟨⟨⟨htype, by decide⟩, hname⟩, by decide⟩, hliteral⟩,
        ⟨⟨by decide, hname⟩, by decide⟩, ⟨⟨by decide, hname⟩, by decide⟩,
        List.forall_mem_nil _⟩
    have hr' : r' = { r with
        machine := ((r.machine.declare x v).write v.text).write
          (x ++ " is of type: " ++ v.kind.name) } :=
      (m.run_append_ofLines source (by simp) hlines).trans
        (Run.declare_print_query hnormal hx hv)
    have hget : ∀ n, r'.machine.store.get? n =
        if n = x then some v else r.machine.store.get? n := by
      rw [hr']
      exact r.machine.store.get?_declare x v
    refine ⟨?_, ⟨?_, fun n hn => ?_⟩, ?_⟩
    · rw [hr', hkind]
      exact List.append_assoc _ _ _
    · rw [hget, if_pos rfl]
    · rw [hget, if_neg hn]
    · rw [hr']
      exact ⟨rfl, hnormal, rfl, rfl, rfl⟩
  · have hlines : ∀ l ∈ [("(\"" ++ s ++ "\")" : Text)], byte '\n' ∉ l := by
      simp only [List.forall_mem_singleton, List.mem_append, not_or]
      exact ⟨⟨by decide, hs⟩, by decide⟩
    exact (m.run_append_ofLines source (by simp) hlines).trans (Run.step_print_quoted hnormal s)

/-- A string of marks of the language with white space around it, behind a line that writes
and a block that is skipped. -/
theorem run_declare_print_marks :
    let m : Machine := { mode := .legacy }
    let source : Text := "int<k>1\n(k)\nif (1 > 2) \x7b\n(x)\n\x7d"
    let s : Text := " \"=>\x7bx\x7d)\" "
    let r := m.run (source ++ "\n" ++ ofLines ["string<x>\"" ++ s ++ "\"", "(x)", "type<x>"])
    let r' := m.run (source ++ "\n" ++ ofLines ["(\"" ++ s ++ "\")"])
    ((m.run source).skipping = false ∧ Nameable "x" ∧ byte '\n' ∉ s) ∧
      (r.machine.output = [Text.ofString "1", s, "x is of type: string"] ∧ r.errors = 0 ∧
        r.machine.store.get? "x" = some (.string s) ∧
        (r.machine.store.get? "k").map Value.text = some "1") ∧
      r'.machine.output = [Text.ofString "1", s] ∧ r'.errors = 0 ∧
        r'.machine.store.get? "x" = none := by
  intro m source s r r'
  have hnormal : (m.run source).skipping = false := by decide +kernel
  have hx : Nameable "x" := by decide
  have hs : byte '\n' ∉ s := by decide
  have houtput : (m.run source).machine.output = [Text.ofString "1"] := by decide +kernel
  have herrors : (m.run source).errors = 0 := by decide +kernel
  have hk : ((m.run source).machine.store.get? "k").map Value.text = some "1" := by
    decide +kernel
  have hfree : (m.run source).machine.store.get? "x" = none :=
    Option.isNone_iff_eq_none.1 (by decide +kernel)
  have hscript : [ScalarType.string.name ++ "<" ++ "x" ++ ">" ++ (Value.string s).literal,
      "(" ++ "x" ++ ")", "type<" ++ "x" ++ ">"] =
      ["string<x>\"" ++ s ++ "\"", "(x)", "type<x>"] := by decide
  obtain ⟨hdeclare, hquoted⟩ := run_declare_print m source hnormal
  -- from here on the values of these texts do not matter, and nothing is to be computed
  clear_value s source m
  have hadded := hdeclare "x" (.string s) .string hx rfl fun t ht => Value.string.inj ht ▸ hs
  rw [hscript] at hadded
  obtain ⟨hlines, ⟨hbound, hothers⟩, hcount, -⟩ := hadded
  have hr' : r' = _ := hquoted s hs
  rw [houtput] at hlines hr'
  refine ⟨⟨hnormal, hx, hs⟩, ⟨hlines, hcount.trans herrors, hbound, ?_⟩, ?_⟩
  · rw [hothers "k" (by decide)]
    exact hk
  · rw [hr']
    exact ⟨rfl, herrors, hfree⟩

end LineScript
