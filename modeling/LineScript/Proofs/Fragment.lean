/-
LineScript/Proofs/Fragment.lean

The expressions on which both ways of evaluating agree, and their value by the
rules of arithmetic.

An atom is a numeral without sign and exponent, or a variable whose text looks
like one and reads as its value.  With `u`, `v` for white space, the texts
without calls are

    quotient   = atom   | atom u '/' v atom
    product    = quotient   | quotient u '*' v atom
    difference = product    | product u '-' v product
    sum        = difference | difference u '+' v product

and calls are nested in one order only: a logarithm holds logarithms and sums,
a square root also square roots, and a power also powers.  Each text comes with
the number that it is worth.

* Texts of the fragment are scanned piece by piece (`Scans`), whatever boundary
  comes behind them.
* Their tokens are derived by the grammar, and the tree means what the text is
  worth (`Nested.scans`).
-/
import LineScript.Proofs.Precedence

namespace LineScript

open Text

/-- The rank of an operator is that of its left operands: quotients stand above
atoms, products above quotients, differences above products, and sums above
differences. -/
def Operator.rank : Operator → Nat
  | div => 0
  | mul => 1
  | sub => 2
  | add => 3

/-- The rank of the right operands of an operator: atoms behind `*` and `/`, and
products behind `+` and `-`. -/
def Operator.rightRank : Operator → Nat
  | div => 0
  | mul => 0
  | sub => 2
  | add => 2

theorem Operator.rightRank_le_rank (op : Operator) : op.rightRank ≤ op.rank := by
  cases op <;> decide

namespace Fragment

open Expression

/-! ### The texts of the fragment -/

/-- White space between tokens. -/
def Gap (u : Text) : Prop := ∀ b ∈ u, isSpace b = true

/-- `s` is `t` with white space around it. -/
def Padded (t s : Text) : Prop := ∃ u v, Gap u ∧ Gap v ∧ s = u ++ t ++ v

/-- Digits and points. -/
def IsPlain (t : Text) : Prop := ∀ b ∈ t, isDigit b = true ∨ b = byte '.'

/-- The atoms, with the numbers they are worth.  Every numeral is worth one
(`exists_atom_numeral`). -/
inductive Atom (store : Store) : Text → Float → Prop where
  | numeral {whole fraction : Text} {x : Float} :
      NumberParts whole fraction [] → Double.read? (whole ++ fraction) = some x →
      Atom store (whole ++ fraction) x
  | bound {name : Text} {v : Value} {x : Float} :
      isIdentifier name = true → store.get? name = some v → IsPlain v.text →
      Double.read? v.text = some x → v.toDouble = .ok x → Atom store name x

/-- Digits with or without a fraction are an atom, whatever their value. -/
theorem exists_atom_numeral (store : Store) (whole fraction : Text)
    (h : NumberParts whole fraction []) : ∃ x, Atom store (whole ++ fraction) x := by
  have hread := h.readDouble?_isSome
  rw [List.append_nil] at hread
  obtain ⟨x, hx⟩ := Option.isSome_iff_exists.1 hread
  exact ⟨x, .numeral h hx⟩

/-- The texts without calls that are made of given atoms, by rank. -/
inductive Flat (A : Text → Float → Prop) : Nat → Text → Float → Prop where
  | atom {t : Text} {x : Float} : A t x → Flat A 0 t x
  | higher {k : Nat} {t : Text} {x : Float} : Flat A k t x → Flat A (k + 1) t x
  | binary {op : Operator} {s t u v : Text} {x y : Float} :
      Flat A op.rank s x → Gap u → Gap v → Flat A op.rightRank t y →
      Flat A (op.rank + 1) (s ++ u ++ byte op.symbol :: (v ++ t)) (op.apply x y)

/-- What is true of the bytes of atoms, of white space and of the operators is true
of every byte of a text. -/
theorem Flat.forall_mem {A : Text → Float → Prop} {p : UInt8 → Prop}
    (hatom : ∀ t x, A t x → ∀ b ∈ t, p b) (hspace : ∀ b, isSpace b = true → p b)
    (hsymbol : ∀ op : Operator, p (byte op.symbol)) {k : Nat} {t : Text} {x : Float}
    (h : Flat A k t x) : ∀ b ∈ t, p b := by
  induction h with
  | atom ha => exact hatom _ _ ha
  | higher _ ih => exact ih
  | @binary op s t u v x y _ hu hv _ ih₁ ih₂ =>
      intro b hb
      simp only [List.mem_append, List.mem_cons] at hb
      rcases hb with (hb | hb) | rfl | hb | hb
      · exact ih₁ b hb
      · exact hspace b (hu b hb)
      · exact hsymbol op
      · exact hspace b (hv b hb)
      · exact ih₂ b hb

/-- What calls may be nested in. -/
inductive Tier where
  | logarithm
  | root
  | power

/-- The texts with calls, by tier and by the number of levels of calls. -/
inductive Nested (store : Store) : Tier → Nat → Text → Float → Prop where
  | flat {t : Text} {x : Float} :
      Flat (Atom store) 4 t x → Nested store .logarithm 0 t x
  | log {m n : Nat} {s t s' t' : Text} {x y : Float} :
      Nested store .logarithm m s x → Padded s s' →
      Nested store .logarithm n t y → Padded t t' →
      Nested store .logarithm (max m n + 1) ("log[" ++ s' ++ "](" ++ t' ++ ")")
        (y.log / x.log)
  | ofLogarithm {n : Nat} {t : Text} {x : Float} :
      Nested store .logarithm n t x → Nested store .root n t x
  | sqrt {n : Nat} {t t' : Text} {x : Float} :
      Nested store .root n t x → Padded t t' →
      Nested store .root (n + 1) ("sqrt(" ++ t' ++ ")") x.sqrt
  | ofRoot {n : Nat} {t : Text} {x : Float} :
      Nested store .root n t x → Nested store .power n t x
  | pow {m n : Nat} {s t s' t' : Text} {x y : Float} :
      Nested store .power m s x → Padded s s' →
      Nested store .power n t y → Padded t t' →
      Nested store .power (max m n + 1) ("pow(" ++ s' ++ "," ++ t' ++ ")") (x.pow y)

/-! Calls as the name of a function, a bracket and what is in it. -/

theorem log_text (s t : Text) :
    "log[" ++ s ++ "](" ++ t ++ ")" = Builtin.log.name ++ byte '[' ::
      (s ++ byte ']' :: byte '(' :: (t ++ [byte ')'])) := by
  have hopen : Text.ofString "log[" = Builtin.log.name ++ [byte '['] := rfl
  have hmiddle : Text.ofString "](" = [byte ']', byte '('] := rfl
  have hclose : Text.ofString ")" = [byte ')'] := rfl
  simp [hopen, hmiddle, hclose]

theorem sqrt_text (t : Text) :
    "sqrt(" ++ t ++ ")" = Builtin.sqrt.name ++ byte '(' :: (t ++ [byte ')']) := by
  have hopen : Text.ofString "sqrt(" = Builtin.sqrt.name ++ [byte '('] := rfl
  have hclose : Text.ofString ")" = [byte ')'] := rfl
  simp [hopen, hclose]

theorem pow_text (s t : Text) :
    "pow(" ++ s ++ "," ++ t ++ ")" = Builtin.pow.name ++ byte '(' ::
      (s ++ byte ',' :: (t ++ [byte ')'])) := by
  have hopen : Text.ofString "pow(" = Builtin.pow.name ++ [byte '('] := rfl
  have hmiddle : Text.ofString "," = [byte ','] := rfl
  have hclose : Text.ofString ")" = [byte ')'] := rfl
  simp [hopen, hmiddle, hclose]

/-! ### Where texts begin and end -/

theorem isSolid_of_isNamePart {b : UInt8} (hb : isNamePart b = true) :
    isSolid b = true := by
  have h : ∀ b, isNamePart b = true → isSolid b = true := by decide +kernel
  exact h b hb

theorem solidEnds_of_forall {t : Text} (hne : t ≠ [])
    (h : ∀ b ∈ t, isSolid b = true) : SolidEnds t := by
  refine ⟨⟨t.head hne, List.head?_eq_some_head hne, h _ (List.head_mem hne)⟩,
    ⟨t.getLast hne, List.getLast?_eq_some_getLast hne, h _ (List.getLast_mem hne)⟩⟩

/-- An identifier has no white space at its ends. -/
theorem solidEnds_of_isIdentifier {n : Text} (h : isIdentifier n = true) :
    SolidEnds n := by
  refine solidEnds_of_forall ?_ fun b hb =>
    isSolid_of_isNamePart (isNamePart_of_isIdentifier h b hb)
  rintro rfl
  cases h

/-- What stands in the middle does not matter. -/
theorem solidEnds_append {s t : Text} (hs : SolidEnds s) (m : Text)
    (ht : SolidEnds t) : SolidEnds (s ++ (m ++ t)) := by
  obtain ⟨b, hb, hsolid⟩ := hs.first
  obtain ⟨c, hc, hsolid'⟩ := ht.last
  refine ⟨⟨b, ?_, hsolid⟩, ⟨c, ?_, hsolid'⟩⟩
  · rw [List.head?_append, hb]
    rfl
  · rw [List.getLast?_append, List.getLast?_append, hc]
    rfl

/-- Neither has an atom. -/
theorem Atom.solidEnds {store : Store} {t : Text} {x : Float}
    (h : Atom store t x) : SolidEnds t := by
  cases h with
  | numeral hparts _ => simpa using hparts.solidEnds
  | bound hname _ _ _ _ => exact solidEnds_of_isIdentifier hname

/-- Nor has a combination of such texts. -/
theorem Flat.solidEnds {A : Text → Float → Prop}
    (hA : ∀ t x, A t x → SolidEnds t) {k : Nat} {t : Text} {x : Float}
    (h : Flat A k t x) : SolidEnds t := by
  induction h with
  | atom ha => exact hA _ _ ha
  | higher _ ih => exact ih
  | @binary op s t u v x y _ _ _ _ ih₁ ih₂ =>
      have hjoin := solidEnds_append ih₁ (u ++ byte op.symbol :: v) ih₂
      simpa using hjoin

/-- A call begins with the name of its function and ends with a bracket. -/
theorem solidEnds_call (f : Builtin) (m : Text) :
    SolidEnds (f.name ++ (m ++ [byte ')'])) := by
  have hname : isIdentifier f.name = true := by cases f <;> decide
  exact solidEnds_append (solidEnds_of_isIdentifier hname) m
    ⟨⟨byte ')', rfl, rfl⟩, ⟨byte ')', rfl, rfl⟩⟩

/-- Nor have calls of functions with such texts. -/
theorem Nested.solidEnds {store : Store} {tier : Tier} {n : Nat} {t : Text}
    {x : Float} (h : Nested store tier n t x) : SolidEnds t := by
  induction h with
  | flat h => exact h.solidEnds fun _ _ => Atom.solidEnds
  | @log m n s t s' t' x y _ _ _ _ _ _ =>
      rw [log_text]
      simpa using solidEnds_call .log (byte '[' :: (s' ++ byte ']' :: byte '(' :: t'))
  | ofLogarithm _ ih => exact ih
  | @sqrt n t t' x _ _ _ =>
      rw [sqrt_text]
      simpa using solidEnds_call .sqrt (byte '(' :: t')
  | ofRoot _ ih => exact ih
  | @pow m n s t s' t' x y _ _ _ _ _ _ =>
      rw [pow_text]
      simpa using solidEnds_call .pow (byte '(' :: (s' ++ byte ',' :: t'))

/-! ### Scanning piece by piece -/

/-- The text `t` is scanned to tokens with a property, wherever it stands in front
of a boundary. -/
def Scans (t : Text) (P : List Token → Prop) : Prop :=
  ∀ source pos rest, (∀ b ∈ rest.head?, isBoundary b = true) →
    ∃ us, lexer.eventsFrom source pos (t ++ rest) =
        us.map .token ++ lexer.eventsFrom source (pos + t.length) rest ∧ P us

theorem scans_nil : Scans [] fun us => us = [] :=
  fun _ _ _ _ => ⟨[], rfl, rfl⟩

theorem boundary_of_isSpace {b : UInt8} (hb : isSpace b = true) :
    isBoundary b = true := by
  rcases isSpace_iff.1 hb with rfl | rfl | rfl | rfl <;> rfl

theorem isSpace_of_isSolid {b : UInt8} (hb : isSolid b = true) :
    isSpace b = false := by
  rw [Bool.eq_false_iff]
  intro hspace
  rcases isSpace_iff.1 hspace with rfl | rfl | rfl | rfl <;> cases hb

/-- A symbol ends the token before it, and is not white space. -/
theorem boundary_of_symbol {c : Char} (hc : c ∈ symbols) :
    isBoundary (byte c) = true ∧ isSpace (byte c) = false := by
  have h : ∀ c ∈ symbols, isBoundary (byte c) = true ∧ isSpace (byte c) = false :=
    List.all_iff_forall_prop.1 (by decide)
  exact h c hc

/-- White space in front of a symbol begins with a boundary. -/
theorem boundary_of_gap {u : Text} (hu : Gap u) {c : Char} (hc : c ∈ symbols)
    (t : Text) : ∀ b ∈ (u ++ byte c :: t).head?, isBoundary b = true := by
  intro b hb
  cases u with
  | nil =>
      obtain rfl : byte c = b := by simpa using hb
      exact (boundary_of_symbol hc).1
  | cons d u =>
      obtain rfl : d = b := by simpa using hb
      exact boundary_of_isSpace (hu d (by simp))

/-- A symbol in front of a text. -/
theorem Scans.symbol {t : Text} {P : List Token → Prop} (h : Scans t P) {c : Char}
    (hc : c ∈ symbols) :
    Scans (byte c :: t) fun us =>
      ∃ tok vs, us = tok :: vs ∧ tok.kind = .symbol c ∧ P vs := by
  intro source pos rest hrest
  obtain ⟨vs, hvs, hP⟩ := h source (pos + 1) rest hrest
  refine ⟨⟨.symbol c, [byte c], ⟨pos, pos + 1⟩⟩ :: vs, ?_, _, vs, rfl, rfl, hP⟩
  rw [List.cons_append, eventsFrom_symbol hc, hvs, List.map_cons, List.cons_append,
    List.length_cons, Nat.add_comm t.length, Nat.add_assoc]

/-- White space in front of a text. -/
theorem Scans.gap {t : Text} {P : List Token → Prop} (h : Scans t P) {u : Text}
    (hu : Gap u) (ht : ∃ b, t.head? = some b ∧ isSpace b = false) :
    Scans (u ++ t) P := by
  intro source pos rest hrest
  obtain ⟨us, hus, hP⟩ := h source (pos + u.length) rest hrest
  refine ⟨us, ?_, hP⟩
  have hhead : ∀ b ∈ (t ++ rest).head?, isSpace b = false := by
    obtain ⟨c, hc, hspace⟩ := ht
    intro b hb
    rw [List.head?_append, hc] at hb
    obtain rfl : c = b := by simpa using hb
    exact hspace
  rw [List.append_assoc, eventsFrom_space hu hhead, hus, List.length_append,
    Nat.add_assoc]

/-- The name of a function in front of its bracket. -/
theorem Scans.name {t : Text} {P : List Token → Prop} (h : Scans t P) (f : Builtin)
    (ht : ∃ b, t.head? = some b ∧ isBoundary b = true) :
    Scans (f.name ++ t) fun us => ∃ tok vs, us = tok :: vs ∧ Expr.IsName f tok ∧ P vs := by
  intro source pos rest hrest
  obtain ⟨vs, hvs, hP⟩ := h source (pos + f.name.length) rest hrest
  refine ⟨⟨.identifier, f.name, ⟨pos, pos + f.name.length⟩⟩ :: vs, ?_,
    _, vs, rfl, ⟨rfl, rfl⟩, hP⟩
  have hname : isIdentifier f.name = true := by cases f <;> decide
  have hhead : ∀ b ∈ (t ++ rest).head?, isBoundary b = true := by
    obtain ⟨c, hc, hboundary⟩ := ht
    intro b hb
    rw [List.head?_append, hc] at hb
    obtain rfl : c = b := by simpa using hb
    exact hboundary
  rw [List.append_assoc, eventsFrom_identifier hname hhead, hvs, List.map_cons,
    List.cons_append, List.length_append, Nat.add_assoc]

/-- A text with white space around it, up to a symbol and what comes behind it. -/
theorem Scans.upTo {s s' t : Text} {P Q : List Token → Prop} (hs : Scans s P)
    (hends : SolidEnds s) (hpad : Padded s s') {c : Char} (hc : c ∈ symbols)
    (ht : Scans t Q) :
    Scans (s' ++ byte c :: t) fun us =>
      ∃ vs tok ws, us = vs ++ tok :: ws ∧ P vs ∧ tok.kind = .symbol c ∧ Q ws := by
  obtain ⟨u, v, hu, hv, rfl⟩ := hpad
  have hbody : Scans (s ++ (v ++ byte c :: t)) fun us =>
      ∃ vs tok ws, us = vs ++ tok :: ws ∧ P vs ∧ tok.kind = .symbol c ∧ Q ws := by
    intro source pos rest hrest
    -- Behind `s` stands `v`, and behind that the symbol.
    have hsymbol := (ht.symbol hc).gap hv ⟨byte c, rfl, (boundary_of_symbol hc).2⟩
    obtain ⟨us₁, h₁, hP⟩ :=
      hs source pos (v ++ byte c :: (t ++ rest)) (boundary_of_gap hv hc (t ++ rest))
    obtain ⟨us₂, h₂, tok, ws, rfl, hkind, hQ⟩ :=
      hsymbol source (pos + s.length) rest hrest
    refine ⟨us₁ ++ tok :: ws, ?_, us₁, tok, ws, rfl, hP, hkind, hQ⟩
    simp only [List.append_assoc, List.cons_append] at h₁ h₂ ⊢
    rw [h₁, h₂, List.map_append, List.append_assoc]
    simp only [List.length_append, Nat.add_assoc]
  obtain ⟨b, hb, hsolid⟩ := hends.first
  have hall := hbody.gap hu ⟨b, by rw [List.head?_append, hb]; rfl, isSpace_of_isSolid hsolid⟩
  simpa using hall

/-- What is known of the tokens may be weakened. -/
theorem Scans.mono {t : Text} {P Q : List Token → Prop} (h : Scans t P)
    (hPQ : ∀ us, P us → Q us) : Scans t Q := by
  intro source pos rest hrest
  obtain ⟨us, hus, hP⟩ := h source pos rest hrest
  exact ⟨us, hus, hPQ us hP⟩

/-! ### Trees of the fragment -/

/-- Tokens that are derived at a level, with a tree that means `x`. -/
def Spelled (store : Store) (l : Expr.Level) (x : Float) (us : List Token) : Prop :=
  ∃ e, Expr.Derives l us e ∧ e.Means store x

/-- The level of the grammar for a rank. -/
def levelOf : Nat → Expr.Level
  | 0 => .unary
  | 1 => .product
  | 2 => .product
  | _ => .sum

/-- A value whose text is plain and that has a number is a number. -/
theorem isNumeric_of_isPlain {v : Value} {x : Float} (hplain : IsPlain v.text)
    (hx : v.toDouble = .ok x) : v.isNumeric = true := by
  refine Expr.toDouble_isNumeric.1 ⟨?_, x, hx⟩
  rintro (hkind | hkind)
  · cases v with
    | bool b =>
        have hletter : byte 'e' ∈ (Value.bool b).text := by cases b <;> decide
        exact absurd (hplain _ hletter) (by decide)
    | _ => cases hkind
  · cases v with
    | list c vs =>
        have hbracket : byte '[' ∈ (Value.list c vs).text := by
          rw [Value.text]
          exact List.mem_append_left _ (List.mem_append_left _ (by decide))
        exact absurd (hplain _ hbracket) (by decide)
    | _ => cases hkind

/-- An atom is scanned to a single token, which spells its value. -/
theorem Atom.scans {store : Store} {t : Text} {x : Float} (h : Atom store t x) :
    Scans t (Spelled store .unary x) := by
  intro source pos rest hrest
  cases h with
  | numeral hparts hread =>
      have hevents : lexer.eventsFrom source pos (_ ++ [] ++ rest) = _ :=
        eventsFrom_number hparts hrest
      simp only [List.append_nil] at hevents
      exact ⟨[_], hevents, _, .unaryOfPrimary (.number rfl), .number hread⟩
  | bound hname hget hplain hread hvalue =>
      exact ⟨[_], eventsFrom_identifier hname hrest, _,
        .unaryOfPrimary (.name rfl), .name hget (isNumeric_of_isPlain hplain hvalue) hvalue⟩

/-- What is spelled on a level is spelled on the next one too. -/
theorem Spelled.higher {store : Store} {k : Nat} {x : Float} {us : List Token}
    (h : Spelled store (levelOf k) x us) : Spelled store (levelOf (k + 1)) x us := by
  obtain ⟨e, hderives, hmeans⟩ := h
  refine ⟨e, ?_, hmeans⟩
  match k with
  | 0 => exact .productOfUnary hderives
  | 1 => exact hderives
  | 2 => exact .sumOfProduct hderives
  | _ + 3 => exact hderives

/-- An operator between two spelled texts spells what it gives. -/
theorem Spelled.binary {store : Store} {op : Operator} {x y : Float}
    {us vs : List Token} {tok : Token}
    (hl : Spelled store (levelOf op.rank) x us) (htok : tok.kind = .symbol op.symbol)
    (hr : Spelled store (levelOf op.rightRank) y vs) :
    Spelled store (levelOf (op.rank + 1)) (op.apply x y) (us ++ tok :: vs) := by
  obtain ⟨l, hl, hx⟩ := hl
  obtain ⟨r, hr, hy⟩ := hr
  cases op with
  | div => exact ⟨_, .div (.productOfUnary hl) htok hr, .div hx hy⟩
  | mul => exact ⟨_, .mul hl htok hr, .mul hx hy⟩
  | sub => exact ⟨_, .sub (.sumOfProduct hl) htok hr, .sub hx hy⟩
  | add => exact ⟨_, .add hl htok hr, .add hx hy⟩

/-- A call is a sum. -/
theorem spelled_of_primary {store : Store} {us : List Token} {e : Expr} {x : Float}
    (h : Expr.Derives .primary us e) (hx : e.Means store x) :
    Spelled store .sum x us :=
  ⟨e, .sumOfProduct (.productOfUnary (.unaryOfPrimary h)), hx⟩

theorem symbol_mem (op : Operator) : op.symbol ∈ symbols := by
  cases op <;> decide

/-- A text with solid ends does not begin with white space. -/
theorem not_space_first {t : Text} (h : SolidEnds t) :
    ∃ b, t.head? = some b ∧ isSpace b = false := by
  obtain ⟨b, hb, hsolid⟩ := h.first
  exact ⟨b, hb, isSpace_of_isSolid hsolid⟩

/-- The tokens of a text without calls. -/
theorem Flat.scans {store : Store} {k : Nat} {t : Text} {x : Float}
    (h : Flat (Atom store) k t x) : Scans t (Spelled store (levelOf k) x) := by
  induction h with
  | atom ha => exact ha.scans
  | higher _ ih => exact ih.mono fun _ => Spelled.higher
  | @binary op s t u v x y hs hu hv ht ih₁ ih₂ =>
      have hends : SolidEnds s := hs.solidEnds fun _ _ => Atom.solidEnds
      have hends' : SolidEnds t := ht.solidEnds fun _ _ => Atom.solidEnds
      have hpad : Padded s (s ++ u) := ⟨[], u, by simp [Gap], hu, by simp⟩
      have hright := ih₂.gap hv (not_space_first hends')
      refine (ih₁.upTo hends hpad (symbol_mem op) hright).mono ?_
      rintro _ ⟨us, tok, vs, rfl, hus, htok, hvs⟩
      exact hus.binary htok hvs

/-- The tokens of a text with calls. -/
theorem Nested.scans {store : Store} {tier : Tier} {n : Nat} {t : Text} {x : Float}
    (h : Nested store tier n t x) : Scans t (Spelled store .sum x) := by
  -- A call is put together from behind: what follows a bracket has been scanned when the
  -- bracket is.
  induction h with
  | flat h => exact h.scans
  | @log m n s t s' t' x y hs hpad ht hpad' ih₁ ih₂ =>
      have hargument := ih₂.upTo ht.solidEnds hpad' (c := ')') (by decide) scans_nil
      have hbase := ih₁.upTo hs.solidEnds hpad (c := ']') (by decide)
        (hargument.symbol (c := '(') (by decide))
      have hcall := (hbase.symbol (c := '[') (by decide)).name .log ⟨_, rfl, rfl⟩
      rw [log_text]
      refine hcall.mono ?_
      rintro _ ⟨f, _, rfl, hf, o, _, rfl, ho, us, c, _, rfl, ⟨l, hl, hx⟩, hc, o', _, rfl, ho',
        vs, c', _, rfl, ⟨r, hr, hy⟩, hc', rfl⟩
      have hderives := Expr.Derives.log hf ho hl hc ho' hr hc'
      exact spelled_of_primary (by simpa using hderives) (.log hx hy)
  | ofLogarithm _ ih => exact ih
  | @sqrt n t t' x ht hpad ih =>
      have hargument := ih.upTo ht.solidEnds hpad (c := ')') (by decide) scans_nil
      have hcall := (hargument.symbol (c := '(') (by decide)).name .sqrt ⟨_, rfl, rfl⟩
      rw [sqrt_text]
      refine hcall.mono ?_
      rintro _ ⟨f, _, rfl, hf, o, _, rfl, ho, us, c, _, rfl, ⟨e, he, hx⟩, hc, rfl⟩
      exact spelled_of_primary (Expr.Derives.sqrt hf ho he hc) (.sqrt hx)
  | ofRoot _ ih => exact ih
  | @pow m n s t s' t' x y hs hpad ht hpad' ih₁ ih₂ =>
      have hsecond := ih₂.upTo ht.solidEnds hpad' (c := ')') (by decide) scans_nil
      have hfirst := ih₁.upTo hs.solidEnds hpad (c := ',') (by decide) hsecond
      have hcall := (hfirst.symbol (c := '(') (by decide)).name .pow ⟨_, rfl, rfl⟩
      rw [pow_text]
      refine hcall.mono ?_
      rintro _ ⟨f, _, rfl, hf, o, _, rfl, ho, us, c, _, rfl, ⟨l, hl, hx⟩, hc,
        vs, c', _, rfl, ⟨r, hr, hy⟩, hc', rfl⟩
      have hderives := Expr.Derives.pow hf ho hl hc hr hc'
      exact spelled_of_primary (by simpa using hderives) (.pow hx hy)

/-- By the rules of arithmetic a text of the fragment has the value that it is
worth. -/
theorem Nested.precedence_evaluate {store : Store} {tier : Tier} {n : Nat}
    {t source : Text} {x : Float} (h : Nested store tier n t x)
    (hpad : Padded t source) : Arithmetic.evaluate store source = .ok x := by
  obtain ⟨u, v, hu, hv, rfl⟩ := hpad
  have hboundary : ∀ b ∈ v.head?, isBoundary b = true :=
    fun b hb => boundary_of_isSpace (hv b (List.mem_of_mem_head? hb))
  have hscan := h.scans.gap hu (not_space_first h.solidEnds)
  obtain ⟨us, hus, e, hderives, hmeans⟩ := hscan (u ++ t ++ v) 0 v hboundary
  have hrest : ∀ pos, lexer.eventsFrom (u ++ t ++ v) pos v = [] := by
    intro pos
    have hskip : lexer.eventsFrom (u ++ t ++ v) pos (v ++ []) =
        lexer.eventsFrom (u ++ t ++ v) (pos + v.length) [] :=
      eventsFrom_space hv (by simp)
    simpa using hskip
  rw [hrest, List.append_nil] at hus
  have htokens := Lexer.tokens_of_eventsFrom hus
  exact Arithmetic.evaluate_eq_ok_iff.2 ⟨us, e, htokens, hderives, hmeans⟩

end Fragment

end LineScript
