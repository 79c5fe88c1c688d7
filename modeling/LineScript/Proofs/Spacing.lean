/-
LineScript/Proofs/Spacing.lean

White space between tokens.  A layout writes down lexemes with white space around them,
where only neighbours that are both words, that is identifiers or numbers, have to be kept
apart.

* Every lexeme of a layout is scanned by itself: behind a word stands nothing, white space
  or a symbol, all of which are boundaries (`boundary_render`).  So the tokens of the text
  are the lexemes in their places (`Layout.tokens`).
* Evaluation only looks at the places of tokens to report them (`compared_erase`).

Main result: `Expression.tokenize_layout`.
-/
import LineScript.Proofs.Failures
import LineScript.Proofs.Fragment

namespace LineScript

open Text

namespace Expression

open Fragment

/-! ### Lexemes -/

/-- The text of a token, apart from where it stands. -/
structure Lexeme where
  kind : TokenKind
  text : Text
  isLexeme : IsLexeme (some kind) text

namespace Lexeme

/-- Lexemes that would run into each other. -/
def IsWord (w : Lexeme) : Prop := w.kind = .identifier ∨ w.kind = .number

instance (w : Lexeme) : Decidable w.IsWord :=
  inferInstanceAs (Decidable (w.kind = .identifier ∨ w.kind = .number))

/-- A lexeme does not begin with white space, and if it is a symbol, it begins with a
boundary. -/
theorem first (w : Lexeme) :
    ∃ b, w.text.head? = some b ∧ isSpace b = false ∧ (¬ w.IsWord → isBoundary b = true) := by
  obtain ⟨kind, text, h⟩ := w
  cases h with
  | identifier hn =>
      obtain ⟨b, hb, hspace⟩ := not_space_first (solidEnds_of_isIdentifier hn)
      exact ⟨b, hb, hspace, fun hword => absurd (.inl rfl) hword⟩
  | number hparts =>
      obtain ⟨b, hb, hspace⟩ := not_space_first hparts.solidEnds
      exact ⟨b, hb, hspace, fun hword => absurd (.inr rfl) hword⟩
  | symbol hc =>
      obtain ⟨hboundary, hspace⟩ := boundary_of_symbol hc
      exact ⟨_, rfl, hspace, fun _ => hboundary⟩

variable {source rest : Text} {pos : Nat}

/-- A symbol is scanned wherever it stands, and a word in front of a boundary. -/
theorem eventsFrom (w : Lexeme)
    (hrest : w.IsWord → ∀ b ∈ rest.head?, isBoundary b = true) :
    lexer.eventsFrom source pos (w.text ++ rest) =
      .token ⟨w.kind, w.text, ⟨pos, pos + w.text.length⟩⟩ ::
        lexer.eventsFrom source (pos + w.text.length) rest := by
  obtain ⟨kind, text, h⟩ := w
  cases h with
  | identifier hn => exact eventsFrom_identifier hn (hrest (.inl rfl))
  | number hparts => exact eventsFrom_number hparts (hrest (.inr rfl))
  | symbol hc => exact eventsFrom_symbol hc

end Lexeme

/-! ### Layouts -/

instance (u : Text) : Decidable (Gap u) :=
  List.decidableBAll (fun b => isSpace b = true) u

/-- Lexemes, each behind the white space in front of it. -/
abbrev Items := List (Text × Lexeme)

/-- The text of lexemes and of the white space behind the last one. -/
def render : Items → Text → Text
  | [], last => last
  | (gap, w) :: items, last => gap ++ (w.text ++ render items last)

/-- The tokens of lexemes that stand behind `pos` bytes. -/
def tokensFrom (pos : Nat) : Items → List Token
  | [] => []
  | (gap, w) :: items =>
      ⟨w.kind, w.text, ⟨pos + gap.length, pos + gap.length + w.text.length⟩⟩ ::
        tokensFrom (pos + gap.length + w.text.length) items

/-- A way to write down lexemes. -/
structure Layout where
  items : Items
  last : Text
  gaps : ∀ i ∈ items, Gap i.1
  last_gap : Gap last
  separated : items.IsChain fun i j => i.2.IsWord → j.2.IsWord → j.1 ≠ []

namespace Layout

/-- What a layout writes down. -/
def lexemes (l : Layout) : List Lexeme := l.items.map Prod.snd

/-- The text of a layout. -/
def text (l : Layout) : Text := render l.items l.last

/-- The lexemes of a layout in their places. -/
def tokens (l : Layout) : List Token := tokensFrom 0 l.items

end Layout

variable {items : Items} {last : Text}

theorem boundary_head {u : Text} (hu : Gap u) : ∀ b ∈ u.head?, isBoundary b = true :=
  fun b hb => boundary_of_isSpace (hu b (List.mem_of_mem_head? hb))

/-- Behind a word stands a boundary. -/
theorem boundary_render {i : Text × Lexeme} (hgaps : ∀ j ∈ items, Gap j.1) (hlast : Gap last)
    (hseparated : (i :: items).IsChain fun i j => i.2.IsWord → j.2.IsWord → j.1 ≠ [])
    (hword : i.2.IsWord) : ∀ b ∈ (render items last).head?, isBoundary b = true := by
  cases items with
  | nil => exact boundary_head hlast
  | cons j items =>
      obtain ⟨gap, w⟩ := j
      cases gap with
      | cons c gap =>
          have hgap : Gap (c :: gap) := hgaps _ List.mem_cons_self
          intro b hb
          exact boundary_head hgap b hb
      | nil =>
          -- nothing in between, so the next lexeme is a symbol
          have hsymbol : ¬ w.IsWord := fun hw =>
            (List.isChain_cons_cons.1 hseparated).1 hword hw rfl
          obtain ⟨b, hb, -, hboundary⟩ := w.first
          intro c hc
          rw [render, List.nil_append, List.head?_append, hb] at hc
          cases hc
          exact hboundary hsymbol

/-- The text of a layout is scanned lexeme by lexeme. -/
theorem eventsFrom_render (hgaps : ∀ i ∈ items, Gap i.1) (hlast : Gap last)
    (hseparated : items.IsChain fun i j => i.2.IsWord → j.2.IsWord → j.1 ≠ [])
    (source : Text) (pos : Nat) :
    lexer.eventsFrom source pos (render items last) = (tokensFrom pos items).map .token := by
  induction items generalizing pos with
  | nil =>
      have hspace : lexer.eventsFrom source pos (last ++ []) = _ :=
        eventsFrom_space hlast (fun _ h => nomatch h)
      rw [render, ← List.append_nil last, hspace, Lexer.eventsFrom_nil]
      rfl
  | cons i items ih =>
      obtain ⟨gap, w⟩ := i
      obtain ⟨hgap, hgaps⟩ := List.forall_mem_cons.1 hgaps
      have hspace : ∀ b ∈ (w.text ++ render items last).head?, isSpace b = false := by
        obtain ⟨c, hc, hsolid, -⟩ := w.first
        intro b hb
        rw [List.head?_append, hc] at hb
        cases hb
        exact hsolid
      rw [render, eventsFrom_space hgap hspace,
        w.eventsFrom (boundary_render hgaps hlast hseparated), ih hgaps hseparated.tail,
        tokensFrom, List.map_cons]

/-- A token is what stands in its place. -/
theorem of_mem_tokensFrom (before : Text) {t : Token}
    (ht : t ∈ tokensFrom before.length items) :
    t.span.of (before ++ render items last) = t.lexeme := by
  induction items generalizing before with
  | nil => cases ht
  | cons i items ih =>
      obtain ⟨gap, w⟩ := i
      have hsplit : before ++ render ((gap, w) :: items) last =
          (before ++ gap ++ w.text) ++ render items last := by
        simp only [render, List.append_assoc]
      rcases List.mem_cons.1 ht with rfl | ht
      · show ((before ++ render ((gap, w) :: items) last).drop _).take _ = w.text
        rw [hsplit, ← List.length_append, List.append_assoc, List.drop_left,
          Nat.add_sub_cancel_left, List.take_left]
      · rw [hsplit]
        apply ih
        rwa [List.length_append, List.length_append]

/-- Gaps move the tokens and leave their kinds and texts alone. -/
theorem map_tokensFrom (pos : Nat) :
    (tokensFrom pos items).map (fun t => (t.kind, t.lexeme)) =
      items.map fun i => (i.2.kind, i.2.text) := by
  induction items generalizing pos with
  | nil => rfl
  | cons i items ih => rw [tokensFrom, List.map_cons, List.map_cons, ih]

namespace Layout

/-- A text that is laid out is scanned to its lexemes. -/
theorem tokenize_text (l : Layout) :
    tokenize l.text = .ok (l.tokens ++ [.endOf l.text]) :=
  Lexer.tokens_of_eventsFrom (eventsFrom_render l.gaps l.last_gap l.separated l.text 0)

/-- Every token is found at its span. -/
theorem span_of {l : Layout} {t : Token} (ht : t ∈ l.tokens) :
    t.span.of l.text = t.lexeme :=
  of_mem_tokensFrom [] ht

theorem map_tokens (l : Layout) :
    l.tokens.map (fun t => (t.kind, t.lexeme)) =
      l.lexemes.map fun w => (w.kind, w.text) := by
  rw [tokens, map_tokensFrom, lexemes, List.map_map]
  rfl

end Layout

end Expression

/-! ### Evaluation without places -/

namespace Arithmetic

/-- A token without its place. -/
def erase (t : Token) : Token := { t with span := ⟨0, 0⟩ }

/-- Reading with places and without them, and without the source. -/
theorem compared_erase (store : Store) (source : Text) :
    Compared (fun _ => True) (fun e e' => e.kind = e'.kind) erase
      ⟨store, source⟩ ⟨store, []⟩ where
  kind _ := rfl
  lexeme _ := rfl
  behind _ _ _ _ := trivial
  unexpected ts _ := by cases ts <;> rfl
  number _ _ _ _ := .self fun _ _ => rfl
  name _ _ _ _ := .self fun _ _ => rfl

/-- Neither the value nor the kind of an error depends on where the tokens stand. -/
theorem mapError_kind_evaluate (store : Store) {source : Text} {ts : List Token}
    (hts : Expression.tokenize source = .ok ts) :
    (evaluate store source).mapError EvalError.kind =
      (whole ⟨store, []⟩ (ts.map erase)).mapError EvalError.kind := by
  rw [evaluate_eq_whole store hts]
  exact ((compared_erase store source).whole trivial).mapError_eq

end Arithmetic

namespace Expression

open Arithmetic

/-- Without their places, the tokens of a layout are its lexemes. -/
theorem Layout.map_erase (l : Layout) :
    l.tokens.map erase = l.lexemes.map fun w => ⟨w.kind, w.text, ⟨0, 0⟩⟩ := by
  have h := congrArg (List.map fun p => (⟨p.1, p.2, ⟨0, 0⟩⟩ : Token)) l.map_tokens
  rw [List.map_map, List.map_map] at h
  exact h

/-- The text of a layout has the lexemes of the layout for tokens, each where it stands.
So all layouts of the same lexemes have the same value, or errors of the same kind. -/
theorem tokenize_layout (l : Layout) :
    tokenize l.text = .ok (l.tokens ++ [.endOf l.text]) ∧
    l.tokens.map (fun t => (t.kind, t.lexeme)) = l.lexemes.map (fun w => (w.kind, w.text)) ∧
    (∀ t ∈ l.tokens, t.span.of l.text = t.lexeme) ∧
    ∀ (store : Store) (l' : Layout), l'.lexemes = l.lexemes →
      (Mode.precedence.evaluate store l'.text).mapError EvalError.kind =
        (Mode.precedence.evaluate store l.text).mapError EvalError.kind := by
  refine ⟨l.tokenize_text, l.map_tokens, fun t => Layout.span_of, ?_⟩
  intro store l' hlexemes
  rw [Mode.evaluate, Mode.evaluate, mapError_kind_evaluate store l.tokenize_text,
    mapError_kind_evaluate store l'.tokenize_text, List.map_append, List.map_append,
    l.map_erase, l'.map_erase, hlexemes]
  rfl

/-- The number `1e5` in front of a name: white space keeps them apart, and everything else
may be written with white space or without. -/
theorem tokenize_layout_apart :
    ∃ l l' : Layout, l.text = "1e5 x-.5" ∧ l'.text = "\t1e5\r\nx - .5 " ∧
      l'.lexemes = l.lexemes ∧
      tokenize "\t1e5\r\nx - .5 " = .ok
        [⟨.number, "1e5", ⟨1, 4⟩⟩, ⟨.identifier, "x", ⟨6, 7⟩⟩, ⟨.symbol '-', "-", ⟨8, 9⟩⟩,
          ⟨.number, ".5", ⟨10, 12⟩⟩, ⟨.endOfText, [], ⟨13, 13⟩⟩] ∧
      ∀ store,
        (Mode.precedence.evaluate store "\t1e5\r\nx - .5 ").mapError EvalError.kind =
          (Mode.precedence.evaluate store "1e5 x-.5").mapError EvalError.kind := by
  let a : Lexeme := ⟨.number, "1e5", .number (w := "1") (f := []) (x := "e5")
    ⟨List.all_iff_forall_prop.1 (by decide), .inl rfl,
      .inr ⟨byte 'e', [], "5", rfl, rfl, .inl rfl, by decide,
        List.all_iff_forall_prop.1 (by decide)⟩,
      by decide⟩⟩
  let b : Lexeme := ⟨.identifier, "x", .identifier rfl⟩
  let c : Lexeme := ⟨.symbol '-', "-", .symbol (by decide)⟩
  let d : Lexeme := ⟨.number, ".5", .number (w := []) (f := ".5") (x := [])
    ⟨List.forall_mem_nil _, .inr ⟨"5", rfl, List.all_iff_forall_prop.1 (by decide)⟩, .inl rfl,
      by decide⟩⟩
  let l : Layout :=
    ⟨[([], a), (" ", b), ([], c), ([], d)], [], by decide, by decide, by decide⟩
  let l' : Layout :=
    ⟨[("\t", a), ("\r\n", b), (" ", c), (" ", d)], " ", by decide, by decide, by decide⟩
  exact ⟨l, l', rfl, rfl, rfl, (tokenize_layout l').1,
    fun store => (tokenize_layout l).2.2.2 store l' rfl⟩

end Expression

end LineScript
