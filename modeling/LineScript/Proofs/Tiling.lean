/-
LineScript/Proofs/Tiling.lean

Scanning a text cuts it into tiles: the tokens, the white space between them, and
the parts from which no token could be made.  The tiles lie one behind the other
from the beginning of the text to its end (`Chained`).  Each is the longest
beginning of what is left that a rule describes (`Lexer.Takes`), or ends with the
byte at which the last rule gave up (`Lexer.Fails`).

A rule gives up when its pattern has been reduced to `nothing`.  That this happens
as soon as no continuation is described, and not later, needs patterns without
parts that describe no text (`Pattern.Live`), as those of expressions are.

Main result: the tiles of expressions (`Expression.scan_tiling`), whose rules describe
identifiers, numbers, white space and single characters (`Expression.IsLexeme`).
-/
import LineScript.Proofs.Lexemes

namespace LineScript

open Text

/-! ### Patterns that give up in time -/

namespace Pattern

/-- Every part of a pattern describes some text. -/
def Live : Pattern → Prop
  | nothing => False
  | empty => True
  | one p => ∃ b, p b = true
  | seq a b => a.Live ∧ b.Live
  | alt a b => a.Live ∧ b.Live
  | star a => a.Live

/-- A pattern is `nothing`, or no part of it is. -/
def Reduced (a : Pattern) : Prop := a = nothing ∨ a.Live

/-- A live pattern describes something. -/
theorem Live.exists_matches {a : Pattern} (h : a.Live) : ∃ t, a.Matches t := by
  induction a with
  | nothing => exact h.elim
  | empty => exact ⟨[], .empty⟩
  | one p =>
      obtain ⟨b, hb⟩ := h
      exact ⟨[b], .one hb⟩
  | seq a b iha ihb =>
      obtain ⟨s, hs⟩ := iha h.1
      obtain ⟨u, hu⟩ := ihb h.2
      exact ⟨s ++ u, .seq hs hu⟩
  | alt a b iha _ =>
      obtain ⟨s, hs⟩ := iha h.1
      exact ⟨s, .altLeft hs⟩
  | star a _ => exact ⟨[], .starNil⟩

theorem live_literal (s : Text) : (literal s).Live := by
  induction s with
  | nil => exact trivial
  | cons b s ih => exact ⟨⟨b, beq_self_eq_true b⟩, ih⟩

namespace Reduced

variable {a b : Pattern}

theorem live (h : a.Reduced) (hne : a ≠ nothing) : a.Live :=
  h.resolve_left hne

/-- A reduced pattern describes nothing exactly if it is seen to. -/
theorem isNothing_iff (h : a.Reduced) : a.isNothing = true ↔ ∀ t, ¬ a.Matches t := by
  constructor
  · intro hnothing t
    exact not_matches_of_isNothing hnothing
  · intro hnone
    rcases h with rfl | h
    · rfl
    · obtain ⟨t, ht⟩ := h.exists_matches
      exact absurd ht (hnone t)

/-- Sequences are reduced when they are made. -/
theorem andThen (ha : a.Reduced) (hb : b.Reduced) : (a.andThen b).Reduced := by
  unfold Pattern.andThen
  split
  · exact .inl rfl
  · exact .inl rfl
  · exact hb
  · next hane _ hbne => exact .inr ⟨ha.live hane, hb.live hbne⟩

/-- So are alternatives. -/
theorem orElse (ha : a.Reduced) (hb : b.Reduced) : (a.orElse b).Reduced := by
  unfold Pattern.orElse
  split
  · exact hb
  · exact ha
  · next hane hbne => exact .inr ⟨ha.live hane, hb.live hbne⟩

end Reduced

/-- The derivative of a live pattern is nothing or live again. -/
theorem Live.derive {a : Pattern} (h : a.Live) (x : UInt8) : (a.derive x).Reduced := by
  induction a with
  | nothing => exact h.elim
  | empty => exact .inl rfl
  | one p =>
      rw [Pattern.derive]
      split
      · exact .inr trivial
      · exact .inl rfl
  | seq a b iha ihb =>
      have hfirst := (iha h.1).andThen (.inr h.2)
      rw [Pattern.derive]
      split
      · exact hfirst.orElse (ihb h.2)
      · exact hfirst
  | alt a b iha ihb => exact (iha h.1).orElse (ihb h.2)
  | star a iha => exact (iha h).andThen (.inr h)

/-- Derivatives stay reduced. -/
theorem Reduced.derive {a : Pattern} (h : a.Reduced) (x : UInt8) :
    (a.derive x).Reduced := by
  rcases h with rfl | h
  · exact .inl rfl
  · exact h.derive x

end Pattern

/-! ### Where a lexer gives up -/

namespace Lexer

variable {l : Lexer}

/-- No rule describes a text that begins with `u`. -/
def Hopeless (l : Lexer) (u : Text) : Prop :=
  ∀ v, ∀ r ∈ l.rules, ¬ r.pattern.Matches (u ++ v)

/-- The patterns of all rules are reduced. -/
def Reduced (l : Lexer) : Prop := ∀ r ∈ l.rules, r.pattern.Reduced

/-- What is hopeless behind a byte is hopeless for what may follow it. -/
theorem hopeless_cons_iff {x : UInt8} {u : Text} :
    l.Hopeless (x :: u) ↔ (l.derive x).Hopeless u := by
  simp [Hopeless, derive, Pattern.matches_derive_iff]

theorem Reduced.derive (h : l.Reduced) (x : UInt8) : (l.derive x).Reduced := by
  intro r hr
  obtain ⟨r', hr', rfl⟩ := List.mem_map.1 hr
  exact (h r' hr').derive x

/-- All patterns have given up exactly if no rule describes any text. -/
theorem Reduced.isDead_iff (h : l.Reduced) : l.isDead = true ↔ l.Hopeless [] := by
  rw [isDead, List.all_eq_true]
  constructor
  · intro hnothing v r hr
    exact (h r hr).isNothing_iff.1 (hnothing r hr) v
  · intro hnone r hr
    apply (h r hr).isNothing_iff.2
    intro v
    exact hnone v r hr

/-- Reading on ends without a match only if there was none before. -/
theorem munch_ne_failed (l : Lexer) (n m w : Nat) (k : Option TokenKind) (t : Text) :
    l.munch n (some (w, k)) t ≠ .failed m := by
  intro h
  rcases l.munch_cases n (some (w, k)) t with ⟨i, k', -, he⟩ | ⟨-, m', -, -, he⟩
  · cases he.symm.trans h
  · cases he.symm.trans h

/-- Without a match, reading ends at the first byte behind which no rule describes
a continuation, or else with the text. -/
theorem munch_eq_failed (hl : l.Reduced) (hsome : ¬ l.Hopeless []) {n m : Nat} {t : Text}
    (h : l.munch n none t = .failed m) :
    ∃ w, m = n + w ∧ (∀ j < w, ¬ l.Hopeless (t.take j)) ∧
      (l.Hopeless (t.take w) ∨ w = t.length) := by
  induction t generalizing l n with
  | nil =>
      obtain rfl := Step.failed.inj h
      exact ⟨0, rfl, fun j hj => absurd hj j.not_lt_zero, .inr rfl⟩
  | cons b t ih =>
      have hb := hl.derive b
      rw [munch_cons] at h
      split at h
      · next hdead =>
          obtain rfl := Step.failed.inj h
          refine ⟨1, rfl, fun j hj => ?_, .inl ?_⟩
          · obtain rfl := Nat.lt_one_iff.1 hj
            exact hsome
          · exact hopeless_cons_iff.2 (hb.isDead_iff.1 hdead)
      · -- some rule can go on behind `b`, and `b` by itself is no match
        next halive =>
          rw [hb.isDead_iff] at halive
          cases hk : (l.derive b).kind? [] with
          | some k =>
              rw [hk] at h
              exact absurd h (munch_ne_failed _ _ _ _ _ _)
          | none =>
              rw [hk] at h
              obtain ⟨w, rfl, hbefore, hlast⟩ := ih hb halive h
              refine ⟨w + 1, by omega, fun j hj => ?_, ?_⟩
              · cases j with
                | zero => exact hsome
                | succ j =>
                    rw [List.take_succ_cons, hopeless_cons_iff]
                    exact hbefore j (Nat.lt_of_succ_lt_succ hj)
              · rw [List.take_succ_cons, hopeless_cons_iff, List.length_cons]
                exact hlast.imp_right (congrArg (· + 1))

/-! ### One step, in terms of the rules -/

/-- What a lexer takes from the beginning of `t` if it finds a match: the longest
beginning that a rule describes.  It is not empty, and all rules that describe it are
of one kind. -/
structure Takes (l : Lexer) (t u : Text) (kind : Option TokenKind) : Prop where
  ne_nil : u ≠ []
  isPrefix : u <+: t
  described : ∃ r ∈ l.rules, r.pattern.Matches u
  kind_eq : ∀ r ∈ l.rules, r.pattern.Matches u → r.kind = kind
  longest : ∀ v, v <+: t → ∀ r ∈ l.rules, r.pattern.Matches v → v.length ≤ u.length

/-- No rule describes a beginning of `t`, the empty one apart. -/
def Stuck (l : Lexer) (t : Text) : Prop :=
  ∀ v, v ≠ [] → v <+: t → ∀ r ∈ l.rules, ¬ r.pattern.Matches v

/-- What a lexer leaves out at the beginning of `t` if it is stuck: the shortest
beginning that no rule can continue, or all of `t`. -/
structure Fails (l : Lexer) (t u : Text) : Prop where
  stuck : l.Stuck t
  isPrefix : u <+: t
  shortest : ∀ j < u.length, ¬ l.Hopeless (u.take j)
  last : l.Hopeless u ∨ u = t

/-- Where something is taken, scanning is not stuck. -/
theorem Takes.not_stuck {t u : Text} {k : Option TokenKind} (h : l.Takes t u k) :
    ¬ l.Stuck t := by
  intro hstuck
  obtain ⟨r, hr, hmatch⟩ := h.described
  exact hstuck u h.ne_nil h.isPrefix r hr hmatch

theorem not_matches_of_kind?_take {t v : Text} (hv : v <+: t)
    (h : l.kind? (t.take v.length) = none) : ∀ r ∈ l.rules, ¬ r.pattern.Matches v := by
  rw [← List.prefix_iff_eq_take.1 hv] at h
  exact kind?_eq_none_iff.1 h

/-- Where nothing matches, it is. -/
theorem NoMatch.stuck {t : Text} (h : l.NoMatch t) : l.Stuck t := by
  intro v hne hv
  apply not_matches_of_kind?_take hv
  exact h v.length (List.length_pos_iff.2 hne) hv.length_le

/-- The longest match is taken, if rules that describe the same text are of the same
kind. -/
theorem Longest.takes
    (hkinds : ∀ r ∈ l.rules, ∀ r' ∈ l.rules, ∀ u, u ≠ [] →
      r.pattern.Matches u → r'.pattern.Matches u → r.kind = r'.kind)
    {t : Text} {w : Nat} {k : Option TokenKind} (h : l.Longest t w k) :
    l.Takes t (t.take w) k := by
  have hlength : (t.take w).length = w := List.length_take_of_le h.le
  have hne : t.take w ≠ [] := List.length_pos_iff.1 (hlength.symm ▸ h.pos)
  obtain ⟨before, r, after, hrules, rfl, hr, -⟩ := kind?_eq_some_iff.1 h.kind
  have hmem : r ∈ l.rules := by simp [hrules]
  refine ⟨hne, List.take_prefix w t, ⟨r, hmem, hr⟩, ?_, ?_⟩
  · intro r' hr' hmatch
    exact hkinds r' hr' r hmem _ hne hmatch hr
  · intro v hv r' hr' hmatch
    -- a longer match would have been the longest one
    by_contra hlonger
    rw [hlength, Nat.not_le] at hlonger
    have hnone := h.longest v.length hlonger hv.length_le
    exact not_matches_of_kind?_take hv hnone r' hr' hmatch

/-- A failed step goes up to the byte with which no rule can go on, or to the end. -/
theorem fails_of_step (hl : l.Reduced) (hsome : ¬ l.Hopeless []) {t : Text} {w : Nat}
    (h : l.step t = .failed w) : l.Fails t (t.take w) := by
  have hno : l.NoMatch t := by
    rcases l.munch_cases 0 none t with ⟨i, k, -, he⟩ | ⟨hno, -⟩
    · cases he.symm.trans h
    · exact hno
  obtain ⟨w', hw, hbefore, hlast⟩ := munch_eq_failed hl hsome h
  obtain rfl : w = w' := hw.trans (Nat.zero_add w')
  refine ⟨hno.stuck, List.take_prefix w t, fun j hj => ?_, ?_⟩
  · have hjw : j < w := Nat.lt_of_lt_of_le hj (List.length_take_le w t)
    rw [List.take_take, Nat.min_eq_left hjw.le]
    exact hbefore j hjw
  · rcases hlast with hlast | rfl
    · exact .inl hlast
    · exact .inr (List.take_length)

end Lexer

/-! ### Tiles -/

/-- What a lexer finds at a place: a match of some kind, where white space has none,
or no match at all. -/
inductive Finding where
  | matched (kind : Option TokenKind)
  | failed
  deriving DecidableEq

/-- What a step has found. -/
def Step.finding : Step → Finding
  | .matched _ k => .matched k
  | .failed _ => .failed

/-- A piece of a text that a lexer goes over in one step. -/
structure Tile where
  span : Span
  finding : Finding
  deriving DecidableEq

/-- The part of a text at a span. -/
def Span.of (s : Span) (source : Text) : Text :=
  (source.drop s.first).take (s.behind - s.first)

/-- What scanning brings up for a tile of a text. -/
def Tile.event? (source : Text) (t : Tile) : Option ScanEvent :=
  match t.finding with
  | .matched (some k) => some (.token ⟨k, t.span.of source, t.span⟩)
  | .matched none => none
  | .failed => some (.error ⟨source, t.span⟩)

/-- Tiles lie one behind the other from one position to another, and none is empty. -/
inductive Chained : Nat → List Tile → Nat → Prop where
  | nil {n : Nat} : Chained n [] n
  | cons {t : Tile} {ts : List Tile} {last : Nat} :
      t.span.first < t.span.behind → Chained t.span.behind ts last →
        Chained t.span.first (t :: ts) last

namespace Chained

variable {first last : Nat} {ts : List Tile} (h : Chained first ts last)
include h

/-- Each tile takes at least one byte. -/
theorem length_le : first + ts.length ≤ last := by
  induction h with
  | nil => simp
  | cons hne _ ih =>
      rw [List.length_cons]
      omega

theorem nonempty : ∀ t ∈ ts, t.span.first < t.span.behind := by
  induction h with
  | nil => simp
  | cons hne _ ih => exact List.forall_mem_cons.2 ⟨hne, ih⟩

/-- A position belongs to a tile exactly if it is between the two. -/
theorem mem_iff (i : Nat) :
    (∃ t ∈ ts, t.span.first ≤ i ∧ i < t.span.behind) ↔ first ≤ i ∧ i < last := by
  induction h with
  | nil =>
      simp only [List.not_mem_nil, false_and, exists_false, false_iff]
      omega
  | cons hne hrest ih =>
      have hle := hrest.length_le
      rw [List.exists_mem_cons_iff, ih]
      omega

/-- Tiles in a chain follow one another. -/
theorem pairwise : ts.Pairwise fun t u => t.span.behind ≤ u.span.first := by
  induction h with
  | nil => exact .nil
  | @cons t ts last hne hrest ih =>
      refine .cons (fun u hu => ?_) ih
      have hfirst := (hrest.mem_iff u.span.first).1 ⟨u, hu, le_rfl, hrest.nonempty u hu⟩
      exact hfirst.1

/-- A position belongs to one tile only. -/
theorem eq_of_mem {t u : Tile} (ht : t ∈ ts) (hu : u ∈ ts) {i : Nat}
    (ht₁ : t.span.first ≤ i) (ht₂ : i < t.span.behind) (hu₁ : u.span.first ≤ i)
    (hu₂ : i < u.span.behind) : t = u := by
  by_contra hne
  have : Std.Symm fun t u : Tile =>
      t.span.behind ≤ u.span.first ∨ u.span.behind ≤ t.span.first := ⟨fun _ _ => Or.symm⟩
  have happart : ts.Pairwise fun t u =>
      t.span.behind ≤ u.span.first ∨ u.span.behind ≤ t.span.first :=
    h.pairwise.imp Or.inl
  have hside := happart.forall ht hu hne
  omega

end Chained

/-- A walk knows at each place what is left of the text there. -/
theorem Text.left_of_mem_walkFrom {stride : Text → Nat} {n pos p : Nat} {t rest : Text}
    (h : (p, rest) ∈ walkFrom stride n pos t) :
    pos ≤ p ∧ rest = t.drop (p - pos) ∧ rest ≠ [] := by
  induction t generalizing n pos with
  | nil => simp [walkFrom] at h
  | cons b t ih =>
      have hbehind : ∀ n, (p, rest) ∈ walkFrom stride n (pos + 1) t →
          pos ≤ p ∧ rest = (b :: t).drop (p - pos) ∧ rest ≠ [] := by
        intro n hmem
        obtain ⟨hle, hrest, hne⟩ := ih hmem
        have hsub : p - pos = (p - (pos + 1)) + 1 := by omega
        rw [hsub, List.drop_succ_cons]
        exact ⟨by omega, hrest, hne⟩
      cases n with
      | succ n => exact hbehind n h
      | zero =>
          rcases List.mem_cons.1 h with heq | hmem
          · obtain ⟨rfl, rfl⟩ := Prod.mk.inj heq
            simp
          · exact hbehind _ hmem

namespace Lexer

/-- The tile at a place of a walk. -/
def tileAt (l : Lexer) (position : Nat) (rest : Text) : Tile :=
  ⟨⟨position, position + (l.step rest).width⟩, (l.step rest).finding⟩

/-- The tiles of a text, from its beginning to its end. -/
def tiles (l : Lexer) (source : Text) : List Tile :=
  (walk (fun rest => (l.step rest).width) source).map fun (p, rest) => l.tileAt p rest

variable (l : Lexer) {source : Text}

/-- From every place on, the tiles make a chain up to the end. -/
theorem chained_from (pos : Nat) (t : Text) :
    Chained pos
      ((walkFrom (fun rest => (l.step rest).width) 0 pos t).map fun (p, rest) =>
        l.tileAt p rest)
      (pos + t.length) := by
  induction pos, t using l.step_induction with
  | nil pos => exact .nil
  | step pos t ht hpos hle ih =>
      rw [List.length_drop, Nat.add_assoc, Nat.add_sub_cancel' hle] at ih
      rw [walkFrom_eq_cons _ _ ht hpos]
      exact .cons (t := l.tileAt pos t) (Nat.lt_add_of_pos_right hpos) ih

theorem chained_tiles (source : Text) : Chained 0 (l.tiles source) source.length := by
  have h := l.chained_from 0 source
  rwa [Nat.zero_add] at h

/-- Each tile shows the step at the place where it begins. -/
theorem tile_eq {t : Tile} (h : t ∈ l.tiles source) :
    t = l.tileAt t.span.first (source.drop t.span.first) := by
  obtain ⟨⟨p, rest⟩, hmem, rfl⟩ := List.mem_map.1 h
  obtain ⟨-, rfl, -⟩ := left_of_mem_walkFrom hmem
  rfl

/-- A tile is the text that the step has taken. -/
theorem of_tileAt (source : Text) (p : Nat) :
    (l.tileAt p (source.drop p)).span.of source =
      (source.drop p).take (l.step (source.drop p)).width := by
  rw [Span.of, tileAt, Nat.add_sub_cancel_left]

/-- Scanning goes over the tiles, and then comes the end token. -/
theorem scan_eq_tiles (source : Text) :
    l.scan source =
      (l.tiles source).filterMap (Tile.event? source) ++ [.token (.endOf source)] := by
  rw [scan_eq, eventsFrom, tiles, List.filterMap_map]
  congr 1
  apply List.filterMap_congr
  rintro ⟨p, rest⟩ hmem
  obtain ⟨-, rfl, -⟩ := left_of_mem_walkFrom hmem
  show l.eventAt source p (source.drop p) =
    Tile.event? source (l.tileAt p (source.drop p))
  have hpart := l.of_tileAt source p
  rw [Tile.event?, hpart, tileAt, eventAt]
  cases l.step (source.drop p) with
  | failed w => rfl
  | matched w k => cases k <;> rfl

/-- A text has tokens exactly if scanning brings up no errors, and then they are what
scanning brings up. -/
theorem tokens_eq_ok_iff_scan {ts : List Token} :
    l.tokens source = .ok ts ↔ l.scan source = ts.map .token := by
  rw [tokens_eq_ok_iff, scan_eq]
  constructor
  · rintro ⟨us, rfl, hus⟩
    rw [hus, List.map_append]
    rfl
  · intro h
    obtain ⟨us, last, rfl, hus, hlast⟩ := List.map_eq_append_iff.1 h.symm
    obtain ⟨t, rfl, ht⟩ := List.map_eq_singleton_iff.1 hlast
    obtain rfl := ScanEvent.token.inj ht
    exact ⟨us, rfl, hus.symm⟩

/-- A text has tokens exactly if no tile is an error. -/
theorem exists_tokens_iff :
    (∃ ts, l.tokens source = .ok ts) ↔ ∀ t ∈ l.tiles source, t.finding ≠ .failed := by
  have herror : ∀ t : Tile,
      t.finding ≠ .failed ↔ ∀ e, t.event? source = some e → e.error? = none := by
    rintro ⟨span, finding⟩
    rcases finding with (_ | k) | _ <;> simp [Tile.event?, ScanEvent.error?]
  calc (∃ ts, l.tokens source = .ok ts)
      ↔ (l.scan source).findSome? ScanEvent.error? = none := by
        rw [tokens]
        cases (l.scan source).findSome? ScanEvent.error? <;> simp
    _ ↔ ∀ t ∈ l.tiles source, ∀ e, t.event? source = some e → e.error? = none := by
        rw [List.findSome?_eq_none_iff, scan_eq_tiles]
        simp only [List.mem_append, List.mem_filterMap, List.mem_singleton]
        constructor
        · intro h t ht e he
          exact h e (.inl ⟨t, ht, he⟩)
        · rintro h e (⟨t, ht, he⟩ | rfl)
          · exact h t ht e he
          · rfl
    _ ↔ ∀ t ∈ l.tiles source, t.finding ≠ .failed := by simp only [herror]

end Lexer

/-! ### The tiles of expressions -/

namespace Expression

/-- The texts that expressions are made of, with their kinds: identifiers, numbers,
single characters, and white space, which has no kind. -/
inductive IsLexeme : Option TokenKind → Text → Prop where
  | identifier {u : Text} : isIdentifier u = true → IsLexeme (some .identifier) u
  | number {w f x : Text} : NumberParts w f x → IsLexeme (some .number) (w ++ f ++ x)
  | space {u : Text} : u ≠ [] → (∀ b ∈ u, isSpace b = true) → IsLexeme none u
  | symbol {c : Char} : c ∈ symbols → IsLexeme (some (.symbol c)) [byte c]

/-- The rules of the lexer describe these texts and no others. -/
theorem exists_rule_iff {k : Option TokenKind} {u : Text} :
    (∃ r ∈ lexer.rules, r.kind = k ∧ r.pattern.Matches u) ↔ IsLexeme k u := by
  constructor
  · rintro ⟨r, hr, rfl, hmatch⟩
    rcases mem_rules_iff.1 hr with rfl | rfl | rfl | rfl | ⟨c, hc, rfl⟩
    · exact .identifier (matches_identifier_iff.1 hmatch)
    · obtain ⟨w, f, x, rfl, -, hparts⟩ := parts_of_number hmatch
      exact .number hparts
    · obtain ⟨d, x, rfl, hparts⟩ := parts_of_pointNumber hmatch
      exact .number hparts
    · obtain ⟨hne, hspace⟩ := matches_whiteSpace_iff.1 hmatch
      exact .space hne hspace
    · rw [Pattern.matches_literal_iff.1 hmatch]
      exact .symbol hc
  · intro h
    cases h with
    | identifier hu =>
        exact ⟨⟨identifier, some .identifier⟩, mem_rules_iff.2 (.inl rfl), rfl,
          matches_identifier_iff.2 hu⟩
    | @number w f x hparts =>
        -- without digits before the point, the other rule for numbers applies
        by_cases hw : w = []
        · subst hw
          exact ⟨⟨pointNumber, some .number⟩, mem_rules_iff.2 (.inr (.inr (.inl rfl))), rfl,
            pointNumber_matches hparts⟩
        · exact ⟨⟨number, some .number⟩, mem_rules_iff.2 (.inr (.inl rfl)), rfl,
            number_matches hparts hw⟩
    | space hne hspace =>
        exact ⟨⟨whiteSpace, none⟩, mem_rules_iff.2 (.inr (.inr (.inr (.inl rfl)))), rfl,
          matches_whiteSpace_iff.2 ⟨hne, hspace⟩⟩
    | @symbol c hc =>
        exact ⟨symbolRule c, mem_rules_iff.2 (.inr (.inr (.inr (.inr ⟨c, hc, rfl⟩)))), rfl,
          Pattern.matches_literal_iff.2 rfl⟩

/-- All rules of expressions describe something. -/
theorem live_of_mem_rules {r : Rule} (hr : r ∈ lexer.rules) : r.pattern.Live := by
  have hdigit : ∃ b, isDigit b = true := ⟨byte '0', rfl⟩
  have hexponent : numberExponent.Live :=
    ⟨⟨⟨byte 'e', rfl⟩, ⟨⟨byte '+', rfl⟩, trivial⟩, hdigit, hdigit⟩, trivial⟩
  rcases mem_rules_iff.1 hr with rfl | rfl | rfl | rfl | ⟨c, -, rfl⟩
  · exact ⟨⟨byte 'a', rfl⟩, ⟨byte 'a', rfl⟩⟩
  · exact ⟨⟨hdigit, hdigit⟩, ⟨⟨Pattern.live_literal _, hdigit⟩, trivial⟩, hexponent⟩
  · exact ⟨Pattern.live_literal _, ⟨hdigit, hdigit⟩, hexponent⟩
  · exact ⟨⟨byte ' ', rfl⟩, ⟨byte ' ', rfl⟩⟩
  · exact Pattern.live_literal _

theorem lexer_reduced : lexer.Reduced := fun _ hr => .inr (live_of_mem_rules hr)

theorem lexer_not_hopeless : ¬ lexer.Hopeless [] := by
  rw [← lexer_reduced.isDead_iff]
  exact Bool.false_ne_true

/-- Texts with the same first byte are described by the same rule. -/
theorem rule_eq_of_matches {r r' : Rule} (hr : r ∈ lexer.rules) (hr' : r' ∈ lexer.rules)
    {u : Text} (hu : u ≠ []) (h : r.pattern.Matches u) (h' : r'.pattern.Matches u) :
    r = r' := by
  obtain ⟨b, t, rfl⟩ := List.exists_cons_of_ne_nil hu
  exact Option.some.inj ((ruleFor?_of_matches hr h).symm.trans (ruleFor?_of_matches hr' h'))

/-- A match takes the longest beginning that a rule describes. -/
theorem takes_of_tile {source : Text} {t : Tile} (ht : t ∈ lexer.tiles source)
    {k : Option TokenKind} (hk : t.finding = .matched k) :
    lexer.Takes (source.drop t.span.first) (t.span.of source) k := by
  rw [lexer.tile_eq ht] at hk ⊢
  rw [Lexer.of_tileAt]
  cases hstep : lexer.step (source.drop t.span.first) with
  | failed w => simp [Lexer.tileAt, hstep, Step.finding] at hk
  | matched w k' =>
      obtain rfl : k' = k := by simpa [Lexer.tileAt, hstep, Step.finding] using hk
      apply Lexer.Longest.takes _ (Lexer.step_eq_matched_iff.1 hstep)
      intro r hr r' hr' u hu h h'
      rw [rule_eq_of_matches hr hr' hu h h']

/-- An error ends where no rule can go on. -/
theorem fails_of_tile {source : Text} {t : Tile} (ht : t ∈ lexer.tiles source)
    (hk : t.finding = .failed) :
    lexer.Fails (source.drop t.span.first) (t.span.of source) := by
  rw [lexer.tile_eq ht] at hk ⊢
  rw [Lexer.of_tileAt]
  cases hstep : lexer.step (source.drop t.span.first) with
  | failed w => exact Lexer.fails_of_step lexer_reduced lexer_not_hopeless hstep
  | matched w k => simp [Lexer.tileAt, hstep, Step.finding] at hk

/-- Scanning an expression cuts it into tiles, at most as many as it has bytes, that are
not empty, do not overlap and leave no gap; the end token follows behind the last one.
A tile is the longest beginning of what is left that a rule describes, and has the kind
of that rule, which is never that of the end token.  It is an error exactly if no rule
describes a beginning of what is left, and then it ends where no rule can go on.  The
rules describe identifiers, numbers, white space and the single characters.  The text
has tokens exactly if no tile is an error, and they are then all that scanning brings
up. -/
theorem scan_tiling (source : Text) :
    lexer.scan source =
      (lexer.tiles source).filterMap (Tile.event? source) ++
        [.token ⟨.endOfText, [], ⟨source.length, source.length⟩⟩] ∧
    (lexer.tiles source).length ≤ source.length ∧
    (∀ t ∈ lexer.tiles source, t.span.first < t.span.behind) ∧
    (lexer.tiles source).Pairwise (fun t u => t.span.behind ≤ u.span.first) ∧
    (∀ i, (∃ t ∈ lexer.tiles source, t.span.first ≤ i ∧ i < t.span.behind) ↔
      i < source.length) ∧
    (∀ t ∈ lexer.tiles source,
      (∀ k, t.finding = .matched k →
        lexer.Takes (source.drop t.span.first) (t.span.of source) k ∧
          k ≠ some .endOfText) ∧
      (t.finding = .failed ↔ lexer.Stuck (source.drop t.span.first)) ∧
      (t.finding = .failed →
        lexer.Fails (source.drop t.span.first) (t.span.of source))) ∧
    (∀ k u, (∃ r ∈ lexer.rules, r.kind = k ∧ r.pattern.Matches u) ↔ IsLexeme k u) ∧
    ((∃ ts, tokenize source = .ok ts) ↔
      ∀ t ∈ lexer.tiles source, t.finding ≠ .failed) ∧
    ∀ ts, tokenize source = .ok ts ↔ lexer.scan source = ts.map .token := by
  -- What concerns the places of the tiles follows from their being chained from 0 to the
  -- end; what concerns one tile, from the step that made it.
  have hchain := lexer.chained_tiles source
  refine ⟨lexer.scan_eq_tiles source, ?_, hchain.nonempty, hchain.pairwise, fun i => ?_,
    fun t ht => ⟨fun k hk => ?_, ⟨fun hk => (fails_of_tile ht hk).stuck, fun hstuck => ?_⟩,
      fails_of_tile ht⟩,
    fun k u => exists_rule_iff, lexer.exists_tokens_iff,
    fun ts => lexer.tokens_eq_ok_iff_scan⟩
  · have hlength := hchain.length_le
    rwa [Nat.zero_add] at hlength
  · rw [hchain.mem_iff i]
    exact and_iff_right i.zero_le
  · have htakes := takes_of_tile ht hk
    obtain ⟨r, hr, hmatch⟩ := htakes.described
    refine ⟨htakes, ?_⟩
    rw [← htakes.kind_eq r hr hmatch]
    exact kind_ne_of_mem_rules hr
  · cases hk : t.finding with
    | failed => rfl
    | matched k => exact absurd hstuck (takes_of_tile ht hk).not_stuck

example :
    lexer.tiles "2e+ .$5" =
      [⟨⟨0, 1⟩, .matched (some .number)⟩, ⟨⟨1, 2⟩, .matched (some .identifier)⟩,
        ⟨⟨2, 3⟩, .matched (some (.symbol '+'))⟩, ⟨⟨3, 4⟩, .matched none⟩,
        ⟨⟨4, 6⟩, .failed⟩, ⟨⟨6, 7⟩, .matched (some .number)⟩] := by
  decide +kernel

end Expression

end LineScript
