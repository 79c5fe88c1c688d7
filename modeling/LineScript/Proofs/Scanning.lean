/-
LineScript/Proofs/Scanning.lean

What a lexer does at a place of a text, in terms of the texts that its patterns
describe.  `kind? l t` is the kind that the first rule describing all of `t`
gives to it, and `Longest l t w k` says that the first `w` bytes of `t` are the
longest beginning that has a kind.

Main results: a step of the lexer matches `w` bytes exactly if these are the
longest match (`step_eq_matched_iff`), and every token of a text that can be
scanned is described by the rule of its kind (`kind?_of_mem_tokens`).
-/
import LineScript.Proofs.Matching
import LineScript.Scanner.Lexer

namespace LineScript

open Text

/-! ### Walks -/

/-- The rest of a stride is passed over. -/
theorem Text.walkFrom_skip (stride : Text → Nat) (n pos : Nat) (t : Text) :
    walkFrom stride n pos t = walkFrom stride 0 (pos + n) (t.drop n) := by
  induction n generalizing pos t with
  | zero => rfl
  | succ n ih =>
      cases t with
      | nil => simp [walkFrom]
      | cons b t =>
          rw [walkFrom, ih, List.drop_succ_cons]
          congr 1
          omega

/-- A walk goes on behind its first stride. -/
theorem Text.walkFrom_eq_cons (stride : Text → Nat) (pos : Nat) {t : Text}
    (ht : t ≠ []) (hw : 0 < stride t) :
    walkFrom stride 0 pos t =
      (pos, t) :: walkFrom stride 0 (pos + stride t) (t.drop (stride t)) := by
  obtain ⟨b, u, rfl⟩ := List.exists_cons_of_ne_nil ht
  obtain ⟨n, hn⟩ := Nat.exists_eq_add_of_lt hw
  rw [walkFrom, walkFrom_skip, hn]
  simp only [Nat.zero_add, Nat.add_sub_cancel, List.drop_succ_cons]
  congr 2
  omega

/-- The end token of a text, which stands behind its last byte. -/
def Token.endOf (t : Text) : Token :=
  ⟨.endOfText, [], ⟨t.length, t.length⟩⟩

namespace Lexer

/-! ### Texts that have a kind -/

/-- The kind that a lexer gives to the whole of a text: that of the first rule
which describes it. -/
def kind? (l : Lexer) (t : Text) : Option (Option TokenKind) :=
  (t.foldl derive l).accepting?.map Rule.kind

@[simp] theorem kind?_cons (l : Lexer) (x : UInt8) (t : Text) :
    l.kind? (x :: t) = (l.derive x).kind? t := rfl

/-- A text has no kind if no rule describes it. -/
theorem kind?_eq_none_iff {l : Lexer} {t : Text} :
    l.kind? t = none ↔ ∀ r ∈ l.rules, ¬ r.pattern.Matches t := by
  induction t generalizing l with
  | nil =>
      simp [kind?, accepting?, ← Pattern.nullable_iff]
  | cons x t ih =>
      rw [kind?_cons, ih]
      simp [derive, Pattern.matches_derive_iff]

/-- A text has the kind of the first rule that describes it. -/
theorem kind?_eq_some_iff {l : Lexer} {t : Text} {k : Option TokenKind} :
    l.kind? t = some k ↔
      ∃ before r after, l.rules = before ++ r :: after ∧ r.kind = k ∧
        r.pattern.Matches t ∧ ∀ r' ∈ before, ¬ r'.pattern.Matches t := by
  -- Deriving keeps the rules in their places, so that the first rule to match is the same
  -- rule before and after a byte is taken.
  induction t generalizing l with
  | nil =>
      simp only [kind?, List.foldl_nil, accepting?, Option.map_eq_some_iff,
        List.find?_eq_some_iff_append, ← Pattern.nullable_iff]
      constructor
      · rintro ⟨r, ⟨hr, before, after, hl, hb⟩, hk⟩
        exact ⟨before, r, after, hl, hk, hr, by simpa using hb⟩
      · rintro ⟨before, r, after, hl, hk, hr, hb⟩
        exact ⟨r, ⟨hr, before, after, hl, by simpa using hb⟩, hk⟩
  | cons x t ih =>
      rw [kind?_cons, ih]
      constructor
      · rintro ⟨before, r, after, hl, hk, hr, hb⟩
        obtain ⟨before, rest, hrules, rfl, hrest⟩ := List.map_eq_append_iff.1 hl
        obtain ⟨r, after, rfl, rfl, rfl⟩ := List.map_eq_cons_iff.1 hrest
        refine ⟨before, r, after, hrules, hk, Pattern.matches_derive_iff.1 hr, ?_⟩
        intro r' hr'
        rw [← Pattern.matches_derive_iff]
        exact hb _ (List.mem_map_of_mem hr')
      · rintro ⟨before, r, after, hl, hk, hr, hb⟩
        have hrules : (l.derive x).rules =
            before.map (fun r => { r with pattern := r.pattern.derive x }) ++
              { r with pattern := r.pattern.derive x } ::
                after.map fun r => { r with pattern := r.pattern.derive x } := by
          rw [derive, hl, List.map_append, List.map_cons]
        refine ⟨_, _, _, hrules, hk, Pattern.matches_derive_iff.2 hr, ?_⟩
        intro r' hr'
        obtain ⟨r'', hr'', rfl⟩ := List.mem_map.1 hr'
        exact fun h => hb r'' hr'' (Pattern.matches_derive_iff.1 h)

/-- A lexer whose patterns have all given up gives no text a kind. -/
theorem kind?_of_isDead {l : Lexer} (h : l.isDead = true) (t : Text) :
    l.kind? t = none := by
  rw [kind?_eq_none_iff]
  intro r hr
  exact Pattern.not_matches_of_isNothing (List.all_eq_true.1 h r hr)

/-! ### The longest match -/

/-- The first `w` bytes of a text are the longest beginning that has a kind,
which is `k`. -/
structure Longest (l : Lexer) (t : Text) (w : Nat) (k : Option TokenKind) :
    Prop where
  pos : 0 < w
  le : w ≤ t.length
  kind : l.kind? (t.take w) = some k
  longest : ∀ j, w < j → j ≤ t.length → l.kind? (t.take j) = none

/-- No beginning of a text but the empty one has a kind. -/
def NoMatch (l : Lexer) (t : Text) : Prop :=
  ∀ j, 0 < j → j ≤ t.length → l.kind? (t.take j) = none

/-- There is one longest match. -/
theorem Longest.unique {l : Lexer} {t : Text} {w w' : Nat}
    {k k' : Option TokenKind} (h : l.Longest t w k) (h' : l.Longest t w' k') :
    w = w' ∧ k = k' := by
  have hw : w = w' := by
    rcases Nat.lt_trichotomy w w' with hlt | heq | hlt
    · exact absurd (h.longest w' hlt h'.le) (by simp [h'.kind])
    · exact heq
    · exact absurd (h'.longest w hlt h.le) (by simp [h.kind])
  subst hw
  exact ⟨rfl, Option.some.inj (h.kind.symm.trans h'.kind)⟩

/-! One byte more in front: the matches of `b :: t` are those of `t` after the
byte `b`, and `b` by itself. -/

/-- A longest match behind a byte is one with the byte in front. -/
theorem Longest.cons {l : Lexer} {b : UInt8} {t : Text} {w : Nat}
    {k : Option TokenKind} (h : (l.derive b).Longest t w k) :
    l.Longest (b :: t) (w + 1) k := by
  refine ⟨by omega, by simpa using h.le, h.kind, ?_⟩
  intro j h₀ h₁
  obtain ⟨j, rfl⟩ := Nat.exists_eq_add_of_lt h₀
  simp only [List.length_cons] at h₁
  exact h.longest (w + 1 + j) (by omega) (by omega)

/-- If nothing matches behind a byte that is a match, it is the longest one. -/
theorem NoMatch.longest_one {l : Lexer} {b : UInt8} {t : Text}
    {k : Option TokenKind} (h : (l.derive b).NoMatch t)
    (hk : (l.derive b).kind? [] = some k) : l.Longest (b :: t) 1 k := by
  refine ⟨by omega, by simp, hk, ?_⟩
  intro j h₀ h₁
  obtain ⟨j, rfl⟩ := Nat.exists_eq_add_of_lt h₀
  simp only [List.length_cons] at h₁
  exact h (1 + j) (by omega) (by omega)

theorem NoMatch.cons {l : Lexer} {b : UInt8} {t : Text}
    (h : (l.derive b).NoMatch t) (hk : (l.derive b).kind? [] = none) :
    l.NoMatch (b :: t) := by
  intro j h₀ h₁
  obtain ⟨j, rfl⟩ := Nat.exists_eq_add_of_lt h₀
  simp only [List.length_cons] at h₁
  rcases Nat.eq_zero_or_pos j with rfl | hj
  · exact hk
  · have hrest := h j hj (by omega)
    rw [Nat.zero_add, List.take_succ_cons, kind?_cons]
    exact hrest

/-- Reading a byte goes on with the rules for what may follow it. -/
theorem munch_cons (l : Lexer) (n : Nat)
    (best : Option (Nat × Option TokenKind)) (b : UInt8) (t : Text) :
    l.munch n best (b :: t) =
      if (l.derive b).isDead then .ofBest (n + 1) best
      else
        (l.derive b).munch (n + 1)
          ((((l.derive b).kind? []).map fun k => (n + 1, k)).or best) t := by
  have hkind : (l.derive b).kind? [] = (l.derive b).accepting?.map Rule.kind := rfl
  rw [munch, hkind]
  cases (l.derive b).accepting? with
  | none => rfl
  | some r => rfl

/-- Reading on from a state of the lexer ends with the longest match of what is
left, or with the best one so far if nothing more matches. -/
theorem munch_cases (l : Lexer) (n : Nat)
    (best : Option (Nat × Option TokenKind)) (t : Text) :
    (∃ i k, l.Longest t i k ∧ l.munch n best t = .matched (n + i) k) ∨
      (l.NoMatch t ∧ ∃ m, n + min 1 t.length ≤ m ∧ m ≤ n + t.length ∧
        l.munch n best t = .ofBest m best) := by
  induction t generalizing l n best with
  | nil =>
      refine .inr ⟨fun j h₀ h₁ => ?_, n, by simp, by simp, rfl⟩
      simp only [List.length_nil] at h₁
      omega
  | cons b t ih =>
      rw [munch_cons, List.length_cons]
      by_cases hdead : (l.derive b).isDead = true
      · have hno : (l.derive b).NoMatch t := fun j _ _ => kind?_of_isDead hdead _
        rw [if_pos hdead]
        exact .inr ⟨hno.cons (kind?_of_isDead hdead _), n + 1, by omega, by omega, rfl⟩
      · rw [if_neg hdead]
        rcases ih (l.derive b) (n + 1)
            ((((l.derive b).kind? []).map fun k => (n + 1, k)).or best) with
          ⟨i, k, hi, he⟩ | ⟨hno, m, hm, hm', he⟩
        · exact .inl ⟨i + 1, k, hi.cons, by rw [he, Nat.add_assoc, Nat.add_comm 1 i]⟩
        · -- nothing matches after `b`, so `b` itself is the match or nothing is
          cases hk : (l.derive b).kind? [] with
          | none =>
              rw [hk] at he
              exact .inr ⟨hno.cons hk, m, by omega, by omega, he⟩
          | some k =>
              rw [hk] at he
              exact .inl ⟨1, k, hno.longest_one hk, he⟩

/-- A lexer matches exactly the longest beginning that has a kind. -/
theorem step_eq_matched_iff {l : Lexer} {t : Text} {w : Nat}
    {k : Option TokenKind} :
    l.step t = .matched w k ↔ l.Longest t w k := by
  rcases l.munch_cases 0 none t with ⟨i, k', hi, he⟩ | ⟨hno, m, -, -, he⟩
  · rw [step, he, Nat.zero_add, Step.matched.injEq]
    constructor
    · rintro ⟨rfl, rfl⟩
      exact hi
    · exact hi.unique
  · rw [step, he]
    constructor
    · intro h
      cases h
    · intro h
      exact absurd (hno w h.pos h.le) (by simp [h.kind])

/-- A step at a place where something is left takes at least one byte and no
more than there are. -/
theorem step_width_pos (l : Lexer) {t : Text} (ht : t ≠ []) :
    0 < (l.step t).width ∧ (l.step t).width ≤ t.length := by
  have hlen : 0 < t.length := List.length_pos_iff.2 ht
  rcases l.munch_cases 0 none t with ⟨i, k', hi, he⟩ | ⟨hno, m, hm, hm', he⟩
  · have hp := hi.pos
    have hl := hi.le
    rw [step, he, Step.width]
    omega
  · rw [step, he, Step.ofBest, Step.width]
    omega

/-- What holds at the end of a text, and before a step if it holds behind it, holds at
every place. -/
theorem step_induction (l : Lexer) {motive : Nat → Text → Prop}
    (nil : ∀ pos, motive pos [])
    (step : ∀ pos t, t ≠ [] → 0 < (l.step t).width → (l.step t).width ≤ t.length →
      motive (pos + (l.step t).width) (t.drop (l.step t).width) → motive pos t)
    (pos : Nat) (t : Text) : motive pos t := by
  -- each step makes what is left shorter
  induction hn : t.length using Nat.strongRecOn generalizing pos t with
  | _ n ih =>
      subst hn
      by_cases ht : t = []
      · subst ht
        exact nil pos
      · obtain ⟨hpos, hle⟩ := l.step_width_pos ht
        refine step pos t ht hpos hle (ih _ ?_ _ _ rfl)
        rw [List.length_drop]
        omega

/-! ### The events of a text -/

/-- What scanning brings up from a place on where `t` is left of `source`. -/
def eventsFrom (l : Lexer) (source : Text) (pos : Nat) (t : Text) :
    List ScanEvent :=
  (walkFrom (fun rest => (l.step rest).width) 0 pos t).filterMap
    fun (p, rest) => l.eventAt source p rest

/-- The last step ends with the text: a walk stops only where nothing is left, and no step
goes beyond the end. -/
theorem reached_walkFrom (l : Lexer) (pos : Nat) (t : Text) :
    l.reached pos (walkFrom (fun rest => (l.step rest).width) 0 pos t) = pos + t.length := by
  induction pos, t using l.step_induction with
  | nil pos => rfl
  | step pos t ht hpos hle ih =>
      rw [List.length_drop, Nat.add_assoc, Nat.add_sub_cancel' hle] at ih
      rw [walkFrom_eq_cons _ _ ht hpos]
      exact ih

/-- The end token stands behind the last byte. -/
theorem scan_eq (l : Lexer) (source : Text) :
    l.scan source = l.eventsFrom source 0 source ++ [.token (.endOf source)] := by
  have hreached := l.reached_walkFrom 0 source
  rw [Nat.zero_add] at hreached
  rw [scan, walk, hreached]
  rfl

@[simp] theorem eventsFrom_nil (l : Lexer) (source : Text) (pos : Nat) :
    l.eventsFrom source pos [] = [] := rfl

/-- Scanning goes on behind the first step. -/
theorem eventsFrom_eq (l : Lexer) (source : Text) (pos : Nat) {t : Text}
    (ht : t ≠ []) :
    l.eventsFrom source pos t =
      (l.eventAt source pos t).toList ++
        l.eventsFrom source (pos + (l.step t).width) (t.drop (l.step t).width) := by
  rw [eventsFrom, walkFrom_eq_cons _ _ ht (l.step_width_pos ht).1]
  simp only [List.filterMap_cons]
  cases he : l.eventAt source pos t with
  | none => rfl
  | some e => rfl

/-- A longest match with a kind brings up a token. -/
theorem eventsFrom_token {l : Lexer} {source : Text} {pos : Nat} {t : Text}
    {w : Nat} {k : TokenKind} (h : l.Longest t w (some k)) :
    l.eventsFrom source pos t =
      .token ⟨k, t.take w, ⟨pos, pos + w⟩⟩ ::
        l.eventsFrom source (pos + w) (t.drop w) := by
  have ht : t ≠ [] := List.length_pos_iff.1 (Nat.lt_of_lt_of_le h.pos h.le)
  have hstep := step_eq_matched_iff.2 h
  rw [eventsFrom_eq l source pos ht, eventAt, hstep]
  rfl

/-- A longest match without a kind brings up nothing. -/
theorem eventsFrom_skip {l : Lexer} {source : Text} {pos : Nat} {t : Text}
    {w : Nat} (h : l.Longest t w none) :
    l.eventsFrom source pos t = l.eventsFrom source (pos + w) (t.drop w) := by
  have ht : t ≠ [] := List.length_pos_iff.1 (Nat.lt_of_lt_of_le h.pos h.le)
  have hstep := step_eq_matched_iff.2 h
  rw [eventsFrom_eq l source pos ht, eventAt, hstep]
  rfl

/-- Every token that comes up while scanning has the kind of its text. -/
theorem kind?_of_mem_eventsFrom {l : Lexer} {source : Text} {pos : Nat}
    {t : Text} {tok : Token} (h : .token tok ∈ l.eventsFrom source pos t) :
    l.kind? tok.lexeme = some (some tok.kind) := by
  obtain ⟨⟨p, rest⟩, -, he⟩ := List.mem_filterMap.1 h
  simp only [eventAt] at he
  split at he
  · rename_i w k hstep
    obtain rfl := ScanEvent.token.inj (Option.some.inj he)
    exact (step_eq_matched_iff.1 hstep).kind
  · cases he
  · cases he

/-! ### The tokens of a text -/

/-- Events without an error among them are tokens. -/
theorem eq_map_token_of_no_error {es : List ScanEvent}
    (h : es.findSome? ScanEvent.error? = none) :
    es = (es.filterMap ScanEvent.token?).map .token := by
  induction es with
  | nil => rfl
  | cons e es ih =>
      cases e with
      | token t =>
          have htail : es.findSome? ScanEvent.error? = none := by
            simpa [ScanEvent.error?] using h
          have ht : ScanEvent.token? (.token t) = some t := rfl
          rw [List.filterMap_cons_some ht, List.map_cons, ← ih htail]
      | error e => simp [ScanEvent.error?] at h

/-- If all events are tokens, they are the tokens of the text. -/
theorem tokens_of_eventsFrom {l : Lexer} {source : Text} {us : List Token}
    (h : l.eventsFrom source 0 source = us.map .token) :
    l.tokens source = .ok (us ++ [.endOf source]) := by
  have hmap : l.scan source = (us ++ [Token.endOf source]).map .token := by
    rw [scan_eq, h, List.map_append]
    rfl
  have hnone : (l.scan source).findSome? ScanEvent.error? = none := by
    rw [hmap, List.findSome?_eq_none_iff]
    intro e he
    obtain ⟨t, -, rfl⟩ := List.mem_map.1 he
    rfl
  have htokens : (l.scan source).filterMap ScanEvent.token? =
      us ++ [Token.endOf source] := by
    rw [hmap, List.filterMap_map]
    exact List.filterMap_some
  simp only [tokens, hnone, htokens]

/-- A text has tokens exactly if scanning it brings up tokens only, and these
are followed by the end token. -/
theorem tokens_eq_ok_iff {l : Lexer} {source : Text} {ts : List Token} :
    l.tokens source = .ok ts ↔
      ∃ us, ts = us ++ [.endOf source] ∧
        l.eventsFrom source 0 source = us.map .token := by
  constructor
  · intro h
    cases hfind : (l.scan source).findSome? ScanEvent.error? with
    | some e => simp [tokens, hfind] at h
    | none =>
        rw [scan_eq, List.findSome?_append, Option.or_eq_none_iff] at hfind
        have hus := eq_map_token_of_no_error hfind.1
        have hok := tokens_of_eventsFrom hus
        exact ⟨_, Except.ok.inj (h.symm.trans hok), hus⟩
  · rintro ⟨us, rfl, hus⟩
    exact tokens_of_eventsFrom hus

/-- The tokens of a text before the end token have the kinds of their texts. -/
theorem kind?_of_mem_tokens {l : Lexer} {source : Text} {us : List Token}
    (h : l.tokens source = .ok (us ++ [.endOf source])) {tok : Token}
    (htok : tok ∈ us) : l.kind? tok.lexeme = some (some tok.kind) := by
  obtain ⟨us', he, hus⟩ := tokens_eq_ok_iff.1 h
  obtain rfl := List.append_cancel_right he
  exact kind?_of_mem_eventsFrom (hus ▸ List.mem_map_of_mem htok)

end Lexer

end LineScript
