/-
LineScript/Proofs/Texts.lean

The laws of the operations on texts: looking for a piece of text, dividing a
text at separators, and taking white space off its ends.

* A piece is found exactly if it occurs (`cut?_eq_none_iff`), and the first
  occurrence is found of a piece that cannot overlap with itself (`cut?_first`).
* The fields between the occurrences of a byte are what was put together with
  it (`split_join`), there is one more of them than occurrences (`length_split`), and
  put together they are the text again (`join_split`).
* White space around a text that begins and ends with solid bytes is what
  `trim` takes off (`trim_padded`).  A solid byte is an ASCII character that is
  not white space; no blank contains one, which is why the text in between may
  be anything.
-/
import LineScript.Text.Blank
import LineScript.Text.Character
import Mathlib.Data.Bool.AllAny
import Mathlib.Data.List.DropRight
import Mathlib.Data.List.Infix

namespace LineScript

namespace Text

/-! ### Bytes -/

/-- A statement about all bytes is decided by trying them. -/
instance (priority := low) decidableForallByte {P : UInt8 → Prop} [DecidablePred P] :
    Decidable (∀ b, P b) :=
  decidable_of_iff (∀ n ∈ List.range 256, P (UInt8.ofNat n)) <| by
    constructor
    · intro h b
      have hb := h b.toNat (List.mem_range.2 b.toNat_lt)
      rwa [UInt8.ofNat_toNat] at hb
    · intro h n _
      exact h _

/-! ### Beginnings -/

/-- A beginning is taken off if it is there. -/
theorem after?_eq_some_iff {p t r : Text} : after? p t = some r ↔ t = p ++ r := by
  induction p generalizing t with
  | nil => simp [after?, eq_comm]
  | cons a p ih =>
      cases t with
      | nil => simp [after?]
      | cons b t =>
          by_cases hab : a = b
          · subst hab
            simp [after?, ih]
          · simp [after?, hab, Ne.symm hab]

@[simp] theorem after?_append (p r : Text) : after? p (p ++ r) = some r :=
  after?_eq_some_iff.2 rfl

theorem after?_eq_none_iff {p t : Text} : after? p t = none ↔ ¬ p <+: t := by
  rw [Option.eq_none_iff_forall_ne_some]
  constructor
  · rintro h ⟨r, rfl⟩
    exact h r (after?_append p r)
  · intro h r hr
    exact h ⟨r, (after?_eq_some_iff.1 hr).symm⟩

/-! ### Ends -/

/-- So is an ending. -/
theorem before?_eq_some_iff {s t l : Text} : before? s t = some l ↔ t = l ++ s := by
  rw [before?, Option.map_eq_some_iff]
  constructor
  · rintro ⟨r, hr, rfl⟩
    have h := congrArg List.reverse (after?_eq_some_iff.1 hr)
    simpa using h
  · rintro rfl
    exact ⟨l.reverse, by rw [List.reverse_append, after?_append], l.reverse_reverse⟩

@[simp] theorem before?_append (l s : Text) : before? s (l ++ s) = some l :=
  before?_eq_some_iff.2 rfl

/-- The same on both sides, which may not overlap. -/
theorem between?_eq_some_iff {p s t u : Text} : between? p s t = some u ↔ t = p ++ (u ++ s) := by
  rw [between?, Option.bind_eq_some_iff]
  constructor
  · rintro ⟨r, hr, hu⟩
    rw [after?_eq_some_iff.1 hr, before?_eq_some_iff.1 hu]
  · rintro rfl
    exact ⟨u ++ s, after?_append p (u ++ s), before?_append u s⟩

@[simp] theorem between?_append (p t s : Text) : between? p s (p ++ (t ++ s)) = some t :=
  between?_eq_some_iff.2 rfl

/-! ### Looking for a piece of text -/

/-- A text cannot be cut exactly if the separator does not occur in it. -/
theorem cut?_eq_none_iff {sep t : Text} : cut? sep t = none ↔ ¬ sep <:+: t := by
  induction t with
  | nil =>
      rw [cut?, Option.map_eq_none_iff, after?_eq_none_iff, List.infix_nil,
        List.prefix_nil]
  | cons b t ih =>
      rw [List.infix_cons_iff, not_or, ← after?_eq_none_iff, ← ih, cut?]
      cases after? sep (b :: t) with
      | none => simp
      | some r => simp

/-- A text is divided at the separator that it begins with. -/
@[simp] theorem cut?_append (sep r : Text) :
    cut? sep (sep ++ r) = some ([], r) := by
  cases h : sep ++ r with
  | nil =>
      obtain ⟨rfl, rfl⟩ := List.append_eq_nil_iff.1 h
      rfl
  | cons b t => rw [cut?, ← h, after?_append]

/-- A piece that has its first byte only there is found where it stands first: it cannot
begin in what stands before it. -/
theorem cut?_first {b : UInt8} {piece l : Text} (hb : b ∉ piece)
    (hl : ¬ b :: piece <:+: l) (r : Text) :
    cut? (b :: piece) (l ++ (b :: piece ++ r)) = some (l, r) := by
  induction l with
  | nil => exact cut?_append (b :: piece) r
  | cons c l ih =>
      obtain ⟨hstart, hrest⟩ := not_or.1 (mt List.infix_cons_iff.2 hl)
      have hnone : after? (b :: piece) (c :: (l ++ (b :: piece ++ r))) = none := by
        rw [after?_eq_none_iff, List.cons_prefix_cons]
        rintro ⟨rfl, u, hu⟩
        rcases List.append_eq_append_iff.1 hu with ⟨w, rfl, -⟩ | ⟨w, rfl, hw⟩
        · exact hstart ⟨w, rfl⟩
        · -- the piece reaches up to the place where its first byte stands again
          cases w with
          | nil => exact hstart ⟨[], by simp⟩
          | cons d w =>
              obtain ⟨rfl, -⟩ := List.cons.inj hw
              exact hb (by simp)
      rw [List.cons_append, cut?, hnone, ih hrest]
      rfl

/-- A single byte is found where it stands first. -/
theorem cut?_byte {b : UInt8} {l : Text} (h : b ∉ l) (r : Text) :
    cut? [b] (l ++ b :: r) = some (l, r) :=
  cut?_first List.not_mem_nil (mt (List.singleton_infix_iff b l).1 h) r

/-- What a text is divided into, with the separator between, is the text. -/
theorem eq_of_cut? {sep t l r : Text} (h : cut? sep t = some (l, r)) : t = l ++ (sep ++ r) := by
  induction t generalizing l with
  | nil =>
      obtain ⟨u, hu, hpair⟩ := Option.map_eq_some_iff.1 h
      obtain ⟨rfl, rfl⟩ := Prod.mk.inj hpair
      rw [List.nil_append]
      exact after?_eq_some_iff.1 hu
  | cons b t ih =>
      rw [cut?] at h
      split at h
      · next u hu =>
          obtain ⟨rfl, rfl⟩ := Prod.mk.inj (Option.some.inj h)
          rw [List.nil_append]
          exact after?_eq_some_iff.1 hu
      · obtain ⟨⟨l', r'⟩, hcut, hpair⟩ := Option.map_eq_some_iff.1 h
        obtain ⟨rfl, rfl⟩ := Prod.mk.inj hpair
        rw [ih hcut, List.cons_append]

/-- A single byte cuts at its first occurrence. -/
theorem cut?_byte_eq_some_iff {b : UInt8} {t l r : Text} :
    cut? [b] t = some (l, r) ↔ t = l ++ b :: r ∧ b ∉ l := by
  constructor
  · intro h
    have ht : t = l ++ b :: r := eq_of_cut? h
    have hb : b ∈ t := by simp [ht]
    obtain ⟨l', r', rfl, hl'⟩ := List.eq_append_cons_of_mem hb
    rw [cut?_byte hl'] at h
    obtain ⟨rfl, rfl⟩ := Prod.mk.inj (Option.some.inj h)
    exact ⟨rfl, hl'⟩
  · rintro ⟨rfl, hl⟩
    exact cut?_byte hl r

/-- To occur is to be a part. -/
theorem occursIn_iff {piece t : Text} : occursIn piece t = true ↔ piece <:+: t := by
  rw [occursIn, ← not_iff_not, ← cut?_eq_none_iff, Bool.not_eq_true,
    Option.isSome_eq_false_iff, Option.isNone_iff_eq_none]

theorem occursIn_byte_iff {b : UInt8} {t : Text} :
    occursIn [b] t = true ↔ b ∈ t := by
  rw [occursIn_iff, List.singleton_infix_iff]

/-- What a text with another one behind it begins with is a beginning of it, or goes on
into the other one. -/
theorem isPrefix_append_cases {m t u : Text} (h : m <+: t ++ u) :
    m <+: t ∨ ∃ c v, m = t ++ c :: v ∧ c :: v <+: u := by
  obtain ⟨w, hw⟩ := h
  rcases List.append_eq_append_iff.1 hw with ⟨v, rfl, -⟩ | ⟨v, rfl, hv⟩
  · exact .inl (List.prefix_append m v)
  · cases v with
    | nil => exact .inl (by rw [List.append_nil])
    | cons c v => exact .inr ⟨c, v, rfl, w, hv.symm⟩

/-- A byte that a piece does not have divides the places where it may occur. -/
theorem not_infix_append_cons {p s t : Text} {b : UInt8} (hb : b ∉ p)
    (hs : ¬ p <:+: s) (ht : ¬ p <:+: t) : ¬ p <:+: s ++ b :: t := by
  rintro ⟨l, r, h⟩
  rcases List.append_eq_append_iff.1 h with ⟨w, rfl, -⟩ | ⟨w, hleft, hright⟩
  · exact hs ⟨l, w, rfl⟩
  · cases w with
    | nil =>
        rw [List.append_nil] at hleft
        exact hs ⟨l, [], by rw [List.append_nil, hleft]⟩
    | cons c w =>
        -- The piece ends behind the byte, so it begins behind it as well.
        obtain ⟨rfl, rfl⟩ := List.cons.inj hright
        rcases List.append_eq_append_iff.1 hleft with ⟨v, -, rfl⟩ | ⟨v, -, hv⟩
        · exact hb (by simp)
        · cases v with
          | nil =>
              rw [List.nil_append] at hv
              exact hb (hv ▸ List.mem_cons_self)
          | cons d v =>
              obtain ⟨-, rfl⟩ := List.cons.inj hv
              exact ht ⟨v, r, by simp⟩

/-- A piece does not begin in a text that its first byte does not stand in. -/
theorem not_infix_append_of_head {b : UInt8} {p s t : Text} (hs : b ∉ s)
    (ht : ¬ b :: p <:+: t) : ¬ b :: p <:+: s ++ t := by
  induction s with
  | nil => exact ht
  | cons c s ih =>
      obtain ⟨hc, hs⟩ := not_or.1 (mt List.mem_cons.2 hs)
      rw [List.cons_append, List.infix_cons_iff, not_or]
      refine ⟨fun hprefix => hc (List.cons_prefix_cons.1 hprefix).1, ih hs⟩

/-- A piece that has no byte in common with what stands around a text occurs within the
text. -/
theorem infix_append_append_iff {p s m t : Text} (hne : p ≠ []) (hs : ∀ b ∈ p, b ∉ s)
    (ht : ∀ b ∈ p, b ∉ t) : p <:+: s ++ (m ++ t) ↔ p <:+: m := by
  constructor
  · intro h
    by_contra hm
    have hright : ¬ p <:+: m ++ t := by
      -- the same from the other end
      rw [← List.reverse_infix, List.reverse_append]
      obtain ⟨c, q, hq⟩ := List.exists_cons_of_ne_nil (mt List.reverse_eq_nil_iff.1 hne)
      have hc : c ∈ p := List.mem_reverse.1 (hq ▸ List.mem_cons_self)
      rw [hq]
      refine not_infix_append_of_head (mt List.mem_reverse.1 (ht c hc)) ?_
      rwa [← hq, List.reverse_infix]
    obtain ⟨b, q, rfl⟩ := List.exists_cons_of_ne_nil hne
    exact not_infix_append_of_head (hs b List.mem_cons_self) hright h
  · rintro ⟨l, r, rfl⟩
    exact ⟨s ++ l, r ++ t, by simp only [List.append_assoc]⟩

/-! ### Dividing a text at a separator -/

/-- Without a separator there is one field. -/
theorem fieldsFrom_eq_of_not_infix {sep t : Text} (h : ¬ sep <:+: t) :
    fieldsFrom sep 0 t = (t, []) := by
  induction t with
  | nil => rfl
  | cons b t ih =>
      obtain ⟨hp, ht⟩ := not_or.1 (mt List.infix_cons_iff.2 h)
      have hp' : ¬ sep.isPrefixOf (b :: t) = true := by
        rwa [List.isPrefixOf_iff_prefix]
      rw [fieldsFrom, if_neg hp', ih ht]

/-- A text in which the separator does not occur is one field. -/
theorem split_eq_of_not_infix {sep t : Text} (h : ¬ sep <:+: t) :
    split sep t = [t] := by
  rw [split, fieldsFrom_eq_of_not_infix h]

theorem split_byte_of_not_mem {b : UInt8} {t : Text} (h : b ∉ t) :
    split [b] t = [t] :=
  split_eq_of_not_infix (mt (List.singleton_infix_iff b t).1 h)

/-- The rest of a separator is passed over. -/
theorem fieldsFrom_skip (sep : Text) (n : Nat) (t : Text) :
    fieldsFrom sep n t = fieldsFrom sep 0 (t.drop n) := by
  induction n generalizing t with
  | zero => rfl
  | succ n ih =>
      cases t with
      | nil => rfl
      | cons b t => exact ih t

/-- A byte at which the separator does not begin belongs to the first field. -/
theorem split_cons {sep : Text} {b : UInt8} {t : Text} (h : ¬ sep <+: b :: t) :
    split sep (b :: t) = (split sep t).modifyHead (b :: ·) := by
  have hp : ¬ sep.isPrefixOf (b :: t) = true := by rwa [List.isPrefixOf_iff_prefix]
  rw [split, fieldsFrom, if_neg hp]
  rfl

/-- In front of the separator there is an empty field. -/
theorem split_append_self {sep : Text} (hne : sep ≠ []) (t : Text) :
    split sep (sep ++ t) = [] :: split sep t := by
  obtain ⟨c, u, rfl⟩ := List.exists_cons_of_ne_nil hne
  have hp : (c :: u).isPrefixOf (c :: (u ++ t)) = true :=
    List.isPrefixOf_iff_prefix.2 (List.prefix_append (c :: u) t)
  rw [split, List.cons_append, fieldsFrom, if_pos hp, fieldsFrom_skip, List.length_cons,
    Nat.add_sub_cancel, List.drop_left]
  rfl

theorem split_cons_self (b : UInt8) (t : Text) : split [b] (b :: t) = [] :: split [b] t :=
  split_append_self (List.cons_ne_nil b []) t

/-- Another byte belongs to the first field. -/
theorem split_cons_of_ne {b c : UInt8} (hc : c ≠ b) (t : Text) :
    split [b] (c :: t) = (split [b] t).modifyHead (c :: ·) :=
  split_cons fun hprefix => hc (List.cons_prefix_cons.1 hprefix).1.symm

/-- The first field ends at the first separator, as long as none begins earlier. -/
theorem split_append_first {b : UInt8} {sep l : Text} (hl : b ∉ l) (r : Text) :
    split (b :: sep) (l ++ (b :: sep ++ r)) = l :: split (b :: sep) r := by
  induction l with
  | nil => exact split_append_self (List.cons_ne_nil b sep) r
  | cons c l ih =>
      obtain ⟨hc, hl⟩ := not_or.1 (mt List.mem_cons.2 hl)
      have hstart : ¬ b :: sep <+: c :: (l ++ (b :: sep ++ r)) :=
        fun h => hc (List.cons_prefix_cons.1 h).1
      rw [List.cons_append, split_cons hstart, ih hl]
      rfl

/-- The first field ends where the separating byte stands first. -/
theorem split_byte_append {b : UInt8} {l : Text} (h : b ∉ l) (r : Text) :
    split [b] (l ++ b :: r) = l :: split [b] r :=
  split_append_first h r

/-- The fields of two texts with the separating byte between them. -/
theorem split_append_byte (b : UInt8) (s t : Text) :
    split [b] (s ++ b :: t) = split [b] s ++ split [b] t := by
  have hfields : fieldsFrom [b] 0 (s ++ b :: t) =
      ((fieldsFrom [b] 0 s).1, (fieldsFrom [b] 0 s).2 ++ split [b] t) := by
    induction s with
    | nil => simp [fieldsFrom, split]
    | cons c s ih =>
        by_cases hc : b = c
        · simp [fieldsFrom, hc.symm, ih]
        · simp [fieldsFrom, hc, ih]
  rw [split, hfields]
  rfl

/-- Fields without the separating byte in them are found again after they have
been put together. -/
theorem split_join {b : UInt8} {ls : List Text} (hne : ls ≠ [])
    (h : ∀ l ∈ ls, b ∉ l) : split [b] (join [b] ls) = ls := by
  induction ls with
  | nil => exact absurd rfl hne
  | cons l ls ih =>
      obtain ⟨hl, hls⟩ := List.forall_mem_cons.1 h
      cases ls with
      | nil =>
          rw [join, List.intercalate_singleton]
          exact split_byte_of_not_mem hl
      | cons l' ls =>
          rw [join, List.intercalate_cons_cons, List.append_assoc,
            List.singleton_append, split_byte_append hl]
          exact congrArg (l :: ·) (ih (by simp) hls)

/-- The separating byte stands in none of the fields. -/
theorem not_mem_of_mem_split {b : UInt8} {t l : Text} (hl : l ∈ split [b] t) :
    b ∉ l := by
  induction t generalizing l with
  | nil =>
      obtain rfl : l = [] := by simpa [split, fieldsFrom] using hl
      simp
  | cons c t ih =>
      by_cases hc : c = b
      · subst hc
        rw [split_cons_self] at hl
        rcases List.mem_cons.1 hl with rfl | hl
        · simp
        · exact ih hl
      · rw [split_cons_of_ne hc] at hl
        obtain ⟨first, more, hsplit⟩ : ∃ first more, split [b] t = first :: more := ⟨_, _, rfl⟩
        rw [hsplit] at hl ih
        rcases List.mem_cons.1 hl with rfl | hl
        · have hfirst := ih (l := first) (by simp)
          simp [Ne.symm hc, hfirst]
        · exact ih (List.mem_cons_of_mem first hl)

/-- Two fields, of which the last one is not empty. -/
theorem fields_append_first {b : UInt8} {sep l r : Text} (hl : b ∉ l)
    (hr : ¬ b :: sep <:+: r) (hne : r ≠ []) :
    fields (b :: sep) (l ++ (b :: sep ++ r)) = [l, r] := by
  rw [fields, split_append_first hl, split_eq_of_not_infix hr]
  simp [hne]

/-- Only empty fields are dropped, and only at the end. -/
theorem split_eq_fields_append (sep t : Text) :
    ∃ dropped, split sep t = fields sep t ++ dropped ∧ ∀ l ∈ dropped, l = [] := by
  refine ⟨((split sep t).reverse.takeWhile List.isEmpty).reverse, ?_, ?_⟩
  · rw [fields, ← List.reverse_append, List.takeWhile_append_dropWhile, List.reverse_reverse]
  · intro l hl
    have hempty := List.all_eq_true.1 List.all_takeWhile l (List.mem_reverse.1 hl)
    exact List.isEmpty_iff.1 hempty

/-! ### Replacing a text -/

section Replace

variable {old : Text} (new : Text) (hne : old ≠ [])
include hne

theorem replace_nil : replace old new [] = [] := by
  rw [replace, if_neg hne]
  rfl

/-- A byte at which the old text does not begin is kept. -/
theorem replace_cons {b : UInt8} {t : Text} (h : ¬ old <+: b :: t) :
    replace old new (b :: t) = b :: replace old new t := by
  rw [replace, if_neg hne, replace, if_neg hne, split_cons h]
  exact List.intercalate_cons_cons_left

/-- An occurrence at the front is replaced, and the search goes on behind it. -/
theorem replace_append_self (t : Text) :
    replace old new (old ++ t) = new ++ replace old new t := by
  rw [replace, if_neg hne, replace, if_neg hne, split_append_self hne]
  exact List.intercalate_cons_cons

/-- What stands in front is kept if the old text begins nowhere in it. -/
theorem replace_append {s t : Text} (h : ∀ u, u <:+ s → u ≠ [] → ¬ old <+: u ++ t) :
    replace old new (s ++ t) = s ++ replace old new t := by
  induction s with
  | nil => rfl
  | cons b s ih =>
      have hfirst : ¬ old <+: b :: (s ++ t) := h (b :: s) List.suffix_rfl (by simp)
      have hrest := ih fun u hu => h u (hu.trans (List.suffix_cons b s))
      rw [List.cons_append, replace_cons new hne hfirst, hrest, List.cons_append]

/-- A text is searched for the old one from left to right. -/
theorem replace_induction {motive : Text → Prop} (nil : motive [])
    (found : ∀ t, motive t → motive (old ++ t))
    (kept : ∀ b t, ¬ old <+: b :: t → motive t → motive (b :: t)) (t : Text) : motive t := by
  induction hn : t.length using Nat.strong_induction_on generalizing t with
  | _ n ih =>
      subst hn
      by_cases hprefix : old <+: t
      · obtain ⟨u, rfl⟩ := hprefix
        have hpos := List.length_pos_iff.2 hne
        exact found u (ih u.length (by rw [List.length_append]; omega) u rfl)
      · cases t with
        | nil => exact nil
        | cons b t => exact kept b t hprefix (ih t.length (Nat.lt_succ_self _) t rfl)

/-- A byte that the old text does not have divides what is replaced. -/
theorem replace_append_cons {b : UInt8} (hb : b ∉ old) (s t : Text) :
    replace old new (s ++ b :: t) = replace old new s ++ b :: replace old new t := by
  induction s using replace_induction hne with
  | nil =>
      have hstart : ¬ old <+: b :: t := by
        obtain ⟨c, u, rfl⟩ := List.exists_cons_of_ne_nil hne
        intro hprefix
        exact hb ((List.cons_prefix_cons.1 hprefix).1 ▸ List.mem_cons_self)
      rw [List.nil_append, replace_cons new hne hstart, replace_nil new hne, List.nil_append]
  | found s ih =>
      rw [List.append_assoc, replace_append_self new hne, replace_append_self new hne, ih,
        List.append_assoc]
  | kept c s hstart ih =>
      have hstart' : ¬ old <+: c :: (s ++ b :: t) := by
        rw [← List.cons_append]
        intro hprefix
        rcases isPrefix_append_cases hprefix with h | ⟨d, v, rfl, hv⟩
        · exact hstart h
        · obtain ⟨rfl, -⟩ := List.cons_prefix_cons.1 hv
          exact hb (by simp)
      rw [List.cons_append, replace_cons new hne hstart', replace_cons new hne hstart, ih,
        List.cons_append]

/-- A byte that is neither in the text nor in the replacement does not come up. -/
theorem not_mem_replace {b : UInt8} (hb : b ∉ new) {t : Text} (ht : b ∉ t) :
    b ∉ replace old new t := by
  induction t using replace_induction hne with
  | nil =>
      rw [replace_nil new hne]
      exact ht
  | found t ih =>
      rw [List.mem_append, not_or] at ht
      rw [replace_append_self new hne, List.mem_append, not_or]
      exact ⟨hb, ih ht.2⟩
  | kept c t hstart ih =>
      rw [List.mem_cons, not_or] at ht
      rw [replace_cons new hne hstart, List.mem_cons, not_or]
      exact ⟨ht.1, ih ht.2⟩

/-- Replacing a text that does not occur changes nothing. -/
theorem replace_eq_of_not_infix {t : Text} (h : ¬ old <:+: t) : replace old new t = t := by
  rw [replace, if_neg hne, split_eq_of_not_infix h, join,
    List.intercalate_singleton]

end Replace

/-! ### Separating bytes -/

/-- The fields of a text, put together again. -/
theorem join_split {sep : Text} (hne : sep ≠ []) (t : Text) : join sep (split sep t) = t := by
  suffices h : replace sep sep t = t by
    rwa [replace, if_neg hne] at h
  induction t using replace_induction hne with
  | nil => exact replace_nil sep hne
  | found t ih => rw [replace_append_self sep hne, ih]
  | kept b t hstart ih => rw [replace_cons sep hne hstart, ih]

/-- There is one field more than there are separating bytes. -/
theorem length_split (b : UInt8) (t : Text) : (split [b] t).length = t.count b + 1 := by
  induction t with
  | nil => rfl
  | cons c t ih =>
      by_cases hc : c = b
      · subst hc
        rw [split_cons_self, List.length_cons, ih, List.count_cons_self]
      · rw [split_cons_of_ne hc, List.length_modifyHead, ih, List.count_cons_of_ne hc]

/-- One separator makes two fields. -/
theorem split_eq_pair_iff {b : UInt8} {t l r : Text} :
    split [b] t = [l, r] ↔ t = l ++ b :: r ∧ b ∉ l ∧ b ∉ r := by
  constructor
  · intro h
    have hjoin := join_split (List.cons_ne_nil b []) t
    rw [h] at hjoin
    refine ⟨?_, not_mem_of_mem_split (t := t) (by simp [h]),
      not_mem_of_mem_split (t := t) (by simp [h])⟩
    simpa [join] using hjoin.symm
  · rintro ⟨rfl, hl, hr⟩
    rw [split_byte_append hl, split_byte_of_not_mem hr]

/-- A byte that occurs once has a text on either side without it. -/
theorem count_eq_one_iff {b : UInt8} {t : Text} :
    t.count b = 1 ↔ ∃ l r, t = l ++ b :: r ∧ b ∉ l ∧ b ∉ r := by
  rw [← Nat.succ_inj, Nat.succ_eq_add_one, ← length_split, List.length_eq_two]
  simp only [split_eq_pair_iff]

/-- The last field ends with the last byte, if this is not the separating one. -/
theorem split_concat {b c : UInt8} (hc : c ≠ b) (t : Text) :
    ∃ ls r, split [b] (t ++ [c]) = ls ++ [r ++ [c]] := by
  induction t with
  | nil => exact ⟨[], [], split_byte_of_not_mem (by simpa using Ne.symm hc)⟩
  | cons d t ih =>
      obtain ⟨ls, r, h⟩ := ih
      by_cases hd : d = b
      · subst hd
        exact ⟨[] :: ls, r, by rw [List.cons_append, split_cons_self, h, List.cons_append]⟩
      · rw [List.cons_append, split_cons_of_ne hd, h]
        cases ls with
        | nil => exact ⟨[], d :: r, rfl⟩
        | cons l ls => exact ⟨(d :: l) :: ls, r, rfl⟩

/-- A separator at the end is dropped. -/
theorem fields_concat_self (b : UInt8) (t : Text) : fields [b] (t ++ [b]) = fields [b] t := by
  show (split [b] (t ++ b :: [])).rdropWhile List.isEmpty = _
  rw [split_append_byte]
  exact List.rdropWhile_concat_pos List.isEmpty (split [b] t) [] rfl

/-- With another byte at the end nothing is dropped. -/
theorem fields_concat_of_ne {b c : UInt8} (hc : c ≠ b) (t : Text) :
    fields [b] (t ++ [c]) = split [b] (t ++ [c]) := by
  obtain ⟨ls, r, h⟩ := split_concat hc t
  show (split [b] (t ++ [c])).rdropWhile List.isEmpty = _
  rw [h]
  exact List.rdropWhile_concat_neg List.isEmpty ls _ (by simp)

/-- A text has two fields exactly if the separating byte stands in it once, not counting
those at its end. -/
theorem fields_eq_pair_iff {b : UInt8} {t l r : Text} :
    fields [b] t = [l, r] ↔ dropTrailing (· == b) t = l ++ b :: r ∧ b ∉ l ∧ b ∉ r := by
  -- The last byte is dropped on both sides, or it ends the last field on both sides.
  induction t using List.reverseRecOn with
  | nil => simp [fields, dropTrailing, split, fieldsFrom]
  | append_singleton t c ih =>
      by_cases hc : c = b
      · subst hc
        have hdrop : dropTrailing (· == c) (t ++ [c]) = dropTrailing (· == c) t :=
          List.rdropWhile_concat_pos _ t c (beq_self_eq_true c)
        rw [fields_concat_self, hdrop, ih]
      · have hdrop : dropTrailing (· == b) (t ++ [c]) = t ++ [c] :=
          List.rdropWhile_concat_neg _ t c (by simpa using hc)
        rw [fields_concat_of_ne hc, hdrop, split_eq_pair_iff]

/-! ### White space -/

/-- The ASCII characters that are white space. -/
def isBlank (b : UInt8) : Bool := b == 32 || 9 ≤ b && b ≤ 13

/-- The ASCII characters that are not white space. -/
def isSolid (b : UInt8) : Bool := b < 128 && !isBlank b

/-- An ASCII blank, or a text that begins with a byte beyond ASCII. -/
def isBlankMark : Text → Bool
  | [] => false
  | b :: t => !isSolid b && (!isBlank b || t.isEmpty)

/-- What is common to the blanks and to the blanks read backwards: the one-byte
ones are the ASCII blanks, and the others begin with a byte beyond ASCII. -/
structure BlankMarks (marks : List Text) : Prop where
  blank : ∀ b, isBlank b = true → [b] ∈ marks
  mark : ∀ m ∈ marks, isBlankMark m = true

theorem mem_blanks_of_isBlank : ∀ b, isBlank b = true → [b] ∈ blanks := by
  decide +kernel

theorem blankMarks_blanks : BlankMarks blanks :=
  ⟨mem_blanks_of_isBlank, by decide⟩

theorem blankMarks_reverse : BlankMarks (blanks.map List.reverse) :=
  ⟨fun b hb => List.mem_map_of_mem (mem_blanks_of_isBlank b hb), by decide⟩

namespace BlankMarks

variable {marks : List Text} (hm : BlankMarks marks)
include hm

/-- At a solid byte nothing is dropped. -/
theorem dropMarks_solid {b : UInt8} (hb : isSolid b = true) (t : Text) :
    dropMarksFrom marks 0 (b :: t) = b :: t := by
  have hnone : marks.find? (·.isPrefixOf (b :: t)) = none := by
    rw [List.find?_eq_none]
    intro m hmem hp
    have hmark := hm.mark m hmem
    cases m with
    | nil => cases hmark
    | cons c u =>
        obtain ⟨rfl, -⟩ := List.cons_prefix_cons.1 (List.isPrefixOf_iff_prefix.1 hp)
        simp [isBlankMark, hb] at hmark
  rw [dropMarksFrom, markWidth, hnone]

/-- A blank byte is a mark of its own, and nothing longer begins with it. -/
theorem dropMarks_blank {b : UInt8} (hb : isBlank b = true) (t : Text) :
    dropMarksFrom marks 0 (b :: t) = dropMarksFrom marks 0 t := by
  have hsome : marks.find? (·.isPrefixOf (b :: t)) = some [b] := by
    cases hfind : marks.find? (·.isPrefixOf (b :: t)) with
    | none =>
        have hno := List.find?_eq_none.1 hfind [b] (hm.blank b hb)
        simp at hno
    | some m =>
        have hp := List.find?_some hfind
        have hmark := hm.mark m (List.mem_of_find?_eq_some hfind)
        cases m with
        | nil => cases hmark
        | cons c u =>
            obtain ⟨rfl, -⟩ :=
              List.cons_prefix_cons.1 (List.isPrefixOf_iff_prefix.1 hp)
            obtain ⟨-, hu⟩ : isSolid c = false ∧ u = [] := by
              simpa [isBlankMark, hb] using hmark
            rw [hu]
  rw [dropMarksFrom, markWidth, hsome]
  rfl

/-- So blank bytes in a row are dropped. -/
theorem dropMarks_append {u : Text} (hu : ∀ b ∈ u, isBlank b = true) (t : Text) :
    dropMarksFrom marks 0 (u ++ t) = dropMarksFrom marks 0 t := by
  induction u with
  | nil => rfl
  | cons b u ih =>
      obtain ⟨hb, hu⟩ := List.forall_mem_cons.1 hu
      rw [List.cons_append, hm.dropMarks_blank hb, ih hu]

end BlankMarks

/-- A text that begins and ends with solid bytes. -/
structure SolidEnds (t : Text) : Prop where
  first : ∃ b, t.head? = some b ∧ isSolid b = true
  last : ∃ b, t.getLast? = some b ∧ isSolid b = true

/-- White space around a text that begins and ends with solid bytes is what
trimming takes off. -/
theorem trim_padded {u t v : Text} (hu : ∀ b ∈ u, isBlank b = true)
    (ht : SolidEnds t) (hv : ∀ b ∈ v, isBlank b = true) :
    trim (u ++ t ++ v) = t := by
  obtain ⟨⟨b, hb, hsb⟩, ⟨c, hc, hsc⟩⟩ := ht
  have hleft : trimLeft (u ++ t ++ v) = t ++ v := by
    obtain ⟨r, rfl⟩ := List.head?_eq_some_iff.1 hb
    rw [trimLeft, List.append_assoc, blankMarks_blanks.dropMarks_append hu,
      List.cons_append, blankMarks_blanks.dropMarks_solid hsb]
  have hright : trimRight (t ++ v) = t := by
    obtain ⟨r, rfl⟩ := List.getLast?_eq_some_iff.1 hc
    have hv' : ∀ b ∈ v.reverse, isBlank b = true := by simpa using hv
    rw [trimRight, List.reverse_append, blankMarks_reverse.dropMarks_append hv',
      List.reverse_append, List.reverse_singleton, List.singleton_append,
      blankMarks_reverse.dropMarks_solid hsc]
    simp
  rw [trim, hleft, hright]

/-- Between two solid bytes nothing is trimmed. -/
theorem trim_eq_self {t : Text} (ht : SolidEnds t) : trim t = t := by
  have h := trim_padded (u := []) (v := []) (by simp) ht (by simp)
  simpa using h

end Text

end LineScript
