/-
LineScript/Proofs/Trimming.lean

Taking white space off a text.  Only the first byte of a blank begins one, and it tells how
many bytes there are (`isEncoded`).  So the bytes of no blank begin with those of another,
and it is the same with the blanks read backwards (`Code`): there is only one way to take
blanks off an end, `Stripped`, which has one rule for each blank that goes.  A blank behind
a text that does not begin with one does not make a blank at its beginning, so the two ends
do not interfere, although blanks have up to three bytes.

Main results: a blank at the end makes no difference to trimming (`trim_append_blank`),
whence white space may be taken off the end before (`trim_trimRight`) and trimming twice
is trimming once (`trim_trim`); white space on the right is behind the last solid byte
(`trimRight_append_solid`).  White space is blanks one after another (`IsWhite`), and it
makes no difference on either side (`trim_append_white`, `trim_white_append`).
-/
import LineScript.Proofs.Texts
import Mathlib.Data.List.Basic

namespace LineScript

namespace Text

/-! ### Taking marks off the beginning -/

/-- No mark is empty or begins with another one. -/
structure Code (marks : List Text) : Prop where
  ne_nil : ∀ m ∈ marks, m ≠ []
  eq_of_isPrefix : ∀ m ∈ marks, ∀ m' ∈ marks, m <+: m' → m = m'

/-- Taking marks off the beginning of a text, one at a time, until it does not begin
with any. -/
inductive Stripped (marks : List Text) : Text → Text → Prop where
  | bare {t : Text} : (∀ m ∈ marks, ¬ m <+: t) → Stripped marks t t
  | mark {m t r : Text} : m ∈ marks → Stripped marks t r → Stripped marks (m ++ t) r

variable {marks : List Text} {t r : Text}

/-- No mark is left at the front. -/
theorem Stripped.not_isPrefix (h : Stripped marks t r) : ∀ m ∈ marks, ¬ m <+: r := by
  induction h with
  | bare hbare => exact hbare
  | mark _ _ ih => exact ih

/-- The rest of a mark is passed over. -/
theorem dropMarksFrom_eq_drop (marks : List Text) (n : Nat) (t : Text) :
    dropMarksFrom marks n t = dropMarksFrom marks 0 (t.drop n) := by
  induction t generalizing n with
  | nil =>
      rw [List.drop_nil]
      rfl
  | cons b t ih =>
      cases n with
      | zero => rfl
      | succ n => exact ih n

/-- Where no mark begins, nothing is dropped. -/
theorem dropMarks_eq_self (h : ∀ m ∈ marks, ¬ m <+: t) : dropMarksFrom marks 0 t = t := by
  have hnone : marks.find? (·.isPrefixOf t) = none := by
    rw [List.find?_eq_none]
    intro m hm hp
    exact h m hm (List.isPrefixOf_iff_prefix.1 hp)
  cases t with
  | nil => rfl
  | cons b t => rw [dropMarksFrom, markWidth, hnone]

namespace Code

variable (hcode : Code marks)
include hcode

/-- In a code, the mark that is found is the one that was put there. -/
theorem find?_append {m : Text} (hm : m ∈ marks) (t : Text) :
    marks.find? (·.isPrefixOf (m ++ t)) = some m := by
  cases hfind : marks.find? (·.isPrefixOf (m ++ t)) with
  | none =>
      have hno := List.find?_eq_none.1 hfind m hm
      simp at hno
  | some m' =>
      have hm' := List.mem_of_find?_eq_some hfind
      have hfound := List.find?_some hfind
      have hprefix : m' <+: m ++ t := List.isPrefixOf_iff_prefix.1 hfound
      -- of two beginnings of one text, one is a beginning of the other
      rcases List.prefix_or_prefix_of_prefix hprefix (List.prefix_append m t) with h | h
      · rw [hcode.eq_of_isPrefix m' hm' m hm h]
      · rw [hcode.eq_of_isPrefix m hm m' hm' h]

/-- So it is dropped as a whole. -/
theorem dropMarks_mark {m : Text} (hm : m ∈ marks) (t : Text) :
    dropMarksFrom marks 0 (m ++ t) = dropMarksFrom marks 0 t := by
  have hfind := hcode.find?_append hm t
  obtain ⟨b, u, rfl⟩ := List.exists_cons_of_ne_nil (hcode.ne_nil m hm)
  rw [List.cons_append] at hfind ⊢
  rw [dropMarksFrom, markWidth, hfind]
  show dropMarksFrom marks u.length (u ++ t) = _
  rw [dropMarksFrom_eq_drop, List.drop_left]

/-- Nothing can be taken off the empty text. -/
theorem not_isPrefix_nil : ∀ m ∈ marks, ¬ m <+: [] :=
  fun m hm hprefix => hcode.ne_nil m hm (List.prefix_nil.1 hprefix)

/-- There is one way to take marks off the beginning. -/
theorem stripped_iff : Stripped marks t r ↔ dropMarksFrom marks 0 t = r := by
  constructor
  · intro h
    induction h with
    | bare hbare => exact dropMarks_eq_self hbare
    | mark hm _ ih => rw [hcode.dropMarks_mark hm, ih]
  · rintro rfl
    induction hn : t.length using Nat.strong_induction_on generalizing t with
    | _ n ih =>
        subst hn
        by_cases hbare : ∀ m ∈ marks, ¬ m <+: t
        · rw [dropMarks_eq_self hbare]
          exact .bare hbare
        · push Not at hbare
          obtain ⟨m, hm, u, rfl⟩ := hbare
          have hpos := List.length_pos_iff.2 (hcode.ne_nil m hm)
          rw [hcode.dropMarks_mark hm]
          exact .mark hm (ih u.length (by rw [List.length_append]; omega) rfl)

theorem stripped (t : Text) : Stripped marks t (dropMarksFrom marks 0 t) :=
  hcode.stripped_iff.2 rfl

end Code

/-- What stands behind a byte that no mark has remains as it is. -/
theorem Stripped.append_cons (h : Stripped marks t r) {b : UInt8}
    (hb : ∀ m ∈ marks, b ∉ m) (u : Text) : Stripped marks (t ++ b :: u) (r ++ b :: u) := by
  induction h with
  | @bare t hbare =>
      refine .bare fun m hm hprefix => ?_
      rcases isPrefix_append_cases hprefix with h | ⟨c, v, rfl, hv⟩
      · exact hbare m hm h
      · obtain ⟨rfl, -⟩ := List.cons_prefix_cons.1 hv
        exact hb _ hm (by simp)
  | mark hm _ ih =>
      rw [List.append_assoc]
      exact .mark hm ih

/-! ### Blanks -/

/-- The bytes of an encoded character behind its first. -/
def isContinuation (b : UInt8) : Bool := 128 ≤ b && b < 192

/-- The number of bytes of an encoded character, which its first byte tells. -/
def encodedLength (b : UInt8) : Nat :=
  if b < 128 then 1 else if b < 224 then 2 else 3

/-- One encoded character. -/
def isEncoded : Text → Bool
  | [] => false
  | b :: u => !isContinuation b && u.all isContinuation && u.length + 1 == encodedLength b

theorem isEncoded_of_blank : ∀ m ∈ blanks, isEncoded m = true := by
  decide

/-- A blank is one encoded character: a leading byte that tells its length, and continuations.
-/
theorem exists_bytes_of_blank {m : Text} (hm : m ∈ blanks) :
    ∃ b u, m = b :: u ∧ isContinuation b = false ∧ (∀ c ∈ u, isContinuation c = true) ∧
      u.length + 1 = encodedLength b := by
  have hencoded := isEncoded_of_blank m hm
  cases m with
  | nil => cases hencoded
  | cons b u =>
      simp only [isEncoded, Bool.and_eq_true, Bool.not_eq_true', List.all_eq_true,
        beq_iff_eq] at hencoded
      exact ⟨b, u, rfl, hencoded.1.1, hencoded.1.2, hencoded.2⟩

theorem ne_nil_of_blank {m : Text} (hm : m ∈ blanks) : m ≠ [] := by
  obtain ⟨b, u, rfl, -⟩ := exists_bytes_of_blank hm
  exact List.cons_ne_nil b u

/-- No blank begins another one. -/
theorem code_blanks : Code blanks := by
  refine ⟨fun m hm => ne_nil_of_blank hm, fun m hm m' hm' hprefix => ?_⟩
  obtain ⟨b, u, rfl, -, -, hlength⟩ := exists_bytes_of_blank hm
  obtain ⟨b', u', rfl, -, -, hlength'⟩ := exists_bytes_of_blank hm'
  -- the same first byte, hence the same length
  obtain ⟨rfl, htail⟩ := List.cons_prefix_cons.1 hprefix
  rw [htail.eq_of_length (by omega)]

/-- The first byte of a blank is not a later byte of one. -/
theorem head_not_mem_tail_of_blank :
    ∀ m ∈ blanks, ∀ m' ∈ blanks, m.headD 0 ∉ m'.tail := by
  intro m hm m' hm' hmem
  obtain ⟨b, u, rfl, hfirst, -⟩ := exists_bytes_of_blank hm
  obtain ⟨b', u', rfl, -, hlater, -⟩ := exists_bytes_of_blank hm'
  have hcontinuation : isContinuation b = true := hlater b hmem
  rw [hfirst] at hcontinuation
  cases hcontinuation

/-- Nor does one end another, since leading bytes are not continuations. -/
theorem code_reverse_blanks : Code (blanks.map List.reverse) := by
  refine ⟨?_, ?_⟩
  · rw [List.forall_mem_map]
    exact fun m hm => mt List.reverse_eq_nil_iff.1 (ne_nil_of_blank hm)
  · simp only [List.forall_mem_map]
    intro m hm m' hm' hprefix
    obtain ⟨s, rfl⟩ := List.reverse_prefix.1 hprefix
    cases s with
    | nil => rfl
    | cons a s =>
        -- the first byte of the shorter one would be a later byte of the other
        obtain ⟨b, u, rfl, -⟩ := exists_bytes_of_blank hm
        exact absurd (by simp) (head_not_mem_tail_of_blank _ hm _ hm')

/-- There is no solid byte in a blank. -/
theorem not_mem_of_isSolid {b : UInt8} (hb : isSolid b = true) : ∀ m ∈ blanks, b ∉ m := by
  intro m hm hmem
  have hnone : ∀ m ∈ blanks, m.all (fun b => !isSolid b) = true := by decide
  have hnot := List.all_eq_true.1 (hnone m hm) b hmem
  rw [hb] at hnot
  cases hnot

theorem stripped_trimLeft (t : Text) : Stripped blanks t (trimLeft t) :=
  code_blanks.stripped t

/-- A blank behind a text does not change what it begins with. -/
theorem not_isPrefix_append_blank {m : Text} (hm : m ∈ blanks) (hne : t ≠ [])
    (hbare : ∀ m ∈ blanks, ¬ m <+: t) : ∀ m' ∈ blanks, ¬ m' <+: t ++ m := by
  intro m' hm' hprefix
  rcases isPrefix_append_cases hprefix with h | ⟨c, v, rfl, w, rfl⟩
  · exact hbare m' hm' h
  · -- the first byte of the blank is a later byte of the other one
    obtain ⟨b, u, rfl⟩ := List.exists_cons_of_ne_nil hne
    exact head_not_mem_tail_of_blank _ hm _ hm' (by simp)

/-- A blank at the end stays, unless nothing is left in front of it. -/
theorem Stripped.append_blank (h : Stripped blanks t r) {m : Text} (hm : m ∈ blanks) :
    Stripped blanks (t ++ m) (if r = [] then [] else r ++ m) := by
  induction h with
  | @bare t hbare =>
      split
      · next hnil =>
          rw [hnil, List.nil_append, ← List.append_nil m]
          exact .mark hm (.bare code_blanks.not_isPrefix_nil)
      · next hne => exact .bare (not_isPrefix_append_blank hm hne hbare)
  | mark hm' _ ih =>
      rw [List.append_assoc]
      exact .mark hm' ih

/-! ### Both ends -/

theorem Stripped.isSuffix (h : Stripped marks t r) : r <:+ t := by
  induction h with
  | bare => exact List.suffix_rfl
  | @mark m _ _ _ _ ih => exact ih.trans (List.suffix_append m _)

theorem trimLeft_isSuffix (t : Text) : trimLeft t <:+ t :=
  (stripped_trimLeft t).isSuffix

theorem trimRight_isPrefix (t : Text) : trimRight t <+: t := by
  have hsuffix := (code_reverse_blanks.stripped t.reverse).isSuffix
  rw [← List.reverse_suffix, trimRight, List.reverse_reverse]
  exact hsuffix

/-- What is left by trimming is a part of the text. -/
theorem trim_isInfix (t : Text) : trim t <:+: t :=
  (trimRight_isPrefix (trimLeft t)).isInfix.trans (trimLeft_isSuffix t).isInfix

/-- From the right it is dropped. -/
theorem trimRight_append_blank (t : Text) {m : Text} (hm : m ∈ blanks) :
    trimRight (t ++ m) = trimRight t := by
  rw [trimRight, List.reverse_append,
    code_reverse_blanks.dropMarks_mark (List.mem_map_of_mem hm)]
  rfl

/-- A blank at the end makes no difference to trimming. -/
theorem trim_append_blank (t : Text) {m : Text} (hm : m ∈ blanks) : trim (t ++ m) = trim t := by
  have hleft : trimLeft (t ++ m) = if trimLeft t = [] then [] else trimLeft t ++ m :=
    code_blanks.stripped_iff.1 ((stripped_trimLeft t).append_blank hm)
  unfold trim
  rw [hleft]
  split
  · next hnil => rw [hnil]
  · exact trimRight_append_blank _ hm

/-- Trimming the right side first makes no difference. -/
theorem trim_trimRight (t : Text) : trim (trimRight t) = trim t := by
  have hback : ∀ {u r : Text}, Stripped (blanks.map List.reverse) u r →
      trim r.reverse = trim u.reverse := by
    intro u r h
    induction h with
    | bare => rfl
    | mark hm _ ih =>
        obtain ⟨m, hblank, rfl⟩ := List.mem_map.1 hm
        rw [List.reverse_append, List.reverse_reverse, trim_append_blank _ hblank, ih]
  have h := hback (code_reverse_blanks.stripped t.reverse)
  rwa [List.reverse_reverse] at h

theorem trimLeft_trimLeft (t : Text) : trimLeft (trimLeft t) = trimLeft t :=
  dropMarks_eq_self (stripped_trimLeft t).not_isPrefix

/-- Trimming leaves nothing to trim. -/
theorem trim_trim (t : Text) : trim (trim t) = trim t := by
  calc trim (trim t) = trim (trimLeft t) := trim_trimRight (trimLeft t)
    _ = trim t := by rw [trim, trim, trimLeft_trimLeft]

/-- The white space on the right of a text is behind its solid bytes. -/
theorem trimRight_append_solid (u : Text) {b : UInt8} (hb : isSolid b = true) (t : Text) :
    trimRight (u ++ b :: t) = u ++ b :: trimRight t := by
  have hmarks : ∀ m ∈ blanks.map List.reverse, b ∉ m := by
    intro m hm
    obtain ⟨m, hblank, rfl⟩ := List.mem_map.1 hm
    rw [List.mem_reverse]
    exact not_mem_of_isSolid hb m hblank
  have h := (code_reverse_blanks.stripped t.reverse).append_cons hmarks u.reverse
  have hdrop := code_reverse_blanks.stripped_iff.1 h
  rw [trimRight, trimRight, List.reverse_append, List.reverse_cons, List.append_assoc,
    List.singleton_append, hdrop, List.reverse_append, List.reverse_cons, List.reverse_reverse,
    List.append_assoc, List.singleton_append]

/-- The white space on the left of a text is in front of its solid bytes. -/
theorem trimLeft_append_solid (s : Text) {b : UInt8} (hb : isSolid b = true) (u : Text) :
    trimLeft (s ++ b :: u) = trimLeft s ++ b :: u :=
  code_blanks.stripped_iff.1 ((stripped_trimLeft s).append_cons (not_mem_of_isSolid hb) u)

/-- White space around a solid byte is taken off what stands in front of it and behind it. -/
theorem trim_append_cons (s : Text) {b : UInt8} (hb : isSolid b = true) (t : Text) :
    trim (s ++ b :: t) = trimLeft s ++ b :: trimRight t := by
  rw [trim, trimLeft_append_solid s hb, trimRight_append_solid _ hb]

/-- White space around a text that begins and ends with solid bytes is taken off what stands
in front of it and behind it. -/
theorem trim_append_append (s : Text) {c : Text} (hc : SolidEnds c) (t : Text) :
    trim (s ++ c ++ t) = trimLeft s ++ c ++ trimRight t := by
  obtain ⟨⟨a, ha, hsa⟩, ⟨b, hb, hsb⟩⟩ := hc
  have hleft : trimLeft (s ++ c ++ t) = trimLeft s ++ c ++ t := by
    obtain ⟨u, rfl⟩ := List.head?_eq_some_iff.1 ha
    rw [List.append_assoc, List.cons_append, trimLeft_append_solid s hsa, List.append_assoc,
      List.cons_append]
  have hright : trimRight (trimLeft s ++ c ++ t) = trimLeft s ++ c ++ trimRight t := by
    obtain ⟨u, rfl⟩ := List.getLast?_eq_some_iff.1 hb
    have h := trimRight_append_solid (trimLeft s ++ u) hsb t
    simpa only [List.append_assoc, List.singleton_append] using h
  rw [trim, hleft, hright]

/-- A text with a solid byte in front keeps what is up to a solid byte. -/
theorem trim_append_solid {a : UInt8} (ha : isSolid a = true) (u : Text) {b : UInt8}
    (hb : isSolid b = true) (t : Text) :
    trim (a :: u ++ b :: t) = a :: u ++ b :: trimRight t := by
  rw [trim, trimLeft, List.cons_append, blankMarks_blanks.dropMarks_solid ha,
    ← List.cons_append, trimRight_append_solid _ hb]

/-! ### White space -/

/-- Nothing but blanks. -/
def IsWhite (u : Text) : Prop := trimLeft u = []

instance (u : Text) : Decidable (IsWhite u) :=
  inferInstanceAs (Decidable (trimLeft u = []))

/-- White space is blanks in a row. -/
theorem IsWhite.exists_blanks {u : Text} (hu : IsWhite u) :
    ∃ ms : List Text, (∀ m ∈ ms, m ∈ blanks) ∧ u = ms.flatten := by
  have hstripped := stripped_trimLeft u
  rw [hu] at hstripped
  generalize hr : ([] : Text) = r at hstripped
  clear hu
  induction hstripped with
  | bare => exact ⟨[], List.forall_mem_nil _, hr.symm⟩
  | @mark m _ _ hm _ ih =>
      obtain ⟨ms, hms, rfl⟩ := ih hr
      exact ⟨m :: ms, List.forall_mem_cons.2 ⟨hm, hms⟩, rfl⟩

/-- There is no solid byte in white space. -/
theorem IsWhite.not_mem {u : Text} (hu : IsWhite u) {b : UInt8} (hb : isSolid b = true) :
    b ∉ u := by
  obtain ⟨ms, hms, rfl⟩ := hu.exists_blanks
  intro hmem
  obtain ⟨m, hm, hbm⟩ := List.mem_flatten.1 hmem
  exact not_mem_of_isSolid hb m (hms m hm) hbm

/-- White space at the end does not matter. -/
theorem trim_append_white (t : Text) {u : Text} (hu : IsWhite u) : trim (t ++ u) = trim t := by
  obtain ⟨ms, hms, rfl⟩ := hu.exists_blanks
  clear hu
  induction ms generalizing t with
  | nil => rw [List.flatten_nil, List.append_nil]
  | cons m ms ih =>
      obtain ⟨hm, hms⟩ := List.forall_mem_cons.1 hms
      rw [List.flatten_cons, ← List.append_assoc, ih _ hms, trim_append_blank t hm]

/-- Nor does white space in front. -/
theorem trim_white_append {u : Text} (hu : IsWhite u) (t : Text) : trim (u ++ t) = trim t := by
  have hleft : trimLeft (u ++ t) = trimLeft t := by
    obtain ⟨ms, hms, rfl⟩ := hu.exists_blanks
    clear hu
    induction ms with
    | nil => rfl
    | cons m ms ih =>
        obtain ⟨hm, hms⟩ := List.forall_mem_cons.1 hms
        rw [List.flatten_cons, List.append_assoc]
        exact (code_blanks.dropMarks_mark hm _).trans (ih hms)
  rw [trim, hleft, trim]

end Text

end LineScript
