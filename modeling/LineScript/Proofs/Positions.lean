/-
LineScript/Proofs/Positions.lean

Statements by the positions of their parts.  The parts of a statement can be taken from a
line by positions, which are where a delimiter stands first, or are counted from either end
of the line.  What a line begins with, what it ends with and what occurs in it are
tested apart from each other, and may be the same bytes.  So a part could turn out to end
before it begins, or to lie outside the line.

`byPositions` recognises statements in this way, and gives up (`outOfRange`) as soon as a
part is not within the line.  It never does: each form has its parts where it looks for them
(`declarationAt_eq` and so on), and they are the parts that `ofLine` finds.

Main result: `byPositions_eq_ofLine`.
-/
import LineScript.Proofs.Texts
import LineScript.Statement.Basic

namespace LineScript

namespace Text

/-! ### Positions -/

/-- The position at which a piece stands first in a text, or `-1` if it does not occur. -/
def indexOf (piece t : Text) : Int :=
  match (List.range (t.length + 1)).find? fun i => piece.isPrefixOf (t.drop i) with
  | some i => i
  | none => -1

/-- The bytes of a text from one position up to another, if these are positions of the text
and in order. -/
def slice? (low high : Int) (t : Text) : Option Text :=
  if 0 ≤ low ∧ low ≤ high ∧ high ≤ t.length then some ((t.take high.toNat).drop low.toNat)
  else none

/-- A slice between the lengths of what stands in front is what stands there. -/
theorem slice?_eq {t l m r : Text} {low high : Int} (ht : t = l ++ (m ++ r))
    (hlow : low = l.length) (hhigh : high = l.length + m.length) : slice? low high t = some m := by
  have hrange : 0 ≤ low ∧ low ≤ high ∧ high ≤ t.length := by
    rw [ht, List.length_append, List.length_append]
    omega
  have hto : high.toNat = (l ++ m).length := by
    rw [List.length_append]
    omega
  have hfrom : low.toNat = l.length := by omega
  rw [slice?, if_pos hrange, hto, hfrom, ht, ← List.append_assoc, List.take_left, List.drop_left]

/-- What does not occur has no position. -/
theorem indexOf_eq_neg_one {piece t : Text} (h : ¬ piece <:+: t) : indexOf piece t = -1 := by
  have hnone : (List.range (t.length + 1)).find? (fun i => piece.isPrefixOf (t.drop i)) = none := by
    rw [List.find?_eq_none]
    intro i _ hi
    rw [List.isPrefixOf_iff_prefix] at hi
    exact h (hi.isInfix.trans (List.drop_suffix i t).isInfix)
  rw [indexOf, hnone]

/-- A piece begins nowhere in what stands before the place where a text is divided at it. -/
theorem not_prefix_drop_of_cut? {piece t l r : Text} (h : cut? piece t = some (l, r)) :
    ∀ i < l.length, ¬ piece <+: t.drop i := by
  induction t generalizing l r with
  | nil =>
      obtain ⟨u, -, hpair⟩ := Option.map_eq_some_iff.1 h
      obtain ⟨rfl, -⟩ := Prod.mk.inj hpair
      exact fun i hi => absurd hi (Nat.not_lt_zero i)
  | cons b t ih =>
      rw [cut?] at h
      split at h
      · obtain ⟨rfl, -⟩ := Prod.mk.inj (Option.some.inj h)
        exact fun i hi => absurd hi (Nat.not_lt_zero i)
      · next hstart =>
          obtain ⟨⟨l', r'⟩, hcut, hpair⟩ := Option.map_eq_some_iff.1 h
          obtain ⟨rfl, -⟩ := Prod.mk.inj hpair
          intro i hi
          cases i with
          | zero => exact after?_eq_none_iff.1 hstart
          | succ i => exact ih hcut i (Nat.lt_of_succ_lt_succ hi)

/-- A text is divided at the position where the piece stands first. -/
theorem indexOf_of_cut? {piece t l r : Text} (h : cut? piece t = some (l, r)) :
    indexOf piece t = l.length := by
  have ht : t = l ++ (piece ++ r) := eq_of_cut? h
  have hsome : (List.range (t.length + 1)).find? (fun i => piece.isPrefixOf (t.drop i)) =
      some l.length := by
    rw [List.find?_range_eq_some]
    refine ⟨?_, ?_, ?_⟩
    · rw [List.isPrefixOf_iff_prefix, ht, List.drop_left]
      exact List.prefix_append piece r
    · rw [List.mem_range, ht, List.length_append]
      omega
    · intro i hi
      rw [Bool.not_eq_true', ← Bool.not_eq_true, List.isPrefixOf_iff_prefix]
      exact not_prefix_drop_of_cut? h i hi
  rw [indexOf, hsome]

/-- What occurs has one. -/
theorem indexOf_nonneg_iff {piece t : Text} : 0 ≤ indexOf piece t ↔ occursIn piece t = true := by
  cases h : cut? piece t with
  | none =>
      rw [indexOf_eq_neg_one (cut?_eq_none_iff.1 h), occursIn, h]
      decide
  | some parts =>
      rw [indexOf_of_cut? h, occursIn, h]
      exact iff_of_true (Int.natCast_nonneg _) rfl

/-! ### Positions in a line that begins with a given text -/

theorem isPrefix_of_after? {p t u : Text} (h : after? p t = some u) : p <+: t :=
  ⟨u, (after?_eq_some_iff.1 h).symm⟩

theorem isSuffix_of_before? {s t l : Text} (h : before? s t = some l) : s <:+ t :=
  ⟨l, (before?_eq_some_iff.1 h).symm⟩

/-- A text is not cut off at its end if it does not end so. -/
theorem before?_eq_none_iff {s t : Text} : before? s t = none ↔ ¬ s <:+ t := by
  rw [Option.eq_none_iff_forall_ne_some]
  constructor
  · rintro h ⟨l, rfl⟩
    exact h l (before?_append l s)
  · intro h l hl
    exact h ⟨l, (before?_eq_some_iff.1 hl).symm⟩

section Behind

variable {b : UInt8} {piece p t u l r : Text} (hp : after? p t = some u)
include hp

/-- A piece is found behind what its first byte does not stand in. -/
theorem cut?_of_after? (hb : b ∉ p) (h : cut? (b :: piece) u = some (l, r)) :
    cut? (b :: piece) t = some (p ++ l, r) := by
  obtain rfl := after?_eq_some_iff.1 hp
  clear hp
  induction p with
  | nil => exact h
  | cons c p ih =>
      obtain ⟨hc, hb⟩ := not_or.1 (mt List.mem_cons.2 hb)
      have hstart : after? (b :: piece) (c :: (p ++ u)) = none :=
        after?_eq_none_iff.2 fun hprefix => hc (List.cons_prefix_cons.1 hprefix).1
      rw [List.cons_append, cut?, hstart, ih hb]
      rfl

/-- A position behind a beginning is counted from the front of the line. -/
theorem indexOf_of_after? (hb : b ∉ p) (h : cut? (b :: piece) u = some (l, r)) :
    indexOf (b :: piece) t = p.length + l.length := by
  rw [indexOf_of_cut? (cut?_of_after? hp hb h), List.length_append, Int.natCast_add]

theorem indexOf_nonneg_of_after? (hb : b ∉ p) (h : cut? (b :: piece) u = some (l, r)) :
    0 ≤ indexOf (b :: piece) t := by
  rw [indexOf_of_after? hp hb h]
  omega

/-- What does not occur behind the beginning does not occur at all. -/
theorem indexOf_of_after?_of_eq_none (hb : b ∉ p) (h : cut? (b :: piece) u = none) :
    indexOf (b :: piece) t = -1 := by
  obtain rfl := after?_eq_some_iff.1 hp
  exact indexOf_eq_neg_one (not_infix_append_of_head hb (cut?_eq_none_iff.1 h))

/-- The bytes up to where a piece stands first. -/
theorem slice?_before (hb : b ∉ p) (h : cut? (b :: piece) u = some (l, r)) :
    slice? p.length (indexOf (b :: piece) t) t = some l := by
  have hindex := indexOf_of_after? hp hb h
  obtain rfl := after?_eq_some_iff.1 hp
  exact slice?_eq (congrArg (p ++ ·) (eq_of_cut? h)) rfl hindex

/-- The bytes behind the first place of a byte. -/
theorem slice?_behind (hb : b ∉ p) (h : cut? [b] u = some (l, r)) :
    slice? (indexOf [b] t + 1) t.length t = some r := by
  have ht : t = (p ++ (l ++ [b])) ++ (r ++ []) := by
    simp [after?_eq_some_iff.1 hp, eq_of_cut? h]
  refine slice?_eq ht ?_ ?_
  · rw [indexOf_of_after? hp hb h]
    simp only [List.length_append, List.length_singleton]
    omega
  · rw [ht]
    simp only [List.length_append, List.length_singleton, List.length_nil]
    omega

/-- The bytes in front of the last one. -/
theorem slice?_before_last (h : before? [b] u = some l) :
    slice? p.length (t.length - 1) t = some l := by
  obtain rfl := before?_eq_some_iff.1 h
  obtain rfl := after?_eq_some_iff.1 hp
  refine slice?_eq rfl rfl ?_
  simp only [List.length_append, List.length_singleton]
  omega

/-- The last byte is not one of the text in front, which ends with another one. -/
theorem singleton_suffix_iff (hlast : p.getLast? ≠ some b) : [b] <:+ t ↔ [b] <:+ u := by
  obtain rfl := after?_eq_some_iff.1 hp
  rw [List.singleton_suffix_iff_getLast?_eq_some, List.singleton_suffix_iff_getLast?_eq_some,
    List.getLast?_append, Option.or_eq_some_iff]
  simp [hlast]

end Behind

end Text

namespace Statement

open Text

/-! ### Forms by positions -/

/-- What comes of trying a form on a line. -/
inductive Attempt where
  /-- The line is not of the form. -/
  | other
  /-- A part of the form is looked for outside the line. -/
  | outOfRange
  /-- The line is a statement of the form. -/
  | found (s : Statement)
  deriving DecidableEq

namespace Attempt

/-- A statement made of parts of a line, if all of these are within it. -/
def ofParts : Option Statement → Attempt
  | some s => found s
  | none => outOfRange

/-- A form that does not fail, only fit or not. -/
def ofForm : Option Statement → Attempt
  | some s => found s
  | none => other

/-- Try another form on a line that is not of the first one. -/
def orElse : Attempt → Attempt → Attempt
  | other, next => next
  | tried, _ => tried

theorem orElse_ofForm (form : Option Statement) (s : Statement) :
    (ofForm form).orElse (found s) = found (form.getD s) := by
  cases form <;> rfl

/-- Trying forms one after the other finds the first that fits. -/
theorem foldr_orElse_ofForm {α : Type} (form : α → Option Statement) (next : Attempt)
    (as : List α) :
    as.foldr (fun a rest => (ofForm (form a)).orElse rest) next =
      (ofForm (as.findSome? form)).orElse next := by
  induction as with
  | nil => rfl
  | cons a as ih =>
      rw [List.foldr_cons, ih, List.findSome?_cons]
      cases form a <;> rfl

end Attempt

open Attempt

/-- `int<x>5` and the like. -/
def declarationAt (line : Text) (type : ScalarType) : Attempt :=
  let front := type.name ++ "<"
  if front <+: line ∧ 0 ≤ indexOf ">" line then
    ofParts do
      let name ← slice? front.length (indexOf ">" line) line
      let literal ← slice? (indexOf ">" line + 1) line.length line
      return .declaration type name (trim literal)
  else other

/-- `<in>(x)`, or else `<in>(x).to<type>`. -/
def inputAt (line : Text) : Attempt :=
  if Text.ofString "<in>(" <+: line then
    if Text.ofString ")" <:+ line then
      ofParts do
        let name ← slice? 5 (line.length - 1) line
        return .input (trim name)
    else if 0 ≤ indexOf ").to<" line ∧ Text.ofString ">" <:+ line then
      ofParts do
        let name ← slice? 5 (indexOf ").to<" line) line
        let type ← slice? (indexOf ").to<" line + 5) (line.length - 1) line
        return .typedInput (trim name) (trim type)
    else other
  else other

/-- `type<x>`. -/
def typeQueryAt (line : Text) : Attempt :=
  if Text.ofString "type<" <+: line ∧ 0 ≤ indexOf ">" line then
    ofParts do
      let name ← slice? 5 (indexOf ">" line) line
      return .typeQuery name
  else other

/-- The parts of a list.  The bracket is looked for behind the name, and there must be room
for another byte behind it. -/
def listPartsAt (line : Text) : Option Statement := do
  let close := indexOf ">" line
  if close < 0 then return .malformed "list command"
  let behind ← slice? (close + 1) line.length line
  if indexOf "(" behind < 0 then return .malformed "list command"
  let bracket := indexOf "(" behind + (close + 1)
  if (line.length : Int) - 1 < bracket + 1 then return .malformed "list command"
  let name ← slice? 5 close line
  let capacity ← slice? (close + 1) bracket line
  let elements ← slice? (bracket + 1) (line.length - 1) line
  return .listDeclaration name (trim capacity) elements

/-- `list<x>capacity(elements)`. -/
def listDeclarationAt (line : Text) : Attempt :=
  if Text.ofString "list<" <+: line ∧ 0 ≤ indexOf ")" line then ofParts (listPartsAt line)
  else other

/-- `if (condition) {`, where the condition is taken from the line after `=<` has been
replaced in it. -/
def conditionalAt (line : Text) : Attempt :=
  if Text.ofString "if (" <+: line ∧ 0 ≤ indexOf ") \x7b" line then
    let normalized := replace "=<" "<=" line
    ofParts do
      let condition ← slice? (indexOf "(" normalized + 1) (indexOf ")" normalized) normalized
      return .conditional (trim condition)
  else other

/-- `(content)` and `f(content)`, which differ in what they begin with. -/
def printAt (front : Text) (form : Text → Statement) (line : Text) : Attempt :=
  if front <+: line ∧ Text.ofString ")" <:+ line then
    ofParts do
      let content ← slice? front.length (line.length - 1) line
      return form (trim content)
  else other

/-- Any line with an equals sign in it. -/
def assignmentAt (line : Text) : Attempt :=
  if 0 ≤ indexOf "=" line then found .assignment else other

/-- The statement that a line is, by the positions of its parts. -/
def byPositions (line : Text) : Attempt :=
  ScalarType.all.foldr (fun type rest => (declarationAt line type).orElse rest) <|
    (inputAt line).orElse <| (typeQueryAt line).orElse <| (listDeclarationAt line).orElse <|
    (conditionalAt line).orElse <| (printAt "(" .print line).orElse <|
    (printAt "f(" .inlinePrint line).orElse <| (assignmentAt line).orElse (found .unknown)

/-! ### The parts are within the line -/

/-- Positions find the same declaration as cutting does. -/
theorem declarationAt_eq (line : Text) (type : ScalarType) :
    declarationAt line type = ofForm (do
      let rest ← after? (type.name ++ "<") line
      let (name, literal) ← cut? ">" rest
      return .declaration type name (trim literal)) := by
  have hfront : byte '>' ∉ type.name ++ Text.ofString "<" := by cases type <;> decide
  simp only [declarationAt]
  cases hafter : after? (type.name ++ "<") line with
  | none => exact if_neg fun h => after?_eq_none_iff.1 hafter h.1
  | some rest =>
      cases hcut : cut? ">" rest with
      | none =>
          have hgt : indexOf ">" line = -1 := indexOf_of_after?_of_eq_none hafter hfront hcut
          simp [hgt, hcut, ofForm]
      | some parts =>
          obtain ⟨name, literal⟩ := parts
          have hgt : 0 ≤ indexOf ">" line := indexOf_nonneg_of_after? hafter hfront hcut
          have hname : slice? (type.name ++ Text.ofString "<").length (indexOf ">" line) line =
              some name := slice?_before hafter hfront hcut
          have hliteral : slice? (indexOf ">" line + 1) line.length line = some literal :=
            slice?_behind hafter hfront hcut
          rw [if_pos ⟨isPrefix_of_after? hafter, hgt⟩, hname, hliteral]
          simp [hcut, ofForm, ofParts]

section TypedInput

variable {line rest name behind : Text} (hafter : after? "<in>(" line = some rest)
  (hcut : cut? ").to<" rest = some (name, behind))
include hafter hcut

/-- What stands behind the type's opening mark stands behind all before it. -/
theorem after?_to : after? ("<in>(" ++ (name ++ Text.ofString ").to<")) line = some behind := by
  rw [after?_eq_some_iff, after?_eq_some_iff.1 hafter, eq_of_cut? hcut]
  simp only [List.append_assoc]

/-- What stands in front of the type ends with `<`, so that the last `>` is not part of it. -/
theorem suffix_type_iff : Text.ofString ">" <:+ line ↔ Text.ofString ">" <:+ behind := by
  refine singleton_suffix_iff (after?_to hafter hcut) ?_
  rw [List.getLast?_append, List.getLast?_append]
  show some (byte '<') ≠ some (byte '>')
  decide

/-- The type ends before the last byte. -/
theorem slice?_type {type : Text} (htype : before? ">" behind = some type) :
    slice? (indexOf ").to<" line + 5) (line.length - 1) line = some type := by
  have hto : indexOf ").to<" line = 5 + name.length := indexOf_of_after? hafter (by decide) hcut
  have hlow : indexOf ").to<" line + 5 =
      (Text.ofString "<in>(" ++ (name ++ Text.ofString ").to<")).length := by
    rw [hto, List.length_append, List.length_append]
    show (5 + name.length + 5 : Int) = ((5 + (name.length + 5) : Nat) : Int)
    omega
  rw [hlow]
  exact slice?_before_last (after?_to hafter hcut) htype

end TypedInput

/-- Positions find the same input statement as cutting does. -/
theorem inputAt_eq (line : Text) : inputAt line = ofForm (input? line) := by
  have hfront : byte ')' ∉ Text.ofString "<in>(" := by decide
  unfold inputAt input?
  cases hafter : after? "<in>(" line with
  | none => exact if_neg (after?_eq_none_iff.1 hafter)
  | some rest =>
      have hend : Text.ofString ")" <:+ line ↔ Text.ofString ")" <:+ rest :=
        singleton_suffix_iff hafter (by decide)
      rw [if_pos (isPrefix_of_after? hafter)]
      cases hbefore : before? ")" rest with
      | some name =>
          have hname : slice? 5 (line.length - 1) line = some name :=
            slice?_before_last hafter hbefore
          rw [if_pos (hend.2 (isSuffix_of_before? hbefore)), hname]
          simp [hbefore, ofForm, ofParts]
      | none =>
          -- A type is looked for only if the line does not end with a bracket.
          rw [if_neg (mt hend.1 (before?_eq_none_iff.1 hbefore))]
          cases hcut : cut? ").to<" rest with
          | none =>
              have hto : indexOf ").to<" line = -1 :=
                indexOf_of_after?_of_eq_none hafter hfront hcut
              simp [hto, hbefore, hcut, ofForm]
          | some parts =>
              obtain ⟨name, behind⟩ := parts
              have hend' := suffix_type_iff hafter hcut
              cases htype : before? ">" behind with
              | none =>
                  rw [if_neg fun h => before?_eq_none_iff.1 htype (hend'.1 h.2)]
                  simp [hbefore, hcut, htype, ofForm]
              | some type =>
                  have hto : 0 ≤ indexOf ").to<" line :=
                    indexOf_nonneg_of_after? hafter hfront hcut
                  have hname : slice? 5 (indexOf ").to<" line) line = some name :=
                    slice?_before hafter hfront hcut
                  rw [if_pos ⟨hto, hend'.2 (isSuffix_of_before? htype)⟩, hname,
                    slice?_type hafter hcut htype]
                  simp [hbefore, hcut, htype, ofForm, ofParts]

/-- Positions find the same type query as cutting does. -/
theorem typeQueryAt_eq (line : Text) : typeQueryAt line = ofForm (typeQuery? line) := by
  have hfront : byte '>' ∉ Text.ofString "type<" := by decide
  unfold typeQueryAt typeQuery?
  cases hafter : after? "type<" line with
  | none => exact if_neg fun h => after?_eq_none_iff.1 hafter h.1
  | some rest =>
      cases hcut : cut? ">" rest with
      | none =>
          have hgt : indexOf ">" line = -1 := indexOf_of_after?_of_eq_none hafter hfront hcut
          simp [hgt, hcut, ofForm]
      | some parts =>
          obtain ⟨name, behind⟩ := parts
          have hgt : 0 ≤ indexOf ">" line := indexOf_nonneg_of_after? hafter hfront hcut
          have hname : slice? 5 (indexOf ">" line) line = some name :=
            slice?_before hafter hfront hcut
          rw [if_pos ⟨isPrefix_of_after? hafter, hgt⟩, hname]
          simp [hcut, ofForm, ofParts]

section ListParts

variable {line name capacity elements : Text}
  (hline : line = Text.ofString "list<" ++ (name ++ (Text.ofString ">" ++
    (capacity ++ (Text.ofString "(" ++ elements)))))
include hline

/-- The length of a list is that of its parts. -/
theorem length_list : (line.length : Int) =
    capacity.length + (5 + name.length + 1) + 1 + elements.length := by
  have hlist : (Text.ofString "list<").length = 5 := rfl
  have hbyte : (Text.ofString ">").length = 1 := rfl
  have hbyte' : (Text.ofString "(").length = 1 := rfl
  rw [hline]
  simp only [List.length_append, hlist, hbyte, hbyte']
  omega

/-- The capacity stands between the two marks. -/
theorem slice?_capacity : slice? (5 + name.length + 1)
    (capacity.length + (5 + name.length + 1)) line = some capacity := by
  have hlength : ((Text.ofString "list<" ++ (name ++ Text.ofString ">")).length : Int) =
      5 + name.length + 1 := by
    rw [List.length_append, List.length_append]
    show ((5 + (name.length + 1) : Nat) : Int) = _
    omega
  refine slice?_eq (l := Text.ofString "list<" ++ (name ++ Text.ofString ">"))
    (r := Text.ofString "(" ++ elements) ?_ hlength.symm ?_
  · rw [hline]
    simp only [List.append_assoc]
  · omega

/-- Only the last byte is left out of the elements. -/
theorem slice?_elements (hne : elements ≠ []) :
    slice? (capacity.length + (5 + name.length + 1) + 1) (line.length - 1) line =
      some elements.dropLast := by
  have hpos : 0 < elements.length := List.length_pos_iff.2 hne
  have hlength := length_list hline
  have hfront : ((Text.ofString "list<" ++ (name ++ (Text.ofString ">" ++
      (capacity ++ Text.ofString "(")))).length : Int) =
        capacity.length + (5 + name.length + 1) + 1 := by
    simp only [List.length_append]
    show ((5 + (name.length + (1 + (capacity.length + 1))) : Nat) : Int) = _
    omega
  refine slice?_eq (l := Text.ofString "list<" ++ (name ++ (Text.ofString ">" ++
    (capacity ++ Text.ofString "(")))) (r := [elements.getLast hne]) ?_ hfront.symm ?_
  · rw [hline, List.dropLast_append_getLast]
    simp only [List.append_assoc]
  · rw [List.length_dropLast]
    omega

end ListParts

/-- Positions find the same parts of a list as cutting does, and none of the slices fails. -/
theorem listPartsAt_eq {line rest : Text} (hafter : after? "list<" line = some rest) :
    listPartsAt line = some (Option.getD (do
      let (name, rest) ← cut? ">" rest
      let (capacity, rest) ← cut? "(" rest
      if rest.isEmpty then none
      else return .listDeclaration name (trim capacity) rest.dropLast)
      (.malformed "list command")) := by
  have hfront : byte '>' ∉ Text.ofString "list<" := by decide
  unfold listPartsAt
  cases hname : cut? ">" rest with
  | none =>
      have hclose : indexOf ">" line = -1 := indexOf_of_after?_of_eq_none hafter hfront hname
      simp [hclose]
  | some parts =>
      obtain ⟨name, behind⟩ := parts
      have hclose : indexOf ">" line = 5 + name.length := indexOf_of_after? hafter hfront hname
      have hclose' : ¬ 5 + (name.length : Int) < 0 := by omega
      have hnamed : slice? 5 (indexOf ">" line) line = some name :=
        slice?_before hafter hfront hname
      have hbehind : slice? (indexOf ">" line + 1) line.length line = some behind :=
        slice?_behind hafter hfront hname
      rw [hclose] at hnamed hbehind
      cases hcapacity : cut? "(" behind with
      | none =>
          have hopen : indexOf "(" behind = -1 := indexOf_eq_neg_one (cut?_eq_none_iff.1 hcapacity)
          simp [hclose, hclose', hbehind, hopen, hcapacity]
      | some parts =>
          obtain ⟨capacity, elements⟩ := parts
          have hopen : indexOf "(" behind = capacity.length := indexOf_of_cut? hcapacity
          have hopen' : ¬ (capacity.length : Int) < 0 := by omega
          have hline : line = Text.ofString "list<" ++ (name ++ (Text.ofString ">" ++
              (capacity ++ (Text.ofString "(" ++ elements)))) := by
            rw [after?_eq_some_iff.1 hafter, eq_of_cut? hname, eq_of_cut? hcapacity]
          have hlength := length_list hline
          -- The bracket may be the last byte; then there is none to leave out behind it.
          by_cases hne : elements = []
          · have hroom : (line.length : Int) - 1 <
                capacity.length + (5 + name.length + 1) + 1 := by
              rw [hlength, hne, List.length_nil]
              omega
            simp only [hclose, if_neg hclose', hbehind, Option.bind_eq_bind, Option.bind_some,
              hopen, if_neg hopen', if_pos hroom, hcapacity, hne]
            rfl
          · have hroom : ¬ (line.length : Int) - 1 <
                capacity.length + (5 + name.length + 1) + 1 := by
              have hpos : 0 < elements.length := List.length_pos_iff.2 hne
              omega
            have hsized := slice?_capacity hline
            have hfilled := slice?_elements hline hne
            have hfull : ¬ elements.isEmpty = true := mt List.isEmpty_iff.1 hne
            simp only [hclose, if_neg hclose', hbehind, Option.bind_eq_bind, Option.bind_some,
              hopen, if_neg hopen', if_neg hroom, hnamed, hsized, hfilled, hcapacity, if_neg hfull]
            rfl

/-- Positions find the same list as cutting does. -/
theorem listDeclarationAt_eq (line : Text) :
    listDeclarationAt line = ofForm (listDeclaration? line) := by
  unfold listDeclarationAt listDeclaration?
  cases hafter : after? "list<" line with
  | none => exact if_neg fun h => after?_eq_none_iff.1 hafter h.1
  | some rest =>
      have hbracket : 0 ≤ indexOf ")" line ↔ occursIn ")" rest = true := by
        have hfront : byte ')' ∉ Text.ofString "list<" := by decide
        rw [indexOf_nonneg_iff, after?_eq_some_iff.1 hafter]
        exact occursIn_byte_iff.trans <| List.mem_append.trans <|
          (or_iff_right hfront).trans occursIn_byte_iff.symm
      by_cases hoccurs : occursIn ")" rest = true
      · rw [if_pos ⟨isPrefix_of_after? hafter, hbracket.2 hoccurs⟩, listPartsAt_eq hafter]
        simp [hoccurs, ofForm, ofParts]
      · rw [if_neg fun h => hoccurs (hbracket.1 h.2)]
        simp [hoccurs, ofForm]

/-- The condition is between the first brackets, which stand in this order: `if (` is kept
when `=<` is replaced, and no bracket is moved by it. -/
theorem exists_condition {line : Text} (hstart : Text.ofString "if (" <+: line)
    (hblock : Text.ofString ") \x7b" <:+: line) :
    ∃ condition behind, byte ')' ∉ condition ∧
      replace "=<" "<=" line = Text.ofString "if (" ++ (condition ++ byte ')' :: behind) := by
  obtain ⟨rest, rfl⟩ := hstart
  have hrest : Text.ofString ") \x7b" <:+: rest := by
    by_contra hno
    exact not_infix_append_of_head (b := byte ')') (by decide) hno hblock
  have hmem : byte ')' ∈ rest := hrest.subset (by decide)
  obtain ⟨condition, behind, rfl, hcondition⟩ := List.eq_append_cons_of_mem hmem
  have hfront : replace "=<" "<=" (Text.ofString "if ") = Text.ofString "if " :=
    replace_eq_of_not_infix _ (by decide) (by decide)
  refine ⟨replace "=<" "<=" condition, replace "=<" "<=" behind,
    not_mem_replace _ (by decide) (by decide) hcondition, ?_⟩
  -- neither bracket can be part of `=<`
  show replace "=<" "<=" (Text.ofString "if " ++ byte '(' :: (condition ++ byte ')' :: behind)) = _
  rw [replace_append_cons _ (by decide) (by decide), hfront,
    replace_append_cons _ (by decide) (by decide)]
  rfl

section Brackets

variable {condition behind : Text} (hcondition : byte ')' ∉ condition)

theorem indexOf_open :
    indexOf "(" (Text.ofString "if (" ++ (condition ++ byte ')' :: behind)) = 3 :=
  indexOf_of_cut? (cut?_byte (b := byte '(') (l := Text.ofString "if ") (by decide) _)

include hcondition

theorem indexOf_close :
    indexOf ")" (Text.ofString "if (" ++ (condition ++ byte ')' :: behind)) =
      4 + condition.length :=
  indexOf_of_after? (after?_append (Text.ofString "if (") _) (by decide)
    (cut?_byte hcondition behind)

end Brackets

/-- Positions find the same condition as cutting does. -/
theorem conditionalAt_eq (line : Text) : conditionalAt line = ofForm (conditional? line) := by
  simp only [conditionalAt, conditional?]
  cases hafter : after? "if (" line with
  | none => exact if_neg fun h => after?_eq_none_iff.1 hafter h.1
  | some rest =>
      have hstart : Text.ofString "if (" <+: line := isPrefix_of_after? hafter
      by_cases hblock : occursIn ") \x7b" line = true
      · obtain ⟨condition, behind, hcondition, hnormalized⟩ :=
          exists_condition hstart (occursIn_iff.1 hblock)
        have hopen : cut? "(" (Text.ofString "if (" ++ (condition ++ byte ')' :: behind)) =
            some (Text.ofString "if ", condition ++ byte ')' :: behind) :=
          cut?_byte (b := byte '(') (l := Text.ofString "if ") (by decide) _
        have hclose : cut? ")" (condition ++ byte ')' :: behind) = some (condition, behind) :=
          cut?_byte hcondition behind
        have hslice : slice? (3 + 1) (4 + condition.length)
            (Text.ofString "if (" ++ (condition ++ byte ')' :: behind)) = some condition :=
          slice?_eq rfl rfl rfl
        rw [if_pos ⟨hstart, indexOf_nonneg_iff.2 hblock⟩, hnormalized, indexOf_open,
          indexOf_close hcondition, hslice]
        simp [hblock, hopen, hclose, ofForm, ofParts]
      · rw [if_neg fun h => hblock (indexOf_nonneg_iff.1 h.2)]
        simp [hblock, ofForm]

/-- The bracket at the end is not the one at the beginning. -/
theorem printAt_eq (front : Text) (hfront : front.getLast? ≠ some (byte ')'))
    (form : Text → Statement) (line : Text) :
    printAt front form line = ofForm ((between? front ")" line).map fun t => form (trim t)) := by
  unfold printAt between?
  cases hafter : after? front line with
  | none => exact if_neg fun h => after?_eq_none_iff.1 hafter h.1
  | some rest =>
      have hend : Text.ofString ")" <:+ line ↔ Text.ofString ")" <:+ rest :=
        singleton_suffix_iff hafter hfront
      rw [Option.bind_some]
      cases hbefore : before? ")" rest with
      | none =>
          exact if_neg fun h => before?_eq_none_iff.1 hbefore (hend.1 h.2)
      | some content =>
          have hcontent : slice? front.length (line.length - 1) line = some content :=
            slice?_before_last hafter hbefore
          rw [if_pos ⟨isPrefix_of_after? hafter, hend.2 (isSuffix_of_before? hbefore)⟩, hcontent]
          rfl

theorem assignmentAt_eq (line : Text) : assignmentAt line = ofForm (assignment? line) := by
  simp only [assignmentAt, assignment?, indexOf_nonneg_iff]
  split <;> rfl

/-! ### Every line is a statement -/

/-- No part of a statement is ever looked for outside the line: recognition by positions
always comes to a statement, the same as recognition by parts.  In a conditional the
positions are those of the line after `=<` has been replaced, and there the first closing
bracket is behind the first opening one. -/
theorem byPositions_eq_ofLine (line : Text) :
    byPositions line = .found (ofLine line) ∧
    (Text.ofString "if (" <+: line → Text.ofString ") \x7b" <:+: line →
      0 ≤ indexOf "(" (replace "=<" "<=" line) ∧
      indexOf "(" (replace "=<" "<=" line) < indexOf ")" (replace "=<" "<=" line) ∧
      indexOf ")" (replace "=<" "<=" line) < (replace "=<" "<=" line).length) := by
  constructor
  · have hprint := printAt_eq "(" (by decide) .print line
    have hinline := printAt_eq "f(" (by decide) .inlinePrint line
    simp only [byPositions, declarationAt_eq, inputAt_eq, typeQueryAt_eq, listDeclarationAt_eq,
      conditionalAt_eq, hprint, hinline, assignmentAt_eq, foldr_orElse_ofForm, orElse_ofForm,
      ofLine, Option.orElse_eq_orElse, Option.orElse_eq_or, Option.getD_or]
    rfl
  · intro hstart hblock
    obtain ⟨condition, behind, hcondition, hnormalized⟩ := exists_condition hstart hblock
    rw [hnormalized, indexOf_open, indexOf_close hcondition]
    simp only [List.length_append, List.length_cons]
    show 0 ≤ (3 : Int) ∧ 3 < 4 + (condition.length : Int) ∧
      4 + (condition.length : Int) < ((4 + (condition.length + (behind.length + 1)) : Nat) : Int)
    omega

/-- The brackets stand side by side, in front of the text that is replaced. -/
theorem byPositions_eq_ofLine_empty_condition :
    (Text.ofString "if (" <+: Text.ofString "if ()=<(b) \x7b" ∧
      Text.ofString ") \x7b" <:+: Text.ofString "if ()=<(b) \x7b") ∧
    byPositions "if ()=<(b) \x7b" = .found (.conditional "") ∧
    indexOf "(" (replace "=<" "<=" "if ()=<(b) \x7b") <
      indexOf ")" (replace "=<" "<=" "if ()=<(b) \x7b") := by
  have hstart : Text.ofString "if (" <+: Text.ofString "if ()=<(b) \x7b" := by decide
  have hblock : Text.ofString ") \x7b" <:+: Text.ofString "if ()=<(b) \x7b" := by decide
  have hline : ofLine "if ()=<(b) \x7b" = .conditional "" := by decide
  obtain ⟨hfound, hbrackets⟩ := byPositions_eq_ofLine "if ()=<(b) \x7b"
  exact ⟨⟨hstart, hblock⟩, hline ▸ hfound, (hbrackets hstart hblock).2.1⟩

end Statement

end LineScript
