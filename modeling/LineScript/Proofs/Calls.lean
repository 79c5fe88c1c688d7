/-
LineScript/Proofs/Calls.lean

Calls in the text of an expression: where they are found, and what stands in their
brackets.

A call begins with the name of its function and a bracket (`Builtin.opening`).  The
beginnings of calls have no byte in common that could make them overlap, so that a call is
found where it stands, whatever is in front of it and behind it, if no call of its
function is in front and no call that is looked for earlier is anywhere
(`callIn?_append`, `not_infix_opening`).  Its arguments are found again if they are balanced
in the brackets around them (`group_balanced`).
-/
import LineScript.Expression.Substitution
import LineScript.Proofs.Brackets

namespace LineScript

open Text

/-! ### Beginnings of calls -/

namespace Builtin

/-- The bracket behind the name of a function. -/
def bracket : Builtin → UInt8
  | pow => byte '('
  | sqrt => byte '('
  | log => byte '['

/-- What a call of a function begins with: `pow(`, `sqrt(` or `log[`. -/
def opening (f : Builtin) : Text := f.name ++ [f.bracket]

/-- How many functions have their calls looked for earlier. -/
def priority : Builtin → Nat
  | pow => 0
  | sqrt => 1
  | log => 2

/-- The first byte of a call's beginning does not come again in it. -/
theorem opening_eq (f : Builtin) : ∃ b p, f.opening = b :: p ∧ b ∉ p := by
  cases f with
  | pow => exact ⟨byte 'p', "ow(", rfl, by decide⟩
  | sqrt => exact ⟨byte 's', "qrt(", rfl, by decide⟩
  | log => exact ⟨byte 'l', "og[", rfl, by decide⟩

/-- The beginnings of two calls do not overlap: neither has the first byte of the other. -/
theorem headD_not_mem {f g : Builtin} (h : g.priority < f.priority) :
    f.opening.headD 0 ∉ g.opening ∧ g.opening.headD 0 ∉ f.opening := by
  revert h
  cases f <;> cases g <;> decide

/-- Where a call stands, an earlier one begins only in front of it or behind its beginning. -/
theorem not_infix_opening {f g : Builtin} (h : g.priority < f.priority) {pre rest : Text}
    (hpre : ¬ g.opening <:+: pre) (hrest : ¬ g.opening <:+: rest) :
    ¬ g.opening <:+: pre ++ (f.opening ++ rest) := by
  obtain ⟨hf, hg⟩ := headD_not_mem h
  have hbehind : ¬ g.opening <:+: f.opening ++ rest := by
    obtain ⟨c, q, hopening, -⟩ := g.opening_eq
    rw [hopening] at hg hrest ⊢
    exact not_infix_append_of_head hg hrest
  obtain ⟨b, p, hopening, -⟩ := f.opening_eq
  rw [hopening] at hf hbehind ⊢
  exact not_infix_append_cons hf hpre fun hoccurs => hbehind (List.infix_cons hoccurs)

end Builtin

namespace Substitution

/-! ### Finding calls -/

/-- A call is found where it stands. -/
theorem callIn?_append (f : Builtin) {pre rest : Text} (hpre : ¬ f.opening <:+: pre)
    (hearlier : ∀ g : Builtin, g.priority < f.priority →
      ¬ g.opening <:+: pre ++ (f.opening ++ rest)) :
    callIn? (pre ++ (f.opening ++ rest)) = some (f, f.bracket :: rest) := by
  have hcut : cut? f.opening (pre ++ (f.opening ++ rest)) = some (pre, rest) := by
    obtain ⟨b, p, hf, hb⟩ := f.opening_eq
    rw [hf] at hpre ⊢
    exact cut?_first hb hpre rest
  have hnone : ∀ g : Builtin, g.priority < f.priority →
      cut? g.opening (pre ++ (f.opening ++ rest)) = none :=
    fun g hg => cut?_eq_none_iff.2 (hearlier g hg)
  -- From here on only the order of the searches matters, not how the text is made up.
  generalize pre ++ (f.opening ++ rest) = t at hcut hnone
  cases f with
  | pow =>
      have hpow : cut? (Builtin.pow.name ++ [byte '(']) t = some (pre, rest) := hcut
      simp only [callIn?, List.findSome?_cons, hpow, Option.map_some]
      rfl
  | sqrt =>
      have hpow : cut? (Builtin.pow.name ++ [byte '(']) t = none := hnone .pow (by decide)
      have hsqrt : cut? (Builtin.sqrt.name ++ [byte '(']) t = some (pre, rest) := hcut
      simp only [callIn?, List.findSome?_cons, hpow, hsqrt, Option.map_none, Option.map_some]
      rfl
  | log =>
      have hpow : cut? (Builtin.pow.name ++ [byte '(']) t = none := hnone .pow (by decide)
      have hsqrt : cut? (Builtin.sqrt.name ++ [byte '(']) t = none := hnone .sqrt (by decide)
      have hlog : cut? (Builtin.log.name ++ [byte '[']) t = some (pre, rest) := hcut
      simp only [callIn?, List.findSome?_cons, hpow, hsqrt, hlog, Option.map_none,
        Option.map_some]
      rfl

/-- A call with nothing in front of it. -/
theorem callIn?_name (f : Builtin) {rest : Text}
    (hearlier : ∀ g : Builtin, g.priority < f.priority →
      ¬ g.opening <:+: f.name ++ f.bracket :: rest) :
    callIn? (f.name ++ f.bracket :: rest) = some (f, f.bracket :: rest) := by
  have htext : f.name ++ f.bracket :: rest = [] ++ (f.opening ++ rest) := by
    rw [Builtin.opening, List.nil_append, List.append_assoc, List.singleton_append]
  have hpre : ¬ f.opening <:+: [] := by
    obtain ⟨b, p, hf, -⟩ := f.opening_eq
    simp [hf]
  rw [htext] at hearlier ⊢
  exact callIn?_append f hpre hearlier

/-- There is no call where none begins. -/
theorem callIn?_eq_none {t : Text} (h : ∀ f : Builtin, ¬ f.opening <:+: t) :
    callIn? t = none := by
  have hpow : cut? (Builtin.pow.name ++ [byte '(']) t = none := cut?_eq_none_iff.2 (h .pow)
  have hsqrt : cut? (Builtin.sqrt.name ++ [byte '(']) t = none := cut?_eq_none_iff.2 (h .sqrt)
  have hlog : cut? (Builtin.log.name ++ [byte '[']) t = none := cut?_eq_none_iff.2 (h .log)
  simp only [callIn?, List.findSome?_cons, List.findSome?_nil, hpow, hsqrt, hlog,
    Option.map_none]

/-- A call that is found stands in the text. -/
theorem eq_of_callIn? {f : Builtin} {t rest : Text} (h : callIn? t = some (f, rest)) :
    ∃ pre u, t = pre ++ (f.opening ++ u) ∧ rest = f.bracket :: u := by
  obtain ⟨⟨g, bracket⟩, hmem, hfound⟩ := List.exists_of_findSome?_eq_some h
  obtain ⟨⟨pre, u⟩, hcut, hpair⟩ := Option.map_eq_some_iff.1 hfound
  obtain ⟨rfl, rfl⟩ := Prod.mk.inj hpair
  have hbracket : bracket = g.bracket := by
    simp only [List.mem_cons, Prod.mk.injEq, List.not_mem_nil, or_false] at hmem
    rcases hmem with ⟨rfl, rfl⟩ | ⟨rfl, rfl⟩ | ⟨rfl, rfl⟩ <;> rfl
  subst hbracket
  exact ⟨pre, u, eq_of_cut? hcut, rfl⟩

/-! ### Arguments -/

section Arguments

open Brackets

variable (source : Text) {arguments : Text}

/-- What is found in brackets is balanced in them. -/
theorem group_eq_ok_iff {opening closing : Char} (hne : byte closing ≠ byte opening)
    {t rest : Text} :
    group opening closing source t = .ok (arguments, rest) ↔
      t = byte opening :: (arguments ++ byte closing :: rest) ∧
        Balanced (byte opening) (byte closing) arguments := by
  unfold group
  cases hafter : after? [byte opening] t with
  | none =>
      refine iff_of_false (by simp) ?_
      rintro ⟨rfl, -⟩
      exact after?_eq_none_iff.1 hafter (List.prefix_append [byte opening] _)
  | some u =>
      obtain rfl := after?_eq_some_iff.1 hafter
      dsimp only
      rw [List.singleton_append, List.cons.injEq, and_iff_right rfl, ← enclosed?_eq_some_iff hne]
      cases enclosed? (byte opening) (byte closing) 0 u <;> simp

/-- What stands in brackets is found again if it is balanced in them. -/
theorem group_balanced {opening closing : Char} (hpair : IsPair (byte opening) (byte closing))
    (hinner : Balanced (byte opening) (byte closing) arguments) (rest : Text) :
    group opening closing source (byte opening :: (arguments ++ byte closing :: rest)) =
      .ok (arguments, rest) :=
  (group_eq_ok_iff source hpair.ne).2 ⟨rfl, hinner⟩

theorem isPair_round : IsPair (byte '(') (byte ')') := .inl ⟨rfl, rfl⟩

theorem isPair_square : IsPair (byte '[') (byte ']') := .inr ⟨rfl, rfl⟩

/-- The arguments of a power with a comma between them. -/
theorem powArguments_of_cutOutside? (harguments : Balanced (byte '(') (byte ')') arguments)
    {l r : Text} (hcut : cutOutside? (byte ',') 0 arguments = some (l, r)) (rest : Text) :
    powArguments source (byte '(' :: (arguments ++ byte ')' :: rest)) =
      .ok (trim l, trim r) := by
  simp only [powArguments, group_balanced source isPair_round harguments, bind, Except.bind, hcut]
  rfl

/-- A power with a single argument is an error. -/
theorem powArguments_of_no_comma (harguments : Balanced (byte '(') (byte ')') arguments)
    (hcut : cutOutside? (byte ',') 0 arguments = none) (rest : Text) :
    powArguments source (byte '(' :: (arguments ++ byte ')' :: rest)) =
      .error (.invalid (.powArguments source)) := by
  simp only [powArguments, group_balanced source isPair_round harguments, bind, Except.bind, hcut]

/-- The argument of a square root is what its brackets enclose. -/
theorem sqrtArgument_balanced (harguments : Balanced (byte '(') (byte ')') arguments)
    (rest : Text) :
    sqrtArgument source (byte '(' :: (arguments ++ byte ')' :: rest)) =
      .ok (trim arguments) := by
  simp only [sqrtArgument, group_balanced source isPair_round harguments, bind, Except.bind]
  rfl

/-- A logarithm has its base in square brackets, and its argument in round ones right behind.
-/
theorem logArguments_balanced {base : Text} (hbase : Balanced (byte '[') (byte ']') base)
    (harguments : Balanced (byte '(') (byte ')') arguments) (rest : Text) :
    logArguments source
        (byte '[' :: (base ++ byte ']' :: byte '(' :: (arguments ++ byte ')' :: rest))) =
      .ok (trim base, trim arguments) := by
  simp only [logArguments, group_balanced source isPair_square hbase,
    group_balanced source isPair_round harguments, bind, Except.bind]
  rfl

end Arguments

end Substitution

end LineScript
