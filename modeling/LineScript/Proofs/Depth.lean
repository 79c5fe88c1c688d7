/-
LineScript/Proofs/Depth.lean

How deep evaluation by substitution goes.

Reducing a text goes on with its two operands (`operands`), one level deeper.  An operator
that is in a text may come from the values of variables, but where these have none, it was
there before: replacing names takes operators away and adds none, whatever the names are
(`symbol_mem_of_mem_replaceNames`).  An operand lacks the operator at which its text was
divided.  So at each level there are fewer of the four operators left
(`length_operatorsIn_lt`), and the limit of the depth is not reached.

Only calls can be nested deeper.  They stand one inside the brackets of the other in the
text of the expression itself (`CallsNested`).

Main result: `depth_limit_unobservable`.
-/
import LineScript.Proofs.Agreement
import LineScript.Proofs.Outcomes
import LineScript.Proofs.Pairing
import LineScript.Proofs.Tiling
import Mathlib.Data.List.Nodup
import Mathlib.Data.List.Perm.Subperm

namespace LineScript

open Text

/-- A computation in two steps fails in the first one or in the second. -/
theorem Except.bind_eq_error_iff {ε α β : Type} {x : Except ε α} {f : α → Except ε β} {e : ε} :
    (x >>= f) = .error e ↔ x = .error e ∨ ∃ a, x = .ok a ∧ f a = .error e := by
  cases x with
  | error e' => simp [bind, Except.bind]
  | ok a => simp [bind, Except.bind]

/-- What is computed from two results fails with the error of one of them. -/
theorem Except.error_of_two {ε α β γ : Type} {x : Except ε α} {y : Except ε β} {f : α → β → γ}
    {e : ε} (h : (do let a ← x; let b ← y; return f a b) = .error e) :
    x = .error e ∨ y = .error e := by
  rcases Except.bind_eq_error_iff.1 h with hx | ⟨a, -, hbehind⟩
  · exact .inl hx
  · rcases Except.bind_eq_error_iff.1 hbehind with hy | ⟨b, -, hreturn⟩
    · exact .inr hy
    · cases hreturn

/-! ### Replacing a text in between characters -/

namespace Text

/-- A character that is found has the number that was looked for, not below the least one. -/
theorem scalar?_eq_some {least n : Nat} {c : Char} (h : scalar? least n = some c) :
    least ≤ n ∧ c.val.toNat = n := by
  by_cases hn : least ≤ n ∧ n.isValidChar
  · rw [scalar?, dif_pos hn] at h
    cases h
    exact ⟨hn.1, rfl⟩
  · rw [scalar?, dif_neg hn] at h
    cases h

/-- A character of several bytes is not in ASCII. -/
theorem toNat_of_firstChar? {a : UInt8} {t : Text} {c : Char}
    (h : firstChar? (a :: t) = some c) : c.val.toNat = a.toNat ∨ 128 ≤ c.val.toNat := by
  have hlong : ∀ {least n : Nat}, 128 ≤ least → scalar? least n = some c →
      128 ≤ c.val.toNat := by
    intro least n hleast hscalar
    obtain ⟨hle, heq⟩ := scalar?_eq_some hscalar
    omega
  simp only [firstChar?, Option.bind_eq_bind] at h
  -- by the first byte, which tells how many there are
  split at h
  · exact .inl (scalar?_eq_some h).2
  · split at h
    · cases h
    · right
      split at h
      · obtain ⟨b, -, hscalar⟩ := Option.bind_eq_some_iff.1 h
        exact hlong (by omega) hscalar
      · split at h
        · obtain ⟨b, -, h⟩ := Option.bind_eq_some_iff.1 h
          obtain ⟨b', -, hscalar⟩ := Option.bind_eq_some_iff.1 h
          exact hlong (by omega) hscalar
        · obtain ⟨b, -, h⟩ := Option.bind_eq_some_iff.1 h
          obtain ⟨b', -, h⟩ := Option.bind_eq_some_iff.1 h
          obtain ⟨b'', -, hscalar⟩ := Option.bind_eq_some_iff.1 h
          exact hlong (by omega) hscalar

/-- An ASCII byte in the encoding of a character is the character. -/
theorem toNat_of_mem_utf8EncodeChar {c : Char} {b : UInt8} (hb : b.toNat < 128)
    (h : b ∈ String.utf8EncodeChar c) : c.val.toNat = b.toNat := by
  have hhigh : ∀ n : Nat, b = UInt8.ofNat n → 128 ≤ n → n < 256 → False := by
    rintro n rfl hle hlt
    rw [UInt8.toNat_ofNat'] at hb
    omega
  rw [String.utf8EncodeChar.eq_1] at h
  split at h
  · next hc =>
      rw [List.mem_singleton] at h
      rw [h, UInt8.toNat_ofNat']
      omega
  · exfalso
    split at h
    · simp only [List.mem_cons, List.not_mem_nil, or_false] at h
      rcases h with h | h <;> exact hhigh _ h (by omega) (by omega)
    · split at h
      · simp only [List.mem_cons, List.not_mem_nil, or_false] at h
        rcases h with h | h | h <;> exact hhigh _ h (by omega) (by omega)
      · simp only [List.mem_cons, List.not_mem_nil, or_false] at h
        rcases h with h | h | h | h <;> exact hhigh _ h (by omega) (by omega)

/-- The ASCII bytes of the first character of a text are bytes of the text. -/
theorem mem_of_mem_first? {t : Text} {c : Character} {b : UInt8} (hb : b.toNat < 128)
    (hc : first? t = some c) (h : b ∈ c.bytes) : b ∈ t := by
  cases t with
  | nil => cases hc
  | cons a t =>
      unfold first? at hc
      split at hc
      · next v hv =>
          cases hc
          have hbyte := toNat_of_mem_utf8EncodeChar hb h
          have hab : b = a := by
            apply UInt8.toNat_inj.1
            rcases toNat_of_firstChar? hv with heq | hle <;> omega
          rw [hab]
          exact List.mem_cons_self
      · cases hc
        rw [List.mem_singleton.1 h]
        exact List.mem_cons_self

/-- Replacing a text, also the empty one, brings in no ASCII byte that the new text does not
have. -/
theorem not_mem_replace_of_ascii {b : UInt8} (hb : b.toNat < 128) (old : Text) {new t : Text}
    (hnew : b ∉ new) (ht : b ∉ t) : b ∉ replace old new t := by
  by_cases hold : old = []
  -- the new text is put between the characters, each of which may be written anew
  · rw [replace, if_pos hold, interleave, List.mem_append, List.mem_flatMap]
    rintro (h | ⟨c, hc, h⟩)
    · exact hnew h
    · rcases List.mem_append.1 h with h | h
      · obtain ⟨⟨p, rest⟩, hmem, hfirst⟩ := List.mem_filterMap.1 hc
        have hrest := mem_of_mem_first? hb hfirst h
        rw [(left_of_mem_walkFrom hmem).2.1] at hrest
        exact ht (List.mem_of_mem_drop hrest)
      · exact hnew h
  · exact not_mem_replace new hold hnew ht

/-- Each of the texts that are put together is a part of the whole. -/
theorem isInfix_join {sep l : Text} {ls : List Text} (hl : l ∈ ls) : l <:+: join sep ls := by
  induction ls with
  | nil => cases hl
  | cons first ls ih =>
      cases ls with
      | nil =>
          rw [List.mem_singleton.1 hl, join, List.intercalate_singleton]
      | cons second ls =>
          rw [join, List.intercalate_cons_cons, List.append_assoc]
          rcases List.mem_cons.1 hl with rfl | hl
          · exact (List.prefix_append l _).isInfix
          · have hsuffix := (List.suffix_append sep (join sep (second :: ls))).trans
              (List.suffix_append first _)
            exact (ih hl).trans hsuffix.isInfix

/-- Fields are parts of a text, without the separator. -/
theorem isInfix_of_mem_fields {b : UInt8} {t l : Text} (hl : l ∈ fields [b] t) :
    l <:+: t ∧ b ∉ l := by
  obtain ⟨dropped, happend, -⟩ := split_eq_fields_append [b] t
  have hsplit : l ∈ split [b] t := by
    rw [happend]
    exact List.mem_append_left dropped hl
  have hjoin : l <:+: join [b] (split [b] t) := isInfix_join hsplit
  rw [join_split (List.cons_ne_nil b []) t] at hjoin
  exact ⟨hjoin, not_mem_of_mem_split hsplit⟩

end Text

namespace Substitution

/-! ### Operands -/

/-- The texts that reducing a text goes on with, one level deeper. -/
def operands (store : Store) (t : Text) : List Text :=
  let t := replaceNames store t
  match operators.find? fun op => occursIn [byte op.symbol] t with
  | some op =>
      match fields [byte op.symbol] t with
      | l :: r :: _ => [trim l, trim r]
      | _ => []
  | none => []

section Levels

variable {store : Store} {t u : Text} {m n : Nat}

/-- A level of reducing: two operands that a text has around an operator are reduced, or there
are no operands and the limit plays no part. -/
theorem reduce_cases (store : Store) (t : Text) :
    (∃ (op : Operator) (l r : Text) (more : List Text), byte op.symbol ∈ replaceNames store t ∧
      fields [byte op.symbol] (replaceNames store t) = l :: r :: more ∧
      operands store t = [trim l, trim r] ∧
      ∀ n, reduce store (n + 1) t = (do
        let x ← reduce store n (trim l)
        let y ← reduce store n (trim r)
        return op.apply x y)) ∨
    (operands store t = [] ∧ ∃ result, result ≠ .error (.invalid .tooDeep) ∧
      ∀ n, reduce store (n + 1) t = result) := by
  cases hop : operators.find? fun op => occursIn [byte op.symbol] (replaceNames store t) with
  | none =>
      refine .inr ⟨by simp only [operands, hop], ?_⟩
      cases hread : Double.read? (replaceNames store t) with
      | none =>
          exact ⟨.error (.invalid (.notANumber (replaceNames store t))), by simp,
            fun n => by simp only [reduce, hop, hread]⟩
      | some x => exact ⟨.ok x, by simp, fun n => by simp only [reduce, hop, hread]⟩
  | some op =>
      have hfind := List.find?_some hop
      have hmem : byte op.symbol ∈ replaceNames store t := occursIn_byte_iff.1 hfind
      have hmissing : (.error (.invalid (.missingOperand op.symbol (replaceNames store t))) :
          Except EvalError Float) ≠ .error (.invalid .tooDeep) := by simp
      -- With fewer than two fields the depth is not used, whatever is left of it.
      rcases hfields : fields [byte op.symbol] (replaceNames store t) with - | ⟨l, - | ⟨r, more⟩⟩
      · exact .inr ⟨by simp only [operands, hop, hfields], _, hmissing,
          fun n => by simp only [reduce, hop, hfields]⟩
      · exact .inr ⟨by simp only [operands, hop, hfields], _, hmissing,
          fun n => by simp only [reduce, hop, hfields]⟩
      · exact .inl ⟨op, l, r, more, hmem, hfields, by simp only [operands, hop, hfields],
          fun n => by simp only [reduce, hop, hfields]⟩

/-- What a text is reduced to depends on its operands only. -/
theorem reduce_eq_of_operands
    (h : ∀ u ∈ operands store t, reduce store m u = reduce store n u) :
    reduce store (m + 1) t = reduce store (n + 1) t := by
  rcases reduce_cases store t with ⟨op, l, r, more, -, -, hoperands, hreduce⟩ |
    ⟨-, result, -, hreduce⟩
  · rw [hoperands] at h
    rw [hreduce, hreduce, h (trim l) (by simp), h (trim r) (by simp)]
  · rw [hreduce, hreduce]

/-- The limit is reached in an operand. -/
theorem exists_operand_of_tooDeep
    (h : reduce store (n + 1) t = .error (.invalid .tooDeep)) :
    ∃ u ∈ operands store t, reduce store n u = .error (.invalid .tooDeep) := by
  rcases reduce_cases store t with ⟨op, l, r, more, -, -, hoperands, hreduce⟩ |
    ⟨-, result, hresult, hreduce⟩
  · rw [hreduce] at h
    rw [hoperands]
    rcases Except.error_of_two h with hl | hr
    · exact ⟨trim l, by simp, hl⟩
    · exact ⟨trim r, by simp, hr⟩
  · rw [hreduce] at h
    exact absurd h hresult

/-- An operand is a part of the text that its names have been replaced in, and lacks an
operator of this text. -/
theorem exists_operator_of_operand (hu : u ∈ operands store t) :
    u <:+: replaceNames store t ∧
      ∃ op : Operator, byte op.symbol ∈ replaceNames store t ∧ byte op.symbol ∉ u := by
  rcases reduce_cases store t with ⟨op, l, r, more, hmem, hfields, hoperands, -⟩ | ⟨hnone, -⟩
  · have hpart : ∀ f ∈ fields [byte op.symbol] (replaceNames store t), u = trim f →
        u <:+: replaceNames store t ∧ byte op.symbol ∉ u := by
      rintro f hf rfl
      obtain ⟨hpart, hno⟩ := isInfix_of_mem_fields hf
      exact ⟨(trim_isInfix f).trans hpart, fun h => hno ((trim_isInfix f).subset h)⟩
    rw [hfields] at hpart
    rw [hoperands] at hu
    have hfound : u <:+: replaceNames store t ∧ byte op.symbol ∉ u := by
      rcases List.mem_pair.1 hu with rfl | rfl
      · exact hpart l (by simp) rfl
      · exact hpart r (by simp) rfl
    exact ⟨hfound.1, op, hmem, hfound.2⟩
  · rw [hnone] at hu
    cases hu

end Levels

/-! ### Values without operators -/

/-- The operators that stand in a text. -/
def operatorsIn (t : Text) : List Operator :=
  operators.filter fun op => occursIn [byte op.symbol] t

theorem mem_operatorsIn_iff {t : Text} {op : Operator} :
    op ∈ operatorsIn t ↔ byte op.symbol ∈ t := by
  have hmem : op ∈ operators := by cases op <;> decide
  rw [operatorsIn, List.mem_filter, occursIn_byte_iff]
  exact and_iff_right hmem

/-- There are four operators. -/
theorem length_operatorsIn_le (t : Text) : (operatorsIn t).length ≤ 4 :=
  List.length_filter_le _ operators

/-- No value has an operator in its text. -/
def OperatorFree (store : Store) : Prop :=
  ∀ v ∈ store.toList, ∀ op : Operator, byte op.symbol ∉ v.value.text

section OperatorFree

variable {store : Store} (hfree : OperatorFree store) {t u : Text}
include hfree

/-- Replacing names brings in no operator. -/
theorem symbol_mem_of_mem_replaceNames {op : Operator}
    (h : byte op.symbol ∈ replaceNames store t) : byte op.symbol ∈ t := by
  have hascii : (byte op.symbol).toNat < 128 := by cases op <;> decide
  unfold OperatorFree at hfree
  by_contra ht
  unfold replaceNames at h
  -- one variable after the other, whatever the text has become
  generalize store.toList = vs at hfree h
  induction vs generalizing t with
  | nil => exact ht h
  | cons v vs ih =>
      obtain ⟨hv, hvs⟩ := List.forall_mem_cons.1 hfree
      rw [List.foldl_cons] at h
      exact ih (not_mem_replace_of_ascii hascii v.name (hv op) ht) hvs h

/-- In an operand there are fewer operators than in the text. -/
theorem length_operatorsIn_lt (hu : u ∈ operands store t) :
    (operatorsIn u).length < (operatorsIn t).length := by
  obtain ⟨hpart, op, hmem, hno⟩ := exists_operator_of_operand hu
  -- the operator at which the text was divided is one more than the operand has
  have hnodup : (op :: operatorsIn u).Nodup := by
    refine List.nodup_cons.2 ⟨mt mem_operatorsIn_iff.1 hno, ?_⟩
    exact List.Nodup.filter _ (by decide)
  have hsubset : op :: operatorsIn u ⊆ operatorsIn t := by
    intro op' hop'
    apply mem_operatorsIn_iff.2
    apply symbol_mem_of_mem_replaceNames hfree
    rcases List.mem_cons.1 hop' with rfl | hop'
    · exact hmem
    · exact hpart.subset (mem_operatorsIn_iff.1 hop')
  exact (List.subperm_of_subset hnodup hsubset).length_le

/-- A text is not reduced deeper than it has operators. -/
theorem reduce_ne_tooDeep {levels : Nat} (h : (operatorsIn t).length < levels) :
    reduce store levels t ≠ .error (.invalid .tooDeep) := by
  induction levels generalizing t with
  | zero => exact absurd h (Nat.not_lt_zero _)
  | succ levels ih =>
      intro hdeep
      obtain ⟨u, hu, hdeep⟩ := exists_operand_of_tooDeep hdeep
      have hlt := length_operatorsIn_lt hfree hu
      exact ih (by omega) hdeep

/-- Levels that are not needed make no difference. -/
theorem reduce_eq_reduce {m n : Nat} (hm : (operatorsIn t).length < m)
    (hn : (operatorsIn t).length < n) : reduce store m t = reduce store n t := by
  induction m generalizing n t with
  | zero => exact absurd hm (Nat.not_lt_zero _)
  | succ m ih =>
      obtain ⟨n, rfl⟩ := Nat.exists_eq_add_of_lt hn
      apply reduce_eq_of_operands
      intro u hu
      have hlt := length_operatorsIn_lt hfree hu
      exact ih (by omega) (by omega)

end OperatorFree

/-- `Descends store t n u`: reducing `t` leads to reducing `u`, `n` levels deeper. -/
inductive Descends (store : Store) : Text → Nat → Text → Prop where
  | here (t : Text) : Descends store t 0 t
  | operand {t u v : Text} {n : Nat} :
      u ∈ operands store t → Descends store u n v → Descends store t (n + 1) v

/-- Each level uses up an operator. -/
theorem Descends.le {store : Store} (hfree : OperatorFree store) {t u : Text} {n : Nat}
    (h : Descends store t n u) : n + (operatorsIn u).length ≤ (operatorsIn t).length := by
  induction h with
  | here t => omega
  | operand hu _ ih =>
      have hlt := length_operatorsIn_lt hfree hu
      omega

/-! ### Nested calls -/

/-- Calls that stand one inside the brackets of the other, `n` of them, the outermost one
in `t`. -/
inductive CallsNested : (n : Nat) → (t : Text) → Prop where
  | none (t : Text) : CallsNested 0 t
  | call {n : Nat} {call : Call} {part t : Text} :
      call.text <:+: t → call.Balanced → part ∈ call.parts → CallsNested n part →
      CallsNested (n + 1) t

/-- Calls are nested at least as deeply in a longer text. -/
theorem CallsNested.of_isInfix {n : Nat} {t u : Text} (h : CallsNested n t) (htu : t <:+: u) :
    CallsNested n u := by
  cases h with
  | none => exact .none u
  | call htext hbalanced hpart hnested =>
      exact .call (htext.trans htu) hbalanced hpart hnested

/-- Only the levels are counted; finding a group is never too deep. -/
theorem group_ne_tooDeep (opening closing : Char) (source t : Text) :
    group opening closing source t ≠ .error (.invalid .tooDeep) := by
  unfold group
  split
  · simp
  · split <;> simp

theorem powArguments_ne_tooDeep (source t : Text) :
    powArguments source t ≠ .error (.invalid .tooDeep) := by
  intro h
  rcases Except.bind_eq_error_iff.1 h with h | ⟨p, -, h⟩
  · exact group_ne_tooDeep _ _ _ _ h
  · dsimp only at h
    split at h <;> cases h

theorem sqrtArgument_ne_tooDeep (source t : Text) :
    sqrtArgument source t ≠ .error (.invalid .tooDeep) := by
  intro h
  rcases Except.bind_eq_error_iff.1 h with h | ⟨p, -, h⟩
  · exact group_ne_tooDeep _ _ _ _ h
  · cases h

theorem logArguments_ne_tooDeep (source t : Text) :
    logArguments source t ≠ .error (.invalid .tooDeep) := by
  intro h
  rcases Except.bind_eq_error_iff.1 h with h | ⟨p, -, h⟩
  · exact group_ne_tooDeep _ _ _ _ h
  · rcases Except.bind_eq_error_iff.1 h with h | ⟨q, -, h⟩
    · exact group_ne_tooDeep _ _ _ _ h
    · cases h

/-- A call that is found, with its brackets, stands in the text. -/
theorem text_isInfix_of_callIn? {call : Call} {t rest : Text}
    (h : callIn? t =
      some (call.function, call.function.bracket :: (call.inside ++ byte ')' :: rest))) :
    call.text <:+: t := by
  obtain ⟨pre, u, rfl, hu⟩ := eq_of_callIn? h
  obtain rfl := (List.cons.inj hu).2
  refine ⟨pre, rest, ?_⟩
  rw [call.text_eq]
  simp

section Arguments

open Brackets

variable {source t : Text}

/-- The arguments of a power lie within its brackets. -/
theorem powArguments_eq_ok {l r : Text} (h : powArguments source t = .ok (l, r)) :
    ∃ arguments rest, t = byte '(' :: (arguments ++ byte ')' :: rest) ∧
      Balanced (byte '(') (byte ')') arguments ∧ l <:+: arguments ∧ r <:+: arguments := by
  obtain ⟨⟨arguments, rest⟩, hgroup, hsides⟩ := Except.bind_eq_ok_iff.1 h
  obtain ⟨ht, hbalanced⟩ := (group_eq_ok_iff source isPair_round.ne).1 hgroup
  refine ⟨arguments, rest, ht, hbalanced, ?_⟩
  dsimp only at hsides
  split at hsides
  · next l' r' hcut =>
      cases hsides
      obtain ⟨rfl, -⟩ := isLeast_of_cutOutside? hcut
      have hright := (List.suffix_cons (byte ',') r').trans (List.suffix_append l' _)
      exact ⟨(trim_isInfix l').trans (List.prefix_append l' _).isInfix,
        (trim_isInfix r').trans hright.isInfix⟩
  · cases hsides

/-- The argument of a square root is what its brackets enclose. -/
theorem sqrtArgument_eq_ok {a : Text} (h : sqrtArgument source t = .ok a) :
    ∃ argument rest, t = byte '(' :: (argument ++ byte ')' :: rest) ∧
      Balanced (byte '(') (byte ')') argument ∧ a = trim argument := by
  obtain ⟨⟨argument, rest⟩, hgroup, hreturn⟩ := Except.bind_eq_ok_iff.1 h
  obtain ⟨ht, hbalanced⟩ := (group_eq_ok_iff source isPair_round.ne).1 hgroup
  cases hreturn
  exact ⟨argument, rest, ht, hbalanced, rfl⟩

/-- Base and argument of a logarithm are what its brackets enclose. -/
theorem logArguments_eq_ok {a b : Text} (h : logArguments source t = .ok (b, a)) :
    ∃ base argument rest,
      t = byte '[' :: (base ++ byte ']' :: byte '(' :: (argument ++ byte ')' :: rest)) ∧
        Balanced (byte '[') (byte ']') base ∧ Balanced (byte '(') (byte ')') argument ∧
        b = trim base ∧ a = trim argument := by
  obtain ⟨⟨base, u⟩, hgroup, hbehind⟩ := Except.bind_eq_ok_iff.1 h
  obtain ⟨⟨argument, rest⟩, hgroup', hreturn⟩ := Except.bind_eq_ok_iff.1 hbehind
  obtain ⟨ht, hbase⟩ := (group_eq_ok_iff source isPair_square.ne).1 hgroup
  obtain ⟨hu, hargument⟩ := (group_eq_ok_iff source isPair_round.ne).1 hgroup'
  cases hreturn
  exact ⟨base, argument, rest, by rw [ht, hu], hbase, hargument, rfl, rfl⟩

end Arguments

/-- Where evaluation of an expression is too deep, so is that of an argument of a call in it,
or else it is the operators that are nested too deeply. -/
theorem exists_argument_of_tooDeep {store : Store} {n : Nat} {t : Text}
    (h : evaluateNested store (n + 1) t = .error (.invalid .tooDeep)) :
    reduce store (n + 1) (replaceIdentifiers store t) = .error (.invalid .tooDeep) ∨
      ∃ call : Call, call.text <:+: t ∧ call.Balanced ∧ ∃ part ∈ call.parts, ∃ a, a <:+: part ∧
        evaluateNested store n a = .error (.invalid .tooDeep) := by
  -- Finding the arguments of a call cannot be too deep, so that one of them is.
  rw [evaluateNested] at h
  split at h
  · next rest hcall =>
      right
      rcases Except.bind_eq_error_iff.1 h with hdeep | ⟨⟨l, r⟩, harguments, hvalues⟩
      · exact absurd hdeep (powArguments_ne_tooDeep t rest)
      · obtain ⟨arguments, behind, rfl, hbalanced, hl, hr⟩ := powArguments_eq_ok harguments
        refine ⟨.pow arguments, text_isInfix_of_callIn? hcall, hbalanced, arguments,
          by simp [Call.parts], ?_⟩
        rcases Except.error_of_two hvalues with hdeep | hdeep
        · exact ⟨l, hl, hdeep⟩
        · exact ⟨r, hr, hdeep⟩
  · next rest hcall =>
      right
      rcases Except.bind_eq_error_iff.1 h with hdeep | ⟨a, hargument, hvalue⟩
      · exact absurd hdeep (sqrtArgument_ne_tooDeep t rest)
      · obtain ⟨argument, behind, rfl, hbalanced, rfl⟩ := sqrtArgument_eq_ok hargument
        refine ⟨.sqrt argument, text_isInfix_of_callIn? hcall, hbalanced, argument,
          by simp [Call.parts], trim argument, trim_isInfix argument, ?_⟩
        rcases Except.bind_eq_error_iff.1 hvalue with hdeep | ⟨x, -, hreturn⟩
        · exact hdeep
        · cases hreturn
  · next rest hcall =>
      right
      rcases Except.bind_eq_error_iff.1 h with hdeep | ⟨⟨b, a⟩, harguments, hvalues⟩
      · exact absurd hdeep (logArguments_ne_tooDeep t rest)
      · obtain ⟨base, argument, behind, rfl, hbase, hargument, rfl, rfl⟩ :=
          logArguments_eq_ok harguments
        have hlog : callIn? t = some (Builtin.log,
            byte '[' :: ((Call.log base argument).inside ++ byte ')' :: behind)) := by
          rw [hcall, Call.inside, List.append_assoc, List.cons_append, List.cons_append]
        have htext : (Call.log base argument).text <:+: t := text_isInfix_of_callIn? hlog
        refine ⟨.log base argument, htext, ⟨hbase, hargument⟩, ?_⟩
        rcases Except.error_of_two hvalues with hdeep | hdeep
        · exact ⟨base, by simp [Call.parts], trim base, trim_isInfix base, hdeep⟩
        · exact ⟨argument, by simp [Call.parts], trim argument, trim_isInfix argument, hdeep⟩
  · exact .inl h

/-- If no value has an operator, only nested calls reach the limit. -/
theorem callsNested_of_tooDeep {store : Store} (hfree : OperatorFree store) {levels : Nat}
    {t : Text} (h : evaluateNested store levels t = .error (.invalid .tooDeep)) :
    CallsNested (levels - 4) t := by
  induction levels generalizing t with
  | zero => exact .none t
  | succ n ih =>
      by_cases hn : n < 4
      · rw [Nat.sub_eq_zero_of_le (by omega)]
        exact .none t
      · rcases exists_argument_of_tooDeep h with hdeep |
          ⟨call, htext, hbalanced, part, hpart, a, ha, hdeep⟩
        -- without a call, five levels are left and at most four are needed
        · have hlength := length_operatorsIn_le (replaceIdentifiers store t)
          exact absurd hdeep (reduce_ne_tooDeep hfree (by omega))
        · rw [Nat.sub_add_comm (by omega)]
          exact .call htext hbalanced hpart ((ih hdeep).of_isInfix ha)

/-! ### The limit of the depth -/

/-- Reduce a text at a given depth of nesting, when `limit` is the greatest depth that is
allowed. -/
def reduceAt (limit depth : Nat) (store : Store) (t : Text) : Except EvalError Float :=
  reduce store (limit + 1 - depth) t

/-- **The limit is not observable without operators in values.**  If no value of a variable
has an operator in its text, reducing a text never goes deeper than four levels below the
depth where it starts, whatever the names of the variables are.  So it does not reach the
limit, and a limit that leaves room for four levels is as good as any other.  Evaluation of
an expression reaches it only if 61 calls are nested in the expression. -/
theorem depth_limit_unobservable {store : Store} (hfree : OperatorFree store) :
    (∀ (t : Text) (d : Nat), d ≤ 60 →
      reduceAt maxDepth d store t ≠ .error (.invalid .tooDeep)) ∧
    (∀ (t : Text) (d limit limit' : Nat), d + 4 ≤ limit → d + 4 ≤ limit' →
      reduceAt limit d store t = reduceAt limit' d store t) ∧
    (∀ (t u : Text) (n : Nat), Descends store t n u → n ≤ 4) ∧
    (∀ source, evaluate store source = .error (.invalid .tooDeep) → CallsNested 61 source) := by
  refine ⟨fun t d hd => ?_, fun t d limit limit' h h' => ?_, fun t u n h => ?_,
    fun source h => ?_⟩
  · have hlength := length_operatorsIn_le t
    exact reduce_ne_tooDeep hfree (by unfold maxDepth; omega)
  · have hlength := length_operatorsIn_le t
    exact reduce_eq_reduce hfree (by omega) (by omega)
  · have hlength := length_operatorsIn_le t
    have hle := h.le hfree
    omega
  · exact (callsNested_of_tooDeep hfree h).of_isInfix (trim_isInfix source)

section Roots

open Fragment

/-- Square roots, one inside the other. -/
def nestedRoots : Nat → Text
  | 0 => "4"
  | n + 1 => "sqrt(" ++ nestedRoots n ++ ")"

/-- Nested roots have their brackets closed. -/
theorem closed_nestedRoots (n : Nat) (commas : Bool) :
    Brackets.Closed commas (nestedRoots n) := by
  induction n generalizing commas with
  | zero => exact Brackets.closed_of_forall (List.all_iff_forall_prop.1 (by decide))
  | succ n ih =>
      rw [nestedRoots, sqrt_text]
      exact (closed_name .sqrt commas).append (.round (ih true) .nil)

theorem solidEnds_nestedRoots (n : Nat) : SolidEnds (nestedRoots n) := by
  cases n with
  | zero => exact ⟨⟨byte '4', rfl, rfl⟩, ⟨byte '4', rfl, rfl⟩⟩
  | succ n =>
      rw [nestedRoots, sqrt_text]
      exact solidEnds_call .sqrt (byte '(' :: nestedRoots n)

/-- There is no power in nested roots. -/
theorem not_mem_nestedRoots (n : Nat) : byte 'p' ∉ nestedRoots n := by
  induction n with
  | zero => decide
  | succ n ih =>
      have hname : byte 'p' ∉ Builtin.sqrt.name := by decide
      have hbrackets : byte 'p' ≠ byte '(' ∧ byte 'p' ≠ byte ')' := by decide
      rw [nestedRoots, sqrt_text]
      simp [hname, ih, hbrackets]

/-- As many calls as there are levels are too many. -/
theorem evaluateNested_nestedRoots (store : Store) (n : Nat) :
    evaluateNested store n (nestedRoots n) = .error (.invalid .tooDeep) := by
  induction n with
  | zero => rfl
  | succ n ih =>
      have hpow : ¬ Builtin.pow.name ++ [byte '('] <:+: nestedRoots (n + 1) :=
        fun hoccurs => not_mem_nestedRoots (n + 1) (hoccurs.subset List.mem_cons_self)
      have hargument := sqrtArgument_eq (closed_nestedRoots n) (nestedRoots (n + 1))
      rw [trim_eq_self (solidEnds_nestedRoots n)] at hargument
      rw [nestedRoots, sqrt_text] at hpow hargument ⊢
      rw [evaluateNested, callIn?_sqrt hpow]
      simp only [hargument, bind, Except.bind, ih]

end Roots

/-- A variable with an empty name, and one with an operator in its name. -/
def oddlyNamed : Store :=
  (Store.empty.declare "" (.string "")).declare "5-" (.int 5)

theorem operatorFree_oddlyNamed : OperatorFree oddlyNamed := by
  intro v hv op
  revert v
  cases op <;> decide

/-- An expression that needs all of the four levels. -/
theorem descends_oddlyNamed : Descends oddlyNamed "8/4*3-1+5-" 4 "8" := by
  have hsum : operands oddlyNamed "8/4*3-1+5-" =
    [Text.ofString "8/4*3-1", Text.ofString "5"] := rfl
  have hdifference : operands oddlyNamed "8/4*3-1" =
    [Text.ofString "8/4*3", Text.ofString "1"] := rfl
  have hproduct : operands oddlyNamed "8/4*3" = [Text.ofString "8/4", Text.ofString "3"] := rfl
  have hquotient : operands oddlyNamed "8/4" = [Text.ofString "8", Text.ofString "4"] := rfl
  exact .operand (hsum ▸ List.mem_cons_self) (.operand (hdifference ▸ List.mem_cons_self)
    (.operand (hproduct ▸ List.mem_cons_self) (.operand (hquotient ▸ List.mem_cons_self)
      (.here _))))

/-- At depth 60 the limit does not show, whatever the names are; with too many calls it does. -/
theorem depth_limit_unobservable_names :
    OperatorFree oddlyNamed ∧
    reduceAt maxDepth 60 oddlyNamed "8/4*3-1+5-" ≠ .error (.invalid .tooDeep) ∧
    reduceAt 64 60 oddlyNamed "8/4*3-1+5-" = reduceAt 1000 60 oddlyNamed "8/4*3-1+5-" ∧
    (Descends oddlyNamed "8/4*3-1+5-" 4 "8" ∧ 4 ≤ 4) ∧
    evaluate oddlyNamed (nestedRoots 65) = .error (.invalid .tooDeep) ∧
    CallsNested 61 (nestedRoots 65) := by
  obtain ⟨hshallow, hlimits, hlevels, hcalls⟩ := depth_limit_unobservable operatorFree_oddlyNamed
  have hdeep : evaluate oddlyNamed (nestedRoots 65) = .error (.invalid .tooDeep) := by
    rw [evaluate, evaluateWithin, trim_eq_self (solidEnds_nestedRoots 65)]
    exact evaluateNested_nestedRoots oddlyNamed 65
  exact ⟨operatorFree_oddlyNamed, hshallow _ 60 (by decide),
    hlimits _ 60 64 1000 (by decide) (by decide),
    ⟨descends_oddlyNamed, hlevels _ _ _ descends_oddlyNamed⟩, hdeep, hcalls _ hdeep⟩

end Substitution

end LineScript
