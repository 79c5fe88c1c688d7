/-
LineScript/Proofs/Histories.lean

Stores as finite maps.  Variables are declared and assigned to, and they are discarded all at
once, when a store is cleared or a run is started (`Operation`).  Each operation binds a name,
discards all names, or leaves the binding of a name as it is (`get?_of_binds`,
`get?_of_discards`, `get?_of_neither`), so behind a history of operations a name has the
value that it was bound to last (`get?_after_eq_some_iff`).

The variables are in an order that does not depend on the history: a store is determined by
what is found in it (`Store.eq_of_get?`).

Main result: `store_after_history`.
-/
import LineScript.Expression.Mode
import LineScript.Proofs.Stores
import Mathlib.Data.Finset.Dedup
import Mathlib.Data.Finset.Card
import Mathlib.Data.List.Sort

namespace LineScript

open Text

/-! ### The order of variables -/

/-- Lexical order by bytes is the order of lists. -/
theorem Text.lexBefore_iff_lt {s t : Text} : lexBefore s t = true ↔ s < t := by
  induction s generalizing t with
  | nil =>
      cases t with
      | nil => simp [lexBefore]
      | cons b t => simp [lexBefore]
  | cons a s ih =>
      cases t with
      | nil => simp [lexBefore]
      | cons b t => simp [lexBefore, List.cons_lt_cons_iff, ih]

/-- Longer names come first, and names of one length in their order. -/
theorem Text.nameBefore_iff_lt {s t : Text} : nameBefore s t = true ↔
    t.length < s.length ∨ s.length = t.length ∧ s < t := by
  rw [nameBefore_iff, lexBefore_iff_lt]

namespace Store

variable (s : Store)

theorem pairwise_names : (s.toList.map Variable.name).Pairwise fun x y =>
    y.length < x.length ∨ x.length = y.length ∧ x < y := by
  rw [List.pairwise_map]
  exact s.ordered.imp nameBefore_iff_lt.1

/-- No name is there twice. -/
theorem nodup_names : (s.toList.map Variable.name).Nodup := by
  rw [List.Nodup, List.pairwise_map]
  refine s.ordered.imp fun {v w} hbefore heq => ?_
  rw [heq, nameBefore_irrefl] at hbefore
  cases hbefore

/-! ### What a store is -/

/-- A variable is found with the name that was looked for. -/
theorem lookup?_eq_map (name : Text) : s.lookup? name = (s.get? name).map (Variable.mk name) := by
  cases h : s.lookup? name with
  | none => rw [get?, h]; rfl
  | some v =>
      obtain ⟨-, rfl⟩ := (s.lookup?_eq_some_iff name v).1 h
      rw [get?, h]
      rfl

/-- The variables of a store are what can be found in it. -/
theorem mem_toList_iff {name : Text} {v : Value} :
    ⟨name, v⟩ ∈ s.toList ↔ s.get? name = some v := by
  refine ⟨fun h => ?_, mem_of_get?_eq_some⟩
  rw [get?, (s.lookup?_eq_some_iff name ⟨name, v⟩).2 ⟨h, rfl⟩]
  rfl

/-- A name is visited once if it is bound, and never otherwise. -/
theorem filter_name_toList (name : Text) :
    s.toList.filter (fun v => v.name == name) =
      ((s.get? name).map (Variable.mk name)).toList := by
  have hvisited : ∀ (vs : List Variable), (vs.map Variable.name).Nodup →
      vs.filter (fun v => v.name == name) =
        (vs.find? fun v => v.name == name).toList := by
    intro vs hvs
    induction vs with
    | nil => rfl
    | cons v vs ih =>
        obtain ⟨hnot, hvs⟩ := List.nodup_cons.1 hvs
        by_cases hname : v.name = name
        · have hrest : vs.filter (fun w => w.name == name) = [] := by
            rw [List.filter_eq_nil_iff]
            intro w hw heq
            exact hnot (List.mem_map.2 ⟨w, hw, (eq_of_beq heq).trans hname.symm⟩)
          simp [hname, hrest]
        · simp [hname, ih hvs]
  rw [← s.lookup?_eq_map]
  exact hvisited s.toList s.nodup_names

/-- The number of variables is that of the names that are bound. -/
theorem exists_names : ∃ names : Finset Text,
    (∀ name, name ∈ names ↔ (s.get? name).isSome) ∧ s.size = names.card := by
  refine ⟨(s.toList.map Variable.name).toFinset, fun name => ?_, ?_⟩
  · rw [List.mem_toFinset, List.mem_map, Option.isSome_iff_exists]
    constructor
    · rintro ⟨⟨_, v⟩, hv, rfl⟩
      exact ⟨v, s.mem_toList_iff.1 hv⟩
    · rintro ⟨v, hv⟩
      exact ⟨⟨name, v⟩, s.mem_toList_iff.2 hv, rfl⟩
  · rw [List.toFinset_card_of_nodup s.nodup_names, List.length_map]
    rfl

variable {s}

/-- Stores in which the same is found under every name are equal. -/
theorem eq_of_get? {s' : Store} (h : ∀ name, s'.get? name = s.get? name) : s' = s := by
  apply Store.ext
  have hperm : s'.toList.Perm s.toList := by
    rw [List.perm_ext_iff_of_nodup s'.nodup_names.of_map s.nodup_names.of_map]
    rintro ⟨name, v⟩
    rw [mem_toList_iff, mem_toList_iff, h]
  refine hperm.eq_of_pairwise (fun v w _ _ hvw hwv => ?_) s'.ordered s.ordered
  -- neither of two variables comes before the other one and behind it
  have hself := nameBefore_trans hvw hwv
  rw [nameBefore_irrefl] at hself
  cases hself

/-- Assigning to a variable is declaring it again. -/
theorem assign_of_some {name : Text} {old : Value} (h : s.get? name = some old) (v : Value) :
    s.assign name v = .ok (s.declare name v) := by
  rw [assign, h]

theorem assign_of_none {name : Text} (h : s.get? name = none) (v : Value) :
    s.assign name v = .error ⟨name⟩ := by
  rw [assign, h]

end Store

/-! ### Operations -/

/-- What can be done to the variables. -/
inductive Operation where
  | declare (name : Text) (v : Value)
  | assign (name : Text) (v : Value)
  | clear
  | startRun

/-- What an operation answers: a declaration gives the variable of that name before, and an
assignment fails if there is none. -/
inductive Reply where
  | declared (before : Option Variable)
  | assigned
  | undefined (e : UndefinedVariable)
  | discarded

namespace Environment

/-- Perform an operation. -/
def perform (e : Environment) : Operation → Environment × Reply
  | .declare name v =>
      let (store, before) := e.store.exchange name v
      ({ e with store }, .declared before)
  | .assign name v =>
      match e.store.assign name v with
      | .ok store => ({ e with store }, .assigned)
      | .error cause => (e, .undefined cause)
  | .clear => ({ e with store := .empty }, .discarded)
  | .startRun => (e.startRun, .discarded)

/-- A new environment behind a history of operations. -/
def after (history : List Operation) : Environment :=
  history.foldl (fun e op => (e.perform op).1) {}

/-- A history goes on from where it has come to. -/
theorem after_concat (history : List Operation) (op : Operation) :
    after (history ++ [op]) = ((after history).perform op).1 := by
  rw [after, List.foldl_append]
  rfl

variable {e : Environment} {name : Text}

theorem perform_declare (v : Value) : e.perform (.declare name v) =
    ({ e with store := e.store.declare name v },
      .declared ((e.store.get? name).map (Variable.mk name))) := by
  rw [← Store.lookup?_eq_map]
  rfl

theorem perform_assign_of_some {old : Value} (h : e.store.get? name = some old) (v : Value) :
    e.perform (.assign name v) = ({ e with store := e.store.declare name v }, .assigned) := by
  rw [perform, Store.assign_of_some h]

theorem perform_assign_of_none (h : e.store.get? name = none) (v : Value) :
    e.perform (.assign name v) = (e, .undefined ⟨name⟩) := by
  rw [perform, Store.assign_of_none h]

end Environment

namespace Operation

open Environment

variable {op : Operation} {e : Environment} {name : Text} {v : Value}

/-- Whether an operation binds a name to a value when it is performed: a declaration does,
and an assignment that succeeds. -/
def Binds (op : Operation) (e : Environment) (name : Text) (v : Value) : Prop :=
  op = .declare name v ∨ op = .assign name v ∧ (e.perform op).2 = .assigned

/-- Whether an operation discards all variables. -/
def Discards (op : Operation) : Prop := op = .clear ∨ op = .startRun

/-- An operation that binds a name leaves it bound. -/
theorem get?_of_binds (h : op.Binds e name v) : (e.perform op).1.store.get? name = some v := by
  have hbound : (e.store.declare name v).get? name = some v := by
    rw [Store.get?_declare, if_pos rfl]
  rcases h with rfl | ⟨rfl, hreply⟩
  · exact hbound
  · cases hold : e.store.get? name with
    | none =>
        rw [perform_assign_of_none hold] at hreply
        cases hreply
    | some old =>
        rw [perform_assign_of_some hold]
        exact hbound

/-- Where all variables are discarded, nothing is found. -/
theorem get?_of_discards (h : op.Discards) : (e.perform op).1.store.get? name = none := by
  rcases h with rfl | rfl
  · rfl
  · rfl

/-- Every other operation leaves the binding of the name as it is. -/
theorem get?_of_neither (hkept : ¬ op.Discards) (hother : ∀ w, ¬ op.Binds e name w) :
    (e.perform op).1.store.get? name = e.store.get? name := by
  have hdeclare : ∀ {n : Text} (w : Value), n ≠ name →
      (e.store.declare n w).get? name = e.store.get? name := by
    intro n w hne
    rw [Store.get?_declare, if_neg hne.symm]
  cases op with
  | declare n w =>
      refine hdeclare w ?_
      rintro rfl
      exact hother w (.inl rfl)
  | assign n w =>
      cases hold : e.store.get? n with
      | none => rw [perform_assign_of_none hold]
      | some old =>
          have hassign := perform_assign_of_some hold w
          rw [hassign]
          refine hdeclare w ?_
          rintro rfl
          exact hother w (.inr ⟨rfl, by rw [hassign]⟩)
  | clear => exact absurd (.inl rfl) hkept
  | startRun => exact absurd (.inr rfl) hkept

end Operation

/-! ### Histories -/

/-- The last operation of a history that has bound a name has bound it to `v`, and the
variables have not been discarded since. -/
def LastBinding (history : List Operation) (name : Text) (v : Value) : Prop :=
  ∃ before op later, history = before ++ op :: later ∧
    op.Binds (Environment.after before) name v ∧
    ∀ between op' rest, later = between ++ op' :: rest → ¬ op'.Discards ∧
      ∀ w, ¬ op'.Binds (Environment.after (before ++ op :: between)) name w

/-- The last binding is that of the last operation, if it is one, or else that of the history
before it. -/
theorem lastBinding_concat_iff {history : List Operation} {op : Operation} {name : Text}
    {v : Value} : LastBinding (history ++ [op]) name v ↔
      op.Binds (Environment.after history) name v ∨
        LastBinding history name v ∧ ¬ op.Discards ∧
          ∀ w, ¬ op.Binds (Environment.after history) name w := by
  -- The binding operation is either the one at the end or stands in the history before it,
  -- which is whether nothing or something comes later.
  constructor
  · rintro ⟨before, op', later, heq, hbinds, hlater⟩
    rcases List.eq_nil_or_concat later with rfl | ⟨later, last, rfl⟩
    · obtain ⟨rfl, hop⟩ := List.append_inj' heq rfl
      obtain rfl := (List.cons.inj hop).1
      exact .inl hbinds
    · rw [List.concat_eq_append, ← List.cons_append, ← List.append_assoc] at heq
      obtain ⟨rfl, hop⟩ := List.append_inj' heq rfl
      obtain rfl := (List.cons.inj hop).1
      rw [List.concat_eq_append] at hlater
      refine .inr ⟨⟨before, op', later, rfl, hbinds, ?_⟩, hlater later op [] rfl⟩
      rintro between op'' rest rfl
      exact hlater between op'' (rest ++ [op]) (by simp)
  · rintro (hbinds | ⟨⟨before, op', later, rfl, hbinds, hlater⟩, hlast⟩)
    · exact ⟨history, op, [], rfl, hbinds, fun between op' rest h => by simp at h⟩
    · refine ⟨before, op', later ++ [op], by simp, hbinds, fun between op'' rest h => ?_⟩
      rcases List.eq_nil_or_concat rest with rfl | ⟨rest, last, rfl⟩
      · obtain ⟨rfl, hop⟩ := List.append_inj' h rfl
        obtain rfl := (List.cons.inj hop).1
        exact hlast
      · rw [List.concat_eq_append, ← List.cons_append, ← List.append_assoc] at h
        exact hlater between op'' rest (List.append_inj' h rfl).1

/-- Under a name there is found what the name was bound to last. -/
theorem get?_after_eq_some_iff {history : List Operation} {name : Text} {v : Value} :
    (Environment.after history).store.get? name = some v ↔ LastBinding history name v := by
  induction history using List.reverseRecOn with
  | nil =>
      refine iff_of_false nofun ?_
      rintro ⟨before, op, later, h, -⟩
      simp at h
  | append_singleton history op ih =>
      rw [Environment.after_concat, lastBinding_concat_iff, ← ih]
      by_cases hbinds : ∃ w, op.Binds (Environment.after history) name w
      · obtain ⟨w, hw⟩ := hbinds
        rw [Operation.get?_of_binds hw, or_iff_left fun h => h.2.2 w hw]
        constructor
        · intro h
          rwa [← Option.some.inj h]
        · intro hv
          rw [← Operation.get?_of_binds hw, Operation.get?_of_binds hv]
      · have hother := not_exists.1 hbinds
        rw [or_iff_right (hother v)]
        by_cases hdiscards : op.Discards
        · rw [Operation.get?_of_discards hdiscards]
          exact iff_of_false nofun fun h => h.2.1 hdiscards
        · rw [Operation.get?_of_neither hdiscards hother,
            and_iff_left ⟨hdiscards, hother⟩]

/-- A store is a finite map, whatever has happened to it.  Under a name there is found what
the name was bound to last, if it has been bound since the variables were discarded last;
declaring gives back the variable of that name before, and assigning fails for the names that
are not bound, and for no others, and then changes nothing.  The number of variables is that
of the names that are bound.  Every such name is visited once, with its value, in the
order of decreasing length and then of bytes.  So histories that lead to the same bindings lead
to the same sequence of variables and to the same values of expressions. -/
theorem store_after_history (history : List Operation) :
    let e := Environment.after history
    (∀ name v, e.store.get? name = some v ↔ LastBinding history name v) ∧
    (∀ name, e.store.get? name = none ↔ ∀ v, ¬ LastBinding history name v) ∧
    (∀ name v,
      (e.perform (.declare name v)).2 =
        .declared ((e.store.get? name).map (Variable.mk name)) ∧
      ((e.perform (.assign name v)).2 = .undefined ⟨name⟩ ↔ e.store.get? name = none) ∧
      ((e.perform (.assign name v)).2 = .assigned ↔ e.store.get? name ≠ none) ∧
      (e.store.get? name = none → (e.perform (.assign name v)).1 = e)) ∧
    (∃ names : Finset Text, (∀ name, name ∈ names ↔ (e.store.get? name).isSome) ∧
      e.store.size = names.card) ∧
    (∀ name, e.store.toList.filter (fun v => v.name == name) =
      ((e.store.get? name).map (Variable.mk name)).toList) ∧
    ((e.store.toList.map Variable.name).Pairwise fun x y =>
      y.length < x.length ∨ x.length = y.length ∧ x < y) ∧
    ∀ history', (∀ name, (Environment.after history').store.get? name = e.store.get? name) →
      (Environment.after history').store.toList = e.store.toList ∧
      ∀ (mode : Mode) (t : Text),
        mode.evaluate (Environment.after history').store t = mode.evaluate e.store t := by
  intro e
  have hlast : ∀ name v, e.store.get? name = some v ↔ LastBinding history name v :=
    fun _ _ => get?_after_eq_some_iff
  refine ⟨hlast, fun name => ?_, fun name v => ⟨?_, ?_⟩, e.store.exists_names,
    e.store.filter_name_toList, e.store.pairwise_names, fun history' hsame => ?_⟩
  · simp only [Option.eq_none_iff_forall_ne_some, ne_eq, hlast]
  · rw [Environment.perform_declare]
  · cases hold : e.store.get? name with
    | none => simp [Environment.perform_assign_of_none hold]
    | some old => simp [Environment.perform_assign_of_some hold]
  · rw [Store.eq_of_get? hsame]
    exact ⟨rfl, fun _ _ => rfl⟩

/-- A variable that has changed its kind, an assignment to a name that is not bound, and the
same bindings made in the other order in a later run. -/
theorem store_after_history_reordered :
    let history : List Operation :=
      [.declare "x" (.bool true), .assign "y" (.string "2"), .assign "x" (.string "3"),
        .declare "xy" (.string "4")]
    let history' : List Operation :=
      [.declare "y" (.string "2"), .startRun, .declare "xy" (.string "4"),
        .declare "x" (.string "3")]
    (∀ name, (Environment.after history').store.get? name =
        (Environment.after history).store.get? name) ∧
      (Environment.after history').store.toList = (Environment.after history).store.toList ∧
      LastBinding history "x" (.string "3") ∧ ∀ v, ¬ LastBinding history' "y" v := by
  intro history history'
  have hstore : (Environment.after history').store = (Environment.after history).store := rfl
  have hsame : ∀ name, (Environment.after history').store.get? name =
      (Environment.after history).store.get? name := fun _ => by rw [hstore]
  obtain ⟨hlast, -, -, -, -, -, hequal⟩ := store_after_history history
  obtain ⟨-, hnone, -⟩ := store_after_history history'
  exact ⟨hsame, (hequal history' hsame).1, (hlast "x" (.string "3")).1 rfl, (hnone "y").1 rfl⟩

end LineScript
