/-
LineScript/Proofs/Stores.lean

What is found in a store.  Names are in strict order, so that a variable is found under its
own name, and under no other (`Store.lookup?_eq_some_iff`); declaring a name changes what
is found under this name only (`Store.get?_declare`).
-/
import LineScript.Store.Basic

namespace LineScript

open Text

/-! ### Looking for a name -/

/-- Since the names differ, the first variable with a name is the one. -/
theorem find?_name_of_ordered {vs : List Variable} (h : Ordered vs) {v : Variable}
    (hv : v ∈ vs) : vs.find? (fun w => w.name == v.name) = some v := by
  induction vs with
  | nil => cases hv
  | cons w vs ih =>
      obtain ⟨hw, hvs⟩ := List.pairwise_cons.1 h
      rcases List.mem_cons.1 hv with rfl | hv
      · exact List.find?_cons_of_pos (by simp)
      · -- names are in strict order, so the first one is another
        have hne : ¬ (w.name == v.name) = true := by
          intro heq
          have hbefore := hw v hv
          rw [eq_of_beq heq, nameBefore_irrefl] at hbefore
          cases hbefore
        refine (List.find?_cons_of_neg ?_).trans (ih hvs hv)
        exact hne

/-- What is found is there, under its own name. -/
theorem Store.lookup?_eq_some_iff (s : Store) (name : Text) (v : Variable) :
    s.lookup? name = some v ↔ v ∈ s.toList ∧ v.name = name := by
  unfold lookup?
  constructor
  · intro h
    exact ⟨List.mem_of_find?_eq_some h, by simpa using List.find?_some h⟩
  · rintro ⟨hv, rfl⟩
    exact find?_name_of_ordered s.ordered hv

theorem Store.mem_of_get?_eq_some {s : Store} {name : Text} {v : Value}
    (h : s.get? name = some v) : ⟨name, v⟩ ∈ s.toList := by
  obtain ⟨w, hw, rfl⟩ := Option.map_eq_some_iff.1 h
  obtain ⟨hmem, rfl⟩ := (s.lookup?_eq_some_iff name w).1 hw
  exact hmem

/-- With further variables behind them, variables are found as before. -/
theorem Store.get?_of_toList_append {s s' : Store} {vs : List Variable}
    (h : s'.toList = s.toList ++ vs) (name : Text) :
    s'.get? name =
      (s.get? name).or ((vs.find? fun v => v.name == name).map Variable.value) := by
  rw [get?, lookup?, h, List.find?_append, Option.map_or]
  rfl

theorem Store.ext {s s' : Store} (h : s'.toList = s.toList) : s' = s := by
  cases s
  cases s'
  cases h
  rfl

/-- The first of the variables has the longest name. -/
theorem length_le_of_ordered {v : Variable} {vs : List Variable} (h : Ordered (v :: vs)) :
    ∀ w ∈ v :: vs, w.name.length ≤ v.name.length := by
  refine List.forall_mem_cons.2 ⟨Nat.le_refl _, fun w hw => ?_⟩
  rcases nameBefore_iff.1 ((List.pairwise_cons.1 h).1 w hw) with hlt | ⟨heq, -⟩
  · exact Nat.le_of_lt hlt
  · exact Nat.le_of_eq heq.symm

/-! ### Declaring a name -/

/-- An inserted variable is found under its name, in the place of another that had it. -/
theorem find?_insertVariable (v : Variable) (ws : List Variable) (n : Text) :
    (insertVariable v ws).find? (fun w => w.name == n) =
      if n = v.name then some v else ws.find? fun w => w.name == n := by
  -- The variable takes the place of the one with its name, or stands in front of the
  -- first that it precedes; the others keep their order.
  induction ws with
  | nil => by_cases hn : n = v.name <;> simp [insertVariable, hn, Ne.symm]
  | cons w ws ih =>
      by_cases hn : n = v.name
      · subst hn
        rw [if_pos rfl] at ih ⊢
        unfold insertVariable
        split
        · simp
        · next hname =>
            split
            · simp
            · simp [Ne.symm hname, ih]
      · rw [if_neg hn] at ih ⊢
        unfold insertVariable
        split
        · next hname => simp [Ne.symm hn, ← hname]
        · split
          · simp [Ne.symm hn]
          · simp [List.find?_cons, ih]

/-- Declaring a name changes the binding of this name only. -/
theorem Store.get?_declare (s : Store) (name : Text) (v : Value) (n : Text) :
    (s.declare name v).get? n = if n = name then some v else s.get? n := by
  unfold get? lookup? declare
  rw [find?_insertVariable]
  split <;> rfl

end LineScript
