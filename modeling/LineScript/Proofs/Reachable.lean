/-
LineScript/Proofs/Reachable.lean

What is true of the variables at every point of every run.  A store is sound if its
names are neither empty nor reserved, every variable stands under its own name, no
value is undefined, and lists hold strings only, no more of them than their capacity.

A sound store stays sound when a line is executed (`Course.sound`): every way to bind
a name checks the name first, and the values that it binds are read from literals, put
together to a list, or taken over from another variable.  Runs start without variables,
so all stores that runs come to are sound (`reachable_store_sound`).
-/
import LineScript.Proofs.Executions
import LineScript.Proofs.Lists
import LineScript.Proofs.Reading

namespace LineScript

open Text

/-! ### Sound stores -/

/-- What a variable may have as its value: not the undefined value, and a list only if
its capacity is an integer that is not negative, and its elements are strings and fit
into it. -/
structure Value.Proper (v : Value) : Prop where
  defined : v.kind ≠ .undefined
  list : ∀ capacity elements, v = .list capacity elements →
    capacity ≤ Int64.maxValue.toInt ∧ elements.length ≤ capacity ∧
      ∀ x ∈ elements, x.kind = .string

/-- What is true of the variables at every point of a run. -/
structure Store.Sound (s : Store) : Prop where
  name_ne_nil : ∀ v ∈ s.toList, v.name ≠ []
  name_not_keyword : ∀ v ∈ s.toList, v.name ∉ keywords
  /-- A variable is found under its own name, and under no other. -/
  keyed : ∀ name v, s.lookup? name = some v ↔ v ∈ s.toList ∧ v.name = name
  proper : ∀ v ∈ s.toList, v.value.Proper

namespace Store.Sound

variable {s : Store} {name : Text} {v : Value}

/-- The empty store is sound. -/
theorem empty : Store.empty.Sound where
  name_ne_nil := by simp [Store.empty]
  name_not_keyword := by simp [Store.empty]
  keyed := Store.empty.lookup?_eq_some_iff
  proper := by simp [Store.empty]

/-- Declaring an acceptable name with a proper value keeps a store sound. -/
theorem declare (h : s.Sound) (hne : name ≠ []) (hkeyword : name ∉ keywords)
    (hv : v.Proper) : (s.declare name v).Sound where
  name_ne_nil := by
    intro w hw
    rcases mem_insertVariable hw with rfl | hw
    · exact hne
    · exact h.name_ne_nil w hw
  name_not_keyword := by
    intro w hw
    rcases mem_insertVariable hw with rfl | hw
    · exact hkeyword
    · exact h.name_not_keyword w hw
  keyed := (s.declare name v).lookup?_eq_some_iff
  proper := by
    intro w hw
    rcases mem_insertVariable hw with rfl | hw
    · exact hv
    · exact h.proper w hw

end Store.Sound

/-! ### The values that are bound -/

/-- A value of a scalar type is proper. -/
theorem Value.Proper.of_scalar {v : Value} {s : ScalarType} (h : v.kind = s.kind) :
    v.Proper where
  defined := by
    rw [h]
    cases s <;> simp [ScalarType.kind]
  list := by
    rintro capacity elements rfl
    cases s <;> cases h

/-- Values that are read from a literal have its type. -/
theorem ScalarType.kind_of_read {s : ScalarType} {t : Text} {v : Value}
    (h : s.read t = .ok v) : v.kind = s.kind := by
  cases s with
  | string =>
      obtain rfl := Except.ok.inj h
      rfl
  | int | double | bool =>
      obtain ⟨x, -, rfl⟩ := Except.map_eq_ok_iff.1 h
      rfl

theorem ScalarType.proper_of_read {s : ScalarType} {t : Text} {v : Value}
    (h : s.read t = .ok v) : v.Proper :=
  .of_scalar (kind_of_read h)

/-- Answers are read as values of a scalar type. -/
theorem Statement.proper_of_reader? {s : Statement} {name answer : Text}
    {read : Text → Except LiteralError Value} (h : s.reader? = some (name, read))
    {v : Value} (hread : read answer = .ok v) : v.Proper := by
  cases s with
  | input n =>
      obtain ⟨-, rfl⟩ := Prod.mk.inj (Option.some.inj h)
      dsimp only [Machine.readNumber] at hread
      split at hread
      · exact ScalarType.proper_of_read hread
      · exact ScalarType.proper_of_read hread
  | typedInput n type =>
      obtain ⟨s, -, hs⟩ := Option.map_eq_some_iff.1 h
      obtain ⟨-, rfl⟩ := Prod.mk.inj hs
      unfold Machine.readAnswer at hread
      split at hread
      · exact ScalarType.proper_of_read hread
      · exact ScalarType.proper_of_read hread
  | _ => cases h

/-- An operand stands for the value of a variable or for a literal. -/
theorem Store.Sound.proper_resolve {s : Store} (h : s.Sound) (operand : Text) :
    (s.resolve operand).Proper := by
  unfold Store.resolve
  split
  · next v hget => exact h.proper _ (Store.mem_of_get?_eq_some hget)
  · split
    · split
      · exact .of_scalar (s := .double) rfl
      · exact .of_scalar (s := .string) rfl
    · split
      · exact .of_scalar (s := .int) rfl
      · exact .of_scalar (s := .string) rfl

/-- A capacity fits into 64 bits. -/
theorem Machine.emptyList_eq_ok {capacity : Text} {l : BoundedList}
    (h : emptyList capacity = .ok l) :
    l.elements = [] ∧ l.capacity ≤ Int64.maxValue.toInt := by
  by_cases hnegative : ∀ c, Literal.int capacity = .ok c → c.toInt < 0
  · obtain ⟨cause, herror⟩ := emptyList_error hnegative
    rw [herror] at h
    cases h
  · simp only [not_forall, Int.not_lt] at hnegative
    obtain ⟨n, hint, hn⟩ := hnegative
    rw [emptyList_of_int hint hn] at h
    obtain rfl := Except.ok.inj h
    refine ⟨rfl, ?_⟩
    have hmax : n.toInt ≤ Int64.maxValue.toInt := n.toInt_le
    show (n.toInt.toNat : Int) ≤ Int64.maxValue.toInt
    omega

/-- A list that has been filled is proper, since it holds strings and no more than fit. -/
theorem Machine.proper_fill {capacity : Text} {l : BoundedList}
    (h : emptyList capacity = .ok l) (elements : Text) :
    (l.fill (elementsOf elements)).1.value.Proper where
  defined := by simp [BoundedList.value, Value.kind]
  list := by
    rintro c es he
    obtain ⟨rfl, rfl⟩ := Value.list.inj he
    obtain ⟨hempty, hmax⟩ := emptyList_eq_ok h
    obtain ⟨hcapacity, helements, -⟩ := l.fill_spec (elementsOf elements)
    refine ⟨?_, (l.fill (elementsOf elements)).1.fits, fun x hx => ?_⟩
    · rw [hcapacity]
      exact hmax
    · rw [helements, hempty, List.nil_append] at hx
      obtain ⟨t, -, rfl⟩ := List.mem_map.1 (List.mem_of_mem_take hx)
      rfl

/-! ### Executing a line -/

/-- A line leaves a sound store sound. -/
theorem Course.sound {m : Machine} {line : Text} {o : Outcome} (hcourse : Course m line o)
    (h : m.store.Sound) : o.machine.store.Sound := by
  cases hcourse with
  | refused | decided | written | unanswered | unread => exact h
  | declared _ hname hread =>
      exact h.declare hname.1 hname.2 (ScalarType.proper_of_read hread)
  | @listed _ _ elements _ _ hname hlist =>
      -- the list is bound whether all its elements fit or not
      exact h.declare hname.1 hname.2 (Machine.proper_fill hlist elements)
  | answered _ hreader hname _ hread =>
      exact h.declare hname.1 hname.2 (Statement.proper_of_reader? hreader hread)
  | @assigned left operand _ _ hbound =>
      -- the name belongs to a variable, so it is sound already
      obtain ⟨old, hget⟩ := Option.isSome_iff_exists.1 hbound
      have hmem := Store.mem_of_get?_eq_some hget
      exact h.declare (h.name_ne_nil _ hmem) (h.name_not_keyword _ hmem)
        (h.proper_resolve (trim operand))

/-! ### Whole runs -/

/-- A run leads from sound stores to sound stores. -/
theorem Leads.sound {m m' : Machine} {es : List Execution} (h : Leads m es m')
    (hm : m.store.Sound) : m'.store.Sound := by
  refine h.invariant (P := fun m => m.store.Sound) ?_ ?_ hm
  · intro m _
    exact Store.Sound.empty
  · intro e he
    rw [e.store_after]
    exact e.course.sound he

/-- The variables are sound after any scripts that a machine has run, and at every point
of the next run, that is, behind any number `k` of its lines. -/
theorem reachable_store_sound (mode : Mode) (answers : Option Answers)
    (sources : List Text) (source : Text) (k : Nat) :
    let m : Machine := { mode, answers }
    (m.runs sources).store.Sound ∧
      ((m.runs sources).reach ((split "\n" source).take k)).machine.store.Sound := by
  intro m
  have hruns : (m.runs sources).store.Sound := (Leads.of_runs m sources).sound .empty
  obtain ⟨es, hreach⟩ := Leads.of_reach (m.runs sources) ((split "\n" source).take k)
  exact ⟨hruns, hreach.sound hruns⟩

end LineScript
