/-
LineScript/Proofs/Lists.lean

Declarations of lists: which lines they are, and what is in the list.

* A line is the declaration of a list if it begins with `list<`, has `>` and `(` in this
  order, something behind them, and a closing bracket anywhere.  The last byte is taken for
  the closing bracket without looking at it, so the elements are what the brackets enclose
  exactly if the line ends with a bracket (`Statement.ofLine_list`).
* A list is filled from the left until it is full, and what is left over is what comes behind
  (`BoundedList.fill_spec`).  So of the elements between the commas it has as many as fit, from
  the first one on (`Machine.declareList_fills`).
-/
import LineScript.Machine.Execute
import LineScript.Proofs.Frame
import LineScript.Proofs.Recognition

namespace LineScript

open Text

/-! ### Lines -/

namespace Statement

variable {line name capacity elements : Text}

theorem list_line_eq (name c elements ending : Text) :
    ("list<" ++ name ++ ">" ++ c ++ "(" ++ elements ++ ending : Text) =
      "list<" ++ (name ++ byte '>' :: (c ++ byte '(' :: (elements ++ ending))) := by
  simp only [List.append_assoc]
  rfl

theorem bracket_mem_list_iff {rest : Text} :
    byte ')' ∈ ("list<" ++ rest : Text) ↔ byte ')' ∈ rest := by
  rw [List.mem_append, or_iff_right (by decide)]

/-- The parts of a list, with any byte in the place of the last bracket. -/
theorem ofLine_eq_listDeclaration_iff :
    ofLine line = .listDeclaration name capacity elements ↔
      ∃ (c : Text) (last : UInt8), line = "list<" ++ name ++ ">" ++ c ++ "(" ++ elements ++ [last] ∧
        trim c = capacity ∧ byte '>' ∉ name ∧ byte '(' ∉ c ∧ byte ')' ∈ line := by
  constructor
  · intro hline
    have h := recognised_ofLine line
    rw [hline] at h
    cases h with
    | listDeclaration hname hc hbracket =>
        exact ⟨_, _, (list_line_eq _ _ _ _).symm, rfl, hname, hc,
          bracket_mem_list_iff.2 hbracket⟩
  · rintro ⟨c, last, rfl, rfl, hname, hc, hbracket⟩
    rw [list_line_eq] at hbracket ⊢
    exact ofLine_listDeclaration_ending hname hc (bracket_mem_list_iff.1 hbracket)

/-- A line that begins like a list and has a closing bracket is nothing else. -/
theorem ofLine_list_malformed (hstart : Text.ofString "list<" <+: line)
    (hbracket : byte ')' ∈ line)
    (hnone : ∀ name capacity elements, ofLine line ≠ .listDeclaration name capacity elements) :
    ofLine line = .malformed "list command" := by
  obtain ⟨rest, rfl⟩ := hstart
  have hoccurs : occursIn ")" rest = true :=
    occursIn_byte_iff.2 (bracket_mem_list_iff.1 hbracket)
  obtain ⟨s, hs⟩ : ∃ s, listDeclaration? ("list<" ++ rest) = some s := by
    unfold listDeclaration?
    rw [after?_append]
    simp [hoccurs]
  have hline : ofLine ("list<" ++ rest) = s := by
    show (listDeclaration? _ <|> _).getD _ = _
    rw [hs]
    rfl
  obtain ⟨_, -, -, rfl | ⟨name, c, elements, last, -, -, -, rfl⟩⟩ := listDeclaration?_cases hs
  · exact hline
  · exact absurd hline (hnone name (trim c) elements)

/-- The lines that declare a list, whatever their last byte is.  Among the lines that end with a
closing bracket, these are exactly the lines in which the elements stand between brackets.  A
line that begins like a list and has a closing bracket, but does not declare a list, is
malformed. -/
theorem ofLine_list (line : Text) :
    (∀ name capacity elements, ofLine line = .listDeclaration name capacity elements ↔
      ∃ (c : Text) (last : UInt8), line = "list<" ++ name ++ ">" ++ c ++ "(" ++ elements ++ [last] ∧
        trim c = capacity ∧ byte '>' ∉ name ∧ byte '(' ∉ c ∧ byte ')' ∈ line) ∧
    (line.getLast? = some (byte ')') → ∀ name capacity elements,
      ofLine line = .listDeclaration name capacity elements ↔
        ∃ c : Text, line = "list<" ++ name ++ ">" ++ c ++ "(" ++ elements ++ ")" ∧
          trim c = capacity ∧ byte '>' ∉ name ∧ byte '(' ∉ c) ∧
    (Text.ofString "list<" <+: line → byte ')' ∈ line →
      (∀ name capacity elements, ofLine line ≠ .listDeclaration name capacity elements) →
        ofLine line = .malformed "list command") := by
  refine ⟨fun _ _ _ => ofLine_eq_listDeclaration_iff, fun hlast name capacity elements => ?_,
    ofLine_list_malformed⟩
  rw [ofLine_eq_listDeclaration_iff]
  constructor
  · rintro ⟨c, last, rfl, htrim, hname, hc, -⟩
    obtain rfl : last = byte ')' := by
      rw [List.getLast?_concat] at hlast
      exact Option.some.inj hlast
    exact ⟨c, rfl, htrim, hname, hc⟩
  · rintro ⟨c, rfl, htrim, hname, hc⟩
    exact ⟨c, byte ')', rfl, htrim, hname, hc, List.mem_append_right _ (by decide)⟩

/-- White space around the capacity, and a line that has no opening bracket. -/
theorem ofLine_list_closed :
    ((Text.ofString "list<l> 2 (a, b)").getLast? = some (byte ')') ∧
        ofLine "list<l> 2 (a, b)" = .listDeclaration "l" "2" "a, b") ∧
      (byte ')' ∈ Text.ofString "list<l>2)" ∧
        ofLine "list<l>2)" = .malformed "list command") := by
  have hlast : (Text.ofString "list<l> 2 (a, b)").getLast? = some (byte ')') := by decide
  have hbracket : byte ')' ∈ Text.ofString "list<l>2)" := by decide
  refine ⟨⟨hlast, ?_⟩, hbracket, ?_⟩
  · obtain ⟨-, hclosed, -⟩ := ofLine_list "list<l> 2 (a, b)"
    exact (hclosed hlast "l" "2" "a, b").2 ⟨" 2 ", by decide, by decide, by decide, by decide⟩
  · obtain ⟨hform, -, hmalformed⟩ := ofLine_list "list<l>2)"
    apply hmalformed (by decide) hbracket
    intro name capacity elements hline
    have hopen : byte '(' ∈ Text.ofString "list<l>2)" := by
      obtain ⟨c, last, hline, -⟩ := (hform name capacity elements).1 hline
      rw [hline, list_line_eq]
      simp
    exact absurd hopen (by decide)

/-- A semicolon behind the closing bracket: the bracket becomes part of the last element, and
the semicolon is lost. -/
theorem ofLine_list_unclosed :
    let line : Text := "list<l>2(a, b);"
    ofLine line = .listDeclaration "l" "2" "a, b)" ∧ line.getLast? ≠ some (byte ')') ∧
      ∀ c : Text, trim c = "2" → line ≠ "list<" ++ "l" ++ ">" ++ c ++ "(" ++ "a, b)" ++ ")" := by
  intro line
  have hopen : line.getLast? ≠ some (byte ')') := by decide
  refine ⟨by decide, hopen, fun c _ hline => hopen ?_⟩
  rw [hline]
  exact List.getLast?_concat

end Statement

/-! ### Filling a list -/

namespace BoundedList

/-- There is no room exactly if the list is full. -/
theorem add?_eq_none_iff {l : BoundedList} {v : Value} :
    l.add? v = none ↔ l.capacity = l.elements.length := by
  have hfits := l.fits
  unfold add?
  split
  · simp only [reduceCtorEq, false_iff]
    omega
  · simp only [true_iff]
    omega

/-- An element that is added is the last one, and the capacity stays. -/
theorem of_add?_eq_some {l l' : BoundedList} {v : Value} (h : l.add? v = some l') :
    l'.capacity = l.capacity ∧ l'.elements = l.elements ++ [v] := by
  unfold add? at h
  split at h
  · obtain rfl := Option.some.inj h
    exact ⟨rfl, rfl⟩
  · cases h

/-- A list is filled with the elements that fit, from the first one on, and the others are
left over. -/
theorem fill_spec (l : BoundedList) (vs : List Value) :
    (l.fill vs).1.capacity = l.capacity ∧
      (l.fill vs).1.elements = l.elements ++ vs.take (l.capacity - l.elements.length) ∧
      (l.fill vs).2 = vs.drop (l.capacity - l.elements.length) := by
  induction vs generalizing l with
  | nil => simp [fill]
  | cons v vs ih =>
      rw [fill]
      cases hadd : l.add? v with
      | none =>
          -- the list is full, so the first element that does not fit is this one
          rw [add?_eq_none_iff.1 hadd, Nat.sub_self]
          simp
      | some l' =>
          obtain ⟨hcapacity, helements⟩ := of_add?_eq_some hadd
          obtain ⟨n, hroom, hroom'⟩ : ∃ n, l.capacity - l.elements.length = n + 1 ∧
              l'.capacity - l'.elements.length = n := by
            have hfits := l'.fits
            rw [hcapacity, helements, List.length_append, List.length_singleton] at *
            exact ⟨l.capacity - (l.elements.length + 1), by omega, rfl⟩
          obtain ⟨ihcapacity, ihelements, ihrest⟩ := ih l'
          rw [hroom'] at ihelements ihrest
          rw [hroom, List.take_succ_cons, List.drop_succ_cons]
          refine ⟨ihcapacity.trans hcapacity, ?_, ihrest⟩
          rw [ihelements, helements, List.append_assoc, List.singleton_append]

/-- Something is left over exactly if there are more elements than there is room for. -/
theorem isEmpty_fill_iff (l : BoundedList) (vs : List Value) :
    (l.fill vs).2.isEmpty = true ↔ vs.length ≤ l.capacity - l.elements.length := by
  rw [(l.fill_spec vs).2.2, List.isEmpty_iff, List.drop_eq_nil_iff]

end BoundedList

/-! ### Declaring a list -/

namespace Machine

/-- An integer that is not negative is a capacity. -/
theorem emptyList_of_int {capacity : Text} {c : Int64} (h : Literal.int capacity = .ok c)
    (hc : 0 ≤ c.toInt) : emptyList capacity = .ok ⟨c.toInt.toNat, [], Nat.zero_le _⟩ := by
  simp only [emptyList, h, BoundedList.empty, if_neg (Int.not_lt.2 hc)]

/-- Nothing else is one. -/
theorem emptyList_error {capacity : Text}
    (h : ∀ c, Literal.int capacity = .ok c → c.toInt < 0) :
    ∃ cause, emptyList capacity = .error cause := by
  cases hint : Literal.int capacity with
  | error e => exact ⟨.literal e, by simp only [emptyList, hint]⟩
  | ok c =>
      exact ⟨.list (.negativeCapacity c.toInt), by
        simp only [emptyList, hint, BoundedList.empty, if_pos (h c hint)]⟩

/-- There is one element more than there are commas. -/
theorem length_elementsOf (t : Text) : (elementsOf t).length = t.count (byte ',') + 1 := by
  rw [elementsOf, List.length_map]
  exact length_split (byte ',') t

section Declaring

variable (m : Machine) (line : Text) {name : Text} (capacity elements : Text)
  (hname : name ≠ [] ∧ name ∉ keywords)
include hname

/-- With a capacity the list is bound, and the warning is there if not all elements fit. -/
theorem declareList_ok {c : Int64} (hint : Literal.int capacity = .ok c) (hc : 0 ≤ c.toInt) :
    m.declareList line name capacity elements =
      ⟨m.declare name (.list c.toInt.toNat ((elementsOf elements).take c.toInt.toNat)),
        if c.toInt.toNat < (elementsOf elements).length then some .listOverflow else none,
        false⟩ := by
  let l : BoundedList := ⟨c.toInt.toNat, [], Nat.zero_le _⟩
  obtain ⟨hcapacity, helements, -⟩ := l.fill_spec (elementsOf elements)
  have hvalue : (l.fill (elementsOf elements)).1.value =
      .list c.toInt.toNat ((elementsOf elements).take c.toInt.toNat) :=
    congrArg₂ Value.list hcapacity helements
  have hrest : (l.fill (elementsOf elements)).2.isEmpty = true ↔
      ¬ c.toInt.toNat < (elementsOf elements).length :=
    (l.isEmpty_fill_iff _).trans Nat.not_lt.symm
  simp only [declareList, nameFault?_eq_none_iff.2 hname, emptyList_of_int hint hc]
  show (⟨m.declare name (l.fill (elementsOf elements)).1.value,
    if (l.fill (elementsOf elements)).2.isEmpty then none else some .listOverflow, false⟩ :
      Outcome) = _
  simp only [hvalue, hrest, ite_not]

/-- Without a capacity nothing is bound. -/
theorem declareList_error (h : ∀ c, Literal.int capacity = .ok c → c.toInt < 0) :
    ∃ cause, m.declareList line name capacity elements =
      ⟨m, some (.listDeclaration line cause), false⟩ := by
  obtain ⟨cause, hcause⟩ := emptyList_error h
  exact ⟨some cause, by simp only [declareList, nameFault?_eq_none_iff.2 hname, hcause]⟩

end Declaring

/-- The declaration of a list binds the name to a list with the given capacity, and leaves all
other variables alone.  Its elements are the pieces between the commas, without the white space
around them, as many of them as fit, from the first one on.  If not all of them fit, there is a
warning.  With a capacity that is negative or not an integer the variables remain as they are,
and the message quotes the line. -/
theorem declareList_fills (m : Machine) (line : Text) {name : Text} (capacity elements : Text)
    (hne : name ≠ []) (hfree : name ∉ keywords) :
    let o := m.declareList line name capacity elements
    let k := elements.count (byte ',') + 1
    (Statement.ofLine line = .listDeclaration name capacity elements → m.execute line = o) ∧
    (∀ c : Int64, Literal.int capacity = .ok c → 0 ≤ c.toInt →
      (∃ pieces : List Text, join "," pieces = elements ∧ (∀ p ∈ pieces, byte ',' ∉ p) ∧
        pieces.length = k ∧
        o.machine.store.get? name = some (.list c.toInt.toNat
          ((pieces.map fun p => Value.string (trim p)).take (min c.toInt.toNat k)))) ∧
      (∀ n, n ≠ name → o.machine.store.get? n = m.store.get? n) ∧
      (o.fault = some .listOverflow ↔ c.toInt < k) ∧ (o.fault = none ↔ k ≤ c.toInt)) ∧
    ((∀ c, Literal.int capacity = .ok c → c.toInt < 0) →
      o.machine.store = m.store ∧ ∃ f, o.fault = some f ∧ f.kind = .parseError ∧
        f.message = "Error parsing list command: " ++ line) := by
  intro o k
  refine ⟨fun hline => by rw [m.execute_eq_perform hline, perform], fun c hint hc => ?_,
    fun h => ?_⟩
  · have hlength : (elementsOf elements).length = k := length_elementsOf elements
    have ho : o =
        ⟨m.declare name (.list c.toInt.toNat ((elementsOf elements).take c.toInt.toNat)),
        if c.toInt.toNat < k then some .listOverflow else none, false⟩ := by
      rw [← hlength]
      exact m.declareList_ok line capacity elements ⟨hne, hfree⟩ hint hc
    have hget : ∀ n, o.machine.store.get? n = if n = name then
        some (.list c.toInt.toNat ((elementsOf elements).take c.toInt.toNat))
        else m.store.get? n := by
      rw [ho]
      exact m.store.get?_declare name _
    -- The capacity was read as an integer and is used as a length.
    have hfull : c.toInt.toNat < k ↔ c.toInt < k := by omega
    refine ⟨⟨split "," elements, join_split (by decide) elements,
      fun p hp => not_mem_of_mem_split hp, length_split (byte ',') elements, ?_⟩, ?_, ?_, ?_⟩
    · rw [hget, if_pos rfl, List.take_eq_take_min, hlength]
      rfl
    · intro n hn
      rw [hget, if_neg hn]
    · rw [ho, ← hfull]
      simp
    · rw [ho, ← Int.not_lt, ← hfull]
      simp
  · obtain ⟨cause, ho⟩ := m.declareList_error line capacity elements ⟨hne, hfree⟩ h
    have ho' : o = ⟨m, some (.listDeclaration line cause), false⟩ := ho
    rw [ho']
    exact ⟨rfl, _, rfl, rfl, rfl⟩

/-- A list without room for its only element, which is empty, a list with the greatest
capacity, and a list whose capacity is negative. -/
theorem declareList_fills_limits :
    let m : Machine := { mode := .legacy }
    (Text.ofString "l" ≠ [] ∧ Text.ofString "l" ∉ keywords) ∧
      ((m.execute "list<l>0()").machine.store.get? "l" = some (.list 0 []) ∧
        (m.execute "list<l>0()").fault = some .listOverflow) ∧
      (m.execute "list<l>9223372036854775807(a,,)").fault = none ∧
      ∃ f, (m.execute "list<l>-1(a)").fault = some f ∧ f.kind = .parseError ∧
        f.message = "Error parsing list command: list<l>-1(a)" := by
  intro m
  have hne : Text.ofString "l" ≠ [] := by decide
  have hfree : Text.ofString "l" ∉ keywords := by decide
  refine ⟨⟨hne, hfree⟩, ?_, ?_, ?_⟩
  · obtain ⟨hline, hlist, -⟩ := m.declareList_fills "list<l>0()" "0" "" hne hfree
    obtain ⟨⟨pieces, -, -, -, hget⟩, -, hfault, -⟩ := hlist 0 rfl (by decide)
    rw [hline (by decide)]
    exact ⟨hget, hfault.2 (by decide)⟩
  · obtain ⟨hline, hlist, -⟩ :=
      m.declareList_fills "list<l>9223372036854775807(a,,)" "9223372036854775807" "a,," hne hfree
    obtain ⟨-, -, -, hfault⟩ := hlist Int64.maxValue rfl (by decide)
    rw [hline (by decide)]
    exact hfault.2 (by decide)
  · obtain ⟨hline, -, herror⟩ := m.declareList_fills "list<l>-1(a)" "-1" "a" hne hfree
    rw [hline (by decide)]
    refine (herror fun c hint => ?_).2
    obtain rfl : -1 = c := Except.ok.inj hint
    decide

end Machine

end LineScript
