/-
LineScript/Proofs/Identifiers.lean

The identifiers of a text, and the two ways of replacing names.

A text consists of identifiers, each as long as possible, and of bytes that belong to none
(`Words`).  Digits may stand right in front of an identifier, but only something that
cannot go on with it stands behind.

* Replacing identifiers turns those that are names of variables into the texts of their
  values, and keeps the rest (`replaceIdentifiers_name`, `replaceIdentifiers_cons`).
* Replacing names looks for one name after the other wherever it occurs, the longest ones
  first, in a text that the names before have changed already.  When a name has its turn,
  the identifiers that are left are no longer than it, so that it occurs in one of them
  only if it is that identifier: the text is what replacing the identifiers by the
  variables so far makes of it (`replace_replaceIdentifiers`).

Hence both come to the same for a text all of whose identifiers are names of variables, if
no value brings in a letter (`replaceNames_eq_replaceIdentifiers`).
-/
import LineScript.Expression.Substitution
import LineScript.Proofs.Lexemes
import LineScript.Proofs.Stores
import LineScript.Proofs.Trimming

namespace LineScript

open Text

namespace Substitution

open Expression

/-! ### The identifiers of a text -/

/-- What is left of a text where an identifier begins, and at each byte that belongs to
none. -/
def stops (t : Text) : List Text := (walk identifierWidth t).map Prod.snd

/-- The identifiers of a text, each as long as possible. -/
def identifiersIn (t : Text) : List Text :=
  (stops t).filterMap fun rest =>
    if identifierWidth rest = 0 then none else some (rest.take (identifierWidth rest))

/-- What stands in a text does not depend on the position where the text stands. -/
theorem map_snd_walkFrom (n pos : Nat) (t : Text) :
    (walkFrom identifierWidth n pos t).map Prod.snd = stops (t.drop n) := by
  have hplace : ∀ (n pos pos' : Nat) (t : Text),
      (walkFrom identifierWidth n pos t).map Prod.snd =
        (walkFrom identifierWidth n pos' t).map Prod.snd := by
    intro n pos pos' t
    induction t generalizing n pos pos' with
    | nil => simp [walkFrom]
    | cons b t ih =>
        cases n with
        | zero =>
            simp only [walkFrom, List.map_cons]
            rw [ih]
        | succ n => exact ih n _ _
  rw [walkFrom_skip]
  exact hplace 0 (pos + n) 0 (t.drop n)

/-- A byte with which no name begins is a stop of its own. -/
theorem stops_byte {b : UInt8} (hb : isNameStart b = false) (t : Text) :
    identifierWidth (b :: t) = 0 ∧ stops (b :: t) = (b :: t) :: stops t := by
  have hwidth : identifierWidth (b :: t) = 0 := by simp [identifierWidth, hb]
  refine ⟨hwidth, ?_⟩
  rw [stops, walk, walkFrom, List.map_cons, map_snd_walkFrom, hwidth]
  rfl

theorem ne_nil_of_isIdentifier {n : Text} (hn : isIdentifier n = true) : n ≠ [] := by
  rintro rfl
  cases hn

/-- A whole name is a single stop. -/
theorem stops_name {n rest : Text} (hn : isIdentifier n = true)
    (hrest : ∀ b ∈ rest.head?, isNamePart b = false) :
    identifierWidth (n ++ rest) = n.length ∧ stops (n ++ rest) = (n ++ rest) :: stops rest := by
  cases n with
  | nil => cases hn
  | cons b n =>
      obtain ⟨hb, hall⟩ := Bool.and_eq_true_iff.1 hn
      have htake : (n ++ rest).takeWhile isNamePart = n :=
        (takeWhile_append_stop (List.all_eq_true.1 hall) hrest).1
      have hwidth : identifierWidth (b :: (n ++ rest)) = n.length + 1 := by
        simp [identifierWidth, hb, htake, Nat.add_comm]
      refine ⟨hwidth, ?_⟩
      rw [stops, walk, List.cons_append, walkFrom, List.map_cons, map_snd_walkFrom, hwidth,
        Nat.add_sub_cancel, List.drop_left]

/-- How a text consists of identifiers and of other bytes. -/
inductive Words : Text → List Text → Prop where
  | nil : Words [] []
  | byte {b : UInt8} {t : Text} {ns : List Text} :
      isNameStart b = false → Words t ns → Words (b :: t) ns
  | name {n rest : Text} {ns : List Text} :
      isIdentifier n = true → (∀ b ∈ rest.head?, isNamePart b = false) → Words rest ns →
      Words (n ++ rest) (n :: ns)

theorem identifiersIn_byte {b : UInt8} (hb : isNameStart b = false) (t : Text) :
    identifiersIn (b :: t) = identifiersIn t := by
  obtain ⟨hwidth, hstops⟩ := stops_byte hb t
  rw [identifiersIn, hstops, List.filterMap_cons, if_pos hwidth]
  rfl

/-- A name is found as a whole, and the search goes on behind it. -/
theorem identifiersIn_name {n rest : Text} (hn : isIdentifier n = true)
    (hrest : ∀ b ∈ rest.head?, isNamePart b = false) :
    identifiersIn (n ++ rest) = n :: identifiersIn rest := by
  obtain ⟨hwidth, hstops⟩ := stops_name hn hrest
  have hpos : n.length ≠ 0 := mt List.length_eq_zero_iff.1 (ne_nil_of_isIdentifier hn)
  rw [identifiersIn, hstops, List.filterMap_cons, hwidth, if_neg hpos, List.take_left]
  rfl

/-- The names that are found are the words of a text. -/
theorem words_identifiersIn (t : Text) : Words t (identifiersIn t) := by
  induction hlength : t.length using Nat.strong_induction_on generalizing t with
  | _ k ih =>
      subst hlength
      cases t with
      | nil => exact .nil
      | cons b t =>
          cases hb : isNameStart b with
          | false =>
              rw [identifiersIn_byte hb]
              exact .byte hb (ih t.length (Nat.lt_succ_self _) t rfl)
          | true =>
              -- the identifier goes on up to the first byte that cannot belong to it
              have hn : isIdentifier (b :: t.takeWhile isNamePart) = true := by
                simp [isIdentifier, hb]
              have hrest : ∀ c ∈ (t.dropWhile isNamePart).head?, isNamePart c = false := by
                intro c hc
                have hhead := List.head?_dropWhile_not isNamePart t
                rw [hc] at hhead
                simpa using hhead
              have hsplit : b :: t = (b :: t.takeWhile isNamePart) ++ t.dropWhile isNamePart := by
                rw [List.cons_append, List.takeWhile_append_dropWhile]
              have hlt : (t.dropWhile isNamePart).length < (b :: t).length :=
                Nat.lt_succ_of_le (List.dropWhile_sublist isNamePart).length_le
              rw [hsplit, identifiersIn_name hn hrest]
              exact .name hn hrest (ih _ hlt _ rfl)

/-! ### Replacing identifiers -/

/-- What the identifier or the byte at the beginning of a text is replaced by. -/
def piece (store : Store) (rest : Text) : Text :=
  match identifierWidth rest with
  | 0 => rest.take 1
  | w =>
      match store.get? (rest.take w) with
      | some v => v.text
      | none => rest.take w

/-- Replacing goes from stop to stop. -/
theorem replaceIdentifiers_eq (store : Store) (t : Text) :
    replaceIdentifiers store t = (stops t).flatMap (piece store) := by
  rw [stops, List.flatMap_map]
  rfl

@[simp] theorem replaceIdentifiers_nil (store : Store) :
    replaceIdentifiers store [] = [] := rfl

/-- A byte that begins no name is kept. -/
theorem replaceIdentifiers_cons (store : Store) {b : UInt8}
    (hb : isNameStart b = false) (t : Text) :
    replaceIdentifiers store (b :: t) = b :: replaceIdentifiers store t := by
  obtain ⟨hwidth, hstops⟩ := stops_byte hb t
  have hpiece : piece store (b :: t) = [b] := by simp [piece, hwidth]
  rw [replaceIdentifiers_eq, hstops, List.flatMap_cons, hpiece, replaceIdentifiers_eq]
  rfl

/-- A text without names in front is left as it is. -/
theorem replaceIdentifiers_append (store : Store) {s : Text}
    (hs : ∀ b ∈ s, isNameStart b = false) (t : Text) :
    replaceIdentifiers store (s ++ t) = s ++ replaceIdentifiers store t := by
  induction s with
  | nil => rfl
  | cons b s ih =>
      obtain ⟨hb, hs⟩ := List.forall_mem_cons.1 hs
      rw [List.cons_append, replaceIdentifiers_cons store hb, ih hs, List.cons_append]

/-- What a variable's name is replaced by: the text of its value.  Other names are kept. -/
def shown (store : Store) (n : Text) : Text := ((store.get? n).map Value.text).getD n

/-- An identifier in front of something that does not go on with it. -/
theorem replaceIdentifiers_identifier (store : Store) {n rest : Text}
    (hn : isIdentifier n = true) (hrest : ∀ b ∈ rest.head?, isNamePart b = false) :
    replaceIdentifiers store (n ++ rest) = shown store n ++ replaceIdentifiers store rest := by
  obtain ⟨hwidth, hstops⟩ := stops_name hn hrest
  have hpiece : piece store (n ++ rest) = shown store n := by
    obtain ⟨b, u, rfl⟩ := List.exists_cons_of_ne_nil (ne_nil_of_isIdentifier hn)
    rw [piece, hwidth, List.length_cons]
    cases hget : store.get? (b :: u) with
    | none => simp [shown, hget]
    | some v => simp [shown, hget]
  rw [replaceIdentifiers_eq, hstops, List.flatMap_cons, hpiece, replaceIdentifiers_eq]

/-- A variable's name in front of something that does not go on with it is replaced by the
text of its value. -/
theorem replaceIdentifiers_name {store : Store} {n : Text} {v : Value}
    (hn : isIdentifier n = true) (hv : store.get? n = some v) {rest : Text}
    (hrest : ∀ b ∈ rest.head?, isNamePart b = false) :
    replaceIdentifiers store (n ++ rest) = v.text ++ replaceIdentifiers store rest := by
  rw [replaceIdentifiers_identifier store hn hrest, shown, hv]
  rfl

/-- Any other identifier is kept. -/
theorem replaceIdentifiers_unbound {store : Store} {n : Text} (hn : isIdentifier n = true)
    (hv : store.get? n = none) {rest : Text} (hrest : ∀ b ∈ rest.head?, isNamePart b = false) :
    replaceIdentifiers store (n ++ rest) = n ++ replaceIdentifiers store rest := by
  rw [replaceIdentifiers_identifier store hn hrest, shown, hv]
  rfl

/-- Where no identifier goes on, none goes on after replacing. -/
theorem head_replaceIdentifiers (store : Store) {rest : Text}
    (hrest : ∀ b ∈ rest.head?, isNamePart b = false) :
    ∀ b ∈ (replaceIdentifiers store rest).head?, isNamePart b = false := by
  cases rest with
  | nil => simp
  | cons b rest =>
      have hb : isNamePart b = false := hrest b rfl
      have hstart : isNameStart b = false := (Bool.or_eq_false_iff.1 hb).1
      rw [replaceIdentifiers_cons store hstart]
      exact hrest

/-- A text in which no name of a variable occurs is kept. -/
theorem replaceIdentifiers_eq_self {store : Store} {t : Text}
    (h : ∀ v ∈ store.toList, ¬ v.name <:+: t) : replaceIdentifiers store t = t := by
  have hwords := words_identifiersIn t
  generalize identifiersIn t = ns at hwords
  induction hwords with
  | nil => rfl
  | @byte b t ns hb _ ih =>
      rw [replaceIdentifiers_cons store hb, ih fun v hv hoccurs => h v hv (List.infix_cons hoccurs)]
  | @name n rest ns hn hrest _ ih =>
      have hnone : store.get? n = none := by
        rw [Option.eq_none_iff_forall_ne_some]
        intro v hv
        exact h _ (Store.mem_of_get?_eq_some hv) (List.prefix_append n rest).isInfix
      have hbehind := ih fun v hv hoccurs =>
        h v hv (hoccurs.trans (List.suffix_append n rest).isInfix)
      rw [replaceIdentifiers_unbound hn hnone hrest, hbehind]

/-! ### Replacing names -/

/-- A text in which no name of a variable occurs is kept. -/
theorem replaceNames_eq_self {store : Store} {t : Text}
    (h : ∀ v ∈ store.toList, ¬ v.name <:+: t) : replaceNames store t = t := by
  unfold replaceNames
  generalize store.toList = vs at h
  induction vs with
  | nil => rfl
  | cons v vs ih =>
      obtain ⟨hv, hvs⟩ := List.forall_mem_cons.1 h
      have hne : v.name ≠ [] := by
        intro hnil
        exact hv (hnil ▸ List.nil_infix)
      rw [List.foldl_cons, replace_eq_of_not_infix _ hne hv]
      exact ih hvs

/-- An identifier does not begin in a text without letters. -/
theorem replace_append_plain {n : Text} (hn : isIdentifier n = true) (new : Text) {s : Text}
    (hs : ∀ b ∈ s, isNameStart b = false) (t : Text) :
    replace n new (s ++ t) = s ++ replace n new t := by
  refine replace_append new (ne_nil_of_isIdentifier hn) fun u hu hne hprefix => ?_
  cases n with
  | nil => cases hn
  | cons a n =>
      obtain ⟨b, u, rfl⟩ := List.exists_cons_of_ne_nil hne
      obtain ⟨rfl, -⟩ := List.cons_prefix_cons.1 hprefix
      have hstart := hs a (hu.subset (by simp))
      rw [isIdentifier, hstart] at hn
      cases hn

/-- An identifier does not begin in another one that is not longer. -/
theorem replace_append_identifier {n n' : Text} (hn : isIdentifier n = true)
    (hlength : n'.length ≤ n.length) (hne : n' ≠ n) (new : Text) {rest : Text}
    (hrest : ∀ b ∈ rest.head?, isNamePart b = false) :
    replace n new (n' ++ rest) = n' ++ replace n new rest := by
  refine replace_append new (ne_nil_of_isIdentifier hn) fun u hu _ hprefix => ?_
  rcases isPrefix_append_cases hprefix with h | ⟨c, v, rfl, w, hw⟩
  · -- it would have to be all of it
    have hle := h.length_le
    have hfull : u = n' := hu.eq_of_length_le (by omega)
    subst hfull
    exact hne (h.eq_of_length_le hlength).symm
  · -- it would go on behind
    have hpart := isNamePart_of_isIdentifier hn c (by simp)
    rw [hrest c (by rw [← hw]; rfl)] at hpart
    cases hpart

/-- When a name has its turn and no longer identifier is left, it is replaced where it is an
identifier. -/
theorem replace_replaceIdentifiers {s s' : Store} {v : Variable}
    (hs' : s'.toList = s.toList ++ [v]) (hname : isIdentifier v.name = true)
    (hvalues : ∀ w ∈ s.toList, ∀ b ∈ w.value.text, isNameStart b = false) {t : Text}
    {ns : List Text} (hwords : Words t ns)
    (hleft : ∀ n ∈ ns, s.get? n = none → n.length ≤ v.name.length) :
    replace v.name v.value.text (replaceIdentifiers s t) = replaceIdentifiers s' t := by
  have hget := Store.get?_of_toList_append hs'
  -- The induction is on the words of the text: a replaced word has no name in it any more,
  -- and a word that was left is not longer than the name that comes now.
  induction hwords with
  | nil => exact replace_nil _ (ne_nil_of_isIdentifier hname)
  | @byte b t ns hb _ ih =>
      rw [replaceIdentifiers_cons s hb, replaceIdentifiers_cons s' hb, ← ih hleft]
      exact replace_append_plain hname _ (s := [b]) (by simpa using hb) _
  | @name n rest ns hn hrest _ ih =>
      obtain ⟨hlength, hleft⟩ := List.forall_mem_cons.1 hleft
      have hbehind := head_replaceIdentifiers s hrest
      cases hbound : s.get? n with
      | some value =>
          have hplain := hvalues _ (Store.mem_of_get?_eq_some hbound)
          have hbound' : s'.get? n = some value := by
            rw [hget, hbound]
            rfl
          rw [replaceIdentifiers_name hn hbound hrest, replaceIdentifiers_name hn hbound' hrest,
            replace_append_plain hname _ hplain, ih hleft]
      | none =>
          rw [replaceIdentifiers_unbound hn hbound hrest]
          by_cases heq : v.name = n
          · have hbound' : s'.get? n = some v.value := by
              rw [hget, hbound, List.find?_singleton, heq, beq_self_eq_true]
              rfl
            rw [replaceIdentifiers_name hn hbound' hrest, ← ih hleft, ← heq]
            exact replace_append_self _ (ne_nil_of_isIdentifier hname) _
          · have hbound' : s'.get? n = none := by
              rw [hget, hbound, List.find?_singleton, beq_false_of_ne heq]
              rfl
            rw [replaceIdentifiers_unbound hn hbound' hrest,
              replace_append_identifier hname (hlength hbound) (Ne.symm heq) _ hbehind, ih hleft]

/-- Replacing further names, in the order of a store, when the names before have been
replaced as identifiers. -/
theorem foldl_replace {s s' : Store} {vs : List Variable} (hs' : s'.toList = s.toList ++ vs)
    (hnames : ∀ v ∈ s'.toList, isIdentifier v.name = true)
    (hvalues : ∀ v ∈ s'.toList, ∀ b ∈ v.value.text, isNameStart b = false) {t : Text}
    {ns : List Text} (hwords : Words t ns) (hbound : ∀ n ∈ ns, (s'.get? n).isSome = true) :
    vs.foldl (fun t v => replace v.name v.value.text t) (replaceIdentifiers s t) =
      replaceIdentifiers s' t := by
  induction vs generalizing s with
  | nil =>
      rw [List.append_nil] at hs'
      rw [Store.ext hs']
      rfl
  | cons v vs ih =>
      have hordered : Ordered (s.toList ++ v :: vs) := hs' ▸ s'.ordered
      have hnext : s.toList ++ v :: vs = (s.toList ++ [v]) ++ vs := by simp
      -- what is left is bound to this variable or to a later one, whose name is not longer
      have hleft : ∀ n ∈ ns, s.get? n = none → n.length ≤ v.name.length := by
        intro n hn hnone
        have hsome := hbound n hn
        rw [Store.get?_of_toList_append hs', hnone, Option.none_or, Option.isSome_map,
          List.find?_isSome] at hsome
        obtain ⟨w, hw, hname⟩ := hsome
        rw [← eq_of_beq hname]
        exact length_le_of_ordered (List.pairwise_append.1 hordered).2.1 w hw
      have hstep : replace v.name v.value.text (replaceIdentifiers s t) =
          replaceIdentifiers
            ⟨s.toList ++ [v], (List.pairwise_append.1 (hnext ▸ hordered)).1⟩ t := by
        refine replace_replaceIdentifiers rfl ?_ ?_ hwords hleft
        · exact hnames v (by simp [hs'])
        · exact fun w hw => hvalues w (by simp [hs', hw])
      rw [List.foldl_cons, hstep]
      exact ih (hs'.trans hnext)

/-- If names are identifiers and no value has a letter in it, then replacing the names one
after the other comes to the same as replacing the identifiers, for every text whose
identifiers are all bound.  So a name is not spoilt by shorter ones that occur in it. -/
theorem replaceNames_eq_replaceIdentifiers {store : Store}
    (hnames : ∀ v ∈ store.toList, isIdentifier v.name = true)
    (hvalues : ∀ v ∈ store.toList, ∀ b ∈ v.value.text, isNameStart b = false) :
    (∀ t, (∀ n ∈ identifiersIn t, (store.get? n).isSome = true) →
        replaceNames store t = replaceIdentifiers store t) ∧
      ∀ n v, store.get? n = some v → replaceNames store n = v.text := by
  have hreplace : ∀ t, (∀ n ∈ identifiersIn t, (store.get? n).isSome = true) →
      replaceNames store t = replaceIdentifiers store t := by
    intro t hbound
    have hstart : replaceIdentifiers Store.empty t = t :=
      replaceIdentifiers_eq_self (by simp [Store.empty])
    have hall : store.toList = Store.empty.toList ++ store.toList := rfl
    have h := foldl_replace hall hnames hvalues (words_identifiersIn t) hbound
    rwa [hstart] at h
  refine ⟨hreplace, fun n v hv => ?_⟩
  -- a name is a text with one identifier
  have hn : isIdentifier n = true := hnames _ (Store.mem_of_get?_eq_some hv)
  have hone : identifiersIn (n ++ []) = [n] := identifiersIn_name hn (by simp)
  have hvalue : replaceIdentifiers store (n ++ []) = v.text ++ [] :=
    replaceIdentifiers_name hn hv (by simp)
  rw [List.append_nil] at hone hvalue
  rw [hreplace n (by simp [hone, hv]), hvalue, List.append_nil]

/-- Names that begin with each other, and a digit in front of one. -/
theorem replaceNames_eq_replaceIdentifiers_nested :
    let store := ((Store.empty.declare "a" (.int 1)).declare "ab" (.int 23)).declare "ab1"
      (.string "4.5")
    identifiersIn "7ab1-ab a" = ["ab1", "ab", "a"] ∧
      replaceNames store "7ab1-ab a" = replaceIdentifiers store "7ab1-ab a" ∧
      replaceNames store "ab1" = "4.5" := by
  intro store
  have hnames : ∀ v ∈ store.toList, isIdentifier v.name = true := by decide
  have hvalues : ∀ v ∈ store.toList, ∀ b ∈ v.value.text, isNameStart b = false := by
    have hall : (store.toList.all fun v => v.value.text.all fun b => !isNameStart b) = true := by
      decide
    simpa using hall
  have h := replaceNames_eq_replaceIdentifiers hnames hvalues
  exact ⟨by decide, h.1 _ (by decide), h.2 "ab1" (.string "4.5") rfl⟩

end Substitution

end LineScript
