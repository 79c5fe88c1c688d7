/-
LineScript/Proofs/Layouts.lean

The layout of a script.  What counts are the lines with something in them, without the white
space around them (`contentLines`): the other lines do nothing, whether the run is skipping
or not (`Run.foldl_content`), and written one below the other the lines that count are a
script with the same lines that count (`contentLines_ofLines`).

White space at the beginning or at the end of a line, of one byte or of several, does not
belong to what counts, and neither does white space with line feeds in it, which makes
blank lines (`contentLines_white_append`, `contentLines_append_white`).

Main result: `run_layout`.
-/
import LineScript.Proofs.Blocks
import LineScript.Proofs.Trimming

namespace LineScript

open Text

/-- The lines of a script with something in them, without the white space around them. -/
def contentLines (source : Text) : List Text :=
  (scriptLines source).filter fun l => !l.isEmpty

/-! ### Lines that do nothing -/

namespace Run

@[simp] theorem step_nil (r : Run) : r.step [] = r := rfl

/-- Empty lines make no difference, not even to whether the run is skipping. -/
theorem foldl_content (r : Run) (ls : List Text) :
    (ls.filter fun l => !l.isEmpty).foldl step r = ls.foldl step r := by
  induction ls generalizing r with
  | nil => rfl
  | cons l ls ih =>
      cases l with
      | nil =>
          rw [List.foldl_cons, step_nil]
          exact ih r
      | cons b l => exact ih (r.step (b :: l))

end Run

/-- Empty lines do nothing, so only lines with content matter. -/
theorem Machine.run_eq_content (m : Machine) (source : Text) :
    m.run source = (contentLines source).foldl Run.step { machine := m.startRun } :=
  (Run.foldl_content _ _).symm

/-! ### The lines that count -/

/-- A line with content is not empty, trimmed, and one line. -/
theorem of_mem_contentLines {source l : Text} (hl : l ∈ contentLines source) :
    l ≠ [] ∧ trim l = l ∧ byte '\n' ∉ l := by
  obtain ⟨hmem, hne⟩ := List.mem_filter.1 hl
  obtain ⟨line, hline, rfl⟩ := List.mem_map.1 hmem
  refine ⟨by simpa using hne, trim_trim line, fun hfeed => ?_⟩
  exact not_mem_of_mem_split hline ((trim_isInfix line).subset hfeed)

/-- Lines that are trimmed and not empty are found again below each other. -/
theorem contentLines_ofLines {ls : List Text}
    (h : ∀ l ∈ ls, l ≠ [] ∧ trim l = l ∧ byte '\n' ∉ l) : contentLines (ofLines ls) = ls := by
  by_cases hne : ls = []
  · subst hne
    rfl
  · have hsplit : split "\n" (ofLines ls) = ls := split_join hne fun l hl => (h l hl).2.2
    have htrim : ls.map trim = ls := (List.map_congr_left fun l hl => (h l hl).2.1).trans ls.map_id
    rw [contentLines, scriptLines, hsplit, htrim, List.filter_eq_self]
    intro l hl
    simpa using (h l hl).1

/-- A line feed between two texts keeps their lines apart. -/
theorem contentLines_append_newline (s t : Text) :
    contentLines (s ++ "\n" ++ t) = contentLines s ++ contentLines t := by
  have hsplit : split "\n" (s ++ "\n" ++ t) = split "\n" s ++ split "\n" t := by
    rw [List.append_assoc]
    exact split_append_byte (byte '\n') s t
  rw [contentLines, scriptLines, hsplit, List.map_append, List.filter_append]
  rfl

/-- A line counts by what is left of it without the white space around it. -/
theorem contentLines_congr {l l' : Text} (hl : byte '\n' ∉ l) (hl' : byte '\n' ∉ l')
    (h : trim l = trim l') : contentLines l = contentLines l' := by
  have hsplit : split "\n" l = [l] := split_byte_of_not_mem hl
  have hsplit' : split "\n" l' = [l'] := split_byte_of_not_mem hl'
  rw [contentLines, scriptLines, hsplit, List.map_singleton, h]
  rw [contentLines, scriptLines, hsplit', List.map_singleton]

/-! ### White space around lines -/

/-- A text is one line, or a line with a line feed and further lines behind it. -/
theorem lines_induction {motive : Text → Prop} (last : ∀ l, byte '\n' ∉ l → motive l)
    (more : ∀ l s, byte '\n' ∉ l → motive s → motive (l ++ "\n" ++ s)) (t : Text) :
    motive t := by
  induction hn : t.length using Nat.strong_induction_on generalizing t with
  | _ n ih =>
      subst hn
      by_cases hfeed : byte '\n' ∈ t
      · obtain ⟨l, s, rfl, hl⟩ := List.eq_append_cons_of_mem hfeed
        have hshorter : s.length < (l ++ byte '\n' :: s).length := by
          rw [List.length_append, List.length_cons]
          omega
        have h := more l s hl (ih s.length hshorter s rfl)
        rwa [List.append_assoc] at h
      · exact last t hfeed

theorem isWhite_of_blank {u : Text} (hu : u ∈ blanks) : IsWhite u := by
  have h := code_blanks.dropMarks_mark hu []
  rwa [List.append_nil] at h

/-- The line feed is the only blank that ends a line. -/
theorem eq_newline_of_blank : ∀ u ∈ blanks, byte '\n' ∈ u → u = "\n" := by
  decide

/-- A blank in front belongs to the first line, or is a line of its own. -/
theorem contentLines_blank_append {u : Text} (hu : u ∈ blanks) (s : Text) :
    contentLines (u ++ s) = contentLines s := by
  by_cases hfeed : byte '\n' ∈ u
  · rw [eq_newline_of_blank u hu hfeed]
    exact contentLines_append_newline [] s
  · have hline : ∀ l, byte '\n' ∉ l → contentLines (u ++ l) = contentLines l := by
      intro l hl
      refine contentLines_congr ?_ hl (trim_white_append (isWhite_of_blank hu) l)
      exact mt List.mem_append.1 (not_or.2 ⟨hfeed, hl⟩)
    -- the blank belongs to the first line
    induction s using lines_induction with
    | last l hl => exact hline l hl
    | more l s hl _ =>
        rw [← List.append_assoc, ← List.append_assoc, contentLines_append_newline, hline l hl,
          contentLines_append_newline]

/-- The same for a blank at the end. -/
theorem contentLines_append_blank (s : Text) {u : Text} (hu : u ∈ blanks) :
    contentLines (s ++ u) = contentLines s := by
  by_cases hfeed : byte '\n' ∈ u
  · rw [eq_newline_of_blank u hu hfeed]
    have h := contentLines_append_newline s []
    rwa [List.append_nil, show contentLines [] = [] from rfl, List.append_nil] at h
  · -- the blank belongs to the last line
    induction s using lines_induction with
    | last l hl =>
        refine contentLines_congr ?_ hl (trim_append_blank l hu)
        exact mt List.mem_append.1 (not_or.2 ⟨hl, hfeed⟩)
    | more l s _ ih =>
        rw [List.append_assoc, contentLines_append_newline, ih, contentLines_append_newline]

/-- White space in front is blanks in a row. -/
theorem contentLines_white_append {u : Text} (hu : IsWhite u) (s : Text) :
    contentLines (u ++ s) = contentLines s := by
  obtain ⟨ms, hms, rfl⟩ := hu.exists_blanks
  clear hu
  induction ms with
  | nil => rfl
  | cons m ms ih =>
      obtain ⟨hm, hms⟩ := List.forall_mem_cons.1 hms
      rw [List.flatten_cons, List.append_assoc, contentLines_blank_append hm, ih hms]

theorem contentLines_append_white (s : Text) {u : Text} (hu : IsWhite u) :
    contentLines (s ++ u) = contentLines s := by
  obtain ⟨ms, hms, rfl⟩ := hu.exists_blanks
  clear hu
  induction ms generalizing s with
  | nil => rw [List.flatten_nil, List.append_nil]
  | cons m ms ih =>
      obtain ⟨hm, hms⟩ := List.forall_mem_cons.1 hms
      rw [List.flatten_cons, ← List.append_assoc, ih _ hms, contentLines_append_blank s hm]

/-- Carriage returns in front of the line feeds make no difference. -/
theorem contentLines_replace_newline (source : Text) :
    contentLines (replace "\n" "\r\n" source) = contentLines source := by
  have hne : (ofString "\n") ≠ [] := by decide
  induction source using lines_induction with
  | last l hl =>
      rw [ replace_eq_of_not_infix _ hne (mt (List.singleton_infix_iff _ l).1 hl)]
  | more l s hl ih =>
      have hreplace : replace "\n" "\r\n" (l ++ "\n" ++ s) =
          l ++ "\r" ++ "\n" ++ replace "\n" "\r\n" s := by
        rw [List.append_assoc, replace_append _ hne ?_, replace_append_self _ hne]
        · simp only [List.append_assoc]
          rfl
        · intro u hu hnil hprefix
          obtain ⟨c, v, rfl⟩ := List.exists_cons_of_ne_nil hnil
          obtain ⟨rfl, -⟩ := List.cons_prefix_cons.1 hprefix
          exact hl (hu.subset List.mem_cons_self)
      rw [hreplace, contentLines_append_newline, contentLines_append_white l (by decide), ih,
        contentLines_append_newline]

/-! ### Running a script -/

/-- Scripts with the same content run alike. -/
theorem Machine.run_eq_of_content (m : Machine) {source source' : Text}
    (h : contentLines source' = contentLines source) : m.run source' = m.run source := by
  rw [m.run_eq_content, h, ← m.run_eq_content]

/-- The layout of a script does not matter.  A script runs as its lines do that have something
in them, without the white space around them, one below the other; scripts that have these
lines in common run alike, and lines that are blank change nothing at any point of a run,
skipping or not.  So white space of any kind may be put in front of a script and behind it,
at the end of a line and at the beginning of one, and lines may be ended in either way. -/
theorem run_layout (m : Machine) (source : Text) :
    m.run source = m.run (ofLines (contentLines source)) ∧
    (∀ source', contentLines source' = contentLines source → m.run source' = m.run source) ∧
    (∀ r : Run, (scriptLines source).foldl Run.step r = (contentLines source).foldl Run.step r) ∧
    (∀ u, IsWhite u →
      m.run (u ++ source) = m.run source ∧ m.run (source ++ u) = m.run source ∧
      ∀ rest, m.run (source ++ u ++ "\n" ++ rest) = m.run (source ++ "\n" ++ rest) ∧
        m.run (source ++ "\n" ++ (u ++ rest)) = m.run (source ++ "\n" ++ rest)) ∧
    m.run (replace "\n" "\r\n" source) = m.run source := by
  refine ⟨?_, fun source' h => m.run_eq_of_content h, fun r => (Run.foldl_content r _).symm,
    fun u hu => ⟨?_, ?_, fun rest => ⟨?_, ?_⟩⟩, ?_⟩
  · exact m.run_eq_of_content (contentLines_ofLines fun l hl => of_mem_contentLines hl).symm
  · exact m.run_eq_of_content (contentLines_white_append hu source)
  · exact m.run_eq_of_content (contentLines_append_white source hu)
  · apply m.run_eq_of_content
    rw [contentLines_append_newline, contentLines_append_white source hu,
      contentLines_append_newline]
  · apply m.run_eq_of_content
    rw [contentLines_append_newline, contentLines_white_append hu, contentLines_append_newline]
  · exact m.run_eq_of_content (contentLines_replace_newline source)

/-- Blank lines and white space of several bytes in a block that is skipped and around it. -/
theorem run_layout_skipped :
    let m : Machine := { mode := .legacy, answers := some ⟨["7"], []⟩ }
    let plain : Text := "if (x) \x7b\n(x)\n\x7d\n<in>(x)\n(x)"
    let spread : Text :=
      "\t if (x) \x7b \r\n\r\n\u00a0(x)\u2003\r\n \u3000\n \x7d\r\n<in>(x)\n\n(x)\r\n"
    contentLines spread = contentLines plain ∧ IsWhite "\u3000\n" ∧
      m.run spread = m.run plain ∧ m.run ("\u3000\n" ++ spread) = m.run spread := by
  intro m plain spread
  have hsame : contentLines spread = contentLines plain := by decide
  have hwhite : IsWhite "\u3000\n" := by decide
  exact ⟨hsame, hwhite, (run_layout m plain).2.1 spread hsame,
    ((run_layout m spread).2.2.2.1 _ hwhite).1⟩

end LineScript
