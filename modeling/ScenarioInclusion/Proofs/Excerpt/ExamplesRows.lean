import ScenarioInclusion.Proofs.Excerpt
import ScenarioInclusion.Proofs.Passage.LeadIn
import ScenarioInclusion.Proofs.Text.Margins

/-!
# Rows of Examples tables

A row belongs to the nearest line above it that is neither a row nor void nor a
comment, and it is an Examples row if that line opens a table of examples.  The
reader of a scenario knows no lines above: it carries one flag from line to line.
The flag is right at every line, so bindings are refused just for the first row
of examples that does not have one cell for each, and other tables may have any
width.
-/

namespace ScenarioInclusion

/-! ## What a line is -/

theorem TableRow.cellCount_trim (row : Text) :
    cellCount row.trim = cellCount row := by
  rw [cellCount, cells, Text.trim_trim]
  rfl

namespace Line

/-- Is the first visible character of the line a pipe? -/
def isRow (line : Line) : Bool :=
  line.trim.head? = some '|'

/-- May the line stand between a row and the line that the row belongs to? -/
def isPassedOver (line : Line) : Bool :=
  line.isRow || line.isVoid || line.isComment

theorem head?_trim_of_opensExamples {line : Line}
    (h : line.opensExamples = true) :
    line.trim.head? = some 'E' ∨ line.trim.head? = some 'S' := by
  simp only [opensExamples, Bool.or_eq_true, List.isPrefixOf_iff_prefix] at h
  obtain ⟨rest, hrest⟩ | ⟨rest, hrest⟩ := h
  · exact Or.inl (by rw [← hrest]; rfl)
  · exact Or.inr (by rw [← hrest]; rfl)

theorem isPassedOver_eq_true_iff {line : Line} :
    line.isPassedOver = true ↔ line.trim.head? = some '|' ∨
      line.trim.head? = none ∨ line.trim.head? = some '#' := by
  rw [isPassedOver, Bool.or_eq_true, Bool.or_eq_true, isVoid_eq_true_iff,
    isRow, isComment, decide_eq_true_eq, decide_eq_true_eq, Text.head?_trim,
    or_assoc]

theorem role_eq_row_iff {line : Line} :
    line.role = .row ↔ line.isRow = true := by
  rw [isRow, decide_eq_true_eq, role]
  split
  · next hopens =>
      obtain hhead | hhead := head?_trim_of_opensExamples hopens <;>
        simp [hhead]
  · split <;> simp_all [List.head?_eq_some_iff]

/-- What comes after a line is in a table of examples if the line opens one, or
if it is passed over inside one. -/
theorem examplesAfter_role (line : Line) (before : Bool) :
    line.role.examplesAfter before =
      if line.isPassedOver then before else line.opensExamples := by
  by_cases hopens : line.opensExamples = true
  · have hpassed : line.isPassedOver = false := by
      rw [← Bool.not_eq_true, isPassedOver_eq_true_iff]
      obtain hhead | hhead := head?_trim_of_opensExamples hopens <;>
        simp [hhead]
    rw [role, if_pos hopens, hpassed, hopens]
    rfl
  · have hpassed : line.isPassedOver = true ↔ _ := isPassedOver_eq_true_iff
    rw [role, if_neg hopens]
    split <;> simp_all [LineRole.examplesAfter, List.head?_eq_some_iff]

end Line

/-! ## Rows and what they belong to -/

/-- The line that a row below all of these belongs to. -/
def rowOwner? (above : List Line) : Option Line :=
  above.reverse.find? fun line => !line.isPassedOver

/-- Is a row below all of these lines an Examples row? -/
def inExamples (above : List Line) : Bool :=
  (rowOwner? above).any Line.opensExamples

theorem rowOwner?_concat (above : List Line) (line : Line) :
    rowOwner? (above ++ [line]) =
      if line.isPassedOver then rowOwner? above else some line := by
  rw [rowOwner?, List.reverse_append, List.reverse_singleton,
    List.singleton_append, List.find?_cons]
  cases line.isPassedOver <;> rfl

/-- One line on, the flag is still right. -/
theorem inExamples_concat (above : List Line) (line : Line) :
    inExamples (above ++ [line]) =
      line.role.examplesAfter (inExamples above) := by
  rw [inExamples, rowOwner?_concat, Line.examplesAfter_role]
  split
  · rfl
  · rfl

namespace Bindings

/-- Is the line an Examples row, below these lines, with other than one cell for
each binding? -/
structure Misfit (bindings : Bindings) (above : List Line) (line : Line) :
    Prop where
  isRow : line.isRow = true
  inExamples : inExamples above = true
  cellCount_ne : TableRow.cellCount line ≠ bindings.length

variable {bindings : Bindings}

theorem misfit_iff {above : List Line} {line : Line} :
    bindings.Misfit above line ↔
      ScenarioInclusion.inExamples above = true ∧ line.role = .row ∧
        ¬ bindings.MatchesRow line.trim := by
  rw [Line.role_eq_row_iff, MatchesRow, TableRow.cellCount_trim]
  constructor
  · intro h
    exact ⟨h.inExamples, h.isRow, h.cellCount_ne⟩
  · rintro ⟨hexamples, hrow, hcount⟩
    exact ⟨hrow, hexamples, hcount⟩

instance (above : List Line) (line : Line) :
    Decidable (bindings.Misfit above line) :=
  decidable_of_iff _ misfit_iff.symm

section Search

variable {lines : List Line}

/-- Behind lines without a misfit, the search is where those lines leave it. -/
theorem firstMisfit?_eq_drop {count : Nat} (hcount : count ≤ lines.length)
    (h : ∀ index (_ : index < count),
      ¬ bindings.Misfit (lines.take index) lines[index]) :
    bindings.firstMisfit? false lines =
      bindings.firstMisfit? (ScenarioInclusion.inExamples (lines.take count))
        (lines.drop count) := by
  induction count with
  | zero => rfl
  | succ count ih =>
      have hfits := h count (Nat.lt_succ_self count)
      rw [misfit_iff] at hfits
      rw [ih (by omega) fun index hindex => h index (by omega),
        List.drop_eq_getElem_cons (by omega), firstMisfit?, if_neg hfits,
        ← inExamples_concat, List.take_concat_get']

theorem firstMisfit?_eq_none
    (h : ∀ index (_ : index < lines.length),
      ¬ bindings.Misfit (lines.take index) lines[index]) :
    bindings.firstMisfit? false lines = none := by
  rw [firstMisfit?_eq_drop (Nat.le_refl _) h, List.drop_length]
  rfl

theorem firstMisfit?_eq_some {index : Nat} (hindex : index < lines.length)
    (hmisfit : bindings.Misfit (lines.take index) lines[index])
    (hfirst : ∀ earlier (_ : earlier < index),
      ¬ bindings.Misfit (lines.take earlier) lines[earlier]) :
    bindings.firstMisfit? false lines = some lines[index].trim := by
  rw [firstMisfit?_eq_drop hindex.le hfirst, List.drop_eq_getElem_cons hindex,
    firstMisfit?, if_pos (misfit_iff.mp hmisfit)]

/-- If there is a misfit at all, there is a first one. -/
theorem exists_first_misfit
    (h : ∃ index, ∃ _ : index < lines.length,
      bindings.Misfit (lines.take index) lines[index]) :
    ∃ index, ∃ _ : index < lines.length,
      bindings.Misfit (lines.take index) lines[index] ∧
        ∀ earlier (_ : earlier < index),
          ¬ bindings.Misfit (lines.take earlier) lines[earlier] := by
  classical
  obtain ⟨hindex, hmisfit⟩ := Nat.find_spec h
  refine ⟨Nat.find h, hindex, hmisfit, fun earlier hearlier hother => ?_⟩
  exact Nat.find_min h hearlier ⟨hearlier.trans hindex, hother⟩

end Search

end Bindings

/-! ## Filling in a scenario -/

namespace Excerpt

/-- Without bindings the text of a scenario is copied.  Bindings are refused just
when an Examples row does not have one cell for each, and the fault is that of
the first such row; otherwise they are filled into every line. -/
theorem bind_exact (excerpt : Excerpt) (bindings : Bindings) :
    excerpt.bind [] = .ok excerpt.lines ∧
    (bindings ≠ [] →
      ((∃ fault, excerpt.bind bindings = .error fault) ↔
        ∃ index, ∃ _ : index < excerpt.lines.length,
          bindings.Misfit (excerpt.lines.take index) excerpt.lines[index]) ∧
      (∀ index (_ : index < excerpt.lines.length),
        bindings.Misfit (excerpt.lines.take index) excerpt.lines[index] →
        (∀ earlier (_ : earlier < index),
          ¬ bindings.Misfit (excerpt.lines.take earlier)
            excerpt.lines[earlier]) →
        excerpt.bind bindings =
          .error (.arityMismatch excerpt.feature excerpt.name
            excerpt.lines[index].trim bindings.length
            (TableRow.cellCount excerpt.lines[index]))) ∧
      ((∀ index (_ : index < excerpt.lines.length),
          ¬ bindings.Misfit (excerpt.lines.take index)
            excerpt.lines[index]) →
        ∃ text : List Line, excerpt.bind bindings = .ok text ∧
          text.length = excerpt.lines.length ∧
          ∀ index : Nat, text[index]? =
            excerpt.lines[index]?.map bindings.substitute)) := by
  refine ⟨rfl, fun hne => ?_⟩
  have hfails : ∀ index (hindex : index < excerpt.lines.length),
      bindings.Misfit (excerpt.lines.take index) excerpt.lines[index] →
      (∀ earlier (_ : earlier < index),
        ¬ bindings.Misfit (excerpt.lines.take earlier)
          excerpt.lines[earlier]) →
      excerpt.bind bindings =
        .error (.arityMismatch excerpt.feature excerpt.name
          excerpt.lines[index].trim bindings.length
          (TableRow.cellCount excerpt.lines[index])) := by
    intro index hindex hmisfit hfirst
    refine bind_eq_error_iff.mpr ⟨hne, excerpt.lines[index].trim,
      Bindings.firstMisfit?_eq_some hindex hmisfit hfirst, ?_⟩
    rw [TableRow.cellCount_trim]
  have hfills : (∀ index (_ : index < excerpt.lines.length),
      ¬ bindings.Misfit (excerpt.lines.take index) excerpt.lines[index]) →
      excerpt.bind bindings =
        .ok (excerpt.lines.map bindings.substitute) := by
    intro hnone
    rw [bind, if_neg hne, Bindings.firstMisfit?_eq_none hnone]
  refine ⟨⟨?_, ?_⟩, hfails, fun hnone => ?_⟩
  · rintro ⟨fault, hfault⟩
    by_contra hnone
    push Not at hnone
    rw [hfills hnone] at hfault
    contradiction
  · intro hsome
    obtain ⟨index, hindex, hmisfit, hfirst⟩ :=
      Bindings.exists_first_misfit hsome
    exact ⟨_, hfails index hindex hmisfit hfirst⟩
  · exact ⟨_, hfills hnone, List.length_map _, fun _ => List.getElem?_map ..⟩

/-! ## A table of steps and a table of examples -/

/-- A scenario that ends with one more row of examples. -/
def payingExcerpt (row : Line) : Excerpt where
  startLine := 1
  tagLines := []
  lines :=
    ["Scenario Outline: Pay".toList, "  Given the prices".toList,
      "    | tea | 1 |".toList, "  Examples:".toList, "".toList,
      "    | <sum> |".toList, "    # | by | card |".toList, row]
  feature := "shop".toList
  source := ⟨"shop".toList⟩
  name := "Pay".toList

def payingBindings : Bindings := [⟨"sum".toList, "3".toList⟩]

theorem bind_exact_payingExcerpt :
    (payingExcerpt "    | 1 | 2 |".toList).bind payingBindings =
      .error (.arityMismatch "shop".toList "Pay".toList "| 1 | 2 |".toList
        1 2) ∧
    ∃ text : List Line,
      (payingExcerpt "    | <sum> |".toList).bind payingBindings = .ok text ∧
        text.length = 8 ∧ text[7]? = some "    | 3 |".toList := by
  have hne : payingBindings ≠ [] := List.cons_ne_nil _ _
  have hwide := (bind_exact (payingExcerpt "    | 1 | 2 |".toList)
    payingBindings).2 hne
  have hfitting := (bind_exact (payingExcerpt "    | <sum> |".toList)
    payingBindings).2 hne
  obtain ⟨text, htext, hlength, hline⟩ := hfitting.2.2 (by decide +kernel)
  refine ⟨hwide.2.1 7 (by decide) (by decide +kernel) (by decide +kernel),
    text, htext, hlength, ?_⟩
  rw [hline 7]
  cbv

end Excerpt

end ScenarioInclusion
