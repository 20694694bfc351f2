import ScenarioInclusion.Proofs.TableRow

/-!
# Rows that are written

A row is written with a pipe in front and one behind each cell.  A cell holds any
text: a backslash is written before each backslash and before each pipe, and there
may be blanks around the cell and around the row.  Counting finds as many cells as
were written.  The last pipe may be left out if the last cell shows without it.
-/

namespace ScenarioInclusion

namespace TableRow

/-- The text as it is written in a cell. -/
def escape (text : Text) : Text :=
  text.flatMap fun c => if c = '|' ∨ c = '\\' then ['\\', c] else [c]

structure WrittenCell where
  value : Text
  margins : Margins

def WrittenCell.text (cell : WrittenCell) : Text :=
  cell.margins.around (escape cell.value)

def written (cells : List WrittenCell) : Text :=
  '|' :: cells.flatMap fun cell => cell.text ++ ['|']

/-! ## What is void -/

theorem voids_escape_append (value rest : Text) :
    voids (escape value ++ rest) =
      (voids rest).modifyHead (value.isVoid && ·) := by
  induction value with
  | nil => exact (modifyHead_and_true _).symm
  | cons c value ih =>
      rw [escape, List.flatMap_cons, ← escape, List.append_assoc]
      by_cases hbreak : c = '|' ∨ c = '\\'
      · have hvisible : isBlank c = false := by
          rcases hbreak with rfl | rfl <;> decide
        rw [if_pos hbreak, List.cons_append, List.singleton_append,
          voids_escape, ih, List.modifyHead_modifyHead]
        simp [Text.isVoid, hvisible, Function.comp_def]
      · rw [if_neg hbreak, List.singleton_append]
        rcases not_or.mp hbreak with ⟨hpipe, hescape⟩
        rw [voids_cons hpipe hescape, ih, List.modifyHead_modifyHead]
        simp [Text.isVoid, Function.comp_def, Bool.and_assoc]

/-- A written cell is void if its text is. -/
theorem voids_text_append (cell : WrittenCell) (rest : Text) :
    voids (cell.text ++ rest) =
      (voids rest).modifyHead (cell.value.isVoid && ·) := by
  rw [WrittenCell.text, Margins.around, List.append_assoc, voids_gap_append,
    List.append_assoc, voids_escape_append, voids_gap_append]

theorem voids_cells_append (cells : List WrittenCell) (rest : Text) :
    voids ((cells.flatMap fun cell => cell.text ++ ['|']) ++ rest) =
      (cells.map fun cell => cell.value.isVoid) ++ voids rest := by
  induction cells with
  | nil => rfl
  | cons cell cells ih =>
      rw [List.flatMap_cons, List.append_assoc, List.append_assoc,
        voids_text_append, List.singleton_append, voids_pipe, ih]
      simp

theorem voids_written (cells : List WrittenCell) :
    voids (written cells) =
      true :: ((cells.map fun cell => cell.value.isVoid) ++ [true]) := by
  have hcells := voids_cells_append cells []
  rw [List.append_nil, voids_nil] at hcells
  rw [written, voids_pipe, hcells]

theorem dropLast_written_concat (front : List WrittenCell)
    (last : WrittenCell) :
    (written (front ++ [last])).dropLast = written front ++ last.text := by
  have hwritten : written (front ++ [last]) =
      (written front ++ last.text) ++ ['|'] := by
    simp [written]
  rw [hwritten, List.dropLast_concat]

theorem voids_unclosed (front : List WrittenCell) (last : WrittenCell) :
    voids (written (front ++ [last])).dropLast =
      true :: ((front.map fun cell => cell.value.isVoid) ++
        [last.value.isVoid]) := by
  have hlast := voids_text_append last []
  rw [List.append_nil, voids_nil] at hlast
  rw [dropLast_written_concat, written, List.cons_append, voids_pipe,
    voids_cells_append, hlast]
  simp

/-! ## Counting what was written -/

/-- There are as many cells as were written, whatever they hold, and without the
closing pipe just as many if the last one is not void. -/
theorem cellCount_written (margins : Margins) (cells : List WrittenCell) :
    cellCount (margins.around (written cells)) = cells.length ∧
    ∀ last ∈ cells.getLast?,
      (cellCount (margins.around (written cells).dropLast) = cells.length ↔
        last.value.isVoid = false) := by
  constructor
  · rw [cellCount_of_voids ((voids_around margins _).trans
      (voids_written cells))]
    simp
  · intro last hlast
    rcases List.getLast?_eq_some_iff.mp hlast with ⟨front, rfl⟩
    rw [cellCount_of_voids ((voids_around margins _).trans
      (voids_unclosed front last))]
    cases last.value.isVoid <;> simp

/-! ## A row with escapes -/

def emptyMargins : Margins :=
  ⟨Gap.empty, Gap.empty⟩

/-- A backslash before a pipe, a blank, and nothing but a backslash. -/
def escapedCells : List WrittenCell :=
  [⟨"a\\|b".toList, ⟨Gap.single ' ' (by decide), Gap.empty⟩⟩,
    ⟨" ".toList, emptyMargins⟩, ⟨"\\".toList, emptyMargins⟩]

theorem cellCount_written_escapedCells :
    written escapedCells = "| a\\\\\\|b| |\\\\|".toList ∧
    cellCount (emptyMargins.around (written escapedCells)) = 3 ∧
    cellCount (emptyMargins.around (written escapedCells).dropLast) = 3 := by
  have hcount := cellCount_written emptyMargins escapedCells
  exact ⟨by decide, hcount.1,
    (hcount.2 ⟨"\\".toList, emptyMargins⟩ rfl).mpr (by decide)⟩

end TableRow

end ScenarioInclusion
