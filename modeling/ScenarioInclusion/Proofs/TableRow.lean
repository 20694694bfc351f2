import ScenarioInclusion.TableRow
import ScenarioInclusion.Proofs.Text.Margins

/-!
# Counting cells

How many cells a row has follows from its segments, and of these only two things
matter: how many they are, and which of them are void.  Blanks at the ends of a
row add nothing to either, so the row can be cut as it is written and need not
be trimmed first.
-/

namespace ScenarioInclusion

open Text

namespace TableRow

/-! ## Segments -/

theorem segments_cons {c : Char} (hpipe : c ≠ '|') (hescape : c ≠ '\\')
    (rest : Text) :
    segments (c :: rest) = (segments rest).modifyHead (c :: ·) := by
  rw [segments]
  · exact hpipe
  · intro _ _ heq
    exact absurd heq hescape

theorem segments_ne_nil (text : Text) : segments text ≠ [] := by
  fun_induction segments text with
  | case1 => simp
  | case2 rest ih => simp
  | case3 c rest ih => simpa using ih
  | case4 c rest hpipe hescape ih => simpa using ih

theorem exists_of_modifyHead_eq_singleton {f : Text → Text}
    {texts : List Text} {only : Text} (h : texts.modifyHead f = [only]) :
    ∃ first, texts = [first] ∧ f first = only := by
  cases texts with
  | nil => contradiction
  | cons first more =>
      rw [List.modifyHead_cons, List.cons.injEq] at h
      rcases h with ⟨rfl, rfl⟩
      exact ⟨first, rfl, rfl⟩

theorem eq_of_segments_eq_singleton {text only : Text}
    (h : segments text = [only]) : only = text := by
  fun_induction segments text generalizing only with
  | case1 => simpa using h.symm
  | case2 rest ih => simp [segments_ne_nil] at h
  | case3 c rest ih =>
      rcases exists_of_modifyHead_eq_singleton h with ⟨first, hrest, rfl⟩
      rw [ih hrest]
  | case4 c rest hpipe hescape ih =>
      rcases exists_of_modifyHead_eq_singleton h with ⟨first, hrest, rfl⟩
      rw [ih hrest]

/-- What stands behind the last pipe of a row is what the row ends with. -/
theorem suffix_of_getLast?_tail_segments {text last : Text}
    (h : (segments text).tail.getLast? = some last) : last <:+ text := by
  fun_induction segments text with
  | case1 => simp at h
  | case2 rest ih =>
      have hsuffix : last <:+ rest := by
        cases hrest : segments rest with
        | nil => exact absurd hrest (segments_ne_nil rest)
        | cons first more =>
            rw [List.tail_cons, hrest] at h
            cases more with
            | nil =>
                have hfirst := eq_of_segments_eq_singleton hrest
                simp only [List.getLast?_singleton, Option.some.injEq] at h
                rw [← h, hfirst]
            | cons second later =>
                rw [List.getLast?_cons_cons] at h
                exact ih (by rw [hrest, List.tail_cons, h])
      exact hsuffix.trans (List.suffix_cons ..)
  | case3 c rest ih =>
      rw [List.tail_modifyHead] at h
      exact (ih h).trans ((List.suffix_cons ..).trans (List.suffix_cons ..))
  | case4 c rest hpipe hescape ih =>
      rw [List.tail_modifyHead] at h
      exact (ih h).trans (List.suffix_cons ..)

/-! ## Void segments -/

/-- Which segments of the row are void. -/
def voids (row : Text) : List Bool :=
  (segments row).map Text.isVoid

@[simp] theorem voids_nil : voids [] = [true] := rfl

@[simp] theorem voids_pipe (rest : Text) :
    voids ('|' :: rest) = true :: voids rest := rfl

@[simp] theorem voids_escape (c : Char) (rest : Text) :
    voids ('\\' :: c :: rest) = (voids rest).modifyHead fun _ => false := by
  rw [voids, voids, segments]
  have hvisible : isBlank '\\' = false := by decide
  cases segments rest <;> simp [Text.isVoid, hvisible]

theorem voids_cons {c : Char} (hpipe : c ≠ '|') (hescape : c ≠ '\\')
    (rest : Text) :
    voids (c :: rest) = (voids rest).modifyHead (isBlank c && ·) := by
  rw [voids, voids, segments_cons hpipe hescape]
  cases segments rest <;> simp [Text.isVoid]

theorem modifyHead_and_true (flags : List Bool) :
    flags.modifyHead (true && ·) = flags := by
  cases flags <;> simp

/-- Is no character of the text one that ends a cell or escapes another? -/
def IsUnbroken (text : Text) : Prop :=
  '|' ∉ text ∧ '\\' ∉ text

instance (text : Text) : Decidable (IsUnbroken text) :=
  inferInstanceAs (Decidable (_ ∧ _))

theorem isUnbroken_cons_iff {c : Char} {rest : Text} :
    IsUnbroken (c :: rest) ↔ (c ≠ '|' ∧ c ≠ '\\') ∧ IsUnbroken rest := by
  simp only [IsUnbroken, List.mem_cons, not_or, ne_eq, eq_comm (a := c)]
  tauto

theorem isUnbroken_gap (gap : Gap) : IsUnbroken gap.text := by
  constructor
  · intro hmem
    exact absurd (gap.isBlank_of_mem _ hmem) (by decide)
  · intro hmem
    exact absurd (gap.isBlank_of_mem _ hmem) (by decide)

/-- A text without breaks is part of the segment that follows. -/
theorem voids_append {text : Text} (h : IsUnbroken text) (rest : Text) :
    voids (text ++ rest) = (voids rest).modifyHead (text.isVoid && ·) := by
  induction text with
  | nil => exact (modifyHead_and_true _).symm
  | cons c text ih =>
      rcases isUnbroken_cons_iff.mp h with ⟨⟨hpipe, hescape⟩, htext⟩
      rw [List.cons_append, voids_cons hpipe hescape, ih htext,
        List.modifyHead_modifyHead]
      simp [Text.isVoid, Function.comp_def, Bool.and_assoc]

theorem voids_gap_append (gap : Gap) (text : Text) :
    voids (gap.text ++ text) = voids text := by
  have hvoid : Text.isVoid gap.text = true :=
    List.all_eq_true.mpr gap.isBlank_of_mem
  rw [voids_append (isUnbroken_gap gap), hvoid, modifyHead_and_true]

/-- Blanks at the end of a row do not make its last segment less void. -/
theorem voids_append_gap (text : Text) (gap : Gap) :
    voids (text ++ gap.text) = voids text := by
  fun_induction segments text with
  | case1 => simpa using voids_gap_append gap []
  | case2 rest ih => rw [List.cons_append, voids_pipe, ih, voids_pipe]
  | case3 c rest ih =>
      rw [List.cons_append, List.cons_append, voids_escape, ih, voids_escape]
  | case4 c rest hpipe hescape ih =>
      by_cases hlone : c = '\\'
      · subst hlone
        cases rest with
        | nil =>
            cases hgap : gap.text with
            | nil => rfl
            | cons d blanks =>
                have hblanks : ∀ c ∈ blanks, isBlank c = true := by
                  intro c hc
                  exact gap.isBlank_of_mem c (by simp [hgap, hc])
                have hvoids := voids_gap_append ⟨blanks, hblanks⟩ []
                rw [List.append_nil] at hvoids
                rw [List.singleton_append, voids_escape, hvoids]
                rfl
        | cons d rest => exact absurd rfl (hescape d rest rfl)
      · rw [List.cons_append, voids_cons hpipe hlone, ih,
          voids_cons hpipe hlone]

theorem voids_around (margins : Margins) (row : Text) :
    voids (margins.around row) = voids row := by
  rw [Margins.around, voids_gap_append, voids_append_gap]

theorem voids_trim (row : Text) : voids row.trim = voids row := by
  rcases Text.exists_margins row with ⟨margins, hrow⟩
  calc
    voids row.trim = voids (margins.around row.trim) :=
      (voids_around margins _).symm
    _ = voids row := by rw [← hrow]

/-! ## Cells -/

/-- A row that is trimmed does not end with a void segment unless it ends with a
pipe. -/
theorem isVoid_iff_of_suffix_trim {row last : Text} (h : last <:+ row.trim) :
    last.isVoid = true ↔ last = [] := by
  constructor
  · intro hvoid
    rcases h with ⟨(front : Text), hfront⟩
    have hend : row.trim.trimEnd = front.trimEnd := by
      rw [← hfront]
      exact trimEnd_append_of_blank (List.all_eq_true.mp hvoid) front
    have hlength : row.trim.length ≤ front.length := by
      rw [Text.trim, Text.trimEnd_trimEnd, ← Text.trim] at hend
      rw [hend]
      exact (Text.isPrefix_trimEnd front).length_le
    rw [← hfront, List.length_append] at hlength
    exact List.length_eq_zero_iff.mp (by omega)
  · intro hnil
    rw [hnil]
    rfl

/-- The number of cells, counted without trimming the row. -/
theorem cellCount_eq (row : Text) :
    cellCount row =
      if (voids row).tail.getLast? = some true then (voids row).tail.length - 1
      else (voids row).tail.length := by
  have htail : (voids row).tail = (segments row.trim).tail.map Text.isVoid := by
    rw [← voids_trim, voids, List.map_tail]
  have hlast : (voids row).tail.getLast? = some true ↔
      (segments row.trim).tail.getLast? = some [] := by
    rw [htail, List.getLast?_map]
    cases h : (segments row.trim).tail.getLast? with
    | none => simp
    | some last =>
        have hsuffix := suffix_of_getLast?_tail_segments h
        simpa using isVoid_iff_of_suffix_trim hsuffix
  rw [cellCount, cells]
  simp only [hlast]
  split
  · rw [List.length_dropLast, htail, List.length_map]
  · rw [htail, List.length_map]

/-- The text behind the last pipe is a cell if there is any. -/
theorem cellCount_of_voids {row : Text} {first last : Bool}
    {inner : List Bool} (h : voids row = first :: (inner ++ [last])) :
    cellCount row = inner.length + if last then 0 else 1 := by
  rw [cellCount_eq, h, List.tail_cons, List.getLast?_concat]
  cases last <;> simp

theorem cellCount_congr {row other : Text} (h : voids row = voids other) :
    cellCount row = cellCount other := by
  rw [cellCount_eq, cellCount_eq, h]

end TableRow

end ScenarioInclusion
