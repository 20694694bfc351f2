import ScenarioInclusion.Document
import ScenarioInclusion.Proofs.Text.Lines

/-!
# Documents and texts that come back

Lines carry no line feeds and no endings, so a document is read again as it was
written just when its lines could have been read.  A text keeps no record of how
its lines were ended, so it is written again as it was read just when every line
of it ends in the one way that lines are written: in a line feed alone.
-/

namespace ScenarioInclusion

theorem Line.withoutReturn_eq_self_iff {line : Line} :
    line.withoutReturn = line ↔ line.getLast? ≠ some '\r' := by
  rw [withoutReturn]
  split
  · next hlast =>
      obtain ⟨start, rfl⟩ := List.getLast?_eq_some_iff.mp hlast
      simp
  · next hlast => simp [hlast]

theorem Line.map_withoutReturn_eq_self_iff {lines : List Line} :
    lines.map withoutReturn = lines ↔
      ∀ line ∈ lines, line.getLast? ≠ some '\r' := by
  induction lines with
  | nil => simp
  | cons line rest ih =>
      rw [List.map_cons, List.cons.injEq, withoutReturn_eq_self_iff, ih,
        List.forall_mem_cons]

namespace Text

theorem unlines_extendFirst (c : Char) (lines : List Line) :
    unlines (extendFirst c lines) = c :: unlines lines := by
  rcases lines with _ | ⟨first, _ | ⟨next, rest⟩⟩
  · rfl
  · simp [extendFirst]
  · simp [extendFirst, unlines_cons_cons]

theorem unlines_nil_cons {lines : List Line} (hne : lines ≠ []) :
    unlines ([] :: lines) = '\n' :: unlines lines := by
  obtain ⟨next, rest, rfl⟩ := List.exists_cons_of_ne_nil hne
  exact unlines_cons_cons [] next rest

theorem lines_ne_nil {text : Text} (hne : text ≠ []) : lines text ≠ [] := by
  fun_cases lines text with
  | case1 => contradiction
  | case2 rest => exact List.cons_ne_nil _ _
  | case3 rest => exact List.cons_ne_nil _ _
  | case4 c rest => exact extendFirst_ne_nil c (lines rest)

theorem lines_unlines_eq_iff {lines : List Line} :
    Text.lines (unlines lines) = lines ↔
      lines ≠ [] ∧
        ∀ line ∈ lines, '\n' ∉ line ∧ line.getLast? ≠ some '\r' := by
  constructor
  · intro h
    have hne : lines ≠ [] := by
      rintro rfl
      contradiction
    have hfeed : ∀ line ∈ lines, '\n' ∉ line := by
      rw [← h]
      exact not_mem_of_mem_lines (unlines lines)
    rw [lines_unlines hne hfeed, Line.map_withoutReturn_eq_self_iff] at h
    exact ⟨hne, fun line hline => ⟨hfeed line hline, h line hline⟩⟩
  · rintro ⟨hne, hlines⟩
    rw [lines_unlines hne fun line hline => (hlines line hline).1,
      Line.map_withoutReturn_eq_self_iff]
    exact fun line hline => (hlines line hline).2

/-- Whether all endings are bare line feeds does not hang on a first character
that is no part of an ending. -/
theorem bareEndings_cons_iff {c : Char} {rest : Text} (hne : rest ≠ [])
    (hc : c = '\r' → rest.head? ≠ some '\n') :
    ((c :: rest).getLast? = some '\n' ∧ ¬ ['\r', '\n'] <:+: c :: rest) ↔
      rest.getLast? = some '\n' ∧ ¬ ['\r', '\n'] <:+: rest := by
  obtain ⟨d, more, rfl⟩ := List.exists_cons_of_ne_nil hne
  have hprefix : ¬ ['\r', '\n'] <+: c :: d :: more := by
    intro h
    rw [List.cons_prefix_cons, List.cons_prefix_cons] at h
    exact hc h.1.symm (congrArg some h.2.1.symm)
  rw [List.getLast?_cons_cons, List.infix_cons_iff, or_iff_right hprefix]

theorem unlines_lines_eq_iff {text : Text} :
    unlines (lines text) = text ↔
      text.getLast? = some '\n' ∧ ¬ ['\r', '\n'] <:+: text := by
  fun_induction lines text with
  | case1 => simp
  | case2 rest ih =>
      by_cases hne : rest = []
      · subst hne
        simp [List.infix_cons_iff]
      · rw [unlines_nil_cons (lines_ne_nil hne), List.cons.injEq,
          bareEndings_cons_iff hne (by simp), ih]
        simp
  | case3 rest ih =>
      -- What is written has no carriage return at this place.
      have hinfix : ['\r', '\n'] <:+: '\r' :: '\n' :: rest :=
        ⟨[], rest, rfl⟩
      have hhead : (unlines ([] :: lines rest)).head? = some '\n' := by
        cases lines rest <;> rfl
      constructor
      · intro h
        rw [h] at hhead
        simp at hhead
      · intro h
        exact absurd hinfix h.2
  | case4 c rest hfeed hreturn ih =>
      rw [unlines_extendFirst, List.cons.injEq, ih]
      by_cases hne : rest = []
      · subst hne
        have hc : c ≠ '\n' := hfeed
        simp [hc]
      · rw [bareEndings_cons_iff hne]
        · simp
        · intro hc hhead
          obtain ⟨more, rfl⟩ := List.head?_eq_some_iff.mp hhead
          exact hreturn more hc rfl

end Text

/-- A document is read as it was written if and only if it has lines and each of
them could be read; a text is written as it was read if and only if all of its
lines end in a line feed alone. -/
theorem Document.roundTrips_exact :
    (∀ document : Document, ofText document.toText = document ↔
      document.lines ≠ [] ∧
        ∀ line ∈ document.lines, '\n' ∉ line ∧ line.getLast? ≠ some '\r') ∧
    ∀ text : Text, (ofText text).toText = text ↔
      text.getLast? = some '\n' ∧ ¬ ['\r', '\n'] <:+: text := by
  refine ⟨?_, fun text => Text.unlines_lines_eq_iff⟩
  rintro ⟨lines⟩
  rw [ofText, toText, Document.mk.injEq]
  exact Text.lines_unlines_eq_iff

end ScenarioInclusion
