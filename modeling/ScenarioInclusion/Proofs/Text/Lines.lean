import ScenarioInclusion.Text.Lines

/-!
# Lines that are written and read again

A line that is read holds no line feed.  Written and read again, such a line
comes back, except that a carriage return at its end is taken for a part of the
ending.
-/

namespace ScenarioInclusion

def Line.withoutReturn (line : Line) : Line :=
  if line.getLast? = some '\r' then line.dropLast else line

theorem Line.withoutReturn_cons {c : Char} {line : Line}
    (h : c = '\r' → line ≠ []) :
    Line.withoutReturn (c :: line) = c :: line.withoutReturn := by
  cases line with
  | nil =>
      have hc : c ≠ '\r' := fun hc => h hc rfl
      simp [withoutReturn, hc]
  | cons d line =>
      rw [withoutReturn, withoutReturn, List.getLast?_cons_cons,
        List.dropLast_cons_of_ne_nil (List.cons_ne_nil d line)]
      split <;> rfl

theorem Line.eq_withoutReturn_append (line : Line) :
    line = line.withoutReturn ∨ line = line.withoutReturn ++ ['\r'] := by
  rw [withoutReturn]
  split
  · next hlast =>
      refine Or.inr ?_
      rcases List.getLast?_eq_some_iff.mp hlast with ⟨start, rfl⟩
      rw [List.dropLast_concat]
  · exact Or.inl rfl

namespace Text

theorem not_mem_of_mem_extendFirst {c d : Char} {lines : List Line}
    (hc : d ≠ c) (h : ∀ line ∈ lines, d ∉ line) :
    ∀ line ∈ extendFirst c lines, d ∉ line := by
  cases lines with
  | nil => simpa [extendFirst] using hc
  | cons first rest =>
      rw [List.forall_mem_cons] at h
      rw [extendFirst, List.forall_mem_cons, List.mem_cons, not_or]
      exact ⟨⟨hc, h.1⟩, h.2⟩

theorem not_mem_of_mem_lines (text : Text) :
    ∀ line ∈ text.lines, '\n' ∉ line := by
  fun_induction lines text with
  | case1 => exact List.forall_mem_nil _
  | case2 rest ih => exact List.forall_mem_cons.mpr ⟨List.not_mem_nil, ih⟩
  | case3 rest ih => exact List.forall_mem_cons.mpr ⟨List.not_mem_nil, ih⟩
  | case4 c rest hfeed hreturn ih =>
      exact not_mem_of_mem_extendFirst (fun heq => hfeed heq.symm) ih

theorem lines_append_lineFeed {line : Line} (h : '\n' ∉ line) (rest : Text) :
    lines (line ++ '\n' :: rest) = line.withoutReturn :: lines rest := by
  induction line with
  | nil => exact lines_lineFeed rest
  | cons c line ih =>
      rw [List.mem_cons, not_or] at h
      rcases h with ⟨hc, hline⟩
      by_cases hreturn : c = '\r' ∧ line = []
      · rcases hreturn with ⟨rfl, rfl⟩
        rw [List.singleton_append, lines]
        rfl
      · have hkept : c = '\r' → line ≠ [] := fun hc hnil => hreturn ⟨hc, hnil⟩
        have hnext : ∀ more, c = '\r' → line ++ '\n' :: rest ≠ '\n' :: more := by
          intro more hc heq
          cases line with
          | nil => exact hkept hc rfl
          | cons d line =>
              injection heq with hd
              exact hline (hd ▸ List.mem_cons_self ..)
        rw [List.cons_append, lines, ih hline, Line.withoutReturn_cons hkept]
        · rfl
        · exact fun heq => hc heq.symm
        · exact hnext

/-- What is read again when lines were written. -/
theorem lines_unlines {lines : List Line} (hne : lines ≠ [])
    (h : ∀ line ∈ lines, '\n' ∉ line) :
    Text.lines (unlines lines) = lines.map Line.withoutReturn := by
  induction lines with
  | nil => contradiction
  | cons line rest ih =>
      have hline := h line (List.mem_cons_self ..)
      cases rest with
      | nil =>
          rw [unlines_singleton, lines_append_lineFeed hline]
          rfl
      | cons next rest =>
          have hrest := ih (List.cons_ne_nil next rest)
            fun other hother => h other (List.mem_cons_of_mem line hother)
          rw [unlines_cons_cons, lines_append_lineFeed hline, hrest]
          rfl

end Text

end ScenarioInclusion
