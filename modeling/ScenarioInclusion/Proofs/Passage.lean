import ScenarioInclusion.Passage
import ScenarioInclusion.Proofs.DirectiveLine
import Mathlib.Data.List.Basic

/-!
# Scenario headers

A header is recognised by a keyword behind its indentation.  No placeholder can
stand in either, so filling in bindings keeps a header a header, though maybe
one of another name.  The text of a passage begins with the header it was found
by.
-/

namespace ScenarioInclusion

open Text

namespace Line

def IsHeader (line : Line) : Prop :=
  line.headerName?.isSome = true

instance (line : Line) : Decidable line.IsHeader :=
  inferInstanceAs (Decidable (_ = _))

theorem isHeader_iff {line : Line} :
    line.IsHeader ↔
      ∃ keyword rest,
        (keyword = outlineKeyword ∨ keyword = scenarioKeyword) ∧
          line.trimStart = keyword ++ rest := by
  have hkeywords : line.IsHeader ↔
      outlineKeyword <+: line.trimStart ∨
        scenarioKeyword <+: line.trimStart := by
    simp [IsHeader, headerName?, List.isSome_isPrefixOf?_eq_isPrefixOf,
      List.isPrefixOf_iff_prefix]
  rw [hkeywords]
  constructor
  · intro h
    rcases h with ⟨rest, hrest⟩ | ⟨rest, hrest⟩
    · exact ⟨outlineKeyword, rest, Or.inl rfl, hrest.symm⟩
    · exact ⟨scenarioKeyword, rest, Or.inr rfl, hrest.symm⟩
  · intro h
    rcases h with ⟨keyword, rest, rfl | rfl, hrest⟩
    · exact Or.inl ⟨rest, hrest.symm⟩
    · exact Or.inr ⟨rest, hrest.symm⟩

theorem isTagLine_of_isHeader {line : Line} (h : line.IsHeader) :
    line.isTagLine = false := by
  rcases isHeader_iff.mp h with ⟨keyword, rest, rfl | rfl, hrest⟩
  · rw [isTagLine, hrest]
    rfl
  · rw [isTagLine, hrest]
    rfl

theorem not_isDirective_of_isHeader {line : Line} (h : line.IsHeader) :
    ¬ line.IsDirective := by
  intro hdirective
  have htagLine := hdirective.1
  rw [isTagLine_of_isHeader h] at htagLine
  contradiction

theorem isHeader_append {indent keyword : Text}
    (hindent : ∀ c ∈ indent, isBlank c = true)
    (hkeyword : keyword = outlineKeyword ∨ keyword = scenarioKeyword)
    (rest : Text) : IsHeader (indent ++ (keyword ++ rest)) := by
  rw [isHeader_iff]
  refine ⟨keyword, rest, hkeyword, ?_⟩
  rw [trimStart_append_of_blank hindent]
  rcases hkeyword with rfl | rfl
  · exact trimStart_cons_of_not_blank (by decide) _
  · exact trimStart_cons_of_not_blank (by decide) _

theorem isHeader_substitute {line : Line} (h : line.IsHeader)
    (bindings : Bindings) : IsHeader (bindings.substitute line) := by
  rcases isHeader_iff.mp h with ⟨keyword, rest, hkeyword, hrest⟩
  have hline : line = Text.indent line ++ (keyword ++ rest) := by
    rw [← hrest, indent_append_trimStart]
  have hindent : '<' ∉ Text.indent line := by
    intro hmem
    have hblank := isBlank_of_mem_indent _ hmem
    exact absurd hblank (by decide)
  have hname : '<' ∉ keyword := by
    rcases hkeyword with rfl | rfl
    · decide
    · decide
  rw [hline, bindings.substitute_append_of_not_mem hindent,
    bindings.substitute_append_of_not_mem hname]
  exact isHeader_append isBlank_of_mem_indent hkeyword _

end Line

/-- Is the first of the lines a header? -/
def StartsScenario (lines : List Line) : Prop :=
  ∃ header rest, lines = header :: rest ∧ header.IsHeader

theorem StartsScenario.append {lines : List Line} (h : StartsScenario lines)
    (more : List Line) : StartsScenario (lines ++ more) := by
  rcases h with ⟨header, rest, hlines, hheader⟩
  exact ⟨header, rest ++ more, by rw [hlines, List.cons_append], hheader⟩

theorem not_startsScenario_of_tagLines {start : List Line} {line : Line}
    (hstart : ∀ other ∈ start, other.isTagLine = true)
    (hline : line.isTagLine = true) (rest : List Line) :
    ¬ StartsScenario (start ++ line :: rest) := by
  intro h
  rcases h with ⟨header, more, hlines, hheader⟩
  have htagLine : header.isTagLine = true := by
    cases start with
    | nil =>
        rw [List.nil_append] at hlines
        injection hlines with heq
        rwa [← heq]
    | cons first start =>
        rw [List.cons_append] at hlines
        injection hlines with heq
        rw [← heq]
        exact hstart first (List.mem_cons_self ..)
  rw [Line.isTagLine_of_isHeader hheader] at htagLine
  contradiction

namespace Document

theorem exists_header_of_passage? {document : Document} {name : Text}
    {passage : Passage} (h : document.passage? name = some passage) :
    ∃ header rest, passage.lines = header :: rest ∧
      header.headerName? = some name := by
  rw [passage?, Option.map_eq_some_iff] at h
  rcases h with ⟨start, hstart, rfl⟩
  rcases List.findIdx?_eq_some_iff_getElem.mp hstart with ⟨hlt, hname, -⟩
  have hdrop : document.lines.drop start =
      document.lines[start] :: document.lines.drop (start + 1) :=
    List.drop_eq_getElem_cons hlt
  rw [scenarioLines, hdrop]
  exact ⟨_, _, rfl, of_decide_eq_true hname⟩

end Document

end ScenarioInclusion
