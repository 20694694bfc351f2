import ScenarioInclusion.Proofs.Passage.Related
import Mathlib.Data.List.DropRight

/-!
# Documents that differ in ordinary tags

Two tag lines with one indentation and the same include tags, in one order, are
versions of each other.  Two documents are retagged if they agree line by line,
except that tag lines right above a header may be replaced by other versions.

The same scenarios are found in retagged documents, at the same places and with
the same text: the tag lines above the next header are not part of it, since
all preamble at the end is dropped.  Only the tag lines of a passage differ, and
they only differ by version.
-/

namespace ScenarioInclusion

namespace Line

structure Version (line other : Line) : Prop where
  isTagLine : line.isTagLine = true
  isTagLine_other : other.isTagLine = true
  indent_eq : Text.indent line = Text.indent other
  includes_eq : line.tags.filter Tag.isInclude =
    other.tags.filter Tag.isInclude

instance (line other : Line) : Decidable (line.Version other) :=
  decidable_of_iff
    (line.isTagLine = true ∧ other.isTagLine = true ∧
      Text.indent line = Text.indent other ∧
      line.tags.filter Tag.isInclude = other.tags.filter Tag.isInclude)
    ⟨fun h => ⟨h.1, h.2.1, h.2.2.1, h.2.2.2⟩,
      fun h => ⟨h.isTagLine, h.isTagLine_other, h.indent_eq, h.includes_eq⟩⟩

def SameOrVersion (line other : Line) : Prop :=
  line = other ∨ line.Version other

variable {line other : Line}

theorem SameOrVersion.sameKind (h : line.SameOrVersion other) :
    line.SameKind other := by
  rcases h with heq | hversion
  · exact Or.inl heq
  · exact Or.inr ⟨hversion.isTagLine, hversion.isTagLine_other⟩

theorem Version.isDirective_iff (h : line.Version other) :
    line.IsDirective ↔ other.IsDirective := by
  have hiff : ∀ tag, (tag ∈ line.tags ∧ tag.isInclude = true) ↔
      (tag ∈ other.tags ∧ tag.isInclude = true) := by
    intro tag
    rw [← List.mem_filter, ← List.mem_filter, h.includes_eq]
  simp only [IsDirective, h.isTagLine, h.isTagLine_other, hiff]

/-- What goes along with an included scenario is the same for every version of
a tag line. -/
theorem SameOrVersion.forward_eq (h : line.SameOrVersion other)
    (bindings : Bindings) :
    (DirectiveLine.ofLine? line).map (fun parsed => parsed.forward bindings) =
      (DirectiveLine.ofLine? other).map
        fun parsed => parsed.forward bindings := by
  rcases h with heq | hversion
  · rw [heq]
  · by_cases hdirective : line.IsDirective
    · have hother : other.IsDirective :=
        hversion.isDirective_iff.mp hdirective
      rw [DirectiveLine.ofLine?_eq_some_iff.mpr ⟨hdirective, rfl⟩,
        DirectiveLine.ofLine?_eq_some_iff.mpr ⟨hother, rfl⟩]
      simp only [Option.map_some, DirectiveLine.forward, hversion.indent_eq,
        hversion.includes_eq]
    · have hother : ¬ other.IsDirective := fun hother =>
        hdirective (hversion.isDirective_iff.mpr hother)
      rw [DirectiveLine.ofLine?_eq_none_iff.mpr hdirective,
        DirectiveLine.ofLine?_eq_none_iff.mpr hother]

end Line

/-! ## Retagged lines -/

/-- Do the lines begin with a header, maybe under some tag lines? -/
def LeadsToHeader (lines : List Line) : Prop :=
  ∃ tagLines header rest, lines = tagLines ++ header :: rest ∧
    (∀ line ∈ tagLines, line.isTagLine = true) ∧ header.IsHeader

theorem LeadsToHeader.cons {line : Line} {rest : List Line}
    (h : LeadsToHeader rest) (hline : line.isTagLine = true) :
    LeadsToHeader (line :: rest) := by
  rcases h with ⟨tagLines, header, after, rfl, htagLines, hheader⟩
  exact ⟨line :: tagLines, header, after, rfl,
    List.forall_mem_cons.mpr ⟨hline, htagLines⟩, hheader⟩

inductive Retagged : List Line → List Line → Prop where
  | nil : Retagged [] []
  | same {rest rest' : List Line} (line : Line) :
      Retagged rest rest' → Retagged (line :: rest) (line :: rest')
  | version {line other : Line} {rest rest' : List Line} :
      line.Version other → LeadsToHeader rest → Retagged rest rest' →
        Retagged (line :: rest) (other :: rest')

namespace Retagged

variable {lines lines' : List Line}

theorem refl (lines : List Line) : Retagged lines lines := by
  induction lines with
  | nil => exact nil
  | cons line rest ih => exact same line ih

theorem forall₂ (h : Retagged lines lines') :
    List.Forall₂ Line.SameOrVersion lines lines' := by
  induction h with
  | nil => exact List.Forall₂.nil
  | same line _ ih => exact List.Forall₂.cons (Or.inl rfl) ih
  | version hversion _ _ ih => exact List.Forall₂.cons (Or.inr hversion) ih

theorem drop (h : Retagged lines lines') (start : Nat) :
    Retagged (lines.drop start) (lines'.drop start) := by
  induction h generalizing start with
  | nil => simpa using nil
  | same line h ih =>
      cases start with
      | zero => exact same line h
      | succ start => exact ih start
  | version hversion hleads h ih =>
      cases start with
      | zero => exact version hversion hleads h
      | succ start => exact ih start

theorem cons_of_isHeader {header : Line} {rest : List Line}
    (h : Retagged (header :: rest) lines') (hheader : header.IsHeader) :
    ∃ rest', lines' = header :: rest' ∧ Retagged rest rest' := by
  cases h with
  | same _ hrest => exact ⟨_, rfl, hrest⟩
  | version hversion _ _ =>
      have hnot := Line.isTagLine_of_isHeader hheader
      rw [hversion.isTagLine] at hnot
      contradiction

theorem leadsToHeader (h : Retagged lines lines')
    (hleads : LeadsToHeader lines) : LeadsToHeader lines' := by
  rcases hleads with ⟨tagLines, header, rest, rfl, htagLines, hheader⟩
  induction tagLines generalizing lines' with
  | nil =>
      rcases cons_of_isHeader h hheader with ⟨rest', rfl, -⟩
      exact ⟨[], header, rest', rfl, List.forall_mem_nil _, hheader⟩
  | cons line tagLines ih =>
      have hline := htagLines line (List.mem_cons_self ..)
      have htail := fun other hother =>
        htagLines other (List.mem_cons_of_mem line hother)
      cases h with
      | same _ hrest => exact (ih hrest htail).cons hline
      | version hversion _ hrest =>
          exact (ih hrest htail).cons hversion.isTagLine_other

end Retagged

/-! ## The text of a scenario -/

theorem dropAtEnd_eq_nil {α : Type} {condition : α → Bool} {xs : List α}
    (h : ∀ x ∈ xs, condition x = true) : dropAtEnd condition xs = [] := by
  change xs.rdropWhile condition = []
  exact List.rdropWhile_eq_nil_iff.mpr h

theorem dropAtEnd_cons {α : Type} (condition : α → Bool) (x : α)
    (xs : List α) :
    dropAtEnd condition (x :: xs) =
      if dropAtEnd condition xs = [] then dropAtEnd condition [x]
      else x :: dropAtEnd condition xs := by
  have happend : (x :: xs).reverse = xs.reverse ++ [x] := List.reverse_cons
  unfold dropAtEnd
  rw [happend, List.dropWhile_append]
  by_cases hnil : xs.reverse.dropWhile condition = []
  · simp [hnil]
  · simp [hnil]

theorem dropAtEnd_of_leadsToHeader {lines : List Line}
    (h : LeadsToHeader lines) :
    dropAtEnd Line.isPreamble
      (lines.takeWhile fun line => !line.endsScenario) = [] := by
  apply dropAtEnd_eq_nil
  rcases h with ⟨tagLines, header, rest, rfl, htagLines, hheader⟩
  have hends : header.endsScenario = true := by
    rw [Line.endsScenario, hheader]
    rfl
  have htagLine : ∀ line ∈ tagLines, (!line.endsScenario) = true := by
    intro line hline
    rw [Line.endsScenario_of_isTagLine (htagLines line hline)]
    rfl
  rw [List.takeWhile_append_of_pos htagLine,
    List.takeWhile_cons_of_neg (by simp [hends]), List.append_nil]
  intro line hline
  rw [Line.isPreamble, htagLines line hline, Bool.or_true]

namespace Retagged

variable {lines lines' : List Line}

theorem dropAtEnd_takeWhile_eq (h : Retagged lines lines') :
    dropAtEnd Line.isPreamble
        (lines.takeWhile fun line => !line.endsScenario) =
      dropAtEnd Line.isPreamble
        (lines'.takeWhile fun line => !line.endsScenario) := by
  induction h with
  | nil => rfl
  | same line _ ih =>
      by_cases hends : line.endsScenario = true
      · rw [List.takeWhile_cons_of_neg (by simp [hends]),
          List.takeWhile_cons_of_neg (by simp [hends])]
      · rw [List.takeWhile_cons_of_pos (by simp [hends]),
          List.takeWhile_cons_of_pos (by simp [hends]),
          dropAtEnd_cons, ih, ← dropAtEnd_cons]
  | version hversion hleads hrest _ =>
      -- From here up to the next header there is only preamble.
      have hleads' := hrest.leadsToHeader hleads
      rw [dropAtEnd_of_leadsToHeader (hleads.cons hversion.isTagLine),
        dropAtEnd_of_leadsToHeader (hleads'.cons hversion.isTagLine_other)]

end Retagged

namespace Document

variable {document other : Document}

theorem scenarioLines_eq_of_retagged
    (h : Retagged document.lines other.lines) {name : Text} {start : Nat}
    (hstart : document.headerIndex? name = some start) :
    document.scenarioLines start = other.scenarioLines start := by
  rcases List.findIdx?_eq_some_iff_getElem.mp hstart with ⟨hlt, hname, -⟩
  have hheader : (document.lines[start]).IsHeader := by
    rw [Line.IsHeader, of_decide_eq_true hname]
    rfl
  have hdrop : document.lines.drop start =
      document.lines[start] :: document.lines.drop (start + 1) :=
    List.drop_eq_getElem_cons hlt
  have hretagged := h.drop start
  rw [hdrop] at hretagged
  rcases hretagged.cons_of_isHeader hheader with ⟨rest', hother, hrest⟩
  rw [scenarioLines, scenarioLines, hdrop, hother]
  simp only [hrest.dropAtEnd_takeWhile_eq]

end Document

/-- Two passages that differ in the versions of their tag lines only. -/
structure Passage.Retagged (passage other : Passage) : Prop where
  startLine_eq : passage.startLine = other.startLine
  lines_eq : passage.lines = other.lines
  tagLines : List.Forall₂ Line.SameOrVersion passage.tagLines other.tagLines

theorem Document.passage?_of_retagged {document other : Document}
    (h : Retagged document.lines other.lines) (name : Text) :
    Option.Rel Passage.Retagged (document.passage? name)
      (other.passage? name) := by
  have hkind : ∀ line line' : Line, line.SameOrVersion line' →
      line.SameKind line' := fun _ _ hlines => hlines.sameKind
  unfold passage?
  rw [← headerIndex?_eq_of_forall₂ hkind h.forall₂ name]
  cases hstart : document.headerIndex? name with
  | none => exact Option.Rel.none
  | some start =>
      apply Option.Rel.some
      exact ⟨rfl, scenarioLines_eq_of_retagged h hstart,
        tagLines_of_forall₂ hkind h.forall₂ start⟩

end ScenarioInclusion
