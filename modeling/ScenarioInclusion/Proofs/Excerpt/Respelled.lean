import ScenarioInclusion.Proofs.Directive.Respelled
import ScenarioInclusion.Proofs.Expansion.Assembly
import ScenarioInclusion.Proofs.Library.Related
import ScenarioInclusion.Proofs.Passage.Related

/-!
# Excerpts with keys in brackets

When an excerpt is spliced, bindings are filled into its include tags and into its
text.  If keys of another version of it are in brackets, and none of them minds
the bindings, the lines that are spliced mean the same.  Keys stand on tag lines
only, so the rows of its tables are the same as well.
-/

namespace ScenarioInclusion

open DirectiveLine

/-! ## Respelled passages -/

theorem Respelling.isTagLine_bare {bindings : Bindings}
    (r : Respelling bindings) : Line.isTagLine r.bare = true :=
  isTagLine_append_of_isTagLine r.place.isTagLine _

theorem Respelling.isTagLine_bracketed {bindings : Bindings}
    (r : Respelling bindings) : Line.isTagLine r.bracketed = true :=
  isTagLine_append_of_isTagLine r.place.isTagLine _

theorem Line.Respelled.sameKind {bindings : Bindings} {line other : Line}
    (h : line.Respelled bindings other) : line.SameKind other := by
  induction h with
  | refl => exact Or.inl rfl
  | step r _ ih =>
      right
      refine ⟨?_, r.isTagLine_bracketed⟩
      rw [ih.isTagLine_eq, r.isTagLine_bare]

/-- A passage some of whose keys are put in brackets, which the bindings that are
filled into it leave alone. -/
structure Passage.Respelled (bindings : Bindings) (passage other : Passage) :
    Prop where
  tagLines : List.Forall₂
    (fun line line' => Line.Respelled bindings (joinTags line.includeTags)
      (joinTags line'.includeTags))
    passage.tagLines other.tagLines
  lines : List.Forall₂ (Line.Respelled bindings) passage.lines other.lines

theorem Passage.Respelled.refl (bindings : Bindings) (passage : Passage) :
    passage.Respelled bindings passage :=
  ⟨List.forall₂_same.mpr fun _ _ => .refl,
    List.forall₂_same.mpr fun _ _ => .refl⟩

/-! ## What lines of one meaning have in common -/

namespace Line

variable {line other : Line}

theorem eq_of_meaning_eq (h : line.meaning = other.meaning)
    (hline : ofLine? line = none) : line = other := by
  unfold meaning at h
  rw [hline] at h
  cases hother : ofLine? other with
  | none =>
      rw [hother] at h
      injection h
  | some parsed =>
      rw [hother] at h
      contradiction

theorem exists_of_meaning_eq (h : line.meaning = other.meaning)
    {parsed : DirectiveLine} (hline : ofLine? line = some parsed) :
    ∃ parsed', ofLine? other = some parsed' ∧
      parsed.indent = parsed'.indent ∧ parsed.siblings = parsed'.siblings ∧
      (parsed.directives.map fun tag => (Directive.ofTag tag).toOption) =
        parsed'.directives.map fun tag => (Directive.ofTag tag).toOption := by
  unfold meaning at h
  rw [hline] at h
  cases hother : ofLine? other with
  | none =>
      rw [hother] at h
      contradiction
  | some parsed' =>
      rw [hother] at h
      injection h with hindent hsiblings hread
      exact ⟨parsed', rfl, hindent, hsiblings, hread⟩

theorem role_of_isTagLine (h : line.isTagLine = true) :
    line.role = .other := by
  rcases exists_cons_of_beginsTag h with ⟨rest, hrest⟩
  have htrim : Text.trim line = '@' :: Text.trimEnd rest := by
    rw [Text.trim, hrest, Text.trimEnd_cons_of_not_blank (by decide)]
  rw [role, opensExamples, htrim]
  rfl

end Line

theorem Bindings.firstMisfit?_eq (bindings : Bindings)
    {lines lines' : List Line} (h : List.Forall₂ Line.SameKind lines lines')
    (inExamples : Bool) :
    bindings.firstMisfit? inExamples lines =
      bindings.firstMisfit? inExamples lines' := by
  induction h generalizing inExamples with
  | nil => rfl
  | @cons line line' rest rest' hline _ ih =>
      unfold firstMisfit?
      rcases hline with rfl | ⟨htag, htag'⟩
      · rw [ih]
      · rw [Line.role_of_isTagLine htag, Line.role_of_isTagLine htag', ih]
        simp

/-! ## The spliced lines -/

/-- Numbered lines that mean the same, whatever their numbers are. -/
def SameMeanings (lines lines' : List (Line × Nat)) : Prop :=
  List.Forall₂ (fun entry entry' => entry.1.meaning = entry'.1.meaning) lines
    lines'

theorem sameMeanings_zipIdx {lines lines' : List Line}
    (h : List.Forall₂ (fun line line' => line.meaning = line'.meaning) lines
      lines') (start start' : Nat) :
    SameMeanings (lines.zipIdx start) (lines'.zipIdx start') := by
  induction h generalizing start start' with
  | nil => exact List.Forall₂.nil
  | cons hline _ ih =>
      rw [List.zipIdx_cons, List.zipIdx_cons]
      exact List.Forall₂.cons hline (ih _ _)

theorem sameMeanings_forward {bindings : Bindings} {lines lines' : List Line}
    (hmeaning : List.Forall₂ (fun line line' => line.meaning = line'.meaning)
      lines lines')
    (htags : List.Forall₂
      (fun line line' => Line.Respelled bindings (joinTags line.includeTags)
        (joinTags line'.includeTags)) lines lines')
    (start start' : Nat) :
    SameMeanings
      ((lines.zipIdx start).filterMap fun entry =>
        (ofLine? entry.1).map fun parsed =>
          (parsed.forward bindings, entry.2))
      ((lines'.zipIdx start').filterMap fun entry =>
        (ofLine? entry.1).map fun parsed =>
          (parsed.forward bindings, entry.2)) := by
  induction hmeaning generalizing start start' with
  | nil => exact List.Forall₂.nil
  | @cons line line' rest rest' hline _ ih =>
      cases htags with
      | cons htag hrest =>
          have htail := ih hrest (start + 1) (start' + 1)
          rw [List.zipIdx_cons, List.zipIdx_cons, List.filterMap_cons,
            List.filterMap_cons]
          cases hparsed : ofLine? line with
          | none =>
              have heq := Line.eq_of_meaning_eq hline hparsed
              subst heq
              simp only [hparsed, Option.map_none]
              exact htail
          | some parsed =>
              rcases Line.exists_of_meaning_eq hline hparsed with
                ⟨parsed', hparsed', hindent, -, -⟩
              rw [includeTags_of_some hparsed, includeTags_of_some hparsed']
                at htag
              have hblank := isBlank_of_mem_parsed_indent hparsed
              simp only [hparsed', Option.map_some]
              apply List.Forall₂.cons _ htail
              rw [forward, forward, ← hindent]
              exact htag.meaning_indent_eq hblank

namespace Excerpt

variable {excerpt other : Excerpt} {bindings : Bindings}

theorem sameMeanings_spliced
    (h : Related (Passage.Related (Line.Respelled [])) excerpt other)
    (hkeys : excerpt.toPassage.Respelled bindings other.toPassage) :
    SameMeanings
      (excerpt.nested bindings ++
        (excerpt.lines.map bindings.substitute).zipIdx excerpt.startLine)
      (other.nested bindings ++
        (other.lines.map bindings.substitute).zipIdx other.startLine) := by
  apply List.rel_append
  · apply sameMeanings_forward _ hkeys.tagLines
    exact h.passage.tagLines.imp fun _ _ hline => hline.meaning_eq
  · apply sameMeanings_zipIdx
    rw [List.forall₂_map_left_iff, List.forall₂_map_right_iff]
    exact hkeys.lines.imp fun _ _ hline => hline.meaning_substitute_eq

theorem bind_eq_ok_of_no_fault
    (h : ∀ fault, excerpt.bind bindings ≠ .error fault) :
    excerpt.bind bindings = .ok (excerpt.lines.map bindings.substitute) := by
  cases hbind : excerpt.bind bindings with
  | error fault => exact absurd hbind (h fault)
  | ok text => rw [eq_map_of_bind hbind]

/-- The bindings fit both excerpts or neither. -/
theorem bind_of_related
    (h : Related (Passage.Related (Line.Respelled [])) excerpt other)
    (bindings : Bindings) :
    ((excerpt.bind bindings).toOption = none ∧
        (other.bind bindings).toOption = none) ∨
      (excerpt.bind bindings = .ok (excerpt.lines.map bindings.substitute) ∧
        other.bind bindings = .ok (other.lines.map bindings.substitute)) := by
  have hkind : List.Forall₂ Line.SameKind excerpt.lines other.lines :=
    h.passage.lines.imp fun _ _ hline => hline.sameKind
  have hrow := bindings.firstMisfit?_eq hkind false
  by_cases hfault : ∃ fault, excerpt.bind bindings = .error fault
  · rcases hfault with ⟨fault, hfault⟩
    rcases bind_eq_error_iff.mp hfault with ⟨hne, row, hmisfit, -⟩
    rw [hrow] at hmisfit
    have hother := bind_eq_error_iff.mpr ⟨hne, row, hmisfit, rfl⟩
    left
    rw [hfault, hother]
    exact ⟨rfl, rfl⟩
  · right
    refine ⟨bind_eq_ok_of_no_fault fun fault hbind => hfault ⟨fault, hbind⟩,
      bind_eq_ok_of_no_fault fun fault hbind => hfault ?_⟩
    rcases bind_eq_error_iff.mp hbind with ⟨hne, row, hmisfit, -⟩
    rw [← hrow] at hmisfit
    exact ⟨_, bind_eq_error_iff.mpr ⟨hne, row, hmisfit, rfl⟩⟩

end Excerpt

end ScenarioInclusion
