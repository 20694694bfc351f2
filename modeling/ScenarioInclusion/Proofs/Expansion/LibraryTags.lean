import ScenarioInclusion.Expansion
import ScenarioInclusion.Proofs.Library.Related
import ScenarioInclusion.Proofs.Passage.Retagged
import Mathlib.Tactic

/-!
# Ordinary tags of a library have no effect

Two shelves are retagged if they hold retagged documents under the same paths.
No expansion can tell them apart: the excerpts taken from them may differ in
their tag lines, but an excerpt is only ever asked for its text and for the
include tags above it.

Both runs are followed together, with related excerpts at hand.  A step that
treats related excerpts alike makes the runs equal again, so equal is what each
splice hands back to the lines around it.
-/

namespace ScenarioInclusion

/-! ## Excerpts -/

namespace Excerpt

/-- Excerpts that are spliced alike. -/
structure Interchangeable (excerpt other : Excerpt) : Prop where
  startLine_eq : excerpt.startLine = other.startLine
  lines_eq : excerpt.lines = other.lines
  feature_eq : excerpt.feature = other.feature
  source_eq : excerpt.source = other.source
  name_eq : excerpt.name = other.name
  nested_eq : ∀ bindings, excerpt.nested bindings = other.nested bindings

variable {excerpt other : Excerpt}

theorem Interchangeable.inclusion_eq (h : excerpt.Interchangeable other) :
    excerpt.inclusion = other.inclusion := by
  unfold inclusion
  rw [h.source_eq, h.name_eq]

theorem Interchangeable.bind_eq (h : excerpt.Interchangeable other)
    (bindings : Bindings) : excerpt.bind bindings = other.bind bindings := by
  unfold bind
  rw [h.lines_eq, h.feature_eq, h.name_eq]

theorem filterMap_forward_eq {lines lines' : List Line}
    (h : List.Forall₂ Line.SameOrVersion lines lines') (bindings : Bindings)
    (start : Nat) :
    ((lines.zipIdx start).filterMap fun entry =>
        (DirectiveLine.ofLine? entry.1).map fun parsed =>
          (parsed.forward bindings, entry.2)) =
      (lines'.zipIdx start).filterMap fun entry =>
        (DirectiveLine.ofLine? entry.1).map fun parsed =>
          (parsed.forward bindings, entry.2) := by
  induction h generalizing start with
  | nil => rfl
  | @cons line line' rest rest' hline _ ih =>
      have hforward : (DirectiveLine.ofLine? line).map
            (fun parsed => (parsed.forward bindings, start)) =
          (DirectiveLine.ofLine? line').map
            fun parsed => (parsed.forward bindings, start) := by
        have hmap := congrArg (Option.map fun forwarded : Line =>
          (forwarded, start)) (hline.forward_eq bindings)
        simpa only [Option.map_map, Function.comp_def] using hmap
      rw [List.zipIdx_cons, List.zipIdx_cons, List.filterMap_cons,
        List.filterMap_cons, ih]
      simp only [hforward]

theorem nested_eq_of_retagged
    (h : excerpt.toPassage.Retagged other.toPassage) (bindings : Bindings) :
    excerpt.nested bindings = other.nested bindings := by
  have hlength : excerpt.tagLines.length = other.tagLines.length :=
    h.tagLines.length_eq
  unfold nested Passage.numberedTagLines Passage.tagLinesStart
  rw [h.startLine_eq, hlength]
  exact filterMap_forward_eq h.tagLines bindings _

theorem Related.interchangeable
    (h : Related Passage.Retagged excerpt other) :
    excerpt.Interchangeable other where
  startLine_eq := h.passage.startLine_eq
  lines_eq := h.passage.lines_eq
  feature_eq := h.feature_eq
  source_eq := h.source_eq
  name_eq := h.name_eq
  nested_eq := nested_eq_of_retagged h.passage

end Excerpt

/-! ## Shelves -/

namespace Shelf

/-- Shelves that hold retagged documents under the same paths. -/
def Retagged (shelf other : Shelf) : Prop :=
  ∀ path, Option.Rel
    (fun document document' =>
      ScenarioInclusion.Retagged document.lines document'.lines)
    (shelf.find? path) (other.find? path)

theorem Retagged.refl (shelf : Shelf) : shelf.Retagged shelf :=
  Related.refl (fun document => .refl document.lines) shelf

theorem Retagged.insert {shelf other : Shelf} (h : shelf.Retagged other)
    (path : Path) {text text' : Text}
    (htext : ScenarioInclusion.Retagged text.lines text'.lines) :
    (shelf.insert path text).Retagged (other.insert path text') :=
  Related.insert h path htext

variable {shelf other : Shelf} (h : shelf.Retagged other) (root : Option Path)

include h

theorem excerpt_of_retagged (feature scenario : Text) (caller : Path) :
    Traced.Related Excerpt.Interchangeable
      ((shelf.library root).excerpt feature scenario caller)
      ((other.library root).excerpt feature scenario caller) := by
  have hpassage : ∀ (document document' : Document) (name : Text),
      ScenarioInclusion.Retagged document.lines document'.lines →
      Option.Rel Passage.Retagged (document.passage? name)
        (document'.passage? name) :=
    fun _ _ name hlines => Document.passage?_of_retagged hlines name
  have hlength : ∀ passage passage' : Passage, passage.Retagged passage' →
      passage.lines.length = passage'.lines.length :=
    fun _ _ hretagged => congrArg List.length hretagged.lines_eq
  exact (excerpt_of_related hpassage hlength h root feature scenario
    caller).mono fun _ _ hrelated => hrelated.interchangeable

theorem target_of_retagged (chain : List Inclusion) (path : Path)
    (number : Nat) (tag : Tag) :
    Traced.Related
      (fun target target' => target.1 = target'.1 ∧
        target.2.Interchangeable target'.2)
      ((shelf.library root).target chain path number tag)
      ((other.library root).target chain path number tag) := by
  unfold Library.target
  apply (Traced.Related.refl _).bind
  intro directive directive' heq
  subst heq
  apply (excerpt_of_retagged h root _ _ path).bind
  intro excerpt excerpt' hexcerpt
  rw [hexcerpt.inclusion_eq]
  split
  · exact Traced.Related.fail _
  · exact Traced.Related.pure ⟨rfl, hexcerpt⟩

/-- Every inclusion is spliced alike, with the same events on the way. -/
theorem splice_eq_of_retagged (room : Nat) :
    (shelf.library root).splice room = (other.library root).splice room := by
  induction room with
  | zero =>
      funext chain path number tag
      unfold Library.splice
      apply (target_of_retagged h root chain path number tag).bind_eq
      intro target target' htarget
      simp only [htarget.2.inclusion_eq]
  | succ room ih =>
      funext chain path number tag
      unfold Library.splice
      apply (target_of_retagged h root chain path number tag).bind_eq
      intro target target' htarget
      rcases target with ⟨directive, excerpt⟩
      rcases target' with ⟨directive', excerpt'⟩
      rcases htarget with ⟨rfl, hexcerpt⟩
      change excerpt.Interchangeable excerpt' at hexcerpt
      simp only [ih, hexcerpt.inclusion_eq, hexcerpt.bind_eq,
        hexcerpt.nested_eq, hexcerpt.startLine_eq, hexcerpt.source_eq,
        hexcerpt.name_eq]

theorem expandTraced_eq_of_retagged (settings : Settings) (path : Path)
    (document : Document) :
    (shelf.library root).expandTraced settings path document =
      (other.library root).expandTraced settings path document := by
  unfold Library.expandTraced
  rw [splice_eq_of_retagged h root settings.maxDepth]

/-- Which ordinary tags stand above the scenarios of a library decides nothing
about an expansion. -/
theorem expand_eq_of_retagged (settings : Settings) (path : Path)
    (document : Document) :
    (shelf.library root).expand settings path document =
      (other.library root).expand settings path document :=
  congrArg Traced.outcome
    (expandTraced_eq_of_retagged h root settings path document)

omit h

def parkedText : Text :=
  ("@ignore @include(feature: lib, scenario: B)\nScenario: A\nGiven a\n" ++
    "@slow\nScenario: B\nGiven b").toList

def releasedText : Text :=
  ("@include(feature: lib, scenario: B) @wip\nScenario: A\nGiven a\n" ++
    "@fast\nScenario: B\nGiven b").toList

theorem retagged_parkedText :
    ScenarioInclusion.Retagged parkedText.lines releasedText.lines := by
  have hparked : parkedText.lines =
      ["@ignore @include(feature: lib, scenario: B)".toList,
        "Scenario: A".toList, "Given a".toList, "@slow".toList,
        "Scenario: B".toList, "Given b".toList] := by
    cbv
  have hreleased : releasedText.lines =
      ["@include(feature: lib, scenario: B) @wip".toList,
        "Scenario: A".toList, "Given a".toList, "@fast".toList,
        "Scenario: B".toList, "Given b".toList] := by
    cbv
  have hinclude : Line.Version
      "@ignore @include(feature: lib, scenario: B)".toList
      "@include(feature: lib, scenario: B) @wip".toList := by
    decide +kernel
  have hordinary : Line.Version "@slow".toList "@fast".toList := by
    decide +kernel
  rw [hparked, hreleased]
  apply ScenarioInclusion.Retagged.version hinclude
  · exact ⟨[], _, _, rfl, List.forall_mem_nil _, by decide +kernel⟩
  · apply ScenarioInclusion.Retagged.same
    apply ScenarioInclusion.Retagged.same
    apply ScenarioInclusion.Retagged.version hordinary
    · exact ⟨[], _, _, rfl, List.forall_mem_nil _, by decide +kernel⟩
    · exact .refl _

theorem expand_parkedText :
    ((Shelf.empty.insert ⟨"lib".toList⟩ parkedText).library none).expand
        Settings.default ⟨"main".toList⟩
        ⟨["@include(feature: lib, scenario: A)".toList]⟩ =
      .ok ⟨["Scenario: B".toList, "Given b".toList, "Scenario: A".toList,
        "Given a".toList]⟩ := by
  have hretagged : (Shelf.empty.insert ⟨"lib".toList⟩ parkedText).Retagged
      (Shelf.empty.insert ⟨"lib".toList⟩ releasedText) :=
    (Retagged.refl Shelf.empty).insert _ retagged_parkedText
  rw [expand_eq_of_retagged hretagged none]
  cbv

end Shelf

end ScenarioInclusion
