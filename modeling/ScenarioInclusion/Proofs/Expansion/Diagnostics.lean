import ScenarioInclusion.Proofs.Directive
import ScenarioInclusion.Proofs.Expansion.Descent
import ScenarioInclusion.Proofs.Library.Shelf
import ScenarioInclusion.Proofs.Passage.Position

/-!
# Where a malformed directive is

A report of a malformed directive gives a path and the number of a line.  Either
that line of the document itself has an include tag with the fault, or the path
is that of a document on the shelf.  Then the line belongs to a scenario that was
included, and what is at fault is the text that its line became with the bindings
of that inclusion.
-/

namespace ScenarioInclusion

/-- Has the line an include tag that cannot be read, for this cause? -/
def Line.Faulty (line : Line) (cause : DirectiveError) : Prop :=
  line.IsDirective ∧ ∃ tag ∈ line.includeTags, Directive.ofTag tag = .error cause

/-- What the line with a number becomes where the scenario of a name is spliced:
of a tag line only the include tags go along, and of the text all. -/
inductive Document.Spliced (document : Document) (name : Text)
    (bindings : Bindings) (number : Nat) : Line → Prop where
  | tagLine {line : Line} :
      document.lines[number - 1]? = some line →
        document.InTagRun name number →
        document.Spliced name bindings number
          (Text.indent line ++ bindings.substitute (joinTags line.includeTags))
  | textLine {line : Line} :
      document.lines[number - 1]? = some line → document.InText name number →
        document.Spliced name bindings number (bindings.substitute line)

theorem Document.Spliced.one_le {document : Document} {name : Text}
    {bindings : Bindings} {number : Nat} {text : Line}
    (h : document.Spliced name bindings number text) : 1 ≤ number := by
  cases h with
  | tagLine _ hrun =>
      rcases hrun with ⟨start, -, hpositive, -, -⟩
      exact hpositive
  | textLine _ htext =>
      rcases htext with ⟨start, last, -, hnumber, -, -, -⟩
      omega

/-! ## The lines of a site -/

theorem mem_numberedTags_iff {tag : Tag} {number : Nat}
    {lines : List (Line × Nat)} :
    (tag, number) ∈ numberedTags lines ↔
      ∃ line, (line, number) ∈ lines ∧ tag ∈ line.includeTags := by
  simp [numberedTags]

theorem Line.isDirective_of_mem_includeTags {line : Line} {tag : Tag}
    (h : tag ∈ line.includeTags) : line.IsDirective := by
  by_contra hnot
  rw [includeTags_of_none (DirectiveLine.ofLine?_eq_none_iff.mpr hnot)] at h
  exact absurd h List.not_mem_nil

theorem Line.isInclude_of_mem_includeTags {line : Line} {tag : Tag}
    (h : tag ∈ line.includeTags) : tag.isInclude = true := by
  rcases DirectiveLine.exists_ofLine? (isDirective_of_mem_includeTags h) with
    ⟨parsed, hparsed⟩
  rw [includeTags_of_some hparsed] at h
  exact ((DirectiveLine.mem_directives_iff hparsed).mp h).2

theorem Line.Faulty.ne_notAnInclude {line : Line} {cause : DirectiveError}
    (h : line.Faulty cause) (tag : Text) : cause ≠ .notAnInclude tag := by
  rcases h with ⟨-, faulty, hmem, hfault⟩
  rintro rfl
  exact Directive.recognises_ofTag (Line.isInclude_of_mem_includeTags hmem) tag
    hfault

theorem Document.spliced_of_mem_nested {document : Document} {name : Text}
    {excerpt : Excerpt} {bindings : Bindings} {text : Line} {number : Nat}
    (h : document.passage? name = some excerpt.toPassage)
    (hmem : (text, number) ∈ excerpt.nested bindings) :
    document.Spliced name bindings number text := by
  rcases List.mem_filterMap.mp hmem with ⟨⟨line, place⟩, hline, hforward⟩
  rcases Option.map_eq_some_iff.mp hforward with ⟨parsed, hparsed, heq⟩
  cases heq
  rcases inTagRun_of_mem_numberedTagLines h hline with ⟨hget, hrun⟩
  have hindent : parsed.indent = Text.indent line := by
    rw [(DirectiveLine.ofLine?_eq_some_iff.mp hparsed).2]
  rw [DirectiveLine.forward, hindent, ← includeTags_of_some hparsed]
  exact .tagLine hget hrun

theorem Link.spliced_of_mem_lines {link : Link} {document : Document}
    {name : Text} (h : document.passage? name = some link.excerpt.toPassage)
    {text : Line} {number : Nat} (hmem : (text, number) ∈ link.site.lines) :
    document.Spliced name link.directive.bindings number text := by
  rcases List.mem_append.mp hmem with hnested | htext
  · exact Document.spliced_of_mem_nested h hnested
  · rw [Link.text, List.zipIdx_map] at htext
    rcases List.mem_map.mp htext with ⟨⟨line, place⟩, hline, heq⟩
    cases heq
    rcases Document.inText_of_mem_zipIdx h hline with ⟨hget, hinside⟩
    exact .textLine hget hinside

/-! ## The report -/

namespace Shelf

variable {shelf : Shelf} {root : Option Path}

/-- A malformed directive is reported where it stands, in the document itself or
in one that it includes from. -/
theorem malformedDirective_located (shelf : Shelf) (root : Option Path)
    (settings : Settings) (path : Path) (document : Document) (source : Path)
    (number : Nat) (cause : DirectiveError)
    (h : (shelf.library root).expand settings path document =
      .error (.malformedDirective source number cause)) :
    1 ≤ number ∧ (∀ tag, cause ≠ .notAnInclude tag) ∧
    ((source = path ∧ ∃ line, document.lines[number - 1]? = some line ∧
        line.Faulty cause) ∨
      ∃ links link registered text,
        (shelf.library root).Descent (document.site path) (links ++ [link])
          link.site ∧
        link.excerpt.source = source ∧
        shelf.find? source = some registered ∧
        registered.Spliced link.directive.scenario link.directive.bindings
          number text ∧
        text.Faulty cause) := by
  rcases Library.exists_stop_of_expand h with
    ⟨links, target, ⟨tag, number⟩, hdescent, -, hentry, hstops⟩
  cases hstops with
  | malformed hcause =>
      rcases mem_numberedTags_iff.mp hentry with ⟨line, hline, htag⟩
      have hfaulty : line.Faulty cause :=
        ⟨Line.isDirective_of_mem_includeTags htag, tag, htag, hcause⟩
      rcases hdescent.eq_nil_or_concat with
        ⟨rfl, rfl⟩ | ⟨above, link, caller, rfl, hfrom, rfl⟩
      · rw [Document.site, List.mem_zipIdx_iff_le_and_getElem?_sub] at hline
        exact ⟨hline.1, hfaulty.ne_notAnInclude,
          Or.inl ⟨rfl, line, hline.2, hfaulty⟩⟩
      · rcases find?_of_excerpt hfrom.excerpt_eq with
          ⟨-, -, registered, hfind, hpassage⟩
        have hspliced := link.spliced_of_mem_lines hpassage hline
        exact ⟨hspliced.one_le, hfaulty.ne_notAnInclude,
          Or.inr ⟨above, link, registered, line, hdescent, rfl, hfind,
            hspliced, hfaulty⟩⟩

def faultyShelf : Shelf :=
  Shelf.empty.insert ⟨"lib".toList⟩
    ("Feature: lib\n  @smoke\n  @slow @include(feature: <from>)\n" ++
      "  Scenario: Log in\n    Given a user").toList

def faultyDocument : Document :=
  ⟨["Feature: main".toList,
    "@include(feature: lib, scenario: Log in, params: [from:users])".toList]⟩

/-- The third line of the library has lost its scenario. -/
theorem malformedDirective_located_thirdLine :
    (faultyShelf.library none).expand Settings.default ⟨"main".toList⟩
      faultyDocument =
        .error (.malformedDirective ⟨"lib".toList⟩ 3
          (.missingField .scenario)) ∧
    ∃ links link registered text,
      (faultyShelf.library none).Descent
        (faultyDocument.site ⟨"main".toList⟩) (links ++ [link]) link.site ∧
      link.excerpt.source = ⟨"lib".toList⟩ ∧
      faultyShelf.find? ⟨"lib".toList⟩ = some registered ∧
      registered.Spliced link.directive.scenario link.directive.bindings 3
        text ∧
      text.Faulty (.missingField .scenario) := by
  have hfault : (faultyShelf.library none).expand Settings.default
      ⟨"main".toList⟩ faultyDocument =
        .error (.malformedDirective ⟨"lib".toList⟩ 3
          (.missingField .scenario)) := by
    with_unfolding_all rfl
  have hlocated := malformedDirective_located faultyShelf none
    Settings.default ⟨"main".toList⟩ faultyDocument _ _ _ hfault
  rcases hlocated.2.2 with ⟨hsource, -⟩ | hlib
  · exact absurd hsource (by decide)
  · exact ⟨hfault, hlib⟩

end Shelf

end ScenarioInclusion
