import ScenarioInclusion.Proofs.Expansion.Completeness
import ScenarioInclusion.Proofs.Expansion.Diagnostics

/-!
# Which tags are include tags

Two tests decide about a tag, and they are written differently.  One looks at
the name of the tag and chooses the tags of a line that are to be replaced; the
other begins to read a directive and may find that there is none.  They agree on
every text.  So no tag is chosen that turns out to be no directive, on a line of
the document or on one that bindings were filled into, and none is left behind
that could have been read.
-/

namespace ScenarioInclusion

namespace DirectiveLine

variable {line : Line} {parsed : DirectiveLine}

theorem recognises_of_mem_directives (h : ofLine? line = some parsed)
    {tag : Tag} (htag : tag ∈ parsed.directives) :
    Directive.Recognises (Directive.ofTag tag) :=
  Directive.recognises_ofTag ((mem_directives_iff h).mp htag).2

theorem ofTag_of_mem_siblings (h : ofLine? line = some parsed)
    {tag : Tag} (htag : tag ∈ parsed.siblings) :
    Directive.ofTag tag = .error (.notAnInclude (Text.trim tag)) := by
  rw [(ofLine?_eq_some_iff.mp h).2] at htag
  have hnot := (List.mem_filter.mp htag).2
  exact Directive.ofTag_eq_notAnInclude_iff.mpr ⟨by simpa using hnot, rfl⟩

theorem ofTag_of_not_isDirective (hnot : ¬ line.IsDirective)
    (hline : line.isTagLine = true) {tag : Tag} (htag : tag ∈ line.tags) :
    Directive.ofTag tag = .error (.notAnInclude (Text.trim tag)) := by
  have hinclude : tag.isInclude = false := by
    by_contra hinclude
    exact hnot ⟨hline, tag, htag, by simpa using hinclude⟩
  exact Directive.ofTag_eq_notAnInclude_iff.mpr ⟨hinclude, rfl⟩

end DirectiveLine

namespace Library

variable {library : Library} {settings : Settings} {path : Path}
  {document : Document}

/-- No run is stopped by a tag for being no include directive. -/
theorem expand_ne_notAnInclude (source : Path) (number : Nat) (text : Text) :
    library.expand settings path document ≠
      .error (.malformedDirective source number (.notAnInclude text)) := by
  intro h
  rcases exists_stop_of_expand h with
    ⟨links, target, ⟨tag, place⟩, -, -, hentry, hstops⟩
  cases hstops with
  | malformed hcause =>
      rcases mem_numberedTags_iff.mp hentry with ⟨line, -, htag⟩
      exact Directive.recognises_ofTag
        (Line.isInclude_of_mem_includeTags htag) text hcause

/-- The tags that are chosen for replacement are those that the reader of
directives does not turn away, in every text, on every line and in every run. -/
theorem recognition_exact (library : Library) (settings : Settings)
    (path : Path) (document : Document) :
    (∀ (tag : Tag) (text : Text),
      Directive.ofTag tag = .error (.notAnInclude text) ↔
        tag.isInclude = false ∧ text = Text.trim tag) ∧
    (∀ line parsed, DirectiveLine.ofLine? line = some parsed →
      (∀ tag ∈ parsed.directives, ∀ text,
        Directive.ofTag tag ≠ .error (.notAnInclude text)) ∧
      ∀ tag ∈ parsed.siblings,
        Directive.ofTag tag = .error (.notAnInclude (Text.trim tag))) ∧
    (∀ line, DirectiveLine.ofLine? line = none → line.isTagLine = true →
      ∀ tag ∈ line.tags,
        Directive.ofTag tag = .error (.notAnInclude (Text.trim tag))) ∧
    (∀ source number text, library.expand settings path document ≠
      .error (.malformedDirective source number (.notAnInclude text))) ∧
    ∀ output, library.expand settings path document = .ok output →
      ∀ line ∈ output.lines, line.isTagLine = true → ∀ tag ∈ line.tags,
        Directive.ofTag tag = .error (.notAnInclude (Text.trim tag)) := by
  refine ⟨fun _ _ => Directive.ofTag_eq_notAnInclude_iff, ?_, ?_,
    expand_ne_notAnInclude, ?_⟩
  · intro line parsed hparsed
    constructor
    · intro tag htag
      exact DirectiveLine.recognises_of_mem_directives hparsed htag
    · intro tag htag
      exact DirectiveLine.ofTag_of_mem_siblings hparsed htag
  · intro line hnone hline tag htag
    exact DirectiveLine.ofTag_of_not_isDirective
      (DirectiveLine.ofLine?_eq_none_iff.mp hnone) hline htag
  · intro output houtput line hmem hline tag htag
    exact DirectiveLine.ofTag_of_not_isDirective
      (not_isDirective_of_expand houtput line hmem) hline htag

/-! ## At signs too many -/

def doubledLine : Line :=
  " @@include(a) @include\u3000@includes".toList

def doubledTag : Tag :=
  "@@include(a)".toList

theorem recognition_exact_doubledLine :
    DirectiveLine.ofLine? doubledLine = some
      ⟨[' '], ["@include".toList], [doubledTag, "@includes".toList]⟩ ∧
    (∀ text, Directive.ofTag "@include".toList ≠
      .error (.notAnInclude text)) ∧
    Directive.ofTag doubledTag = .error (.notAnInclude doubledTag) ∧
    (Shelf.empty.library none).expand Settings.default Path.empty
      ⟨[doubledTag]⟩ = .ok ⟨[doubledTag]⟩ ∧
    ∀ tag ∈ Line.tags doubledTag,
      Directive.ofTag tag = .error (.notAnInclude (Text.trim tag)) := by
  obtain ⟨-, hline, -, -, hrun⟩ := recognition_exact
    (Shelf.empty.library none) Settings.default Path.empty ⟨[doubledTag]⟩
  have hparsed : DirectiveLine.ofLine? doubledLine = some
      ⟨[' '], ["@include".toList], [doubledTag, "@includes".toList]⟩ := by
    cbv
  have htrim : Text.trim doubledTag = doubledTag := by decide
  have hplain : (Shelf.empty.library none).expand Settings.default Path.empty
      ⟨[doubledTag]⟩ = .ok ⟨[doubledTag]⟩ :=
    expand_of_no_directives (by simp; decide +kernel)
  refine ⟨hparsed, (hline _ _ hparsed).1 _ (by simp), ?_, hplain,
    hrun _ hplain _ (by simp) (by decide)⟩
  have hsibling := (hline _ _ hparsed).2 doubledTag (by simp)
  rwa [htrim] at hsibling

end Library

end ScenarioInclusion
