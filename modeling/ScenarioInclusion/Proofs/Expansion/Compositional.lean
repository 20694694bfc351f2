import ScenarioInclusion.Library.Shelf
import ScenarioInclusion.Proofs.Expansion.Assembly
import Mathlib.Tactic

/-!
# An expansion is determined by its include tags

Each include tag of a document can be expanded as a document of its own, a line
that holds this tag and nothing else.  The whole document expands if and only
if all of these do, and its expansion is assembled from theirs.  So neither the
tags before a tag nor the lines around it have any effect on what it becomes;
they only decide where that is written.
-/

namespace ScenarioInclusion

open DirectiveLine

namespace Library

variable {library : Library} {settings : Settings} {path : Path}
  {document : Document}

theorem expand_eq_map (library : Library) (settings : Settings) (path : Path)
    (document : Document) :
    library.expand settings path document =
      Document.mk <$>
        (expandLines (library.splice settings.maxDepth [] path) []
          (document.lines.zipIdx 1)).outcome := by
  rw [expand, expandTraced, Traced.outcome_bind]
  cases (expandLines (library.splice settings.maxDepth [] path) []
    (document.lines.zipIdx 1)).outcome <;> rfl

theorem expand_eq_ok_iff {lines : List Line} :
    library.expand settings path document = .ok ⟨lines⟩ ↔
      (expandLines (library.splice settings.maxDepth [] path) []
        (document.lines.zipIdx 1)).outcome = .ok lines := by
  rw [expand_eq_map, map_eq_ok_iff]
  simp

theorem expand_eq_error_iff {fault : ExpansionError} :
    library.expand settings path document = .error fault ↔
      (expandLines (library.splice settings.maxDepth [] path) []
        (document.lines.zipIdx 1)).outcome = .error fault := by
  rw [expand_eq_map, map_eq_error_iff]

end Library

/-! ## Include tags by themselves -/

theorem ofLine?_of_mem_includeTags {line : Line} {tag : Tag}
    (h : tag ∈ line.includeTags) : ofLine? tag = some ⟨[], [tag], []⟩ := by
  cases hline : ofLine? line with
  | none =>
      rw [includeTags_of_none hline] at h
      contradiction
  | some parsed =>
      rw [includeTags_of_some hline] at h
      exact ofLine?_of_mem_directives hline h

theorem fst_mem_of_mem_numberedTags {lines : List Line} {start : Nat}
    {entry : Tag × Nat} (h : entry ∈ numberedTags (lines.zipIdx start)) :
    entry.1 ∈ lines.flatMap Line.includeTags := by
  have hfst : entry.1 ∈ (numberedTags (lines.zipIdx start)).map Prod.fst :=
    List.mem_map_of_mem h
  rwa [map_fst_numberedTags, List.zipIdx_map_fst] at hfst

theorem exists_number_of_mem_includeTags {lines : List Line} {tag : Tag}
    (h : tag ∈ lines.flatMap Line.includeTags) (start : Nat) :
    ∃ number, (tag, number) ∈ numberedTags (lines.zipIdx start) := by
  have hfst : tag ∈ (numberedTags (lines.zipIdx start)).map Prod.fst := by
    rwa [map_fst_numberedTags, List.zipIdx_map_fst]
  rcases List.mem_map.mp hfst with ⟨entry, hentry, heq⟩
  exact ⟨entry.2, heq ▸ hentry⟩

namespace Library

variable {library : Library} {settings : Settings} {path : Path}
  {document : Document}

theorem expand_singleton_of_mem {lines : List Line} {tag : Tag}
    (h : tag ∈ lines.flatMap Line.includeTags) :
    library.expand settings path ⟨[tag]⟩ =
      Document.mk <$>
        (library.splice settings.maxDepth [] path 1 tag).outcome := by
  rcases List.mem_flatMap.mp h with ⟨line, -, htag⟩
  have hparsed := ofLine?_of_mem_includeTags htag
  rw [expand_eq_map, List.zipIdx_singleton, expandLines, hparsed]
  simp only [Traced.outcome_bind, List.mapM_cons, List.mapM_nil]
  cases (library.splice settings.maxDepth [] path 1 tag).outcome with
  | error fault => rfl
  | ok block =>
      change Except.ok (Document.mk ([block].flatten ++ [])) = _
      simp

theorem splice_eq_ok_iff_expand_singleton {lines : List Line} {tag : Tag}
    (h : tag ∈ lines.flatMap Line.includeTags) (number : Nat)
    {block : List Line} :
    (library.splice settings.maxDepth [] path number tag).outcome = .ok block ↔
      library.expand settings path ⟨[tag]⟩ = .ok ⟨block⟩ := by
  rw [expand_singleton_of_mem h, map_eq_ok_iff]
  constructor
  · intro hblock
    exact ⟨block, splice_number_of_ok hblock 1, rfl⟩
  · intro hexists
    rcases hexists with ⟨other, hother, heq⟩
    injection heq with heq
    rw [heq] at hother
    exact splice_number_of_ok hother number

/-- The numbered line with an include tag shows only in the message about a tag
that is no directive. -/
theorem splice_of_expand_singleton_eq_error {lines : List Line} {tag : Tag}
    (h : tag ∈ lines.flatMap Line.includeTags) {fault : ExpansionError}
    (hfault : library.expand settings path ⟨[tag]⟩ = .error fault)
    {directive : Directive} (htag : Directive.ofTag tag = .ok directive)
    (number : Nat) :
    (library.splice settings.maxDepth [] path number tag).outcome =
      .error fault := by
  rw [expand_singleton_of_mem h, map_eq_error_iff] at hfault
  rw [splice_of_directive htag number 1, hfault]

theorem expand_of_blocks {blocks : Tag → List Line}
    (hblocks : ∀ tag ∈ document.lines.flatMap Line.includeTags,
      library.expand settings path ⟨[tag]⟩ = .ok ⟨blocks tag⟩) :
    library.expand settings path document =
      .ok ⟨(stretches document.lines).flatMap (assembleStretch blocks)⟩ := by
  rcases exists_output_of_splice library settings.maxDepth [] path with
    ⟨output, houtput⟩
  have hagree : ∀ tag ∈ document.lines.flatMap Line.includeTags,
      blocks tag = output tag := by
    intro tag htag
    have hblock := (splice_eq_ok_iff_expand_singleton htag 1).mpr
      (hblocks tag htag)
    exact (houtput 1 tag (blocks tag) hblock).symm
  rw [expand_eq_ok_iff, expandLines_eq_ok_iff houtput, List.zipIdx_map_fst,
    ← assemble_eq_flatMap_stretches]
  constructor
  · intro entry hentry
    have hmem := fst_mem_of_mem_numberedTags hentry
    exact ⟨blocks entry.1, (splice_eq_ok_iff_expand_singleton hmem _).mpr
      (hblocks entry.1 hmem)⟩
  · exact (assemble_congr hagree []).symm

theorem exists_blocks_of_expand {output : Document}
    (h : library.expand settings path document = .ok output) :
    ∃ blocks : Tag → List Line,
      (∀ tag ∈ document.lines.flatMap Line.includeTags,
        library.expand settings path ⟨[tag]⟩ = .ok ⟨blocks tag⟩) ∧
      output.lines = assemble blocks [] document.lines := by
  rcases exists_output_of_splice library settings.maxDepth [] path with
    ⟨blocks, hblocks⟩
  have hlines := expand_eq_ok_iff.mp h
  rw [expandLines_eq_ok_iff hblocks, List.zipIdx_map_fst] at hlines
  refine ⟨blocks, ?_, hlines.2.symm⟩
  intro tag htag
  rcases exists_number_of_mem_includeTags htag 1 with ⟨number, hentry⟩
  rcases hlines.1 _ hentry with ⟨block, hblock⟩
  rw [hblocks number tag block hblock]
  exact (splice_eq_ok_iff_expand_singleton htag number).mp hblock

theorem exists_expand_iff :
    (∃ output, library.expand settings path document = .ok output) ↔
      ∀ tag ∈ document.lines.flatMap Line.includeTags,
        ∃ output, library.expand settings path ⟨[tag]⟩ = .ok output := by
  constructor
  · intro hexpand tag htag
    rcases hexpand with ⟨output, hexpand⟩
    rcases exists_blocks_of_expand hexpand with ⟨blocks, hblocks, -⟩
    exact ⟨⟨blocks tag⟩, hblocks tag htag⟩
  · intro halone
    rcases exists_output_of_splice library settings.maxDepth [] path with
      ⟨output, houtput⟩
    have hblocks : ∀ tag ∈ document.lines.flatMap Line.includeTags,
        library.expand settings path ⟨[tag]⟩ = .ok ⟨output tag⟩ := by
      intro tag htag
      rcases halone tag htag with ⟨⟨block⟩, halone⟩
      have hsplice := (splice_eq_ok_iff_expand_singleton htag 1).mpr halone
      rw [houtput 1 tag block hsplice]
      exact halone
    exact ⟨_, expand_of_blocks hblocks⟩

theorem expand_of_first_error {earlier later : List (Tag × Nat)} {tag : Tag}
    {number : Nat} {fault : ExpansionError}
    (hsplit : numberedTags (document.lines.zipIdx 1) =
      earlier ++ (tag, number) :: later)
    (hearlier : ∀ entry ∈ earlier,
      ∃ output, library.expand settings path ⟨[entry.1]⟩ = .ok output)
    (hfault : (library.splice settings.maxDepth [] path number tag).outcome =
      .error fault) :
    library.expand settings path document = .error fault := by
  rcases exists_output_of_splice library settings.maxDepth [] path with
    ⟨output, houtput⟩
  rw [expand_eq_error_iff, expandLines_eq_error_iff houtput]
  refine ⟨earlier, (tag, number), later, hsplit, ?_, hfault⟩
  intro entry hentry
  have hmem : entry.1 ∈ document.lines.flatMap Line.includeTags := by
    apply fst_mem_of_mem_numberedTags
    rw [hsplit]
    exact List.mem_append_left _ hentry
  rcases hearlier entry hentry with ⟨⟨block⟩, hblock⟩
  exact ⟨block, (splice_eq_ok_iff_expand_singleton hmem _).mpr hblock⟩

/-- A document expands if and only if its include tags do, each by itself.
Then every run of directive lines becomes the expansions of its tags, and below
them what stays of its lines.  Otherwise the first tag that fails decides; only
when that tag is no directive does the fault tell its line. -/
theorem expand_compositional (library : Library) (settings : Settings)
    (path : Path) (document : Document) :
    ((∃ output, library.expand settings path document = .ok output) ↔
      ∀ tag ∈ document.lines.flatMap Line.includeTags,
        ∃ output, library.expand settings path ⟨[tag]⟩ = .ok output) ∧
    (∀ blocks : Tag → List Line,
      (∀ tag ∈ document.lines.flatMap Line.includeTags,
        library.expand settings path ⟨[tag]⟩ = .ok ⟨blocks tag⟩) →
      library.expand settings path document =
        .ok ⟨(stretches document.lines).flatMap (assembleStretch blocks)⟩) ∧
    (∀ earlier tag number later fault,
      numberedTags (document.lines.zipIdx 1) =
        earlier ++ (tag, number) :: later →
      (∀ entry ∈ earlier,
        ∃ output, library.expand settings path ⟨[entry.1]⟩ = .ok output) →
      library.expand settings path ⟨[tag]⟩ = .error fault →
      library.expand settings path document =
        .error (match Directive.ofTag tag with
          | .error cause => .malformedDirective path number cause
          | .ok _ => fault)) := by
  refine ⟨exists_expand_iff, fun blocks => expand_of_blocks, ?_⟩
  intro earlier tag number later fault hsplit hearlier hfault
  apply expand_of_first_error hsplit hearlier
  have hmem : tag ∈ document.lines.flatMap Line.includeTags := by
    have hentry : (tag, number) ∈ numberedTags (document.lines.zipIdx 1) := by
      rw [hsplit]
      simp
    exact fst_mem_of_mem_numberedTags hentry
  cases htag : Directive.ofTag tag with
  | error cause => exact splice_of_malformed htag
  | ok directive =>
      exact splice_of_expand_singleton_eq_error hmem hfault htag number

/-! ## A library of two scenarios -/

def sampleLibrary : Library :=
  (Shelf.empty.insert ⟨"lib".toList⟩
    "Scenario: A\nGiven a\n@x\nScenario: B\nGiven b".toList).library none

def samplePath : Path := ⟨"main".toList⟩

def sampleTagA : Tag := "@include(feature: lib, scenario: A)".toList

def sampleTagB : Tag := "@include(feature: lib, scenario: B)".toList

def sampleLines : List Line :=
  ["@smoke ".toList ++ sampleTagA, sampleTagB, "Scenario: C".toList]

def sampleExpansion : List Line :=
  ["Scenario: A".toList, "Given a".toList, "Scenario: B".toList,
    "Given b".toList, "@smoke".toList, "Scenario: C".toList]

def sampleBlocks (tag : Tag) : List Line :=
  if tag.contains 'A' then ["Scenario: A".toList, "Given a".toList]
  else ["Scenario: B".toList, "Given b".toList]

theorem expand_sampleLines :
    sampleLibrary.expand Settings.default samplePath ⟨sampleLines⟩ =
      .ok ⟨sampleExpansion⟩ ∧
    sampleLibrary.expand Settings.default samplePath
        ⟨["Feature: F".toList, "@include".toList]⟩ =
      .error (.malformedDirective samplePath 2 (.missingField .feature)) := by
  have hgood := expand_compositional sampleLibrary Settings.default samplePath
    ⟨sampleLines⟩
  have hbad := expand_compositional sampleLibrary Settings.default samplePath
    ⟨["Feature: F".toList, "@include".toList]⟩
  have htags : sampleLines.flatMap Line.includeTags =
      [sampleTagA, sampleTagB] := by cbv
  have hA : sampleLibrary.expand Settings.default samplePath ⟨[sampleTagA]⟩ =
      .ok ⟨sampleBlocks sampleTagA⟩ := by cbv
  have hB : sampleLibrary.expand Settings.default samplePath ⟨[sampleTagB]⟩ =
      .ok ⟨sampleBlocks sampleTagB⟩ := by cbv
  have halone : ∀ tag ∈ sampleLines.flatMap Line.includeTags,
      sampleLibrary.expand Settings.default samplePath ⟨[tag]⟩ =
        .ok ⟨sampleBlocks tag⟩ := by
    rw [htags]
    simp [hA, hB]
  constructor
  · rw [hgood.2.1 sampleBlocks halone, ← assemble_eq_flatMap_stretches]
    cbv
  · rw [hbad.2.2 [] "@include".toList 2 []
      (.malformedDirective samplePath 1 (.missingField .feature))
      (by cbv) (by simp) (by cbv)]
    cbv

end Library

end ScenarioInclusion
