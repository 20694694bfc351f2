import ScenarioInclusion.Proofs.Excerpt
import ScenarioInclusion.Proofs.Expansion.Compositional

/-!
# Where the author's own tags go

A scenario of the author may have several tag lines.  Tags that share a line
with an include tag are held back until the run of directive lines is over, but
a tag line without include tags is written at once.  So the author's tags keep
standing above the author's header as long as no directive line comes after an
ordinary tag line.

They do not otherwise.  Whatever is spliced begins with a header, and the last
ordinary tag line before a directive line then stands right above it.
-/

namespace ScenarioInclusion

open DirectiveLine

/-! ## Every block begins with a header -/

theorem startsScenario_of_assemble {output : Tag → List Line} {line : Line}
    (hline : line.IsDirective)
    (houtput : ∀ tag ∈ line.includeTags, StartsScenario (output tag))
    (rest : List Line) : StartsScenario (assemble output [] (line :: rest)) := by
  rcases exists_ofLine? hline with ⟨parsed, hparsed⟩
  rcases List.exists_cons_of_ne_nil (directives_ne_nil hparsed) with
    ⟨tag, more, hdirectives⟩
  have hfirst : StartsScenario (output tag) := by
    apply houtput
    rw [includeTags_of_some hparsed, hdirectives]
    exact List.mem_cons_self ..
  rw [assemble_cons_of_some hparsed, hdirectives, List.flatMap_cons,
    List.append_assoc]
  exact hfirst.append _

theorem startsScenario_of_expandLines
    {splice : Nat → Tag → Traced ExpansionError (List Line)}
    {output : Tag → List Line}
    (houtput : ∀ number tag block,
      (splice number tag).outcome = .ok block → output tag = block)
    (hsplice : ∀ number tag block,
      (splice number tag).outcome = .ok block → StartsScenario block)
    {nested : List (Line × Nat)} {text : List Line} {start : Nat}
    (hnested : ∀ entry ∈ nested, entry.1.IsDirective)
    (htext : StartsScenario text) {out : List Line}
    (h : (expandLines splice [] (nested ++ text.zipIdx start)).outcome =
      .ok out) : StartsScenario out := by
  rcases (expandLines_eq_ok_iff houtput).mp h with ⟨hblocks, hassemble⟩
  rw [← hassemble]
  cases nested with
  | nil =>
      rcases htext with ⟨header, rest, rfl, hheader⟩
      have hnone : ofLine? header = none :=
        ofLine?_eq_none_iff.mpr (Line.not_isDirective_of_isHeader hheader)
      rw [List.nil_append, List.zipIdx_map_fst, assemble_cons_of_none hnone]
      exact ⟨header, _, rfl, hheader⟩
  | cons entry more =>
      rcases entry with ⟨line, number⟩
      apply startsScenario_of_assemble (hnested _ (List.mem_cons_self ..))
      intro tag htag
      have hentry : (tag, number) ∈
          numberedTags ((line, number) :: (more ++ text.zipIdx start)) := by
        rw [numberedTags_cons]
        exact List.mem_append_left _ (List.mem_map_of_mem htag)
      rcases hblocks _ hentry with ⟨block, hblock⟩
      rw [houtput number tag block hblock]
      exact hsplice number tag block hblock

namespace Library

theorem startsScenario_of_splice {library : Library} {room : Nat}
    {chain : List Inclusion} {path : Path} {number : Nat} {tag : Tag}
    {block : List Line}
    (h : (library.splice room chain path number tag).outcome = .ok block) :
    StartsScenario block := by
  apply splice_induction _ h
  intro room chain path tag block splicing hinner
  rcases exists_output_of_splice library splicing.roomLeft
    (chain ++ [splicing.excerpt.inclusion]) splicing.excerpt.source with
    ⟨output, houtput⟩
  have htext : StartsScenario splicing.text :=
    startsScenario_of_bind splicing.excerpt_eq splicing.bind_eq
  exact startsScenario_of_expandLines houtput hinner
    (fun entry hentry => Excerpt.isDirective_of_mem_nested hentry)
    htext splicing.expand_eq

theorem startsScenario_of_expand_singleton {library : Library}
    {settings : Settings} {path : Path} {lines : List Line} {tag : Tag}
    (htag : tag ∈ lines.flatMap Line.includeTags) {block : List Line}
    (h : library.expand settings path ⟨[tag]⟩ = .ok ⟨block⟩) :
    StartsScenario block :=
  startsScenario_of_splice ((splice_eq_ok_iff_expand_singleton htag 1).mpr h)

end Library

/-! ## Tag lines above a header -/

/-- The tags of a line that are no include tags. -/
def Line.ownTags (line : Line) : List Tag :=
  line.tags.filter fun tag => !tag.isInclude

/-- No directive line comes after a line that is none. -/
def DirectivesFirst (run : List Line) : Prop :=
  run.Pairwise fun line next => next.IsDirective → line.IsDirective

instance (run : List Line) : Decidable (DirectivesFirst run) :=
  inferInstanceAs (Decidable (List.Pairwise _ run))

/-- Are the lines that were written above a header some spliced lines followed
by tag lines with just these tags? -/
def TagsStayBelow (spliced : List Line) (tags : List Tag)
    (above : List Line) : Prop :=
  ∃ tagLines, above = spliced ++ tagLines ∧
    (∀ line ∈ tagLines, line.isTagLine = true) ∧
    tagLines.flatMap Line.tags = tags

section Run

variable {line : Line} {run : List Line}

theorem isTagLine_of_mem_remainder? (hline : line.isTagLine = true)
    {rest : Line} (h : rest ∈ line.remainder?) : rest.isTagLine = true := by
  cases hparse : ofLine? line with
  | none =>
      rw [remainder?_of_none hparse] at h
      rw [← Option.some.inj h]
      exact hline
  | some parsed =>
      rw [remainder?_of_some hparse] at h
      exact isTagLine_siblingLine hparse h

theorem flatMap_tags_remainder? (hline : line.isTagLine = true) :
    line.remainder?.toList.flatMap Line.tags = line.ownTags := by
  cases hparse : ofLine? line with
  | none =>
      have hown : ∀ tag ∈ line.tags, (!tag.isInclude) = true := by
        intro tag htag
        have hnot := ofLine?_eq_none_iff.mp hparse
        cases hinclude : tag.isInclude with
        | false => rfl
        | true => exact absurd ⟨hline, tag, htag, hinclude⟩ hnot
      rw [remainder?_of_none hparse, Line.ownTags,
        List.filter_eq_self.mpr hown]
      simp
  | some parsed =>
      have hown : line.ownTags = parsed.siblings := by
        rw [(ofLine?_eq_some_iff.mp hparse).2]
        rfl
      rw [remainder?_of_some hparse, hown]
      cases hsibling : parsed.siblingLine? with
      | none =>
          have hnil : parsed.siblings = [] := by
            by_contra hne
            have hsome := siblingLine?_eq_some_iff.mpr ⟨hne, rfl⟩
            rw [hsibling] at hsome
            contradiction
          rw [hnil]
          rfl
      | some sibling =>
          simp [tags_siblingLine hparse hsibling]

theorem flatMap_tags_filterMap_remainder?
    (hrun : ∀ line ∈ run, line.isTagLine = true) :
    (run.filterMap Line.remainder?).flatMap Line.tags =
      run.flatMap Line.ownTags := by
  induction run with
  | nil => rfl
  | cons line run ih =>
      have hline := flatMap_tags_remainder? (hrun line (List.mem_cons_self ..))
      have htail := ih fun other hother =>
        hrun other (List.mem_cons_of_mem line hother)
      rw [filterMap_remainder?_cons, List.flatMap_append, hline, htail,
        List.flatMap_cons]

theorem assemble_of_directivesFirst {output : Tag → List Line}
    (h : DirectivesFirst run) (held : List Line) :
    assemble output held run =
      (run.flatMap Line.includeTags).flatMap output ++
        (held ++ run.filterMap Line.remainder?) := by
  induction run generalizing held with
  | nil => simp [assemble]
  | cons line run ih =>
      rw [DirectivesFirst, List.pairwise_cons] at h
      cases hparse : ofLine? line with
      | none =>
          have hplain : ∀ other ∈ line :: run, ¬ other.IsDirective := by
            intro other hother hdirective
            have hnot := ofLine?_eq_none_iff.mp hparse
            rcases List.mem_cons.mp hother with heq | hmem
            · exact hnot (heq ▸ hdirective)
            · exact hnot (h.1 other hmem hdirective)
          rw [assemble_of_no_directives hplain,
            flatMap_includeTags_of_no_directives hplain,
            filterMap_remainder?_of_no_directives hplain]
          rfl
      | some parsed =>
          rw [assemble_cons_of_some hparse, ih h.2, List.flatMap_cons,
            includeTags_of_some hparse, List.flatMap_append,
            filterMap_remainder?_cons, remainder?_of_some hparse]
          simp

theorem exists_tag_of_isDirective (h : line.IsDirective) :
    ∃ tag more, line.includeTags = tag :: more := by
  rcases exists_ofLine? h with ⟨parsed, hparse⟩
  rw [includeTags_of_some hparse]
  exact List.exists_cons_of_ne_nil (directives_ne_nil hparse)

/-- Blocks do not begin like tag lines, so none is spliced into lines that do. -/
theorem no_directives_of_tagLines_eq {output : Tag → List Line}
    (houtput : ∀ tag ∈ run.flatMap Line.includeTags,
      StartsScenario (output tag))
    {held rest tagLines : List Line}
    (hheld : ∀ line ∈ held, line.isTagLine = true)
    (hline : line.isTagLine = true)
    (h : held ++ line :: rest =
      (run.flatMap Line.includeTags).flatMap output ++ tagLines) :
    ∀ other ∈ run, ¬ other.IsDirective := by
  intro other hother hdirective
  rcases exists_tag_of_isDirective hdirective with ⟨tag, more, htags⟩
  have hmem : tag ∈ run.flatMap Line.includeTags := by
    refine List.mem_flatMap.mpr ⟨other, hother, ?_⟩
    rw [htags]
    exact List.mem_cons_self ..
  rcases List.exists_cons_of_ne_nil (List.ne_nil_of_mem hmem) with
    ⟨first, others, hfirst⟩
  have hstart : StartsScenario (output first) := by
    apply houtput
    rw [hfirst]
    exact List.mem_cons_self ..
  apply not_startsScenario_of_tagLines hheld hline rest
  rw [h, hfirst, List.flatMap_cons, List.append_assoc]
  exact hstart.append _

theorem directivesFirst_of_assemble {output : Tag → List Line}
    (hrun : ∀ line ∈ run, line.isTagLine = true)
    (houtput : ∀ tag ∈ run.flatMap Line.includeTags,
      StartsScenario (output tag))
    {held tagLines : List Line}
    (hheld : ∀ line ∈ held, line.isTagLine = true)
    (h : assemble output held run =
      (run.flatMap Line.includeTags).flatMap output ++ tagLines) :
    DirectivesFirst run := by
  induction run generalizing held with
  | nil => exact List.Pairwise.nil
  | cons line run ih =>
      rw [List.flatMap_cons] at h houtput
      have hline := hrun line (List.mem_cons_self ..)
      have hrunTail := fun other hother =>
        hrun other (List.mem_cons_of_mem line hother)
      have houtputTail := fun tag htag =>
        houtput tag (List.mem_append_right _ htag)
      cases hparse : ofLine? line with
      | some parsed =>
          have hdirective : line.IsDirective :=
            (ofLine?_eq_some_iff.mp hparse).1
          have hheldNext : ∀ other ∈ held ++ parsed.siblingLine?.toList,
              other.isTagLine = true := by
            intro other hother
            rcases List.mem_append.mp hother with hmem | hmem
            · exact hheld other hmem
            · exact isTagLine_siblingLine hparse (Option.mem_toList.mp hmem)
          rw [assemble_cons_of_some hparse, includeTags_of_some hparse,
            List.flatMap_append, List.append_assoc] at h
          have htail := ih hrunTail houtputTail hheldNext
            (List.append_cancel_left h)
          exact List.Pairwise.cons (fun _ _ _ => hdirective) htail
      | none =>
          rw [assemble_cons_of_none hparse, includeTags_of_none hparse,
            List.nil_append] at h
          have hplain : ∀ other ∈ run, ¬ other.IsDirective :=
            no_directives_of_tagLines_eq houtputTail hheld hline h
          apply List.Pairwise.cons
          · intro other hother hdirective
            exact absurd hdirective (hplain other hother)
          · apply List.pairwise_of_forall_mem_list
            intro first _ other hother hdirective
            exact absurd hdirective (hplain other hother)

/-- An ordinary tag line that a directive line comes after has one right behind
it, or has an ordinary tag line behind it that does. -/
theorem exists_directive_behind (h : ¬ DirectivesFirst run) :
    ∃ upper own next lower, run = upper ++ own :: next :: lower ∧
      ¬ own.IsDirective ∧ next.IsDirective := by
  induction run with
  | nil => exact absurd List.Pairwise.nil h
  | cons line run ih =>
      by_cases htail : DirectivesFirst run
      · cases run with
        | nil => exact absurd (List.pairwise_singleton _ _) h
        | cons next run =>
            by_cases hnext : next.IsDirective
            · have hline : ¬ line.IsDirective := by
                intro hline
                exact h (List.Pairwise.cons (fun _ _ _ => hline) htail)
              exact ⟨[], line, next, run, rfl, hline, hnext⟩
            · exfalso
              apply h
              apply List.Pairwise.cons _ htail
              intro other hother hdirective
              rcases List.mem_cons.mp hother with heq | hmem
              · exact absurd (heq ▸ hdirective) hnext
              · exact absurd ((List.pairwise_cons.mp htail).1 other hmem
                  hdirective) hnext
      · rcases ih htail with ⟨upper, own, next, lower, rfl, hown, hnext⟩
        exact ⟨line :: upper, own, next, lower, rfl, hown, hnext⟩

theorem exists_misplaced_of_not_directivesFirst (h : ¬ DirectivesFirst run)
    (output : Tag → List Line) :
    ∃ upper own tag lower,
      assemble output [] run = upper ++ own :: (output tag ++ lower) ∧
      own ∈ run ∧ ¬ own.IsDirective ∧
      tag ∈ run.flatMap Line.includeTags := by
  rcases exists_directive_behind h with
    ⟨above, own, next, below, rfl, hown, hnext⟩
  rcases exists_tag_of_isDirective hnext with ⟨tag, more, htags⟩
  rcases exists_ofLine? hnext with ⟨parsed, hparse⟩
  have hnone : ofLine? own = none := ofLine?_eq_none_iff.mpr hown
  have hhead := forall_mem_head?_not_isDirective hown (next :: below)
  rw [includeTags_of_some hparse] at htags
  refine ⟨assemble output [] above, own, tag, more.flatMap output ++
    assemble output ([] ++ parsed.siblingLine?.toList) below, ?_, ?_, hown, ?_⟩
  · rw [assemble_append hhead, assemble_cons_of_none hnone,
      assemble_cons_of_some hparse, htags, List.flatMap_cons]
    simp
  · simp
  · simp [includeTags_of_some hparse, htags]

end Run

/-- A header of the author with all tag lines that stand right above it. -/
structure TaggedHeader (before run : List Line) (header : Line) : Prop where
  maximal : ∀ line ∈ before.getLast?, line.isTagLine = false
  tagLines : ∀ line ∈ run, line.isTagLine = true
  isHeader : header.IsHeader

instance (before run : List Line) (header : Line) :
    Decidable (TaggedHeader before run header) :=
  decidable_of_iff
    ((∀ line ∈ before.getLast?, line.isTagLine = false) ∧
      (∀ line ∈ run, line.isTagLine = true) ∧ header.IsHeader)
    ⟨fun h => ⟨h.1, h.2.1, h.2.2⟩,
      fun h => ⟨h.maximal, h.tagLines, h.isHeader⟩⟩

namespace Library

/-- The author's tags above a header stand above it in the expansion too, below
everything that is spliced there. -/
def OwnTagsStay (library : Library) (settings : Settings) (path : Path)
    (before run : List Line) (header : Line) (after : List Line) : Prop :=
  ∃ start above rest blocks,
    library.expand settings path ⟨before ++ (run ++ header :: after)⟩ =
      .ok ⟨start ++ (above ++ header :: rest)⟩ ∧
    library.expand settings path ⟨before⟩ = .ok ⟨start⟩ ∧
    library.expand settings path ⟨after⟩ = .ok ⟨rest⟩ ∧
    (run.flatMap Line.includeTags).mapM
      (fun tag => library.expand settings path ⟨[tag]⟩) = .ok blocks ∧
    TagsStayBelow (blocks.flatMap Document.lines)
      (run.flatMap Line.ownTags) above

variable {library : Library} {settings : Settings} {path : Path}
  {before run after : List Line} {header : Line}

theorem expand_of_subset {blocks : Tag → List Line} {lines part : List Line}
    (hblocks : ∀ tag ∈ lines.flatMap Line.includeTags,
      library.expand settings path ⟨[tag]⟩ = .ok ⟨blocks tag⟩)
    (hpart : ∀ line ∈ part, line ∈ lines) :
    library.expand settings path ⟨part⟩ = .ok ⟨assemble blocks [] part⟩ := by
  rw [assemble_eq_flatMap_stretches]
  apply expand_of_blocks
  intro tag htag
  apply hblocks
  rcases List.mem_flatMap.mp htag with ⟨line, hline, hmem⟩
  exact List.mem_flatMap.mpr ⟨line, hpart line hline, hmem⟩

theorem assemble_of_taggedHeader (h : TaggedHeader before run header)
    (blocks : Tag → List Line) :
    assemble blocks [] (before ++ (run ++ header :: after)) =
      assemble blocks [] before ++
        (assemble blocks [] run ++ header :: assemble blocks [] after) := by
  have hlast : ∀ line ∈ before.getLast?, ¬ line.IsDirective := by
    intro line hline hdirective
    have hnot := h.maximal line hline
    rw [hdirective.1] at hnot
    contradiction
  have hplain : ¬ header.IsDirective :=
    Line.not_isDirective_of_isHeader h.isHeader
  have hhead := forall_mem_head?_not_isDirective hplain after
  rw [assemble_append_of_last hlast, assemble_append hhead,
    assemble_cons_of_none (ofLine?_eq_none_iff.mpr hplain), List.nil_append]

/-- The expansion of a document, cut at a header with tag lines above it. -/
theorem exists_blocks_of_taggedHeader (h : TaggedHeader before run header)
    {output : Document}
    (hexpand : library.expand settings path
      ⟨before ++ (run ++ header :: after)⟩ = .ok output) :
    ∃ blocks : Tag → List Line,
      output.lines = assemble blocks [] before ++
        (assemble blocks [] run ++ header :: assemble blocks [] after) ∧
      library.expand settings path ⟨before⟩ =
        .ok ⟨assemble blocks [] before⟩ ∧
      library.expand settings path ⟨after⟩ = .ok ⟨assemble blocks [] after⟩ ∧
      (run.flatMap Line.includeTags).mapM
        (fun tag => library.expand settings path ⟨[tag]⟩) =
          .ok ((run.flatMap Line.includeTags).map fun tag => ⟨blocks tag⟩) ∧
      ∀ tag ∈ run.flatMap Line.includeTags,
        library.expand settings path ⟨[tag]⟩ = .ok ⟨blocks tag⟩ := by
  rcases exists_blocks_of_expand hexpand with ⟨blocks, hblocks, hlines⟩
  have hrun : ∀ tag ∈ run.flatMap Line.includeTags,
      library.expand settings path ⟨[tag]⟩ = .ok ⟨blocks tag⟩ := by
    intro tag htag
    apply hblocks
    simp only [List.flatMap_append, List.mem_append]
    exact Or.inr (Or.inl htag)
  refine ⟨blocks, ?_, ?_, ?_, mapM_eq_ok_map hrun, hrun⟩
  · rw [hlines, assemble_of_taggedHeader h]
  · apply expand_of_subset hblocks
    intro line hline
    exact List.mem_append_left _ hline
  · apply expand_of_subset hblocks
    intro line hline
    simp [hline]

theorem ownTagsStay_of_directivesFirst (h : TaggedHeader before run header)
    {output : Document}
    (hexpand : library.expand settings path
      ⟨before ++ (run ++ header :: after)⟩ = .ok output)
    (hfirst : DirectivesFirst run) :
    library.OwnTagsStay settings path before run header after := by
  rcases exists_blocks_of_taggedHeader h hexpand with
    ⟨blocks, hlines, hbefore, hafter, hmapM, -⟩
  have houtput : output = ⟨assemble blocks [] before ++
      (assemble blocks [] run ++ header :: assemble blocks [] after)⟩ := by
    rw [← hlines]
  rw [houtput] at hexpand
  refine ⟨_, _, _, _, hexpand, hbefore, hafter, hmapM,
    run.filterMap Line.remainder?, ?_, ?_,
    flatMap_tags_filterMap_remainder? h.tagLines⟩
  · rw [assemble_of_directivesFirst hfirst, List.flatMap_map, List.nil_append]
  · intro rest hrest
    rcases List.mem_filterMap.mp hrest with ⟨line, hline, hremainder⟩
    exact isTagLine_of_mem_remainder? (h.tagLines line hline) hremainder

theorem directivesFirst_of_ownTagsStay (h : TaggedHeader before run header)
    (hstay : library.OwnTagsStay settings path before run header after) :
    DirectivesFirst run := by
  rcases hstay with ⟨start, above, rest, spliced, hexpand, hstart, hrest,
    hspliced, tagLines, habove, -⟩
  rcases exists_blocks_of_taggedHeader h hexpand with
    ⟨blocks, hlines, hbefore, hafter, hmapM, hblocks⟩
  rw [hbefore] at hstart
  injection hstart with hstart
  injection hstart with hstart
  rw [hmapM] at hspliced
  injection hspliced with hspliced
  have habove' : above = assemble blocks [] run := by
    rw [hafter] at hrest
    injection hrest with hrest
    injection hrest with hrest
    rw [← hstart, ← hrest] at hlines
    exact List.append_cancel_right (List.append_cancel_left hlines)
  have houtput : ∀ tag ∈ run.flatMap Line.includeTags,
      StartsScenario (blocks tag) := by
    intro tag htag
    exact startsScenario_of_expand_singleton htag (hblocks tag htag)
  apply directivesFirst_of_assemble h.tagLines houtput (List.forall_mem_nil _)
  rw [← habove', habove, ← hspliced, List.flatMap_map]

/-! ## An ordinary tag line between two directive lines -/

def mixedLibrary : Library :=
  (Shelf.empty.insert ⟨"features/lib.feature".toList⟩
    ("Feature: lib\n  Scenario: Log in\n    When I log in\n" ++
      "  Scenario: Pay\n    When I pay\n").toList).library none

def mixedPath : Path := ⟨"features/main.feature".toList⟩

def mixedBefore : List Line := ["Feature: main".toList]

def mixedRun : List Line :=
  ["  @smoke @include(feature: lib.feature, scenario: Log in)".toList,
    "  @ignore".toList,
    "  @include(feature: lib.feature, scenario: Pay)".toList]

def mixedHeader : Line := "  Scenario: Own".toList

def mixedAfter : List Line := ["    Then done".toList]

theorem taggedHeader_mixed :
    TaggedHeader mixedBefore mixedRun mixedHeader := by
  decide +kernel

theorem not_directivesFirst_mixed : ¬ DirectivesFirst mixedRun := by
  decide +kernel

theorem expand_mixed :
    mixedLibrary.expand Settings.default mixedPath
        ⟨mixedBefore ++ (mixedRun ++ mixedHeader :: mixedAfter)⟩ =
      .ok ⟨["Feature: main".toList, "  Scenario: Log in".toList,
        "    When I log in".toList, "  @smoke".toList, "  @ignore".toList,
        "  Scenario: Pay".toList, "    When I pay".toList,
        "  Scenario: Own".toList, "    Then done".toList]⟩ := by
  cbv

/-- The author's tags above a header stay there if and only if no directive line
comes after an ordinary tag line.  Otherwise an ordinary tag line of the author
ends up right above the header that another scenario begins with. -/
theorem ownTagsStay_iff_directivesFirst (library : Library)
    (settings : Settings) (path : Path) {before run after : List Line}
    {header : Line} (h : TaggedHeader before run header)
    (hexpand : ∃ output, library.expand settings path
      ⟨before ++ (run ++ header :: after)⟩ = .ok output) :
    (library.OwnTagsStay settings path before run header after ↔
      DirectivesFirst run) ∧
    (¬ DirectivesFirst run →
      ∃ upper own tag spliced block lower,
        own ∈ run ∧ ¬ own.IsDirective ∧
        tag ∈ run.flatMap Line.includeTags ∧
        library.expand settings path ⟨[tag]⟩ = .ok ⟨spliced :: block⟩ ∧
        spliced.IsHeader ∧
        library.expand settings path ⟨before ++ (run ++ header :: after)⟩ =
          .ok ⟨upper ++ own :: spliced :: block ++ lower⟩) := by
  rcases hexpand with ⟨output, hexpand⟩
  constructor
  · constructor
    · exact directivesFirst_of_ownTagsStay h
    · exact ownTagsStay_of_directivesFirst h hexpand
  · intro hnot
    rcases exists_blocks_of_taggedHeader h hexpand with
      ⟨blocks, hlines, -, -, -, hblocks⟩
    rcases exists_misplaced_of_not_directivesFirst hnot blocks with
      ⟨upper, own, tag, lower, hassemble, hown, hplain, htag⟩
    rcases startsScenario_of_expand_singleton htag (hblocks tag htag) with
      ⟨spliced, block, hblock, hheader⟩
    refine ⟨assemble blocks [] before ++ upper, own, tag, spliced, block,
      lower ++ header :: assemble blocks [] after, hown, hplain, htag, ?_,
      hheader, ?_⟩
    · rw [← hblock, hblocks tag htag]
    · have houtput : output = ⟨output.lines⟩ := rfl
      rw [hexpand, houtput, hlines, hassemble, hblock]
      simp

theorem ownTagsStay_sampleLines :
    sampleLibrary.OwnTagsStay Settings.default samplePath []
      ["@smoke ".toList ++ sampleTagA, sampleTagB] "Scenario: C".toList [] ∧
    ∃ upper own tag spliced block lower,
      own ∈ mixedRun ∧ ¬ own.IsDirective ∧
      tag ∈ mixedRun.flatMap Line.includeTags ∧
      mixedLibrary.expand Settings.default mixedPath ⟨[tag]⟩ =
        .ok ⟨spliced :: block⟩ ∧
      spliced.IsHeader ∧
      mixedLibrary.expand Settings.default mixedPath
          ⟨mixedBefore ++ (mixedRun ++ mixedHeader :: mixedAfter)⟩ =
        .ok ⟨upper ++ own :: spliced :: block ++ lower⟩ := by
  have htagged : TaggedHeader []
      ["@smoke ".toList ++ sampleTagA, sampleTagB] "Scenario: C".toList := by
    decide +kernel
  have hexpand : sampleLibrary.expand Settings.default samplePath
      ⟨sampleLines⟩ = .ok ⟨sampleExpansion⟩ := by cbv
  have hsample := ownTagsStay_iff_directivesFirst sampleLibrary
    Settings.default samplePath htagged ⟨_, hexpand⟩
  have hmixed := ownTagsStay_iff_directivesFirst mixedLibrary
    Settings.default mixedPath taggedHeader_mixed ⟨_, expand_mixed⟩
  exact ⟨hsample.1.mpr (by decide +kernel),
    hmixed.2 not_directivesFirst_mixed⟩

theorem not_ownTagsStay_mixed :
    TaggedHeader mixedBefore mixedRun mixedHeader ∧
    (∃ output, mixedLibrary.expand Settings.default mixedPath
      ⟨mixedBefore ++ (mixedRun ++ mixedHeader :: mixedAfter)⟩ =
        .ok output) ∧
    ¬ mixedLibrary.OwnTagsStay Settings.default mixedPath mixedBefore mixedRun
      mixedHeader mixedAfter := by
  refine ⟨taggedHeader_mixed, ⟨_, expand_mixed⟩, ?_⟩
  intro hstay
  exact not_directivesFirst_mixed
    (directivesFirst_of_ownTagsStay taggedHeader_mixed hstay)

end Library

end ScenarioInclusion
