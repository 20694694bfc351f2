import ScenarioInclusion.Proofs.Expansion.Descent

/-!
# The scope of bindings

The bindings of an include tag are filled into the lines of the scenario that the
tag names, before those lines are expanded, and into nothing else.  What the
include tags among these lines are replaced by follows from the tags as they then
read: each names a scenario of its own and brings bindings of its own.

So bindings that do not occur in the include tags above a scenario have no effect
on what these become, whichever placeholders occur further down.
-/

namespace ScenarioInclusion

/-! ## Blocks and their parts -/

/-- Lines that end a run are expanded apart from the lines before them. -/
theorem exists_append_of_expandLines
    {splice : Nat → Tag → Traced ExpansionError (List Line)}
    {output : Tag → List Line}
    (houtput : ∀ number tag block,
      (splice number tag).outcome = .ok block → output tag = block)
    {lines rest : List (Line × Nat)} {out : List Line}
    (hrest : ∀ line ∈ (rest.map Prod.fst).head?, ¬ line.IsDirective)
    (h : (expandLines splice [] (lines ++ rest)).outcome = .ok out) :
    ∃ above below, out = above ++ below ∧
      (expandLines splice [] lines).outcome = .ok above ∧
      (expandLines splice [] rest).outcome = .ok below := by
  rcases (expandLines_eq_ok_iff houtput).mp h with ⟨hall, hassemble⟩
  rw [numberedTags, List.flatMap_append] at hall
  rw [List.map_append, assemble_append hrest] at hassemble
  refine ⟨_, _, hassemble.symm, ?_, ?_⟩
  · rw [expandLines_eq_ok_iff houtput]
    exact ⟨fun entry hentry => hall entry (List.mem_append_left _ hentry), rfl⟩
  · rw [expandLines_eq_ok_iff houtput]
    exact ⟨fun entry hentry => hall entry (List.mem_append_right _ hentry), rfl⟩

/-! ## The lines of an excerpt -/

namespace Excerpt

variable {excerpt : Excerpt} {bindings : Bindings}

/-- The text of the scenario with placeholders filled in. -/
def filled (excerpt : Excerpt) (bindings : Bindings) : List (Line × Nat) :=
  (excerpt.lines.map bindings.substitute).zipIdx excerpt.startLine

/-- Is nothing bound in the include tags above the scenario, written side by side
as they go along? -/
def TagsLeftAlone (excerpt : Excerpt) (bindings : Bindings) : Prop :=
  ∀ line ∈ excerpt.tagLines, bindings.LeavesAlone (joinTags line.includeTags)

/-- Without bindings the include tags go along as they are. -/
theorem nested_of_tagsLeftAlone (h : excerpt.TagsLeftAlone bindings) :
    excerpt.nested bindings = excerpt.nested [] := by
  apply List.filterMap_congr
  rintro ⟨line, number⟩ hentry
  have hline : line ∈ excerpt.tagLines := List.fst_mem_of_mem_zipIdx hentry
  have halone := h line hline
  cases hparsed : DirectiveLine.ofLine? line with
  | none => simp [hparsed]
  | some parsed =>
      rw [includeTags_of_some hparsed] at halone
      simp [hparsed, DirectiveLine.forward,
        Bindings.substitute_of_leavesAlone halone]

end Excerpt

namespace Library

variable {library : Library} {chain : List Inclusion} {path : Path}
  {feature scenario : Text} {excerpt : Excerpt} {bindings : Bindings}
  {room number : Nat} {tag : Tag} {block : List Line}

/-- What lines become inside an excerpt: they are expanded at its path, and the
excerpt is on the chain. -/
def expandInside (library : Library) (room : Nat) (chain : List Inclusion)
    (excerpt : Excerpt) (lines : List (Line × Nat)) :
    Except ExpansionError (List Line) :=
  (expandLines
    (library.splice room (chain ++ [excerpt.inclusion]) excerpt.source) []
    lines).outcome

/-- How a block comes about in which the bindings keep to the scenario: above
stands what its include tags become as they are, and below what its own text
becomes with the bindings filled in.  The scenarios included in turn are there
with the bindings of the tags that name them. -/
structure Scoped (library : Library) (room : Nat) (chain : List Inclusion)
    (excerpt : Excerpt) (bindings : Bindings)
    (above below block : List Line) : Prop where
  block_eq : block = above ++ below
  above_eq : library.expandInside room chain excerpt (excerpt.nested []) =
    .ok above
  below_eq :
    library.expandInside room chain excerpt (excerpt.filled bindings) =
      .ok below
  included : ∀ link : Link,
    link.From library
        ⟨excerpt.source, excerpt.nested [] ++ excerpt.filled bindings⟩ →
      ∃ roomLeft inner, room = roomLeft + 1 ∧ inner <:+: block ∧
        library.expandInside roomLeft (chain ++ [excerpt.inclusion])
          link.excerpt
          (link.excerpt.nested link.directive.bindings ++
            link.excerpt.filled link.directive.bindings) = .ok inner

theorem exists_scoped_of_splice
    (hexcerpt :
      (library.excerpt feature scenario path).outcome = .ok excerpt)
    (halone : excerpt.TagsLeftAlone bindings)
    (htag : Directive.ofTag tag = .ok ⟨feature, scenario, bindings⟩)
    (h : (library.splice room chain path number tag).outcome = .ok block) :
    ∃ roomLeft above below, room = roomLeft + 1 ∧
      library.Scoped roomLeft chain excerpt bindings above below block := by
  rcases splice_eq_ok_iff.mp h with
    ⟨directive, found, text, roomLeft, hroom, hread, hfound, -, hbind, hexpand⟩
  cases htag.symm.trans hread
  cases hexcerpt.symm.trans hfound
  have hstart := startsScenario_of_bind hexcerpt hbind
  cases Excerpt.eq_map_of_bind hbind
  rw [Excerpt.nested_of_tagsLeftAlone halone] at hexpand
  have hhead : ∀ line ∈ ((excerpt.filled bindings).map Prod.fst).head?,
      ¬ line.IsDirective := by
    rcases hstart with ⟨header, rest, hlines, hheader⟩
    rw [Excerpt.filled, List.zipIdx_map_fst, hlines]
    exact forall_mem_head?_not_isDirective
      (Line.not_isDirective_of_isHeader hheader) rest
  rcases exists_output_of_splice library roomLeft
    (chain ++ [excerpt.inclusion]) excerpt.source with ⟨output, houtput⟩
  rcases exists_append_of_expandLines houtput hhead hexpand with
    ⟨above, below, hblock, habove, hbelow⟩
  exact ⟨roomLeft, above, below, hroom, hblock, habove, hbelow,
    fun link hlink => exists_block_of_from hlink hexpand⟩

/-- Bindings are scoped.  Whatever two lists of bindings an include tag brings, if
nothing of them occurs in the include tags above the scenario, the block begins
with the same lines. -/
theorem splice_scoped
    (hexcerpt :
      (library.excerpt feature scenario path).outcome = .ok excerpt)
    {bindings bindings' : Bindings} (halone : excerpt.TagsLeftAlone bindings)
    (halone' : excerpt.TagsLeftAlone bindings') {tag tag' : Tag}
    (htag : Directive.ofTag tag = .ok ⟨feature, scenario, bindings⟩)
    (htag' : Directive.ofTag tag' = .ok ⟨feature, scenario, bindings'⟩)
    {number number' : Nat} {block block' : List Line}
    (h : (library.splice room chain path number tag).outcome = .ok block)
    (h' : (library.splice room chain path number' tag').outcome =
      .ok block') :
    ∃ roomLeft above below below', room = roomLeft + 1 ∧
      library.Scoped roomLeft chain excerpt bindings above below block ∧
      library.Scoped roomLeft chain excerpt bindings' above below' block' := by
  rcases exists_scoped_of_splice hexcerpt halone htag h with
    ⟨roomLeft, above, below, hroom, hscoped⟩
  rcases exists_scoped_of_splice hexcerpt halone' htag' h' with
    ⟨roomLeft', above', below', hroom', hscoped'⟩
  have hsame : roomLeft' = roomLeft := by omega
  subst hsame
  cases hscoped.above_eq.symm.trans hscoped'.above_eq
  exact ⟨_, above, below, below', hroom, hscoped, hscoped'⟩

/-! ## One name at two depths -/

def clashingLibrary : Library :=
  ((Shelf.empty.insert ⟨"b".toList⟩
    "Scenario: B\nGiven <who> and <what>".toList).insert ⟨"a".toList⟩
      ("@include(feature: b, scenario: B, params: [what:it])\n" ++
        "Scenario: A\nGiven <who>").toList).library none

def clashingExcerpt : Excerpt where
  startLine := 2
  tagLines := ["@include(feature: b, scenario: B, params: [what:it])".toList]
  lines := ["Scenario: A".toList, "Given <who>".toList]
  feature := "a".toList
  source := ⟨"a".toList⟩
  name := "A".toList

def clashingBindings (who : String) : Bindings :=
  [⟨"who".toList, who.toList⟩, ⟨"it".toList, who.toList⟩]

def clashingTag (who : String) : Tag :=
  ("@include(feature: a, scenario: A, params: [who:" ++ who ++ ", it:" ++ who ++
    "])").toList

def clashingBlock (who : String) : List Line :=
  ["Scenario: B".toList, "Given <who> and it".toList, "Scenario: A".toList,
    "Given ".toList ++ who.toList]

theorem splice_scoped_clashing :
    ∃ roomLeft above below below', 32 = roomLeft + 1 ∧
      clashingLibrary.Scoped roomLeft [] clashingExcerpt
        (clashingBindings "ann") above below (clashingBlock "ann") ∧
      clashingLibrary.Scoped roomLeft [] clashingExcerpt
        (clashingBindings "bob") above below' (clashingBlock "bob") := by
  have hexcerpt : (clashingLibrary.excerpt "a".toList "A".toList
      ⟨"main".toList⟩).outcome = .ok clashingExcerpt := by
    cbv
  have hann : clashingExcerpt.TagsLeftAlone (clashingBindings "ann") :=
    List.forall_mem_singleton.mpr (by decide +kernel)
  have hbob : clashingExcerpt.TagsLeftAlone (clashingBindings "bob") :=
    List.forall_mem_singleton.mpr (by decide +kernel)
  have htag : Directive.ofTag (clashingTag "ann") =
      .ok ⟨"a".toList, "A".toList, clashingBindings "ann"⟩ := by
    cbv
  have htag' : Directive.ofTag (clashingTag "bob") =
      .ok ⟨"a".toList, "A".toList, clashingBindings "bob"⟩ := by
    cbv
  have hblock : (clashingLibrary.splice 32 [] ⟨"main".toList⟩ 1
      (clashingTag "ann")).outcome = .ok (clashingBlock "ann") := by
    decide +kernel
  have hblock' : (clashingLibrary.splice 32 [] ⟨"main".toList⟩ 1
      (clashingTag "bob")).outcome = .ok (clashingBlock "bob") := by
    decide +kernel
  exact splice_scoped hexcerpt hann hbob htag htag' hblock hblock'

/-! ## A placeholder across two tags -/

def spanningLibrary : Library :=
  ((Shelf.empty.insert ⟨"inner".toList⟩
    ("Scenario: a1\nGiven one\nScenario: a2\nGiven two\n" ++
      "Scenario: a<y\nGiven none").toList).insert ⟨"lib".toList⟩
      ("@include(feature: inner, scenario: a<y) @include(z>)\n" ++
        "Scenario: A\nGiven a").toList).library none

def spanningExcerpt : Excerpt where
  startLine := 2
  tagLines := ["@include(feature: inner, scenario: a<y) @include(z>)".toList]
  lines := ["Scenario: A".toList, "Given a".toList]
  feature := "lib".toList
  source := ⟨"lib".toList⟩
  name := "A".toList

def spanningBindings (value : String) : Bindings :=
  [⟨"y) @include(z".toList, value.toList⟩]

def spanningTag (value : String) : Tag :=
  ("@include(feature: lib, scenario: A, params: [y) @include(z:" ++ value ++
    "])").toList

/-- Neither include tag has a placeholder, but written side by side they have one
between them, and what is bound to it decides what the block begins with. -/
theorem not_scoped_spanning :
    (spanningLibrary.excerpt "lib".toList "A".toList
      ⟨"main".toList⟩).outcome = .ok spanningExcerpt ∧
    (∀ line ∈ spanningExcerpt.tagLines, ∀ tag ∈ line.includeTags,
      (spanningBindings "1").LeavesAlone tag ∧
      (spanningBindings "2").LeavesAlone tag) ∧
    Directive.ofTag (spanningTag "1") =
      .ok ⟨"lib".toList, "A".toList, spanningBindings "1"⟩ ∧
    Directive.ofTag (spanningTag "2") =
      .ok ⟨"lib".toList, "A".toList, spanningBindings "2"⟩ ∧
    (spanningLibrary.splice 32 [] ⟨"main".toList⟩ 1
      (spanningTag "1")).outcome =
        .ok ["Scenario: a1".toList, "Given one".toList, "Scenario: A".toList,
          "Given a".toList] ∧
    (spanningLibrary.splice 32 [] ⟨"main".toList⟩ 1
      (spanningTag "2")).outcome =
        .ok ["Scenario: a2".toList, "Given two".toList, "Scenario: A".toList,
          "Given a".toList] ∧
    ¬ ∃ above below below',
      spanningLibrary.Scoped 31 [] spanningExcerpt (spanningBindings "1") above
        below ["Scenario: a1".toList, "Given one".toList,
          "Scenario: A".toList, "Given a".toList] ∧
      spanningLibrary.Scoped 31 [] spanningExcerpt (spanningBindings "2") above
        below' ["Scenario: a2".toList, "Given two".toList,
          "Scenario: A".toList, "Given a".toList] := by
  have htags : ∀ line ∈ spanningExcerpt.tagLines, line.includeTags =
      ["@include(feature: inner, scenario: a<y)".toList,
        "@include(z>)".toList] :=
    List.forall_mem_singleton.mpr (by cbv)
  have hmalformed : spanningLibrary.expandInside 31 [] spanningExcerpt
      (spanningExcerpt.nested []) =
        .error (.malformedDirective ⟨"lib".toList⟩ 1
          (.malformedField "z>".toList)) := by
    decide +kernel
  refine ⟨by decide +kernel, ?_, by decide +kernel, by decide +kernel,
    by decide +kernel, by decide +kernel, ?_⟩
  · intro line hline
    rw [htags line hline]
    decide +kernel
  · rintro ⟨above, below, below', hscoped, -⟩
    have habove := hscoped.above_eq
    rw [hmalformed] at habove
    contradiction

end Library

end ScenarioInclusion
