import ScenarioInclusion.Proofs.Expansion.Compositional

/-!
# Expansions are complete

What an expansion writes holds no directive line any more.  Lines of a scenario
are written only after they went through the loop themselves, so a line that
becomes a directive line when placeholders are filled in is spliced like any
other, and a sibling line is made of tags that read as they did before.

A document without directive lines is its own expansion.  So expanding a second
time, with any library and under any settings, changes nothing.
-/

namespace ScenarioInclusion

open DirectiveLine

theorem not_isDirective_of_expandLines
    {splice : Nat → Tag → Traced ExpansionError (List Line)}
    {output : Tag → List Line}
    (houtput : ∀ number tag block,
      (splice number tag).outcome = .ok block → output tag = block)
    (hsplice : ∀ number tag block,
      (splice number tag).outcome = .ok block →
        ∀ line ∈ block, ¬ line.IsDirective)
    {lines : List (Line × Nat)} {out : List Line}
    (h : (expandLines splice [] lines).outcome = .ok out) :
    ∀ line ∈ out, ¬ line.IsDirective := by
  refine forall_mem_of_expandLines houtput ?_ ?_ h
  · intro tag _ number block
    exact hsplice number tag block
  · intro line _ rest hrest
    exact not_isDirective_of_mem_remainder? hrest

namespace Library

theorem not_isDirective_of_splice {library : Library} {room : Nat}
    {chain : List Inclusion} {path : Path} {number : Nat} {tag : Tag}
    {block : List Line}
    (h : (library.splice room chain path number tag).outcome = .ok block) :
    ∀ line ∈ block, ¬ line.IsDirective := by
  apply splice_induction _ h
  intro room chain path tag block splicing hinner
  rcases exists_output_of_splice library splicing.roomLeft
    (chain ++ [splicing.excerpt.inclusion]) splicing.excerpt.source with
    ⟨output, houtput⟩
  exact not_isDirective_of_expandLines houtput hinner splicing.expand_eq

variable {library : Library} {settings : Settings} {path : Path}
  {document output : Document}

theorem not_isDirective_of_expand
    (h : library.expand settings path document = .ok output) :
    ∀ line ∈ output.lines, ¬ line.IsDirective := by
  rcases exists_output_of_splice library settings.maxDepth [] path with
    ⟨blocks, hblocks⟩
  exact not_isDirective_of_expandLines hblocks
    (fun number tag block hblock => not_isDirective_of_splice hblock)
    (expand_eq_ok_iff.mp h)

theorem expand_of_no_directives
    (h : ∀ line ∈ document.lines, ¬ line.IsDirective) :
    library.expand settings path document = .ok document := by
  have htags := flatMap_includeTags_of_no_directives h
  have hblocks : ∀ tag ∈ document.lines.flatMap Line.includeTags,
      library.expand settings path ⟨[tag]⟩ = .ok ⟨[]⟩ := by
    simp [htags]
  rw [expand_of_blocks hblocks,
    ← assemble_eq_flatMap_stretches, assemble_of_no_directives h,
    List.nil_append]

/-- Nothing is left to expand in an expansion, whatever it is expanded with;
and only what holds no directive line is its own expansion. -/
theorem expand_complete (library : Library) (settings : Settings) (path : Path)
    (document : Document) :
    (∀ output, library.expand settings path document = .ok output →
      (∀ line ∈ output.lines, ¬ line.IsDirective) ∧
      ∀ (other : Library) (settings' : Settings) (path' : Path),
        other.expand settings' path' output = .ok output) ∧
    (library.expand settings path document = .ok document ↔
      ∀ line ∈ document.lines, ¬ line.IsDirective) := by
  constructor
  · intro output houtput
    have hplain := not_isDirective_of_expand houtput
    refine ⟨hplain, ?_⟩
    intro other settings' path'
    exact expand_of_no_directives hplain
  · constructor
    · exact not_isDirective_of_expand
    · exact expand_of_no_directives

theorem expand_complete_sampleLines :
    sampleLibrary.expand Settings.default samplePath ⟨sampleLines⟩ =
      .ok ⟨sampleExpansion⟩ ∧
    (∀ line ∈ sampleExpansion, ¬ line.IsDirective) ∧
    (Shelf.empty.library none).expand ⟨none, 0⟩ Path.empty ⟨sampleExpansion⟩ =
      .ok ⟨sampleExpansion⟩ := by
  have hcomplete := expand_complete sampleLibrary Settings.default samplePath
    ⟨sampleLines⟩
  have hexpand : sampleLibrary.expand Settings.default samplePath
      ⟨sampleLines⟩ = .ok ⟨sampleExpansion⟩ := by cbv
  have hplain := hcomplete.1 ⟨sampleExpansion⟩ hexpand
  exact ⟨hexpand, hplain.1, hplain.2 _ _ _⟩

end Library

end ScenarioInclusion
