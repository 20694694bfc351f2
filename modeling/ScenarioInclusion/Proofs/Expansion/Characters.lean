import ScenarioInclusion.Proofs.Expansion.Compositional
import ScenarioInclusion.Proofs.Directive.Values
import ScenarioInclusion.Proofs.Excerpt
import ScenarioInclusion.Proofs.Passage.Position

/-!
# Expansions make up no text

Tags and values are cut out of the lines that they are found in, and filling in a
placeholder puts a value in its place.  Only between tags that are written side
by side a space is added.  So an expansion has no character, except the space,
that neither the document nor a document of the library has.
-/

namespace ScenarioInclusion

section NotMem

variable {c : Char}

theorem Bindings.not_mem_substitute {bindings : Bindings} {line : Text}
    (hline : c ∉ line) (hvalues : ∀ binding ∈ bindings, c ∉ binding.value) :
    c ∉ bindings.substitute line := by
  intro hmem
  obtain ⟨piece, hpiece, hc⟩ := List.mem_flatMap.mp hmem
  have htext : c ∉ piece.text := by
    intro htext
    apply hline
    rw [← Line.flatMap_text_pieces line]
    exact List.mem_flatMap.mpr ⟨piece, hpiece, htext⟩
  cases piece with
  | plain d => exact htext hc
  | token name =>
      rw [fill] at hc
      cases hvalue : bindings.valueOf? name with
      | none =>
          rw [hvalue] at hc
          exact htext hc
      | some value =>
          rw [hvalue] at hc
          rcases exists_binding_of_valueOf? hvalue with
            ⟨binding, hbinding, -, rfl⟩
          exact hvalues binding hbinding hc

variable (hc : c ≠ ' ')

include hc

theorem not_mem_joinTags {tags : List Tag} (h : ∀ tag ∈ tags, c ∉ tag) :
    c ∉ joinTags tags := by
  induction tags with
  | nil => exact List.not_mem_nil
  | cons tag rest ih =>
      rw [List.forall_mem_cons] at h
      cases rest with
      | nil =>
          rw [joinTags_singleton]
          exact h.1
      | cons next more =>
          rw [joinTags_cons_cons]
          simp [h.1, hc, ih h.2]

namespace DirectiveLine

variable {line : Line} {parsed : DirectiveLine} (h : ofLine? line = some parsed)
  (hline : c ∉ line)

include h hline

theorem not_mem_indent_append {tags : List Tag}
    (htags : tags.Sublist line.tags) :
    c ∉ parsed.indent ∧ c ∉ joinTags tags := by
  constructor
  · rw [(ofLine?_eq_some_iff.mp h).2]
    exact fun hmem => hline ((List.takeWhile_prefix _).subset hmem)
  · apply not_mem_joinTags hc
    intro tag htag hmem
    exact hline (Line.subset_of_mem_tags (htags.subset htag) hmem)

theorem not_mem_siblingLine {sibling : Line}
    (hsibling : parsed.siblingLine? = some sibling) : c ∉ sibling := by
  obtain ⟨hindent, htags⟩ :=
    not_mem_indent_append hc h hline (siblings_sublist h)
  rw [(siblingLine?_eq_some_iff.mp hsibling).2, List.mem_append]
  exact not_or.mpr ⟨hindent, htags⟩

theorem not_mem_forward {bindings : Bindings}
    (hvalues : ∀ binding ∈ bindings, c ∉ binding.value) :
    c ∉ parsed.forward bindings := by
  have hsublist : parsed.directives.Sublist line.tags := by
    rw [(ofLine?_eq_some_iff.mp h).2]
    exact List.filter_sublist
  obtain ⟨hindent, htags⟩ := not_mem_indent_append hc h hline hsublist
  rw [forward, List.mem_append]
  exact not_or.mpr ⟨hindent, Bindings.not_mem_substitute htags hvalues⟩

end DirectiveLine

theorem Line.not_mem_remainder? {line rest : Line} (hline : c ∉ line)
    (h : rest ∈ line.remainder?) : c ∉ rest := by
  cases hparse : DirectiveLine.ofLine? line with
  | none =>
      rw [remainder?_of_none hparse] at h
      rwa [← Option.some.inj h]
  | some parsed =>
      rw [remainder?_of_some hparse] at h
      exact DirectiveLine.not_mem_siblingLine hc hparse hline h

end NotMem

theorem Line.subset_of_mem_includeTags {line : Line} {tag : Tag}
    (h : tag ∈ line.includeTags) : tag ⊆ line := by
  cases hparse : DirectiveLine.ofLine? line with
  | none =>
      rw [includeTags_of_none hparse] at h
      contradiction
  | some parsed =>
      rw [includeTags_of_some hparse] at h
      exact Line.subset_of_mem_tags
        ((DirectiveLine.mem_directives_iff hparse).mp h).1

theorem not_mem_of_expandLines {c : Char} (hc : c ≠ ' ')
    {splice : Nat → Tag → Traced ExpansionError (List Line)}
    {output : Tag → List Line}
    (houtput : ∀ number tag block,
      (splice number tag).outcome = .ok block → output tag = block)
    (hsplice : ∀ number tag block,
      (splice number tag).outcome = .ok block → c ∉ tag →
        ∀ line ∈ block, c ∉ line)
    {lines : List (Line × Nat)} (hlines : ∀ line ∈ lines.map Prod.fst, c ∉ line)
    {out : List Line} (h : (expandLines splice [] lines).outcome = .ok out) :
    ∀ line ∈ out, c ∉ line := by
  refine forall_mem_of_expandLines houtput ?_ ?_ h
  · intro tag htag number block hblock
    obtain ⟨line, hline, hmem⟩ := List.mem_flatMap.mp htag
    refine hsplice number tag block hblock fun hctag => hlines line hline ?_
    exact Line.subset_of_mem_includeTags hmem hctag
  · intro line hline rest hrest
    exact Line.not_mem_remainder? hc (hlines line hline) hrest

/-- Has no line of the document the character? -/
def Document.IsFreeOf (document : Document) (c : Char) : Prop :=
  ∀ line ∈ document.lines, c ∉ line

theorem Document.subset_of_passage? {document : Document} {name : Text}
    {passage : Passage} (h : document.passage? name = some passage) :
    passage.tagLines ⊆ document.lines ∧ passage.lines ⊆ document.lines := by
  constructor
  · obtain ⟨start, front, -, hsplit, -⟩ := take_eq_append_tagLines h
    calc
      passage.tagLines ⊆ front ++ passage.tagLines :=
        List.subset_append_right _ _
      _ = document.lines.take start := hsplit.symm
      _ ⊆ document.lines := List.take_subset start _
  · obtain ⟨start, -, rfl⟩ := Option.map_eq_some_iff.mp h
    have hbegins := scenarioLines_prefix document start
    calc
      document.scenarioLines start ⊆ document.lines.drop start :=
        hbegins.subset
      _ ⊆ document.lines := List.drop_subset start _

namespace Library

/-- Has no document of the library the character? -/
def IsFreeOf (library : Library) (c : Char) : Prop :=
  ∀ feature caller loaded,
    (library.load feature caller).outcome = .ok loaded →
      loaded.document.IsFreeOf c

variable {library : Library} {c : Char} (hc : c ≠ ' ')
  (hlibrary : library.IsFreeOf c)

include hc hlibrary

theorem Splicing.not_mem {room : Nat} {chain : List Inclusion} {path : Path}
    {tag : Tag} {block : List Line}
    (splicing : Splicing library room chain path tag block) (htag : c ∉ tag) :
    ∀ line ∈ (splicing.excerpt.nested splicing.directive.bindings ++
      splicing.text.zipIdx splicing.excerpt.startLine).map Prod.fst,
      c ∉ line := by
  have hvalues : ∀ binding ∈ splicing.directive.bindings,
      c ∉ binding.value := by
    intro binding hbinding hmem
    exact htag
      (Directive.values_subset_of_ofTag splicing.ofTag_eq binding hbinding hmem)
  obtain ⟨loaded, passage, hload, hpassage, hexcerpt⟩ :=
    excerpt_eq_ok_iff.mp splicing.excerpt_eq
  obtain ⟨htagLines, hlines⟩ := Document.subset_of_passage? hpassage
  have hfree := hlibrary _ _ loaded hload
  rw [List.map_append, List.zipIdx_map_fst]
  intro line hline
  rcases List.mem_append.mp hline with hnested | htext
  · obtain ⟨entry, hentry, rfl⟩ := List.mem_map.mp hnested
    obtain ⟨numbered, hnumbered, hforward⟩ := List.mem_filterMap.mp hentry
    obtain ⟨parsed, hparsed, rfl⟩ := Option.map_eq_some_iff.mp hforward
    have hmem : numbered.1 ∈ splicing.excerpt.tagLines :=
      List.fst_mem_of_mem_zipIdx hnumbered
    rw [hexcerpt] at hmem
    exact DirectiveLine.not_mem_forward hc hparsed
      (hfree _ (htagLines hmem)) hvalues
  · rw [Excerpt.eq_map_of_bind splicing.bind_eq] at htext
    obtain ⟨original, horiginal, rfl⟩ := List.mem_map.mp htext
    rw [hexcerpt] at horiginal
    exact Bindings.not_mem_substitute (hfree _ (hlines horiginal)) hvalues

theorem not_mem_of_splice {room : Nat} {chain : List Inclusion} {path : Path}
    {number : Nat} {tag : Tag} {block : List Line} (htag : c ∉ tag)
    (h : (library.splice room chain path number tag).outcome = .ok block) :
    ∀ line ∈ block, c ∉ line := by
  revert htag
  apply splice_induction _ h
  intro room chain path tag block splicing hinner htag
  obtain ⟨output, houtput⟩ := exists_output_of_splice library splicing.roomLeft
    (chain ++ [splicing.excerpt.inclusion]) splicing.excerpt.source
  exact not_mem_of_expandLines hc houtput hinner
    (splicing.not_mem hc hlibrary htag) splicing.expand_eq

/-- A character that neither a document nor its library has is not in the
expansion. -/
theorem isFreeOf_of_expand {settings : Settings} {path : Path}
    {document output : Document} (hdocument : document.IsFreeOf c)
    (h : library.expand settings path document = .ok output) :
    output.IsFreeOf c := by
  obtain ⟨blocks, hblocks⟩ :=
    exists_output_of_splice library settings.maxDepth [] path
  refine not_mem_of_expandLines hc hblocks ?_ ?_ (expand_eq_ok_iff.mp h)
  · intro number tag block hblock htag
    exact not_mem_of_splice hc hlibrary htag hblock
  · rw [List.zipIdx_map_fst]
    exact hdocument

end Library

end ScenarioInclusion
