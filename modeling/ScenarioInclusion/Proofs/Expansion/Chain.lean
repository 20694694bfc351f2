import ScenarioInclusion.Proofs.Expansion.Stack

/-!
# The chains that faults report

A chain that is reported as cyclic or as too deep is the stack of that moment
with one more inclusion on top.  So it repeats nothing below its last inclusion,
it is as long as the limit says, and each of its inclusions was asked for by an
include tag on the lines of the one before it, with the bindings filled in.

A shelf serves its documents under normal paths only.  That is why the last
inclusion of a cyclic chain is there before in just the same spelling.
-/

namespace ScenarioInclusion

namespace Library

/-- Do include tags lead from a site through the inclusions of the chain?  Each
but the first stands on the lines of the inclusion before it. -/
def LeadsTo (library : Library) (site : Site) (chain : List Inclusion) :
    Prop :=
  ∃ links last target, library.Descent site links target ∧
    last.From library target ∧
    chain = (links ++ [last]).map Link.inclusion

variable {library : Library} {settings : Settings} {path : Path}
  {document : Document} {chain : List Inclusion}

theorem chain_of_tooDeep {limit : Nat}
    (h : library.expand settings path document =
      .error (.tooDeep limit chain)) :
    limit = settings.maxDepth ∧ chain.length = settings.maxDepth + 1 ∧
      (chain.Pairwise fun entered later => ¬ entered.Same later) ∧
      library.LeadsTo (document.site path) chain := by
  rcases exists_stop_of_expand h with
    ⟨links, target, entry, hdescent, hadmissible, -, hstops⟩
  cases hstops with
  | @tooDeep link hlink hfrom hnew hfull =>
      refine ⟨rfl, ?_, pairwise_concat hadmissible.distinct hnew, links, link,
        target, hdescent, hfrom, ?_⟩
      · rw [List.length_append, List.length_singleton, hfull]
      · rw [List.map_append, List.map_singleton]

theorem exists_links_of_cyclic
    (h : library.expand settings path document = .error (.cyclic chain)) :
    ∃ (links : List Link) (last : Link) (target : Site),
      library.Descent (document.site path) links target ∧
      last.From library target ∧
      Admissible settings.maxDepth (links.map Link.inclusion) ∧
      (∃ entered ∈ links, entered.inclusion.Same last.inclusion) ∧
      chain = links.map Link.inclusion ++ [last.inclusion] := by
  rcases exists_stop_of_expand h with
    ⟨links, target, entry, hdescent, hadmissible, -, hstops⟩
  cases hstops with
  | @cyclic last hlast hfrom hentered =>
      rcases hentered with ⟨inclusion, hmem, hsame⟩
      rcases List.mem_map.mp hmem with ⟨entered, hentered, rfl⟩
      exact ⟨links, last, target, hdescent, hfrom, hadmissible,
        ⟨entered, hentered, hsame⟩, rfl⟩

end Library

namespace Shelf

variable {shelf : Shelf} {root : Option Path}

theorem inclusion_eq_of_same {link other : Link} {site site' : Site}
    (h : link.From (shelf.library root) site)
    (hother : other.From (shelf.library root) site')
    (hsame : link.inclusion.Same other.inclusion) :
    link.inclusion = other.inclusion := by
  have hsource : link.excerpt.source = other.excerpt.source :=
    Path.eq_of_same_of_mem_candidates (find?_of_excerpt h.excerpt_eq).1
      (find?_of_excerpt hother.excerpt_eq).1 hsame.1
  have hname : link.excerpt.name = other.excerpt.name := hsame.2
  rw [Link.inclusion, Link.inclusion, Excerpt.inclusion, Excerpt.inclusion,
    hsource, hname]

theorem chain_of_cyclic {settings : Settings} {path : Path}
    {document : Document} {chain : List Inclusion}
    (h : (shelf.library root).expand settings path document =
      .error (.cyclic chain)) :
    2 ≤ chain.length ∧ chain.length ≤ settings.maxDepth + 1 ∧
      (chain.dropLast.Pairwise fun entered later => ¬ entered.Same later) ∧
      (∃ last ∈ chain.getLast?, last ∈ chain.dropLast) ∧
      (shelf.library root).LeadsTo (document.site path) chain := by
  rcases Library.exists_links_of_cyclic h with
    ⟨links, last, target, hdescent, hlast, hadmissible,
      ⟨entered, hmem, hsame⟩, rfl⟩
  rcases hdescent.exists_from hmem with ⟨above, hentered⟩
  have heq := inclusion_eq_of_same hentered hlast hsame
  have hpositive : 0 < links.length := List.length_pos_of_mem hmem
  have hlength := hadmissible.length_le
  rw [List.length_map] at hlength
  have hchain : (links.map Link.inclusion ++ [last.inclusion]).length =
      links.length + 1 := by
    simp
  rw [hchain, List.dropLast_concat]
  refine ⟨by omega, by omega, hadmissible.distinct, ⟨last.inclusion, ?_, ?_⟩,
    links, last, target, hdescent, hlast, ?_⟩
  · rw [List.getLast?_concat]
    rfl
  · rw [← heq]
    exact List.mem_map_of_mem hmem
  · rw [List.map_append, List.map_singleton]

/-- While a document is expanded, the stack never holds a scenario twice nor
more of them than the limit, and a splice gives it back unchanged.  Chains that
are too deep or cyclic are such stacks with one inclusion on top, and include
tags lead through them. -/
theorem chains_truthful (shelf : Shelf) (root : Option Path)
    (settings : Settings) (path : Path) (document : Document) :
    (∃ history,
      (OnStack.expand (shelf.library root) settings path document).run.run
          ⟨[], []⟩ =
        ((shelf.library root).expand settings path document, history) ∧
      ∀ stack ∈ history.stacks, Admissible settings.maxDepth stack) ∧
    (∀ room path' number tag before after block,
      (OnStack.splice (shelf.library root) room path' number tag).run.run
          before = (.ok block, after) →
      after.present = before.present) ∧
    (∀ limit chain,
      (shelf.library root).expand settings path document =
          .error (.tooDeep limit chain) →
      limit = settings.maxDepth ∧ chain.length = settings.maxDepth + 1 ∧
      (chain.Pairwise fun entered later => ¬ entered.Same later) ∧
      (shelf.library root).LeadsTo (document.site path) chain) ∧
    (∀ chain,
      (shelf.library root).expand settings path document =
          .error (.cyclic chain) →
      2 ≤ chain.length ∧ chain.length ≤ settings.maxDepth + 1 ∧
      (chain.dropLast.Pairwise fun entered later => ¬ entered.Same later) ∧
      (∃ last ∈ chain.getLast?, last ∈ chain.dropLast) ∧
      (shelf.library root).LeadsTo (document.site path) chain) := by
  refine ⟨?_, ?_, fun limit chain => Library.chain_of_tooDeep,
    fun chain => chain_of_cyclic⟩
  · exact OnStack.admissible_stacks_of_expand (shelf.library root) settings
      path document
  · intro room path' number tag before after block
    exact OnStack.present_eq_of_splice

/-! ## Two scenarios that include each other -/

def ringShelf : Shelf :=
  (Shelf.empty.insert ⟨"lib/a".toList⟩
    "@include(feature: b, scenario: B)\nScenario: A\nGiven a".toList).insert
      ⟨"lib/b".toList⟩
      "Scenario: B\n@include(feature: ../lib/a, scenario: A)\nGiven b".toList

def ringPath : Path := ⟨"main".toList⟩

def ringDocument : Document :=
  ⟨["@include(feature: lib/./a, scenario: A)".toList]⟩

def ringA : Inclusion := ⟨⟨"lib/a".toList⟩, "A".toList⟩

def ringB : Inclusion := ⟨⟨"lib/b".toList⟩, "B".toList⟩

theorem chains_truthful_ring :
    (ringShelf.library none).expand Settings.default ringPath ringDocument =
      .error (.cyclic [ringA, ringB, ringA]) ∧
    (ringShelf.library none).LeadsTo (ringDocument.site ringPath)
      [ringA, ringB, ringA] ∧
    (ringShelf.library none).expand ⟨none, 1⟩ ringPath ringDocument =
      .error (.tooDeep 1 [ringA, ringB]) ∧
    (ringShelf.library none).LeadsTo (ringDocument.site ringPath)
      [ringA, ringB] := by
  have hcyclic : (ringShelf.library none).expand Settings.default ringPath
      ringDocument = .error (.cyclic [ringA, ringB, ringA]) := by cbv
  have hdeep : (ringShelf.library none).expand ⟨none, 1⟩ ringPath
      ringDocument = .error (.tooDeep 1 [ringA, ringB]) := by cbv
  have hdefault := chains_truthful ringShelf none Settings.default ringPath
    ringDocument
  have hlimited := chains_truthful ringShelf none ⟨none, 1⟩ ringPath
    ringDocument
  exact ⟨hcyclic, (hdefault.2.2.2 _ hcyclic).2.2.2.2, hdeep,
    (hlimited.2.2.1 _ _ hdeep).2.2.2⟩

end Shelf

end ScenarioInclusion
