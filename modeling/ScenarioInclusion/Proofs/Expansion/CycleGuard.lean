import ScenarioInclusion.Proofs.Expansion.Chain
import ScenarioInclusion.Proofs.Expansion.Endless
import Mathlib.Data.List.Dedup
import Mathlib.Data.List.Perm.Subperm

/-!
# The cycle guard bounds the nesting

A chain without repetitions cannot be longer than there are scenarios on the
shelf.  It does not matter by which name a document is asked for: whatever is
found on a shelf names the place of the document, and that is what inclusions are
told apart by.

So with a limit of at least that many, no expansion fails for its depth.  Include
tags that lead on and on still make it fail, and if no tag that comes before them is
at fault, the chain is reported as cyclic.
-/

namespace ScenarioInclusion

/-- What an inclusion is told apart by. -/
def Inclusion.key (inclusion : Inclusion) : List Component × Text :=
  (inclusion.source.components, inclusion.scenario)

theorem Inclusion.same_iff_key_eq {inclusion other : Inclusion} :
    inclusion.Same other ↔ inclusion.key = other.key := by
  rw [key, key, Prod.mk.injEq]
  rfl

/-- A chain without repetitions is no longer than a list of what its inclusions
are told apart by. -/
theorem length_le_of_keys {κ : Type} {key : Inclusion → κ} {keys : List κ}
    {chain : List Inclusion}
    (hdistinct : chain.Pairwise fun entered later => ¬ entered.Same later)
    (hsame : ∀ entered ∈ chain, ∀ later ∈ chain,
      key entered = key later → entered.Same later)
    (hmem : ∀ inclusion ∈ chain, key inclusion ∈ keys) :
    chain.length ≤ keys.length := by
  have hnodup : (chain.map key).Nodup := by
    rw [List.Nodup, List.pairwise_map]
    apply hdistinct.imp_of_mem
    intro entered later hentered hlater hnot heq
    exact hnot (hsame entered hentered later hlater heq)
  have hsubset : chain.map key ⊆ keys := by
    intro value hvalue
    rcases List.mem_map.mp hvalue with ⟨inclusion, hinclusion, rfl⟩
    exact hmem inclusion hinclusion
  have hlength := (hnodup.subperm hsubset).length_le
  rwa [List.length_map] at hlength

namespace Shelf

/-- The scenarios of all documents, each by the place of its document and by the
name in its header. -/
def scenarios (shelf : Shelf) : List (List Component × Text) :=
  shelf.entries.flatMap fun entry =>
    (entry.2.lines.filterMap Line.headerName?).map fun name =>
      (entry.1.components, name)

/-- The number of different scenarios. -/
def scenarioCount (shelf : Shelf) : Nat :=
  shelf.scenarios.dedup.length

variable {shelf : Shelf} {root : Option Path}

theorem key_mem_scenarios {link : Link} {site : Site}
    (h : link.From (shelf.library root) site) :
    link.inclusion.key ∈ shelf.scenarios := by
  rcases find?_of_excerpt h.excerpt_eq with
    ⟨-, hname, document, hfind, hpassage⟩
  rcases exists_entry_of_find? hfind with ⟨entry, hentry, hsame, rfl⟩
  have hheader : ∃ line ∈ entry.2.lines,
      line.headerName? = some link.directive.scenario := by
    by_contra hnone
    have hmissing := Document.passage?_eq_none_iff.mpr fun line hline heq =>
      hnone ⟨line, hline, heq⟩
    rw [hpassage] at hmissing
    contradiction
  rcases hheader with ⟨line, hline, hline_name⟩
  have hkey : link.inclusion.key =
      (entry.1.components, link.directive.scenario) := by
    rw [hsame, ← hname]
    rfl
  rw [hkey]
  refine List.mem_flatMap.mpr ⟨entry, hentry, List.mem_map.mpr ?_⟩
  exact ⟨_, List.mem_filterMap.mpr ⟨line, hline, hline_name⟩, rfl⟩

theorem key_mem_scenarios_of_leadsTo {site : Site} {chain : List Inclusion}
    (h : (shelf.library root).LeadsTo site chain) :
    ∀ inclusion ∈ chain, inclusion.key ∈ shelf.scenarios := by
  rcases h with ⟨links, last, target, hdescent, hlast, rfl⟩
  intro inclusion hmem
  rcases List.mem_map.mp hmem with ⟨link, hlink, rfl⟩
  rcases List.mem_append.mp hlink with hlink | hlink
  · rcases hdescent.exists_from hlink with ⟨above, hfrom⟩
    exact key_mem_scenarios hfrom
  · rw [List.mem_singleton.mp hlink]
    exact key_mem_scenarios hlast

/-- There are no more inclusions without repetition than scenarios. -/
theorem length_le_scenarioCount {chain : List Inclusion}
    (hdistinct : chain.Pairwise fun entered later => ¬ entered.Same later)
    (hmem : ∀ inclusion ∈ chain, inclusion.key ∈ shelf.scenarios) :
    chain.length ≤ shelf.scenarioCount := by
  apply length_le_of_keys hdistinct
  · intro entered _ later _ heq
    exact Inclusion.same_iff_key_eq.mpr heq
  · intro inclusion hinclusion
    exact List.mem_dedup.mpr (hmem inclusion hinclusion)

theorem expand_ne_tooDeep {shelf : Shelf} {root : Option Path}
    {settings : Settings} {path : Path} {document : Document}
    (hcount : shelf.scenarioCount ≤ settings.maxDepth) (limit : Nat)
    (chain : List Inclusion) :
    (shelf.library root).expand settings path document ≠
      .error (.tooDeep limit chain) := by
  intro h
  rcases Library.chain_of_tooDeep h with ⟨-, hlength, hdistinct, hleads⟩
  have hle := length_le_scenarioCount hdistinct
    (key_mem_scenarios_of_leadsTo hleads)
  omega

/-- With room for every scenario on the shelf, no expansion is too deep; so one
that is led on and on fails, and where no tag that comes before the chain is at
fault, it fails for its cycle. -/
theorem cycleGuard_bounds_nesting (shelf : Shelf) (root : Option Path)
    (settings : Settings) (path : Path) (document : Document)
    (hcount : shelf.scenarioCount ≤ settings.maxDepth) :
    (∀ limit chain,
      (shelf.library root).expand settings path document ≠
        .error (.tooDeep limit chain)) ∧
    ∀ links : Nat → Link,
      (shelf.library root).EndlessFrom (document.site path) links →
      (∃ fault, (shelf.library root).expand settings path document =
        .error fault) ∧
      ((shelf.library root).Unhindered (document.site path) links →
        ∃ chain, (shelf.library root).expand settings path document =
          .error (.cyclic chain)) := by
  refine ⟨expand_ne_tooDeep hcount, ?_⟩
  intro links hendless
  refine ⟨Library.exists_fault_of_endlessFrom hendless, ?_⟩
  intro hclear
  exact Library.exists_cyclic_of_expand_ne_tooDeep hendless hclear
    (expand_ne_tooDeep hcount)

/-! ## Past one scenario and once around the ring -/

def crowdedShelf : Shelf :=
  ringShelf.insert ⟨"lib/c".toList⟩ "Scenario: C\nGiven c".toList

/-- The tag before the ring is at no fault, and the one behind it is never come
to. -/
def crowdedDocument : Document :=
  ⟨["@include(feature: lib/c, scenario: C)".toList,
    "@include(feature: lib/./a, scenario: A)".toList, "@include".toList]⟩

def ringExcerptA (feature : Text) : Excerpt where
  startLine := 2
  tagLines := ["@include(feature: b, scenario: B)".toList]
  lines := ["Scenario: A".toList, "Given a".toList]
  feature := feature
  source := ringA.source
  name := ringA.scenario

def ringExcerptB : Excerpt where
  startLine := 1
  tagLines := []
  lines := ["Scenario: B".toList,
    "@include(feature: ../lib/a, scenario: A)".toList, "Given b".toList]
  feature := "b".toList
  source := ringB.source
  name := ringB.scenario

def ringEntrance : Link where
  tag := "@include(feature: lib/./a, scenario: A)".toList
  number := 2
  directive := ⟨"lib/./a".toList, "A".toList, []⟩
  excerpt := ringExcerptA "lib/./a".toList

def ringForth : Link where
  tag := "@include(feature: b, scenario: B)".toList
  number := 1
  directive := ⟨"b".toList, "B".toList, []⟩
  excerpt := ringExcerptB

def ringBack : Link where
  tag := "@include(feature: ../lib/a, scenario: A)".toList
  number := 2
  directive := ⟨"../lib/a".toList, "A".toList, []⟩
  excerpt := ringExcerptA "../lib/a".toList

/-- In by the entrance, and then forth and back. -/
def ringLinks : Nat → Link
  | 0 => ringEntrance
  | 1 => ringForth
  | 2 => ringBack
  | n + 3 => ringLinks (n + 1)

def sideLink : Link where
  tag := "@include(feature: lib/c, scenario: C)".toList
  number := 1
  directive := ⟨"lib/c".toList, "C".toList, []⟩
  excerpt :=
    { startLine := 1
      tagLines := []
      lines := ["Scenario: C".toList, "Given c".toList]
      feature := "lib/c".toList
      source := ⟨"lib/c".toList⟩
      name := "C".toList }

theorem numberedTags_crowdedDocument :
    numberedTags (crowdedDocument.site ringPath).lines =
      [(sideLink.tag, sideLink.number),
        (ringEntrance.tag, ringEntrance.number), ("@include".toList, 3)] := by
  cbv

theorem sideLink_from :
    sideLink.From (crowdedShelf.library none)
      (crowdedDocument.site ringPath) where
  mem_tags := by
    rw [numberedTags_crowdedDocument]
    exact List.mem_cons_self ..
  ofTag_eq := by cbv
  excerpt_eq := by cbv

theorem numberedTags_sideLink : numberedTags sideLink.site.lines = [] := by
  cbv

theorem ringEntrance_site : ringEntrance.site = ringBack.site := by
  cbv

theorem ringEntrance_from :
    ringEntrance.From (crowdedShelf.library none)
      (crowdedDocument.site ringPath) where
  mem_tags := by
    rw [numberedTags_crowdedDocument]
    exact List.mem_cons_of_mem _ (List.mem_cons_self ..)
  ofTag_eq := by cbv
  excerpt_eq := by cbv

/-- On the ring, the tag that leads on is the only one. -/
theorem numberedTags_ringLinks : ∀ n,
    numberedTags (ringLinks n).site.lines =
      [((ringLinks (n + 1)).tag, (ringLinks (n + 1)).number)]
  | 0 => by cbv
  | 1 => by cbv
  | 2 => by cbv
  | n + 3 => numberedTags_ringLinks (n + 1)

theorem ringForth_from :
    ringForth.From (crowdedShelf.library none) ringBack.site where
  mem_tags := by
    rw [show ringBack.site = (ringLinks 2).site from rfl,
      numberedTags_ringLinks]
    exact List.mem_singleton_self _
  ofTag_eq := by cbv
  excerpt_eq := by cbv

theorem ringBack_from :
    ringBack.From (crowdedShelf.library none) ringForth.site where
  mem_tags := by
    rw [show ringForth.site = (ringLinks 1).site from rfl,
      numberedTags_ringLinks]
    exact List.mem_singleton_self _
  ofTag_eq := by cbv
  excerpt_eq := by cbv

theorem fits_ringLinks : ∀ n, (ringLinks n).Fits
  | 0 => by cbv
  | 1 => by cbv
  | 2 => by cbv
  | n + 3 => fits_ringLinks (n + 1)

theorem from_ringLinks : ∀ n,
    (ringLinks (n + 1)).From (crowdedShelf.library none) (ringLinks n).site
  | 0 => by
      rw [show (ringLinks 0).site = ringBack.site from ringEntrance_site]
      exact ringForth_from
  | 1 => ringBack_from
  | 2 => ringForth_from
  | n + 3 => from_ringLinks (n + 1)

theorem endlessFrom_ringLinks :
    (crowdedShelf.library none).EndlessFrom (crowdedDocument.site ringPath)
      ringLinks :=
  ⟨ringEntrance_from, fits_ringLinks, from_ringLinks⟩

/-- Before the ring there is one tag, and nothing below it. -/
theorem unhindered_ringLinks :
    (crowdedShelf.library none).Unhindered (crowdedDocument.site ringPath)
      ringLinks := by
  intro n _
  cases n with
  | zero =>
      refine ⟨[(sideLink.tag, sideLink.number)], [("@include".toList, 3)],
        numberedTags_crowdedDocument, ?_⟩
      intro target entry hreaches
      cases hreaches with
      | here hmem =>
          rw [List.mem_singleton.mp hmem]
          exact ⟨sideLink, rfl, sideLink_from, fun _ => by cbv⟩
      | @down _ _ _ _ link hmem hfrom _ _ hbelow =>
          have heq := hfrom.eq_of_entry_eq sideLink_from
            (List.mem_singleton.mp hmem)
          rw [heq, Stage.tags, Stage.below, numberedTags_sideLink] at hbelow
          exact absurd hbelow Library.not_reaches_nil
  | succ n =>
      refine ⟨[], [], numberedTags_ringLinks n, ?_⟩
      intro target entry hreaches
      exact absurd hreaches Library.not_reaches_nil

theorem cycleGuard_bounds_nesting_ring :
    crowdedShelf.scenarioCount ≤ 3 ∧
    (∀ limit chain,
      (crowdedShelf.library none).expand ⟨none, 3⟩ ringPath crowdedDocument ≠
        .error (.tooDeep limit chain)) ∧
    ∃ chain, (crowdedShelf.library none).expand ⟨none, 3⟩ ringPath
      crowdedDocument = .error (.cyclic chain) := by
  have hcount : crowdedShelf.scenarioCount ≤ 3 := by decide +kernel
  have hbounds := cycleGuard_bounds_nesting crowdedShelf none ⟨none, 3⟩
    ringPath crowdedDocument hcount
  exact ⟨hcount, hbounds.1,
    (hbounds.2 ringLinks endlessFrom_ringLinks).2 unhindered_ringLinks⟩

end Shelf

end ScenarioInclusion
