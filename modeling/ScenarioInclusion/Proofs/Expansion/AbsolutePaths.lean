import ScenarioInclusion.Proofs.Expansion.CycleGuard
import ScenarioInclusion.Proofs.Path.Location

/-!
# Inclusions by absolute paths

A library that searches for its documents serves them under normal paths.  So
inclusions that come to one file by absolute paths are told apart by nothing but
how often these paths climb above the root, and the cycle guard sees a chain that
returns to a file, whatever names it returns by, as long as none of them climbs.

A path that climbs passes for another file with each climb.
-/

namespace ScenarioInclusion

open Component

/-- What is spliced, for an inclusion by an absolute path: the location of a file
in a tree, and a scenario in it. -/
def Inclusion.located (inclusion : Inclusion) : List Text × Text :=
  (inclusion.source.location, inclusion.scenario)

/-- Inclusions by absolute paths in normal form are the same if they splice one
scenario of one file and their paths climb equally often. -/
theorem Inclusion.same_iff_located {inclusion other : Inclusion}
    (hnormal : ∃ path : Path, inclusion.source = path.normal)
    (hnormal' : ∃ path : Path, other.source = path.normal)
    (h : inclusion.source.IsAbsolute) (h' : other.source.IsAbsolute) :
    inclusion.Same other ↔
      inclusion.located = other.located ∧
        inclusion.source.climb = other.source.climb := by
  rcases hnormal with ⟨path, hpath⟩
  rcases hnormal' with ⟨path', hpath'⟩
  have hsource : inclusion.source.Same other.source ↔
      inclusion.source.location = other.source.location ∧
        inclusion.source.climb = other.source.climb := by
    rw [← Path.normal_eq_iff_of_isAbsolute h h', hpath, hpath',
      Path.normal_normal, Path.normal_normal]
    exact ⟨Path.normal_eq_of_same, congrArg Path.components⟩
  rw [Same, hsource, located, located, Prod.mk.injEq]
  exact and_right_comm

namespace Library

/-- Are all documents served under normal paths? -/
def ServesNormalPaths (library : Library) : Prop :=
  ∀ feature caller loaded,
    (library.load feature caller).outcome = .ok loaded →
      ∃ path : Path, loaded.path = path.normal

theorem servesNormalPaths_library (shelf : Shelf) (root : Option Path) :
    (shelf.library root).ServesNormalPaths := by
  intro feature caller loaded hload
  exact Path.exists_normal_of_mem_candidates (Shelf.find?_of_load hload).1

theorem mem_of_firstReadable {read : Path → Except ReadFailure Text}
    {feature : Text} {searched paths : List Path} {loaded : LoadedFeature}
    (h : (firstReadable read feature searched paths).outcome = .ok loaded) :
    loaded.path ∈ paths := by
  induction paths with
  | nil => contradiction
  | cons path rest ih =>
      rw [firstReadable] at h
      split at h
      · injection h with heq
        rw [← heq]
        exact List.mem_cons_self ..
      · exact List.mem_cons_of_mem path (ih h)
      · contradiction

theorem servesNormalPaths_ofReader (read : Path → Except ReadFailure Text)
    (root : Option Path) : (ofReader read root).ServesNormalPaths := by
  intro feature caller loaded hload
  exact Path.exists_normal_of_mem_candidates (mem_of_firstReadable hload)

variable {library : Library}

/-! ## One inclusion -/

theorem target_eq_cyclic_iff_of_from {link : Link} {site : Site}
    (h : link.From library site) {chain : List Inclusion} :
    (library.target chain site.path link.number link.tag).outcome =
      .error (.cyclic (chain ++ [link.inclusion])) ↔
    ∃ entered ∈ chain, entered.Same link.inclusion := by
  have htarget : (library.target chain site.path link.number link.tag).outcome =
      if chain.any fun entered => entered.Same link.inclusion then
        .error (.cyclic (chain ++ [link.inclusion]))
      else .ok (link.directive, link.excerpt) := by
    rw [target, Traced.outcome_bind, Traced.outcome_ofExcept, h.ofTag_eq]
    change Traced.outcome (_ >>= _) = _
    rw [Traced.outcome_bind, h.excerpt_eq]
    exact apply_ite Traced.outcome ..
  rw [htarget]
  simp

section Served

variable (hserves : library.ServesNormalPaths)

include hserves

theorem ServesNormalPaths.exists_normal {link : Link} {site : Site}
    (h : link.From library site) :
    ∃ path : Path, link.inclusion.source = path.normal := by
  rcases excerpt_eq_ok_iff.mp h.excerpt_eq with
    ⟨loaded, passage, hload, -, hexcerpt⟩
  rcases hserves _ _ _ hload with ⟨path, hpath⟩
  refine ⟨path, ?_⟩
  rw [← hpath, Link.inclusion, hexcerpt]
  rfl

/-- The guard sees a return to a file if the path does not climb more often than
before, nor less. -/
theorem ServesNormalPaths.target_eq_cyclic_iff {site target : Site}
    {links : List Link} {last : Link}
    (hdescent : library.Descent site links target)
    (hlast : last.From library target)
    (habsolute : last.inclusion.source.IsAbsolute) :
    (library.target (links.map Link.inclusion) target.path last.number
        last.tag).outcome =
      .error (.cyclic (links.map Link.inclusion ++ [last.inclusion])) ↔
    ∃ entered ∈ links, entered.inclusion.source.IsAbsolute ∧
      entered.inclusion.located = last.inclusion.located ∧
      entered.inclusion.source.climb = last.inclusion.source.climb := by
  rw [target_eq_cyclic_iff_of_from hlast]
  constructor
  · rintro ⟨inclusion, hmem, hsame⟩
    rcases List.mem_map.mp hmem with ⟨entered, hentered, rfl⟩
    rcases hdescent.exists_from hentered with ⟨above, hfrom⟩
    have habsolute' : entered.inclusion.source.IsAbsolute := by
      rw [Path.isAbsolute_iff] at habsolute ⊢
      rwa [hsame.1]
    have hfile := Inclusion.same_iff_located (hserves.exists_normal hfrom)
      (hserves.exists_normal hlast) habsolute' habsolute
    exact ⟨entered, hentered, habsolute', hfile.mp hsame⟩
  · rintro ⟨entered, hentered, habsolute', hfile⟩
    rcases hdescent.exists_from hentered with ⟨above, hfrom⟩
    have hsame := Inclusion.same_iff_located (hserves.exists_normal hfrom)
      (hserves.exists_normal hlast) habsolute' habsolute
    exact ⟨entered.inclusion, List.mem_map_of_mem hentered, hsame.mpr hfile⟩

end Served

/-! ## A run -/

/-- Do all include tags that are come to from a site lead to listed scenarios, by
absolute paths that never climb? -/
def StaysBelowRoot (library : Library) (site : Site)
    (files : List (List Text × Text)) : Prop :=
  ∀ links target, library.Descent site links target →
    ∀ link : Link, link.From library target →
      link.inclusion.source.IsAbsolute ∧
        link.inclusion.source.climb = 0 ∧ link.inclusion.located ∈ files

/-- An inclusion on a chain is that of a tag that is come to. -/
theorem LeadsTo.exists_link {site : Site} {chain : List Inclusion}
    (h : library.LeadsTo site chain) {inclusion : Inclusion}
    (hmem : inclusion ∈ chain) :
    ∃ (links : List Link) (target : Site) (link : Link),
      library.Descent site links target ∧ link.From library target ∧
        inclusion = link.inclusion := by
  rcases h with ⟨links, last, target, hdescent, hlast, rfl⟩
  rcases List.mem_map.mp hmem with ⟨link, hlink, rfl⟩
  rcases List.mem_append.mp hlink with hlink | hlink
  · rcases hdescent.exists_above hlink with ⟨earlier, above, habove, hfrom⟩
    exact ⟨earlier, above, link, habove, hfrom, rfl⟩
  · rw [List.mem_singleton] at hlink
    exact ⟨links, target, link, hdescent, hlink ▸ hlast, rfl⟩

section Run

variable {settings : Settings} {path : Path} {document : Document}
  (hserves : library.ServesNormalPaths)

include hserves

theorem ServesNormalPaths.exists_normal_of_leadsTo {site : Site}
    {chain : List Inclusion} (h : library.LeadsTo site chain) :
    ∀ inclusion ∈ chain, ∃ path : Path, inclusion.source = path.normal := by
  intro inclusion hmem
  rcases h.exists_link hmem with ⟨links, target, link, -, hfrom, rfl⟩
  exact hserves.exists_normal hfrom

/-- A chain that is too deep comes back to a scenario only by paths that climb more
or less often. -/
theorem ServesNormalPaths.climb_ne_of_tooDeep {limit : Nat}
    {chain : List Inclusion}
    (h : library.expand settings path document =
      .error (.tooDeep limit chain)) :
    chain.Pairwise fun entered later =>
      entered.source.IsAbsolute → later.source.IsAbsolute →
        entered.located = later.located →
          entered.source.climb ≠ later.source.climb := by
  rcases chain_of_tooDeep h with ⟨-, -, hdistinct, hleads⟩
  apply hdistinct.imp_of_mem
  intro entered later hentered hlater hnot habsolute habsolute' hfile hclimb
  have hnormal := hserves.exists_normal_of_leadsTo hleads
  have hsame := Inclusion.same_iff_located (hnormal entered hentered)
    (hnormal later hlater) habsolute habsolute'
  exact hnot (hsame.mpr ⟨hfile, hclimb⟩)

theorem ServesNormalPaths.expand_ne_tooDeep
    {files : List (List Text × Text)}
    (hbelow : library.StaysBelowRoot (document.site path) files)
    (hcount : files.length ≤ settings.maxDepth) (limit : Nat)
    (chain : List Inclusion) :
    library.expand settings path document ≠
      .error (.tooDeep limit chain) := by
  intro h
  rcases chain_of_tooDeep h with ⟨-, hlength, hdistinct, hleads⟩
  have hall : ∀ inclusion ∈ chain, inclusion.source.IsAbsolute ∧
      inclusion.source.climb = 0 ∧ inclusion.located ∈ files := by
    intro inclusion hmem
    rcases hleads.exists_link hmem with
      ⟨links, target, link, hdescent, hfrom, rfl⟩
    exact hbelow links target hdescent link hfrom
  have hnormal := hserves.exists_normal_of_leadsTo hleads
  have hle : chain.length ≤ files.length := by
    apply length_le_of_keys hdistinct
    · intro entered hentered later hlater hfile
      rcases hall entered hentered with ⟨habsolute, hclimb, -⟩
      rcases hall later hlater with ⟨habsolute', hclimb', -⟩
      have hsame := Inclusion.same_iff_located (hnormal entered hentered)
        (hnormal later hlater) habsolute habsolute'
      exact hsame.mpr ⟨hfile, hclimb.trans hclimb'.symm⟩
    · exact fun inclusion hmem => (hall inclusion hmem).2.2
  omega

end Run

/-- Absolute paths have one identity as far as they do not climb above the root.
The normal form keeps the climbs, so paths to one location have it in common if
they climb equally often; names are looked for at such normal forms, and climbs
add up from caller to caller.  The guard sees a return to a file by a path that
climbs as often as one before, and with room for all files no run that stays below
the root is too deep. -/
theorem absolutePaths_exact (hserves : library.ServesNormalPaths) :
    (∀ path : Path, path.IsAbsolute →
      path.normal.components =
        root :: (List.replicate path.climb up ++
          path.location.reverse.map name) ∧
      path.normal.location = path.location ∧
      path.normal.climb = path.climb ∧
      (up ∉ path.normal.components ↔ path.climb = 0)) ∧
    (∀ path other : Path, path.IsAbsolute → other.IsAbsolute →
      path.location = other.location →
        (path.normal = other.normal ↔ path.climb = other.climb)) ∧
    (∀ (featuresRoot : Option Path) (feature : Text) (caller : Path),
      (Path.candidates featuresRoot feature caller).head? =
        some (caller.directory.join ⟨feature⟩).normal ∧
      ((caller.directory.join ⟨feature⟩).IsAbsolute ↔
        Path.IsAbsolute ⟨feature⟩ ∨
          caller.IsAbsolute ∧ caller.components ≠ [root]) ∧
      (caller.fileName?.isSome → caller.IsAbsolute →
        ¬ Path.IsAbsolute ⟨feature⟩ →
        (caller.directory.join ⟨feature⟩).location =
            (Path.segments ⟨feature⟩).foldl walk caller.location.tail ∧
          (caller.directory.join ⟨feature⟩).climb =
            caller.climb + climbFrom caller.location.tail.length
              (Path.segments ⟨feature⟩))) ∧
    (∀ (site target : Site) (links : List Link) (last : Link),
      library.Descent site links target → last.From library target →
      last.inclusion.source.IsAbsolute →
      ((library.target (links.map Link.inclusion) target.path last.number
          last.tag).outcome =
        .error (.cyclic (links.map Link.inclusion ++ [last.inclusion])) ↔
      ∃ entered ∈ links, entered.inclusion.source.IsAbsolute ∧
        entered.inclusion.located = last.inclusion.located ∧
        entered.inclusion.source.climb = last.inclusion.source.climb)) ∧
    ∀ (settings : Settings) (path : Path) (document : Document),
      (∀ limit chain,
        library.expand settings path document =
            .error (.tooDeep limit chain) →
        chain.Pairwise fun entered later =>
          entered.source.IsAbsolute → later.source.IsAbsolute →
            entered.located = later.located →
              entered.source.climb ≠ later.source.climb) ∧
      ∀ files, library.StaysBelowRoot (document.site path) files →
        files.length ≤ settings.maxDepth →
        (∀ limit chain,
          library.expand settings path document ≠
            .error (.tooDeep limit chain)) ∧
        ∀ links : Nat → Link,
          library.EndlessFrom (document.site path) links →
          library.Unhindered (document.site path) links →
            ∃ chain, library.expand settings path document =
              .error (.cyclic chain) := by
  refine ⟨?_, ?_, ?_, ?_, ?_⟩
  · intro path habsolute
    have hlocation := Path.location_normal habsolute
    refine ⟨Path.components_normal_of_isAbsolute habsolute, hlocation.1,
      hlocation.2, ?_⟩
    rw [Path.up_mem_components_normal_iff habsolute, not_not]
  · intro path other habsolute habsolute' hlocation
    rw [Path.normal_eq_iff_of_isAbsolute habsolute habsolute',
      and_iff_right hlocation]
  · intro featuresRoot feature caller
    refine ⟨Path.head?_candidates_eq featuresRoot feature caller, ?_,
      Path.location_join_directory⟩
    rw [Path.isAbsolute_join_iff, Path.isAbsolute_directory_iff]
  · intro site target links last hdescent hlast habsolute
    exact hserves.target_eq_cyclic_iff hdescent hlast habsolute
  · intro settings path document
    refine ⟨fun limit chain => hserves.climb_ne_of_tooDeep, ?_⟩
    intro files hbelow hcount
    have hroom := hserves.expand_ne_tooDeep hbelow hcount
    refine ⟨hroom, ?_⟩
    intro links hendless hclear
    exact exists_cyclic_of_expand_ne_tooDeep hendless hclear hroom

end Library

/-! ## A scenario that includes itself -/

def selfShelf : Shelf :=
  Shelf.empty.insert ⟨"/x/../lib".toList⟩
    "@include(feature: y/../lib, scenario: A)\nScenario: A\nGiven a".toList

def selfPath : Path := ⟨"/main".toList⟩

def selfDocument : Document :=
  ⟨["@include(feature: y/../lib, scenario: A)".toList]⟩

/-- The one tag of the document and of the scenario. -/
def selfLink : Link where
  tag := "@include(feature: y/../lib, scenario: A)".toList
  number := 1
  directive := ⟨"y/../lib".toList, "A".toList, []⟩
  excerpt :=
    { startLine := 2
      tagLines := ["@include(feature: y/../lib, scenario: A)".toList]
      lines := ["Scenario: A".toList, "Given a".toList]
      feature := "y/../lib".toList
      source := ⟨"/lib".toList⟩
      name := "A".toList }

theorem numberedTags_selfDocument :
    numberedTags (selfDocument.site selfPath).lines =
      [(selfLink.tag, selfLink.number)] := by
  cbv

theorem numberedTags_selfLink :
    numberedTags selfLink.site.lines = [(selfLink.tag, selfLink.number)] := by
  cbv

theorem selfLink_from :
    selfLink.From (selfShelf.library none) (selfDocument.site selfPath) where
  mem_tags := by
    rw [numberedTags_selfDocument]
    exact List.mem_singleton_self _
  ofTag_eq := by cbv
  excerpt_eq := by cbv

theorem selfLink_from_selfLink :
    selfLink.From (selfShelf.library none) selfLink.site where
  mem_tags := by
    rw [numberedTags_selfLink]
    exact List.mem_singleton_self _
  ofTag_eq := by cbv
  excerpt_eq := by cbv

theorem selfLink_fits : selfLink.Fits := by
  cbv

theorem endlessFrom_selfLink :
    (selfShelf.library none).EndlessFrom (selfDocument.site selfPath)
      fun _ => selfLink :=
  ⟨selfLink_from, fun _ => selfLink_fits, fun _ => selfLink_from_selfLink⟩

/-- The two sites of the expansion of `selfDocument`. -/
def OnSelf (site : Site) : Prop :=
  site = selfDocument.site selfPath ∨ site = selfLink.site

theorem numberedTags_onSelf {site : Site} (hsite : OnSelf site) :
    numberedTags site.lines = [(selfLink.tag, selfLink.number)] := by
  rcases hsite with rfl | rfl
  · exact numberedTags_selfDocument
  · exact numberedTags_selfLink

theorem selfLink_from_onSelf {site : Site} (hsite : OnSelf site) :
    selfLink.From (selfShelf.library none) site := by
  rcases hsite with rfl | rfl
  · exact selfLink_from
  · exact selfLink_from_selfLink

theorem onSelf_of_descent {site target : Site} {links : List Link}
    (h : (selfShelf.library none).Descent site links target)
    (hsite : OnSelf site) : OnSelf target := by
  induction h with
  | here site => exact hsite
  | @down site target link links hlink _ _ ih =>
      rw [hlink.eq_of_numberedTags (selfLink_from_onSelf hsite)
        (numberedTags_onSelf hsite)] at ih
      exact ih (Or.inr rfl)

theorem unhindered_selfLink :
    (selfShelf.library none).Unhindered (selfDocument.site selfPath)
      fun _ => selfLink := by
  intro n _
  have htags : (Stage.along (selfDocument.site selfPath)
      (fun _ => selfLink) n).tags = [(selfLink.tag, selfLink.number)] := by
    cases n with
    | zero => exact numberedTags_selfDocument
    | succ n => exact numberedTags_selfLink
  refine ⟨[], [], htags, ?_⟩
  intro target entry hreaches
  exact absurd hreaches Library.not_reaches_nil

theorem staysBelowRoot_self :
    (selfShelf.library none).StaysBelowRoot (selfDocument.site selfPath)
      [(["lib".toList], "A".toList)] := by
  intro links target hdescent link hfrom
  have hsite := onSelf_of_descent hdescent (Or.inl rfl)
  rw [hfrom.eq_of_numberedTags (selfLink_from_onSelf hsite)
    (numberedTags_onSelf hsite)]
  exact ⟨by decide, rfl, by decide⟩

namespace Library

theorem absolutePaths_exact_self :
    Path.normal ⟨"/x/../lib".toList⟩ = Path.normal ⟨"//y/.././lib".toList⟩ ∧
    up ∉ (Path.normal ⟨"/x/../lib".toList⟩).components ∧
    ((selfShelf.library none).target [selfLink.inclusion] selfLink.site.path
        selfLink.number selfLink.tag).outcome =
      .error (.cyclic [selfLink.inclusion, selfLink.inclusion]) ∧
    ∃ chain, (selfShelf.library none).expand ⟨none, 1⟩ selfPath selfDocument =
      .error (.cyclic chain) := by
  obtain ⟨hcomponents, hnormal, -, hguard, hrun⟩ := absolutePaths_exact
    (servesNormalPaths_library selfShelf none)
  refine ⟨?_, ?_, ?_, ?_⟩
  · exact (hnormal _ _ (by decide) (by decide) rfl).mpr rfl
  · exact (hcomponents _ (by decide)).2.2.2.mpr rfl
  · have hdescent : (selfShelf.library none).Descent
        (selfDocument.site selfPath) [selfLink] selfLink.site :=
      .down selfLink_from selfLink_fits (.here _)
    exact (hguard _ _ _ _ hdescent selfLink_from_selfLink (by decide)).mpr
      ⟨selfLink, List.mem_singleton_self _, by decide, rfl, rfl⟩
  · have hfiles := (hrun ⟨none, 1⟩ selfPath selfDocument).2 _
      staysBelowRoot_self (by decide)
    exact hfiles.2 _ endlessFrom_selfLink unhindered_selfLink

end Library

/-! ## A scenario that includes itself from above the root -/

def climbingText : Text :=
  "@include(feature: ../lib, scenario: A)\nScenario: A\nGiven a".toList

def climbingDocument : Document :=
  ⟨["@include(feature: /lib, scenario: A)".toList]⟩

def climbingShelf : Shelf :=
  Shelf.empty.insert ⟨"/lib".toList⟩ climbingText

/-- The tree with the one file, read along its locations. -/
def climbingTree (path : Path) : Except ReadFailure Text :=
  if path.location = ["lib".toList] then .ok climbingText
  else .error .missing

/-- Two dots at the root name the root again, but the name of a file by way of them
passes for another file: a shelf does not have it, and in a tree the guard does not
see that the chain returns. -/
theorem not_absolutePaths_identified :
    (Path.mk "/../lib".toList).IsAbsolute ∧
    (Path.mk "/../lib".toList).location = (Path.mk "/lib".toList).location ∧
    up ∈ (Path.mk "/../lib".toList).normal.components ∧
    (Path.mk "/../lib".toList).normal ≠ (Path.mk "/lib".toList).normal ∧
    (climbingShelf.library none).expand Settings.default
        ⟨"features/main".toList⟩ climbingDocument =
      .error (.featureNotFound "../lib".toList ⟨"/lib".toList⟩
        (.notFound "../lib".toList [⟨"/../lib".toList⟩])) ∧
    (Library.ofReader climbingTree none).expand ⟨none, 2⟩
        ⟨"features/main".toList⟩ climbingDocument =
      .error (.tooDeep 2
        [⟨⟨"/lib".toList⟩, "A".toList⟩, ⟨⟨"/../lib".toList⟩, "A".toList⟩,
          ⟨⟨"/../../lib".toList⟩, "A".toList⟩]) := by
  have hnormal : (Path.mk "/../lib".toList).normal =
      ⟨"/../lib".toList⟩ := rfl
  have hnormal' : (Path.mk "/lib".toList).normal = ⟨"/lib".toList⟩ := rfl
  rw [hnormal, hnormal']
  refine ⟨by decide, ?_, by decide, by decide, ?_, ?_⟩
  · rfl
  · with_unfolding_all rfl
  · with_unfolding_all rfl

end ScenarioInclusion
