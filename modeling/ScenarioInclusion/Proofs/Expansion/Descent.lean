import ScenarioInclusion.Proofs.Excerpt
import ScenarioInclusion.Proofs.Expansion.Compositional
import Mathlib.Tactic

/-!
# The way down to an include tag

An expansion works on the lines of one site at a time: first those of the
document, then those of each scenario that it splices.  A link leads from a site
to the next one down.  It is an include tag on the lines of the site, together
with what the tag says and with the excerpt that it finds from there; below it
lie the lines of that excerpt, with the bindings of the tag filled in.

Whatever an expansion comes to was reached by a descent along such links.  When
it fails, one include tag at the end of a descent stops it, and the fault says
how.  When it succeeds, no descent is longer than the limit.
-/

namespace ScenarioInclusion

/-- Numbered lines to expand, and the path of the document that they belong
to. -/
structure Site where
  path : Path
  lines : List (Line × Nat)

def Document.site (document : Document) (path : Path) : Site :=
  ⟨path, document.lines.zipIdx 1⟩

/-- An include tag and the number of its line, with what the tag says and with
the excerpt that it asks for. -/
structure Link where
  tag : Tag
  number : Nat
  directive : Directive
  excerpt : Excerpt

namespace Link

def inclusion (link : Link) : Inclusion :=
  link.excerpt.inclusion

def text (link : Link) : List Line :=
  link.excerpt.lines.map link.directive.bindings.substitute

/-- The lines that are expanded in place of the tag. -/
def site (link : Link) : Site where
  path := link.excerpt.source
  lines := link.excerpt.nested link.directive.bindings ++
    link.text.zipIdx link.excerpt.startLine

/-- Does the tag stand at the site, and is the excerpt found from there? -/
structure From (library : Library) (site : Site) (link : Link) : Prop where
  mem_tags : (link.tag, link.number) ∈ numberedTags site.lines
  ofTag_eq : Directive.ofTag link.tag = .ok link.directive
  excerpt_eq :
    (library.excerpt link.directive.feature link.directive.scenario
      site.path).outcome = .ok link.excerpt

/-- Can the bindings be filled into the excerpt? -/
def Fits (link : Link) : Prop :=
  link.excerpt.bind link.directive.bindings = .ok link.text

theorem From.eq_of_entry_eq {library : Library} {site : Site}
    {link other : Link} (h : link.From library site)
    (hother : other.From library site)
    (hentry : (link.tag, link.number) = (other.tag, other.number)) :
    link = other := by
  rcases link with ⟨tag, number, directive, excerpt⟩
  rcases other with ⟨tag', number', directive', excerpt'⟩
  cases hentry
  have hdirective := h.ofTag_eq.symm.trans hother.ofTag_eq
  cases hdirective
  have hexcerpt := h.excerpt_eq.symm.trans hother.excerpt_eq
  cases hexcerpt
  rfl

/-- A site with a single include tag has a single link. -/
theorem From.eq_of_numberedTags {library : Library} {site : Site}
    {link other : Link} (h : link.From library site)
    (hother : other.From library site)
    (htags : numberedTags site.lines = [(other.tag, other.number)]) :
    link = other := by
  have hmem := h.mem_tags
  rw [htags, List.mem_singleton] at hmem
  exact h.eq_of_entry_eq hother hmem

end Link

/-- A way down from one site to another, the first link first. -/
inductive Library.Descent (library : Library) : Site → List Link → Site → Prop
    where
  | here (site : Site) : library.Descent site [] site
  | down {site target : Site} {link : Link} {links : List Link} :
      link.From library site → link.Fits →
        library.Descent link.site links target →
        library.Descent site (link :: links) target

namespace Library.Descent

variable {library : Library} {site target : Site} {links : List Link}

/-- Each link of a descent is come to by the links before it. -/
theorem exists_above (h : library.Descent site links target) {link : Link}
    (hlink : link ∈ links) :
    ∃ earlier above, library.Descent site earlier above ∧
      link.From library above := by
  induction h with
  | here site => exact absurd hlink List.not_mem_nil
  | @down site target first links hfrom hfits _ ih =>
      rcases List.mem_cons.mp hlink with rfl | hmem
      · exact ⟨[], site, .here site, hfrom⟩
      · rcases ih hmem with ⟨earlier, above, hdescent, hlinked⟩
        exact ⟨first :: earlier, above, .down hfrom hfits hdescent, hlinked⟩

theorem exists_from (h : library.Descent site links target) {link : Link}
    (hlink : link ∈ links) : ∃ above, link.From library above := by
  rcases h.exists_above hlink with ⟨-, above, -, hfrom⟩
  exact ⟨above, hfrom⟩

theorem fits (h : library.Descent site links target) {link : Link}
    (hlink : link ∈ links) : link.Fits := by
  induction h with
  | here site => exact absurd hlink List.not_mem_nil
  | @down site target first links _ hfits _ ih =>
      rcases List.mem_cons.mp hlink with rfl | hmem
      · exact hfits
      · exact ih hmem

theorem eq_nil_or_concat (h : library.Descent site links target) :
    (links = [] ∧ target = site) ∨
      ∃ above link caller, links = above ++ [link] ∧
        link.From library caller ∧ target = link.site := by
  induction h with
  | here site => exact Or.inl ⟨rfl, rfl⟩
  | @down site target link links hfrom _ _ ih =>
      right
      rcases ih with ⟨rfl, rfl⟩ | ⟨above, last, caller, rfl, hlast, rfl⟩
      · exact ⟨[], link, site, rfl, hfrom, rfl⟩
      · exact ⟨link :: above, last, caller, rfl, hlast, rfl⟩

theorem of_cons {link : Link}
    (h : library.Descent site (link :: links) target) :
    link.From library site ∧ library.Descent link.site links target := by
  cases h with
  | down hfrom _ hbelow => exact ⟨hfrom, hbelow⟩

theorem eq_nil_of_numberedTags (h : library.Descent site links target)
    (htags : numberedTags site.lines = []) : links = [] := by
  cases h with
  | here site => rfl
  | down hfrom _ _ =>
      have hmem := hfrom.mem_tags
      rw [htags] at hmem
      exact absurd hmem List.not_mem_nil

end Library.Descent

/-- A chain that an expansion may be in: no scenario twice, and no more of them
than the limit allows. -/
structure Admissible (limit : Nat) (chain : List Inclusion) : Prop where
  distinct : chain.Pairwise fun entered later => ¬ entered.Same later
  length_le : chain.length ≤ limit

theorem Admissible.nil (limit : Nat) : Admissible limit [] :=
  ⟨List.Pairwise.nil, Nat.zero_le limit⟩

theorem pairwise_concat {chain : List Inclusion} {inclusion : Inclusion}
    (hchain : chain.Pairwise fun entered later => ¬ entered.Same later)
    (hnew : ∀ entered ∈ chain, ¬ entered.Same inclusion) :
    (chain ++ [inclusion]).Pairwise fun entered later =>
      ¬ entered.Same later := by
  rw [List.pairwise_append]
  refine ⟨hchain, List.pairwise_singleton _ _, ?_⟩
  intro entered hentered last hlast
  rw [List.mem_singleton.mp hlast]
  exact hnew entered hentered

theorem Admissible.concat {limit : Nat} {chain : List Inclusion}
    {inclusion : Inclusion} (h : Admissible limit chain)
    (hnew : ∀ entered ∈ chain, ¬ entered.Same inclusion)
    (hroom : chain.length < limit) :
    Admissible limit (chain ++ [inclusion]) := by
  refine ⟨pairwise_concat h.distinct hnew, ?_⟩
  rw [List.length_append, List.length_singleton]
  omega

namespace Library

/-- How an include tag at a site stops an expansion that has entered a
chain. -/
inductive Stops (library : Library) (limit : Nat) (chain : List Inclusion)
    (site : Site) (entry : Tag × Nat) : ExpansionError → Prop where
  | malformed {cause : DirectiveError} :
      Directive.ofTag entry.1 = .error cause →
        library.Stops limit chain site entry
          (.malformedDirective site.path entry.2 cause)
  | featureNotFound {directive : Directive} {cause : LookupError} :
      Directive.ofTag entry.1 = .ok directive →
        (library.load directive.feature site.path).outcome = .error cause →
        library.Stops limit chain site entry
          (.featureNotFound directive.feature site.path cause)
  | scenarioNotFound {directive : Directive} {loaded : LoadedFeature} :
      Directive.ofTag entry.1 = .ok directive →
        (library.load directive.feature site.path).outcome = .ok loaded →
        loaded.document.passage? directive.scenario = none →
        library.Stops limit chain site entry
          (.scenarioNotFound directive.feature directive.scenario)
  | cyclic {link : Link} :
      (link.tag, link.number) = entry → link.From library site →
        (∃ entered ∈ chain, entered.Same link.inclusion) →
        library.Stops limit chain site entry
          (.cyclic (chain ++ [link.inclusion]))
  | tooDeep {link : Link} :
      (link.tag, link.number) = entry → link.From library site →
        (∀ entered ∈ chain, ¬ entered.Same link.inclusion) →
        chain.length = limit →
        library.Stops limit chain site entry
          (.tooDeep limit (chain ++ [link.inclusion]))
  | misfit {link : Link} {row : Text} :
      (link.tag, link.number) = entry → link.From library site →
        (∀ entered ∈ chain, ¬ entered.Same link.inclusion) →
        link.directive.bindings ≠ [] →
        link.directive.bindings.firstMisfit? false link.excerpt.lines =
          some row →
        library.Stops limit chain site entry
          (.arityMismatch link.excerpt.feature link.excerpt.name row
            link.directive.bindings.length (TableRow.cellCount row))

variable {library : Library} {limit room : Nat} {chain : List Inclusion}
  {site : Site} {entry : Tag × Nat} {fault : ExpansionError}

/-! ## One tag -/

theorem stops_of_target (hentry : entry ∈ numberedTags site.lines)
    (h : (library.target chain site.path entry.2 entry.1).outcome =
      .error fault) : library.Stops limit chain site entry fault := by
  rw [target, Traced.outcome_bind, bind_eq_error_iff] at h
  rcases h with hread | ⟨directive, hread, h⟩
  · rw [Traced.outcome_ofExcept, mapError_eq_error_iff] at hread
    rcases hread with ⟨cause, hcause, rfl⟩
    exact .malformed hcause
  · rw [Traced.outcome_ofExcept, mapError_eq_ok_iff] at hread
    rw [Traced.outcome_bind, bind_eq_error_iff] at h
    rcases h with hexcerpt | ⟨excerpt, hexcerpt, h⟩
    · rcases excerpt_eq_error_iff.mp hexcerpt with
        ⟨cause, hload, rfl⟩ | ⟨loaded, hload, hpassage, rfl⟩
      · exact .featureNotFound hread hload
      · exact .scenarioNotFound hread hload hpassage
    · split at h
      · next hany =>
          have hentered : ∃ entered ∈ chain, entered.Same excerpt.inclusion := by
            simpa using hany
          cases h
          exact @Stops.cyclic _ _ _ _ _
            ⟨entry.1, entry.2, directive, excerpt⟩ rfl
            ⟨hentry, hread, hexcerpt⟩ hentered
      · contradiction

theorem exists_link_of_target {directive : Directive} {excerpt : Excerpt}
    (hentry : entry ∈ numberedTags site.lines)
    (h : (library.target chain site.path entry.2 entry.1).outcome =
      .ok (directive, excerpt)) :
    ∃ link : Link, (link.tag, link.number) = entry ∧
      link.directive = directive ∧ link.excerpt = excerpt ∧
      link.From library site ∧
      ∀ entered ∈ chain, ¬ entered.Same link.inclusion := by
  rcases target_eq_ok_iff.mp h with ⟨hread, hexcerpt, hnew⟩
  exact ⟨⟨entry.1, entry.2, directive, excerpt⟩, rfl, rfl, rfl,
    ⟨hentry, hread, hexcerpt⟩, hnew⟩

/-- A tag that fails stops the expansion itself, or the lines below it fail. -/
theorem stops_or_exists_link_of_splice
    (hentry : entry ∈ numberedTags site.lines)
    (hlimit : chain.length + room = limit)
    (h : (library.splice room chain site.path entry.2 entry.1).outcome =
      .error fault) :
    library.Stops limit chain site entry fault ∨
      ∃ (link : Link) (roomLeft : Nat), room = roomLeft + 1 ∧
        (link.tag, link.number) = entry ∧ link.From library site ∧
        link.Fits ∧ (∀ entered ∈ chain, ¬ entered.Same link.inclusion) ∧
        (expandLines
          (library.splice roomLeft (chain ++ [link.inclusion]) link.site.path)
          [] link.site.lines).outcome = .error fault := by
  cases room with
  | zero =>
      rw [splice, Traced.outcome_bind, bind_eq_error_iff] at h
      rcases h with htarget | ⟨⟨directive, excerpt⟩, htarget, h⟩
      · exact Or.inl (stops_of_target hentry htarget)
      · rcases exists_link_of_target hentry htarget with
          ⟨link, hlink, rfl, rfl, hfrom, hnew⟩
        rw [Traced.outcome_fail] at h
        cases h
        have hfull : chain.length = limit := by omega
        rw [hfull]
        exact Or.inl (.tooDeep hlink hfrom hnew hfull)
  | succ room =>
      rw [splice, Traced.outcome_bind, bind_eq_error_iff] at h
      rcases h with htarget | ⟨⟨directive, excerpt⟩, htarget, h⟩
      · exact Or.inl (stops_of_target hentry htarget)
      · rcases exists_link_of_target hentry htarget with
          ⟨link, hlink, rfl, rfl, hfrom, hnew⟩
        simp only [Traced.outcome_bind, Traced.outcome_ofExcept,
          Traced.outcome_note] at h
        rcases bind_eq_error_iff.mp h with hbind | ⟨text, hbind, h⟩
        · rcases Excerpt.bind_eq_error_iff.mp hbind with
            ⟨hne, row, hmisfit, rfl⟩
          exact Or.inl (.misfit hlink hfrom hnew hne hmisfit)
        · have htext : text = link.text := Excerpt.eq_map_of_bind hbind
          subst htext
          exact Or.inr ⟨link, room, rfl, hlink, hfrom, hbind, hnew, h⟩

/-- A tag that is replaced has a link below it whose lines expand. -/
theorem exists_link_of_splice {block : List Line}
    (hentry : entry ∈ numberedTags site.lines)
    (h : (library.splice room chain site.path entry.2 entry.1).outcome =
      .ok block) :
    ∃ (link : Link) (roomLeft : Nat), room = roomLeft + 1 ∧
      (link.tag, link.number) = entry ∧ link.From library site ∧ link.Fits ∧
      (expandLines
        (library.splice roomLeft (chain ++ [link.inclusion]) link.site.path)
        [] link.site.lines).outcome = .ok block := by
  rcases splice_eq_ok_iff.mp h with
    ⟨directive, excerpt, text, roomLeft, hroom, htag, hexcerpt, -, hbind,
      hexpand⟩
  have htext := Excerpt.eq_map_of_bind hbind
  subst htext
  exact ⟨⟨entry.1, entry.2, directive, excerpt⟩, roomLeft, hroom, rfl,
    ⟨hentry, htag, hexcerpt⟩, hbind, hexpand⟩

/-! ## A run -/

/-- The first tag that fails decides. -/
theorem exists_first_of_expandLines
    (h : (expandLines (library.splice room chain site.path) []
      site.lines).outcome = .error fault) :
    ∃ earlier entry later,
      numberedTags site.lines = earlier ++ entry :: later ∧
      (∀ other ∈ earlier, ∃ block,
        (library.splice room chain site.path other.2 other.1).outcome =
          .ok block) ∧
      (library.splice room chain site.path entry.2 entry.1).outcome =
        .error fault := by
  rcases exists_output_of_splice library room chain site.path with
    ⟨output, houtput⟩
  exact (expandLines_eq_error_iff houtput).mp h

theorem exists_entry_of_expandLines
    (h : (expandLines (library.splice room chain site.path) []
      site.lines).outcome = .error fault) :
    ∃ entry ∈ numberedTags site.lines,
      (library.splice room chain site.path entry.2 entry.1).outcome =
        .error fault := by
  rcases exists_first_of_expandLines h with
    ⟨earlier, entry, later, hsplit, -, hfault⟩
  refine ⟨entry, ?_, hfault⟩
  rw [hsplit]
  exact List.mem_append_right _ (List.mem_cons_self ..)

/-- Where a run fails: at the end of a descent, at a tag that stops it. -/
theorem exists_stop_of_expandLines (hchain : Admissible limit chain)
    (hlimit : chain.length + room = limit)
    (h : (expandLines (library.splice room chain site.path) []
      site.lines).outcome = .error fault) :
    ∃ links target entry, library.Descent site links target ∧
      Admissible limit (chain ++ links.map Link.inclusion) ∧
      entry ∈ numberedTags target.lines ∧
      library.Stops limit (chain ++ links.map Link.inclusion) target entry
        fault := by
  induction room generalizing chain site with
  | zero =>
      rcases exists_entry_of_expandLines h with ⟨entry, hentry, hfault⟩
      rcases stops_or_exists_link_of_splice hentry hlimit hfault with
        hstops | ⟨link, roomLeft, hroom, -⟩
      · exact ⟨[], site, entry, .here site, by simpa using hchain, hentry,
          by simpa using hstops⟩
      · omega
  | succ room ih =>
      rcases exists_entry_of_expandLines h with ⟨entry, hentry, hfault⟩
      rcases stops_or_exists_link_of_splice hentry hlimit hfault with
        hstops | ⟨link, roomLeft, hroom, -, hfrom, hfits, hnew, hinner⟩
      · exact ⟨[], site, entry, .here site, by simpa using hchain, hentry,
          by simpa using hstops⟩
      · have heq : roomLeft = room := by omega
        subst heq
        have hlonger := hchain.concat hnew (by omega)
        have hlength : (chain ++ [link.inclusion]).length + roomLeft =
            limit := by
          rw [List.length_append, List.length_singleton]
          omega
        rcases ih hlonger hlength hinner with
          ⟨links, target, last, hdescent, hadmissible, hlast, hstops⟩
        rw [List.append_assoc] at hadmissible hstops
        exact ⟨link :: links, target, last, .down hfrom hfits hdescent,
          hadmissible, hlast, hstops⟩

/-- What a run that succeeds has written below a link stands in what it writes
as one block. -/
theorem exists_block_of_from {link : Link} (hlink : link.From library site)
    {out : List Line}
    (h : (expandLines (library.splice room chain site.path) []
      site.lines).outcome = .ok out) :
    ∃ roomLeft block, room = roomLeft + 1 ∧ block <:+: out ∧
      (expandLines
        (library.splice roomLeft (chain ++ [link.inclusion]) link.site.path)
        [] link.site.lines).outcome = .ok block := by
  rcases exists_output_of_splice library room chain site.path with
    ⟨output, houtput⟩
  rcases (expandLines_eq_ok_iff houtput).mp h with ⟨hall, hassemble⟩
  rcases hall _ hlink.mem_tags with ⟨block, hblock⟩
  rcases exists_link_of_splice hlink.mem_tags hblock with
    ⟨other, roomLeft, hroom, hentry, hother, -, hexpand⟩
  have heq : other = link := hother.eq_of_entry_eq hlink hentry
  subst heq
  refine ⟨roomLeft, block, hroom, ?_, hexpand⟩
  have hmem : other.tag ∈
      (site.lines.map Prod.fst).flatMap Line.includeTags := by
    rw [← map_fst_numberedTags]
    exact List.mem_map_of_mem hlink.mem_tags
  rw [← hassemble, ← houtput _ _ _ hblock]
  exact infix_assemble hmem []

/-- A run that succeeds has written the lines of each site that it leads down to,
and each link on the way has used up room. -/
theorem exists_block_of_descent {links : List Link} {target : Site}
    (hdescent : library.Descent site links target) {out : List Line}
    (h : (expandLines (library.splice room chain site.path) []
      site.lines).outcome = .ok out) :
    ∃ roomLeft entered block, room = roomLeft + links.length ∧
      block <:+: out ∧
      (expandLines (library.splice roomLeft entered target.path) []
        target.lines).outcome = .ok block := by
  induction hdescent generalizing room chain out with
  | here site => exact ⟨room, chain, out, rfl, List.infix_rfl, h⟩
  | @down site target link links hfrom _ _ ih =>
      rcases exists_block_of_from hfrom h with
        ⟨roomBelow, below, hroom, hbelow, hexpand⟩
      rcases ih hexpand with
        ⟨roomLeft, entered, block, hleft, hblock, htarget⟩
      refine ⟨roomLeft, entered, block, ?_, hblock.trans hbelow, htarget⟩
      rw [List.length_cons]
      omega

variable {settings : Settings} {path : Path} {document : Document}

theorem exists_stop_of_expand
    (h : library.expand settings path document = .error fault) :
    ∃ links target entry,
      library.Descent (document.site path) links target ∧
      Admissible settings.maxDepth (links.map Link.inclusion) ∧
      entry ∈ numberedTags target.lines ∧
      library.Stops settings.maxDepth (links.map Link.inclusion) target entry
        fault := by
  have hlines : (expandLines
      (library.splice settings.maxDepth [] (document.site path).path) []
      (document.site path).lines).outcome = .error fault :=
    expand_eq_error_iff.mp h
  have hstop := exists_stop_of_expandLines
    (Admissible.nil settings.maxDepth) (by simp) hlines
  simpa using hstop

theorem exists_block_of_expand {links : List Link} {target : Site}
    (hdescent : library.Descent (document.site path) links target)
    {output : Document}
    (h : library.expand settings path document = .ok output) :
    ∃ roomLeft entered block, settings.maxDepth = roomLeft + links.length ∧
      block <:+: output.lines ∧
      (expandLines (library.splice roomLeft entered target.path) []
        target.lines).outcome = .ok block :=
  exists_block_of_descent hdescent (expand_eq_ok_iff.mp h)

/-- A run that succeeds leads down no further than it has room for. -/
theorem length_le_of_expand {links : List Link} {target : Site}
    (hdescent : library.Descent (document.site path) links target)
    {output : Document}
    (h : library.expand settings path document = .ok output) :
    links.length ≤ settings.maxDepth := by
  rcases exists_block_of_expand hdescent h with ⟨roomLeft, -, -, hroom, -⟩
  omega

end Library

end ScenarioInclusion
