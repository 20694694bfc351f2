import ScenarioInclusion.Proofs.Excerpt.Respelled
import ScenarioInclusion.Proofs.Expansion.Descent

/-!
# Bare keys and keys in brackets

An expansion works on the meanings of lines.  In the document that is expanded,
every key may be put in brackets, for nothing is filled in there.  The directives
of an included scenario are text that the bindings of the inclusion are filled
into first, and there a key in brackets is a placeholder.  It stays one only if
it is not bound.

So two shelves may differ in brackets around keys as far as every inclusion on the
way leaves these keys alone.  Then an expansion succeeds on both or on neither,
and writes the same lines.
-/

namespace ScenarioInclusion

open DirectiveLine

/-! ## Lines of one meaning -/

theorem toOption_expandLines_eq
    {splice splice' : Nat → Tag → Traced ExpansionError (List Line)}
    {lines lines' : List (Line × Nat)} (hlines : SameMeanings lines lines')
    (hsplice : ∀ entry ∈ numberedTags lines, ∀ tag number,
      (Directive.ofTag entry.1).toOption = (Directive.ofTag tag).toOption →
      (splice entry.2 entry.1).outcome.toOption =
        (splice' number tag).outcome.toOption)
    (held : List Line) :
    (expandLines splice held lines).outcome.toOption =
      (expandLines splice' held lines').outcome.toOption := by
  induction hlines generalizing held with
  | nil => rfl
  | @cons entry entry' rest rest' hline _ ih =>
      rcases entry with ⟨line, number⟩
      rcases entry' with ⟨line', number'⟩
      rw [numberedTags_cons] at hsplice
      have hrest := ih fun entry hentry =>
        hsplice entry (List.mem_append_right _ hentry)
      rw [expandLines, expandLines]
      cases hparsed : ofLine? line with
      | none =>
          have heq := Line.eq_of_meaning_eq hline hparsed
          simp only at heq
          subst heq
          simp only [hparsed, Traced.outcome_bind, Traced.outcome_pure,
            toOption_bind, hrest]
      | some parsed =>
          rcases Line.exists_of_meaning_eq hline hparsed with
            ⟨parsed', hparsed', hindent, hsiblings, hread⟩
          have hsibling : parsed.siblingLine? = parsed'.siblingLine? := by
            rw [siblingLine?, siblingLine?, hindent, hsiblings]
          have hblocks := toOption_mapM_eq
            (f := fun tag => (splice number tag).outcome)
            (g := fun tag => (splice' number' tag).outcome) hread (by
              intro tag htag tag' hsame
              apply hsplice (tag, number) _ tag' number' hsame
              apply List.mem_append_left
              rw [includeTags_of_some hparsed]
              exact List.mem_map_of_mem htag)
          simp only [hparsed', Traced.outcome_bind, Traced.outcome_pure,
            Traced.outcome_mapM, toOption_bind, hblocks, hsibling, hrest]

namespace Library

variable (library : Library) (room : Nat) (chain : List Inclusion)
  (path : Path) (number : Nat) (tag : Tag)

theorem toOption_target :
    (library.target chain path number tag).outcome.toOption =
      (Directive.ofTag tag).toOption >>= fun directive =>
        (library.excerpt directive.feature directive.scenario
          path).outcome.toOption >>= fun excerpt =>
          if chain.any fun entered => entered.Same excerpt.inclusion then none
          else some (directive, excerpt) := by
  rw [target, Traced.outcome_bind, toOption_bind]
  cases Directive.ofTag tag with
  | error cause => rfl
  | ok directive =>
      simp only [Except.mapError, Traced.outcome_ofExcept, toOption_ok,
        Option.bind_eq_bind, Option.bind_some, Traced.outcome_bind,
        toOption_bind]
      congr 1
      funext excerpt
      split
      · rfl
      · rfl

theorem toOption_splice_zero :
    (library.splice 0 chain path number tag).outcome.toOption = none := by
  rw [splice, Traced.outcome_bind, toOption_bind]
  cases (library.target chain path number tag).outcome with
  | error fault => rfl
  | ok found => rfl

theorem toOption_splice_succ :
    (library.splice (room + 1) chain path number tag).outcome.toOption =
      (library.target chain path number tag).outcome.toOption >>= fun found =>
        (found.2.bind found.1.bindings).toOption >>= fun text =>
          (expandLines
            (library.splice room (chain ++ [found.2.inclusion])
              found.2.source) []
            (found.2.nested found.1.bindings ++
              text.zipIdx found.2.startLine)).outcome.toOption := by
  rw [splice]
  simp only [Traced.outcome_bind, toOption_bind, Traced.outcome_ofExcept,
    Traced.outcome_note, toOption_ok, Option.bind_eq_bind, Option.bind_some]

end Library

/-! ## Two runs side by side -/

theorem Document.passage?_of_respelled {document other : Document}
    (h : List.Forall₂ (Line.Respelled []) document.lines other.lines)
    (name : Text) :
    Option.Rel (Passage.Related (Line.Respelled [])) (document.passage? name)
      (other.passage? name) :=
  passage?_of_forall₂ (fun _ _ hline => hline.sameKind) h name

namespace Shelf

/-- Shelves whose documents differ in keys put in brackets. -/
def Respelled (shelf other : Shelf) : Prop :=
  shelf.Related
    (fun document document' =>
      List.Forall₂ (Line.Respelled []) document.lines document'.lines)
    other

/-- Does every inclusion on the ways down from a site leave alone the keys that
are in brackets in the scenario on the other shelf? -/
def LeavesKeys (shelf other : Shelf) (root : Option Path) (site : Site) :
    Prop :=
  ∀ links link,
    (shelf.library root).Descent site (links ++ [link]) link.site →
    ∀ document passage, other.find? link.excerpt.source = some document →
      document.passage? link.directive.scenario = some passage →
      link.excerpt.toPassage.Respelled link.directive.bindings passage

variable {shelf other : Shelf} {root : Option Path}

theorem LeavesKeys.below {site : Site} (h : shelf.LeavesKeys other root site)
    {link : Link} (hfrom : link.From (shelf.library root) site)
    (hfits : link.Fits) : shelf.LeavesKeys other root link.site :=
  fun links last hdescent => h (link :: links) last (.down hfrom hfits hdescent)

theorem excerpt_of_respelled (h : shelf.Respelled other)
    (root : Option Path) (feature scenario : Text) (caller : Path) :
    Traced.Related (Excerpt.Related (Passage.Related (Line.Respelled [])))
      ((shelf.library root).excerpt feature scenario caller)
      ((other.library root).excerpt feature scenario caller) :=
  excerpt_of_related
    (fun _ _ name hlines => Document.passage?_of_respelled hlines name)
    (fun _ _ hpassage => hpassage.lines.length_eq) h root feature scenario
    caller

theorem LeavesKeys.respelled {site : Site}
    (h : shelf.LeavesKeys other root site) {link : Link}
    (hfrom : link.From (shelf.library root) site) (hfits : link.Fits)
    {excerpt : Excerpt}
    (hfound : ((other.library root).excerpt link.directive.feature
      link.directive.scenario site.path).outcome = .ok excerpt)
    (hrelated : Excerpt.Related (Passage.Related (Line.Respelled []))
      link.excerpt excerpt) :
    link.excerpt.toPassage.Respelled link.directive.bindings
      excerpt.toPassage := by
  rcases find?_of_excerpt hfound with ⟨-, -, document, hfind, hpassage⟩
  rw [← hrelated.source_eq] at hfind
  exact h [] link (.down hfrom hfits (.here _)) document excerpt.toPassage
    hfind hpassage

/-- Corresponding tags are replaced alike if the lines below them are expanded
alike. -/
theorem toOption_splice_of_respelled (h : shelf.Respelled other) {site : Site}
    (hkeys : shelf.LeavesKeys other root site) {room : Nat}
    (hbelow : ∀ chain (below below' : Site), below.path = below'.path →
      SameMeanings below.lines below'.lines →
      shelf.LeavesKeys other root below →
      (expandLines ((shelf.library root).splice room chain below.path) []
        below.lines).outcome.toOption =
        (expandLines ((other.library root).splice room chain below'.path) []
          below'.lines).outcome.toOption)
    (chain : List Inclusion) {entry : Tag × Nat}
    (hentry : entry ∈ numberedTags site.lines) {tag : Tag}
    (hread : (Directive.ofTag entry.1).toOption =
      (Directive.ofTag tag).toOption) (number : Nat) :
    ((shelf.library root).splice (room + 1) chain site.path entry.2
      entry.1).outcome.toOption =
      ((other.library root).splice (room + 1) chain site.path number
        tag).outcome.toOption := by
  rw [Library.toOption_splice_succ, Library.toOption_splice_succ,
    Library.toOption_target, Library.toOption_target, ← hread]
  simp only [Option.bind_eq_bind]
  cases hdirective : Directive.ofTag entry.1 with
  | error cause => simp only [toOption_error, Option.bind_none]
  | ok directive =>
      simp only [toOption_ok, Option.bind_some]
      rcases (excerpt_of_respelled h root directive.feature
          directive.scenario site.path).outcome_cases with
        ⟨fault, hfault, hfault'⟩ | ⟨excerpt, excerpt', hfound, hfound', hrelated⟩
      · simp only [hfault, hfault', toOption_error, Option.bind_none]
      · have hinclusion : excerpt.inclusion = excerpt'.inclusion := by
          rw [Excerpt.inclusion, Excerpt.inclusion, hrelated.source_eq,
            hrelated.name_eq]
        rw [hfound, hfound']
        -- Both runs enter the same scenario, so they close a circle together.
        simp only [toOption_ok, Option.bind_some, ← hinclusion]
        split
        · simp only [Option.bind_none]
        · simp only [Option.bind_some, ← hinclusion]
          rcases Excerpt.bind_of_related hrelated directive.bindings with
            ⟨hnone, hnone'⟩ | ⟨hbind, hbind'⟩
          · simp only [hnone, hnone', Option.bind_none]
          · let link : Link := ⟨entry.1, entry.2, directive, excerpt⟩
            have hfrom : link.From (shelf.library root) site :=
              ⟨hentry, hdirective, hfound⟩
            rw [hbind, hbind']
            simp only [toOption_ok, Option.bind_some]
            exact hbelow _ link.site ⟨excerpt'.source, _⟩ hrelated.source_eq
              (Excerpt.sameMeanings_spliced hrelated
                (hkeys.respelled hfrom hbind hfound' hrelated))
              (hkeys.below hfrom hbind)

theorem toOption_expandLines_of_respelled (h : shelf.Respelled other)
    (room : Nat) (chain : List Inclusion) (site site' : Site)
    (hpath : site.path = site'.path)
    (hlines : SameMeanings site.lines site'.lines)
    (hkeys : shelf.LeavesKeys other root site) :
    (expandLines ((shelf.library root).splice room chain site.path) []
      site.lines).outcome.toOption =
      (expandLines ((other.library root).splice room chain site'.path) []
        site'.lines).outcome.toOption := by
  induction room generalizing chain site site' with
  | zero =>
      apply toOption_expandLines_eq hlines
      intro entry _ tag number _
      rw [Library.toOption_splice_zero, Library.toOption_splice_zero]
  | succ room ih =>
      apply toOption_expandLines_eq hlines
      intro entry hentry tag number hread
      rw [← hpath]
      exact toOption_splice_of_respelled h hkeys ih chain hentry hread number

theorem toOption_expand (library : Library) (settings : Settings)
    (path : Path) (document : Document) :
    (library.expand settings path document).toOption =
      (expandLines (library.splice settings.maxDepth [] path) []
        (document.site path).lines).outcome.toOption.map Document.mk := by
  rw [Library.expand, Library.expandTraced, Traced.outcome_bind, toOption_bind,
    Document.site]
  cases (expandLines (library.splice settings.maxDepth [] path) []
    (document.lines.zipIdx 1)).outcome with
  | error fault => rfl
  | ok lines => rfl

theorem Respelled.refl (shelf : Shelf) : shelf.Respelled shelf :=
  Related.refl (fun _ => List.forall₂_same.mpr fun _ _ => .refl) shelf

theorem leavesKeys_self (shelf : Shelf) (root : Option Path) (site : Site) :
    shelf.LeavesKeys shelf root site := by
  intro links link hdescent document passage hfind hpassage
  rcases hdescent.exists_from
      (List.mem_append_right links (List.mem_singleton_self link)) with
    ⟨caller, hfrom⟩
  rcases find?_of_excerpt hfrom.excerpt_eq with
    ⟨-, -, found, hfound, hexcerpt⟩
  rw [hfound] at hfind
  cases hfind
  rw [hexcerpt] at hpassage
  cases hpassage
  exact .refl _ _

theorem toOption_expand_of_respelled (h : shelf.Respelled other)
    (settings : Settings) (path : Path) {document document' : Document}
    (hdocument : List.Forall₂ (Line.Respelled []) document.lines
      document'.lines)
    (hkeys : shelf.LeavesKeys other root (document.site path)) :
    ((shelf.library root).expand settings path document).toOption =
      ((other.library root).expand settings path document').toOption := by
  have hmeanings : List.Forall₂ (fun line line' => line.meaning = line'.meaning)
      document.lines document'.lines :=
    hdocument.imp fun _ _ hline => hline.meaning_eq
  have hlines := toOption_expandLines_of_respelled h settings.maxDepth []
    (document.site path) (document'.site path) rfl
    (sameMeanings_zipIdx hmeanings 1 1) hkeys
  rw [toOption_expand, toOption_expand]
  exact congrArg (Option.map Document.mk) hlines

/-- In the document itself any key may be put in brackets.  On the shelf those
keys may be that no inclusion on the way binds or moves. -/
theorem keySpellings_interchangeable (shelf other : Shelf)
    (root : Option Path) (settings : Settings) (path : Path)
    (document document' : Document)
    (hdocument : List.Forall₂ (Line.Respelled []) document.lines
      document'.lines) :
    ((shelf.library root).expand settings path document).toOption =
      ((shelf.library root).expand settings path document').toOption ∧
    (shelf.Respelled other →
      shelf.LeavesKeys other root (document.site path) →
      ((shelf.library root).expand settings path document).toOption =
        ((other.library root).expand settings path document').toOption) :=
  ⟨toOption_expand_of_respelled (.refl shelf) settings path hdocument
      (leavesKeys_self shelf root _),
    fun hshelf hkeys =>
      toOption_expand_of_respelled hshelf settings path hdocument hkeys⟩

/-! ## A greeting in an included scenario -/

def greetPlace : KeyPlace where
  front := []
  fields := "feature: b, scenario: B,".toList
  label := " params".toList
  gap := [' ']
  entries := []
  margin := []
  isTagLine := by decide
  endsWord := Text.endsWord_of_blank (List.forall_mem_nil _)
  isWord := ⟨by decide, by decide, by decide +kernel⟩
  isOpen := by decide +kernel
  endsPart_fields := Or.inr
    ⟨"feature: b, scenario: B".toList, by decide +kernel, by decide +kernel⟩
  parts_part := by decide +kernel
  label_trim := by decide +kernel
  isBlank_gap := List.forall_mem_singleton.2 rfl
  endsPart_entries := Or.inl rfl
  isBlank_margin := List.forall_mem_nil _

/-- The key is `user`, and what is bound to other keys does not matter. -/
def userRespelling {bindings : Bindings}
    (hunbound : bindings.valueOf? "user".toList = none) (rest : Text) :
    Respelling bindings where
  place := greetPlace
  filled := greetPlace
  key := "user".toList
  gap := []
  rest := rest
  isKey := ⟨by decide, by decide, by decide, by simp⟩
  isBlank_gap := List.forall_mem_nil _
  valueOf?_key := hunbound
  substitute_place :=
    bindings.substitute_append_of_not_mem (by decide +kernel)

theorem respelled_user {bindings : Bindings}
    (hunbound : bindings.valueOf? "user".toList = none) {rest : Text}
    {line line' : Line}
    (hline : greetPlace.text ++ (("user".toList ++ []) ++ ':' :: rest) = line)
    (hline' : greetPlace.text ++ (("<user>".toList ++ []) ++ ':' :: rest) =
      line') :
    line.Respelled bindings line' := by
  have hstep := Line.Respelled.step (userRespelling hunbound rest) .refl
  rw [← hline, ← hline']
  exact hstep

/-- The include tag stands above a scenario that is included itself. -/
def greetShelf (tag : String) : Shelf :=
  (Shelf.empty.insert ⟨"b".toList⟩ "Scenario: B\nGiven <user>".toList).insert
    ⟨"a".toList⟩ (tag ++ "\nScenario: A\nGiven a").toList

def mainPath : Path := ⟨"main".toList⟩

def callingDocument (params : String) : Document :=
  ⟨[("@include(feature: a, scenario: A, params: [" ++ params ++ "])").toList]⟩

theorem respelled_greetShelf {tag tag' : String}
    (hlines : (Document.ofText (tag ++ "\nScenario: A\nGiven a").toList).lines =
      [tag.toList, "Scenario: A".toList, "Given a".toList])
    (hlines' :
      (Document.ofText (tag' ++ "\nScenario: A\nGiven a").toList).lines =
        [tag'.toList, "Scenario: A".toList, "Given a".toList])
    (htag : Line.Respelled [] tag.toList tag'.toList) :
    (greetShelf tag).Respelled (greetShelf tag') := by
  refine Related.insert (Respelled.refl _) _ ?_
  rw [hlines, hlines']
  exact List.Forall₂.cons htag (List.forall₂_same.mpr fun _ _ => .refl)

theorem respelled_bob :
    Line.Respelled []
      "@include(feature: b, scenario: B, params: [user:bob])".toList
      "@include(feature: b, scenario: B, params: [<user>:bob])".toList :=
  @respelled_user [] rfl "bob])".toList _ _ (by decide +kernel)
    (by decide +kernel)

/-- In brackets the key is a placeholder of the caller, and the greeting loses its
user. -/
theorem not_keySpellings_interchangeable :
    (greetShelf "@include(feature: b, scenario: B, params: [user:bob])").Respelled
      (greetShelf "@include(feature: b, scenario: B, params: [<user>:bob])") ∧
    ((greetShelf "@include(feature: b, scenario: B, params: [user:bob])").library
      none).expand Settings.default mainPath (callingDocument "user:ann") =
        .ok ⟨["Scenario: B".toList, "Given bob".toList,
          "Scenario: A".toList, "Given a".toList]⟩ ∧
    ((greetShelf
      "@include(feature: b, scenario: B, params: [<user>:bob])").library
        none).expand Settings.default mainPath (callingDocument "user:ann") =
          .ok ⟨["Scenario: B".toList, "Given <user>".toList,
            "Scenario: A".toList, "Given a".toList]⟩ ∧
    "Given bob".toList ≠ "Given <user>".toList := by
  exact ⟨respelled_greetShelf (by cbv) (by cbv) respelled_bob,
    by with_unfolding_all rfl, by with_unfolding_all rfl, by decide⟩

def forwardingShelf : Shelf :=
  greetShelf "@include(feature: b, scenario: B, params: [user:<name>])"

def bracketedShelf : Shelf :=
  greetShelf "@include(feature: b, scenario: B, params: [<user>:<name>])"

def forwardedPassage (tag : String) : Passage where
  startLine := 2
  tagLines := [tag.toList]
  lines := ["Scenario: A".toList, "Given a".toList]

def callingLink : Link where
  tag := "@include(feature: a, scenario: A, params: [name:ann])".toList
  number := 1
  directive := ⟨"a".toList, "A".toList, [⟨"name".toList, "ann".toList⟩]⟩
  excerpt := {
    forwardedPassage
      "@include(feature: b, scenario: B, params: [user:<name>])" with
    feature := "a".toList
    source := ⟨"a".toList⟩
    name := "A".toList }

def greetingLink : Link where
  tag := "@include(feature: b, scenario: B, params: [user:ann])".toList
  number := 1
  directive := ⟨"b".toList, "B".toList, [⟨"user".toList, "ann".toList⟩]⟩
  excerpt := {
    startLine := 1
    tagLines := []
    lines := ["Scenario: B".toList, "Given <user>".toList]
    feature := "b".toList
    source := ⟨"b".toList⟩
    name := "B".toList }

theorem numberedTags_callingDocument :
    numberedTags ((callingDocument "name:ann").site mainPath).lines =
      [(callingLink.tag, callingLink.number)] := by
  cbv

theorem numberedTags_callingLink :
    numberedTags callingLink.site.lines =
      [(greetingLink.tag, greetingLink.number)] := by
  cbv

theorem numberedTags_greetingLink :
    numberedTags greetingLink.site.lines = [] := by
  cbv

theorem callingLink_from :
    callingLink.From (forwardingShelf.library none)
      ((callingDocument "name:ann").site mainPath) where
  mem_tags := by
    rw [numberedTags_callingDocument]
    exact List.mem_singleton_self _
  ofTag_eq := by cbv
  excerpt_eq := by cbv

theorem greetingLink_from :
    greetingLink.From (forwardingShelf.library none) callingLink.site where
  mem_tags := by
    rw [numberedTags_callingLink]
    exact List.mem_singleton_self _
  ofTag_eq := by cbv
  excerpt_eq := by cbv

theorem respelled_forwarding {bindings : Bindings}
    (hunbound : bindings.valueOf? "user".toList = none) :
    Line.Respelled bindings
      "@include(feature: b, scenario: B, params: [user:<name>])".toList
      "@include(feature: b, scenario: B, params: [<user>:<name>])".toList :=
  @respelled_user bindings hunbound "<name>])".toList _ _ (by decide +kernel)
    (by decide +kernel)

theorem respelled_forwardingShelf :
    forwardingShelf.Respelled bracketedShelf :=
  respelled_greetShelf (by cbv) (by cbv)
    (respelled_forwarding rfl)

theorem respelled_callingLink {document : Document} {passage : Passage}
    (hfind : bracketedShelf.find? callingLink.excerpt.source = some document)
    (hpassage :
      document.passage? callingLink.directive.scenario = some passage) :
    callingLink.excerpt.toPassage.Respelled callingLink.directive.bindings
      passage := by
  have hfound : (bracketedShelf.find? callingLink.excerpt.source).bind
      (fun found => found.passage? callingLink.directive.scenario) =
      some (forwardedPassage
        "@include(feature: b, scenario: B, params: [<user>:<name>])") := by
    cbv
  rw [hfind, Option.bind_some, hpassage] at hfound
  cases hfound
  refine ⟨List.Forall₂.cons ?_ List.Forall₂.nil,
    List.forall₂_same.mpr fun _ _ => .refl⟩
  have hjoin : joinTags (Line.includeTags
      "@include(feature: b, scenario: B, params: [user:<name>])".toList) =
      "@include(feature: b, scenario: B, params: [user:<name>])".toList := by
    cbv
  have hjoin' : joinTags (Line.includeTags
      "@include(feature: b, scenario: B, params: [<user>:<name>])".toList) =
      "@include(feature: b, scenario: B, params: [<user>:<name>])".toList := by
    cbv
  rw [hjoin, hjoin']
  exact respelled_forwarding (by decide)

theorem respelled_greetingLink {document : Document} {passage : Passage}
    (hfind : bracketedShelf.find? greetingLink.excerpt.source = some document)
    (hpassage :
      document.passage? greetingLink.directive.scenario = some passage) :
    greetingLink.excerpt.toPassage.Respelled greetingLink.directive.bindings
      passage := by
  have hfound : (bracketedShelf.find? greetingLink.excerpt.source).bind
      (fun found => found.passage? greetingLink.directive.scenario) =
      some greetingLink.excerpt.toPassage := by
    cbv
  rw [hfind, Option.bind_some, hpassage] at hfound
  cases hfound
  exact .refl _ _

/-- Below the link to the greeting nothing is included. -/
theorem leavesKeys_forwardingShelf :
    forwardingShelf.LeavesKeys bracketedShelf none
      ((callingDocument "name:ann").site mainPath) := by
  intro links link hdescent document passage hfind hpassage
  cases links with
  | nil =>
      have heq := hdescent.of_cons.1.eq_of_numberedTags callingLink_from
        numberedTags_callingDocument
      subst heq
      exact respelled_callingLink hfind hpassage
  | cons first links =>
      rcases Library.Descent.of_cons hdescent with ⟨hfirst, hbelow⟩
      rw [hfirst.eq_of_numberedTags callingLink_from
        numberedTags_callingDocument] at hbelow
      cases links with
      | nil =>
          have heq := hbelow.of_cons.1.eq_of_numberedTags greetingLink_from
            numberedTags_callingLink
          subst heq
          exact respelled_greetingLink hfind hpassage
      | cons second links =>
          rcases Library.Descent.of_cons hbelow with ⟨hsecond, hlast⟩
          rw [hsecond.eq_of_numberedTags greetingLink_from
            numberedTags_callingLink] at hlast
          have hnil := hlast.eq_nil_of_numberedTags numberedTags_greetingLink
          simp at hnil

theorem keySpellings_interchangeable_forwarding :
    ((forwardingShelf.library none).expand Settings.default mainPath
      ⟨["@include(feature: b, scenario: B, params: [<user>:bob])".toList]⟩
        ).toOption =
      some ⟨["Scenario: B".toList, "Given bob".toList]⟩ ∧
    forwardingShelf.Respelled bracketedShelf ∧
    forwardingShelf.LeavesKeys bracketedShelf none
      ((callingDocument "name:ann").site mainPath) ∧
    ((bracketedShelf.library none).expand Settings.default mainPath
      (callingDocument "name:ann")).toOption =
      some ⟨["Scenario: B".toList, "Given ann".toList, "Scenario: A".toList,
        "Given a".toList]⟩ := by
  have hbare : (forwardingShelf.library none).expand Settings.default mainPath
      ⟨["@include(feature: b, scenario: B, params: [user:bob])".toList]⟩ =
        .ok ⟨["Scenario: B".toList, "Given bob".toList]⟩ := by
    with_unfolding_all rfl
  have hforwarding : (forwardingShelf.library none).expand Settings.default
      mainPath (callingDocument "name:ann") =
        .ok ⟨["Scenario: B".toList, "Given ann".toList,
          "Scenario: A".toList, "Given a".toList]⟩ := by
    with_unfolding_all rfl
  have hdocument := (keySpellings_interchangeable forwardingShelf
    bracketedShelf none Settings.default mainPath
    ⟨["@include(feature: b, scenario: B, params: [user:bob])".toList]⟩
    ⟨["@include(feature: b, scenario: B, params: [<user>:bob])".toList]⟩
    (List.Forall₂.cons respelled_bob List.Forall₂.nil)).1
  have hshelf := (keySpellings_interchangeable forwardingShelf bracketedShelf
    none Settings.default mainPath (callingDocument "name:ann")
    (callingDocument "name:ann")
    (List.forall₂_same.mpr fun _ _ => .refl)).2 respelled_forwardingShelf
    leavesKeys_forwardingShelf
  rw [hbare] at hdocument
  rw [hforwarding] at hshelf
  exact ⟨hdocument.symm, respelled_forwardingShelf,
    leavesKeys_forwardingShelf, hshelf.symm⟩

end Shelf

end ScenarioInclusion
