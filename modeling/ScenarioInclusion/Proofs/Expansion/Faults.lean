import ScenarioInclusion.Proofs.Expansion.Questions
import ScenarioInclusion.Proofs.Library.Shelf
import ScenarioInclusion.Proofs.Passage.Position

/-!
# What a fault says is so

A fault of an expansion speaks of one directive, the one that it stopped at,
however deep that stands and whatever was filled into it on the way.  The feature
and the scenario are those that the directive names, and the caller is the
document that it stands in: the document that was to be expanded, or one on the
shelf.

A feature that was not found is at none of the places that were searched; a
scenario that was not found has no header in the document that the search ended
at; and a row that does not fit is a row of the scenario that was found there.
-/

namespace ScenarioInclusion

namespace Bindings

/-- A row that does not fit is a line of the scenario, without its margins. -/
theorem exists_line_of_firstMisfit? {bindings : Bindings} {lines : List Line}
    {inExamples : Bool} {row : Text}
    (h : bindings.firstMisfit? inExamples lines = some row) :
    ∃ line ∈ lines, line.role = .row ∧ row = line.trim ∧
      ¬ bindings.MatchesRow row := by
  induction lines generalizing inExamples with
  | nil => contradiction
  | cons line rest ih =>
      rw [firstMisfit?] at h
      split at h
      · next hmisfit =>
          injection h with hrow
          rcases hmisfit with ⟨-, hrole, hmatch⟩
          rw [hrow] at hmatch
          exact ⟨line, List.mem_cons_self .., hrole, hrow.symm, hmatch⟩
      · rcases ih h with ⟨other, hother, hrest⟩
        exact ⟨other, List.mem_cons_of_mem line hother, hrest⟩

end Bindings

theorem Line.head?_trim_of_role_row {line : Line} (h : line.role = .row) :
    line.trim.head? = some '|' := by
  unfold role at h
  split at h
  · contradiction
  · split at h
    · contradiction
    · contradiction
    · next rest hrow =>
        rw [hrow]
        rfl
    · contradiction

/-- Is the row what a line in the text of the scenario says, a line that begins
with a pipe? -/
def Document.HasRow (document : Document) (scenario row : Text) : Prop :=
  ∃ number line, document.lines[number - 1]? = some line ∧
    document.InText scenario number ∧ row = line.trim ∧ row.head? = some '|'

theorem Document.hasRow_of_firstMisfit? {document : Document}
    {scenario : Text} {passage : Passage}
    (hpassage : document.passage? scenario = some passage)
    {bindings : Bindings} {row : Text}
    (h : bindings.firstMisfit? false passage.lines = some row) :
    document.HasRow scenario row := by
  rcases Bindings.exists_line_of_firstMisfit? h with ⟨line, hline, hrole, rfl, -⟩
  have hmem : line ∈ (passage.lines.zipIdx passage.startLine).map Prod.fst := by
    rwa [List.zipIdx_map_fst]
  rcases List.mem_map.mp hmem with ⟨⟨line, number⟩, hentry, rfl⟩
  rcases inText_of_mem_zipIdx hpassage hentry with ⟨hget, htext⟩
  exact ⟨number, line, hget, htext, rfl, Line.head?_trim_of_role_row hrole⟩

namespace Shelf

/-! ## Searches -/

/-- Is the document the one at the first of the places where the shelf holds
any? -/
def FindsFirst (shelf : Shelf) (places : List Path) (document : Document) :
    Prop :=
  ∃ earlier place later, places = earlier ++ place :: later ∧
    (∀ other ∈ earlier, shelf.find? other = none) ∧
    shelf.find? place = some document

variable {shelf : Shelf} {root : Option Path} {feature : Text} {caller : Path}

theorem findsFirst_of_firstOf? {places : List Path} {loaded : LoadedFeature}
    (h : shelf.firstOf? places = some loaded) :
    shelf.FindsFirst places loaded.document := by
  rcases firstOf?_eq_some_iff.mp h with
    ⟨earlier, later, hplaces, hearlier, hfind⟩
  exact ⟨earlier, loaded.path, later, hplaces, hearlier, hfind⟩

theorem findsFirst_of_load {loaded : LoadedFeature}
    (h : ((shelf.library root).load feature caller).outcome = .ok loaded) :
    shelf.FindsFirst (Path.candidates root feature caller) loaded.document := by
  rw [load_library] at h
  cases hfirst : shelf.firstOf? (Path.candidates root feature caller) with
  | none =>
      rw [hfirst] at h
      contradiction
  | some found =>
      rw [hfirst] at h
      injection h with heq
      rw [← heq]
      exact findsFirst_of_firstOf? hfirst

theorem find?_eq_none_of_load {cause : LookupError}
    (h : ((shelf.library root).load feature caller).outcome = .error cause) :
    cause = .notFound feature (Path.candidates root feature caller) ∧
      ∀ place ∈ Path.candidates root feature caller,
        shelf.find? place = none := by
  rw [load_library] at h
  cases hfirst : shelf.firstOf? (Path.candidates root feature caller) with
  | some found =>
      rw [hfirst] at h
      contradiction
  | none =>
      rw [hfirst] at h
      injection h with heq
      exact ⟨heq.symm, firstOf?_eq_none_iff.mp hfirst⟩

/-! ## Where a directive stands -/

/-- A directive that an expansion of the document comes to, in the document
itself or in one on the shelf. -/
structure ComesTo (shelf : Shelf) (root : Option Path) (path : Path)
    (document : Document) (caller : Path) (directive : Directive) : Prop where
  asks : (shelf.library root).Asks (document.site path) caller directive
  isCaller : caller = path ∨
    ∃ registered, shelf.find? caller = some registered

variable {path : Path} {document : Document}

theorem path_of_descent {links : List Link} {target : Site}
    (h : (shelf.library root).Descent (document.site path) links target) :
    target.path = path ∨
      ∃ registered, shelf.find? target.path = some registered := by
  rcases h.eq_nil_or_concat with
    ⟨-, rfl⟩ | ⟨above, link, caller, -, hfrom, rfl⟩
  · exact Or.inl rfl
  · rcases find?_of_excerpt hfrom.excerpt_eq with ⟨-, -, registered, hfind, -⟩
    exact Or.inr ⟨registered, hfind⟩

theorem comesTo_of_descent {links : List Link} {target : Site}
    (h : (shelf.library root).Descent (document.site path) links target)
    {entry : Tag × Nat} (hentry : entry ∈ numberedTags target.lines)
    {directive : Directive} (hread : Directive.ofTag entry.1 = .ok directive) :
    shelf.ComesTo root path document target.path directive :=
  ⟨⟨links, target, entry, h, rfl, hentry, hread⟩, path_of_descent h⟩

/-! ## Faults -/

/-- A feature that the directive names and that is nowhere the caller could have
it from. -/
structure LacksFeature (shelf : Shelf) (root : Option Path) (caller : Path)
    (directive : Directive) (feature : Text) (cause : LookupError) : Prop where
  feature_eq : directive.feature = feature
  cause_eq : cause = .notFound feature (Path.candidates root feature caller)
  nowhere : ∀ place ∈ Path.candidates root feature caller,
    shelf.find? place = none

/-- A scenario that the directive names and that has no header in the document
that its feature is found to be. -/
structure LacksScenario (shelf : Shelf) (root : Option Path) (caller : Path)
    (directive : Directive) (feature scenario : Text) : Prop where
  feature_eq : directive.feature = feature
  scenario_eq : directive.scenario = scenario
  headerless : ∃ registered,
    shelf.FindsFirst (Path.candidates root feature caller) registered ∧
    ∀ line ∈ registered.lines, line.headerName? ≠ some scenario

/-- A row of the scenario that the directive names, with other than one cell for
each of its bindings. -/
structure HasMisfit (shelf : Shelf) (root : Option Path) (caller : Path)
    (directive : Directive) (feature scenario row : Text)
    (expected found : Nat) : Prop where
  feature_eq : directive.feature = feature
  scenario_eq : directive.scenario = scenario
  expected_eq : expected = directive.bindings.length
  one_le_expected : 1 ≤ expected
  found_eq : found = TableRow.cellCount row
  found_ne_expected : found ≠ expected
  hasRow : ∃ registered,
    shelf.FindsFirst (Path.candidates root feature caller) registered ∧
    registered.HasRow scenario row

variable {settings : Settings}

theorem lacksFeature_of_expand {cause : LookupError}
    (h : (shelf.library root).expand settings path document =
      .error (.featureNotFound feature caller cause)) :
    ∃ directive, shelf.ComesTo root path document caller directive ∧
      shelf.LacksFeature root caller directive feature cause := by
  rcases Library.exists_stop_of_expand h with
    ⟨links, target, entry, hdescent, -, hentry, hstops⟩
  cases hstops with
  | @featureNotFound directive _ hread hload =>
      rcases find?_eq_none_of_load hload with ⟨hcause, hnowhere⟩
      exact ⟨directive, comesTo_of_descent hdescent hentry hread, rfl, hcause,
        hnowhere⟩

theorem lacksScenario_of_expand {scenario : Text}
    (h : (shelf.library root).expand settings path document =
      .error (.scenarioNotFound feature scenario)) :
    ∃ caller directive, shelf.ComesTo root path document caller directive ∧
      shelf.LacksScenario root caller directive feature scenario := by
  rcases Library.exists_stop_of_expand h with
    ⟨links, target, entry, hdescent, -, hentry, hstops⟩
  cases hstops with
  | @scenarioNotFound directive loaded hread hload hpassage =>
      exact ⟨target.path, directive, comesTo_of_descent hdescent hentry hread,
        rfl, rfl, loaded.document, findsFirst_of_load hload,
        Document.passage?_eq_none_iff.mp hpassage⟩

theorem hasMisfit_of_expand {scenario row : Text} {expected found : Nat}
    (h : (shelf.library root).expand settings path document =
      .error (.arityMismatch feature scenario row expected found)) :
    ∃ caller directive, shelf.ComesTo root path document caller directive ∧
      shelf.HasMisfit root caller directive feature scenario row expected
        found := by
  rcases Library.exists_stop_of_expand h with
    ⟨links, target, entry, hdescent, -, hentry, hstops⟩
  cases hstops with
  | @misfit link _ hlink hfrom _ hne hmisfit =>
      have hread : Directive.ofTag entry.1 = .ok link.directive := by
        rw [← hlink]
        exact hfrom.ofTag_eq
      rcases Bindings.exists_line_of_firstMisfit? hmisfit with
        ⟨-, -, -, -, hmatch⟩
      rcases Library.excerpt_eq_ok_iff.mp hfrom.excerpt_eq with
        ⟨loaded, passage, hload, hpassage, hexcerpt⟩
      rw [hexcerpt] at hmisfit ⊢
      have hrow := Document.hasRow_of_firstMisfit? hpassage hmisfit
      exact ⟨target.path, link.directive,
        comesTo_of_descent hdescent hentry hread, rfl, rfl, rfl,
        List.length_pos_iff.mpr hne, rfl, hmatch, loaded.document,
        findsFirst_of_load hload, hrow⟩

/-- A fault of a search or of a table speaks of a directive that the expansion
came to, and of what the shelf holds for it. -/
theorem faults_truthful (shelf : Shelf) (root : Option Path)
    (settings : Settings) (path : Path) (document : Document) :
    (∀ feature caller cause,
      (shelf.library root).expand settings path document =
        .error (.featureNotFound feature caller cause) →
      ∃ directive, shelf.ComesTo root path document caller directive ∧
        shelf.LacksFeature root caller directive feature cause) ∧
    (∀ feature scenario,
      (shelf.library root).expand settings path document =
        .error (.scenarioNotFound feature scenario) →
      ∃ caller directive, shelf.ComesTo root path document caller directive ∧
        shelf.LacksScenario root caller directive feature scenario) ∧
    ∀ feature scenario row expected found,
      (shelf.library root).expand settings path document =
        .error (.arityMismatch feature scenario row expected found) →
      ∃ caller directive, shelf.ComesTo root path document caller directive ∧
        shelf.HasMisfit root caller directive feature scenario row expected
          found :=
  ⟨fun _ _ _ => lacksFeature_of_expand, fun _ _ => lacksScenario_of_expand,
    fun _ _ _ _ _ => hasMisfit_of_expand⟩

/-! ## Faults one scenario down -/

def forwardingText : Text :=
  ("@include(feature: <to>, scenario: B, params: [k:v])\n" ++
    "Scenario: A\nGiven a").toList

def tableText : Text :=
  "Scenario: B\nExamples:\n  | k | l |".toList

def faultsShelf : Shelf :=
  (Shelf.empty.insert ⟨"lib".toList⟩ forwardingText).insert ⟨"tab".toList⟩
    tableText

def forwardingTo (feature : Text) : Document :=
  ⟨["@include(feature: lib, scenario: A, params: [to:".toList ++ feature ++
    "])".toList]⟩

/-- The directive that is filled in is the one that the faults speak of. -/
theorem faults_truthful_forwarding :
    (∃ directive,
      faultsShelf.ComesTo none ⟨"main".toList⟩ (forwardingTo "x".toList)
        ⟨"lib".toList⟩ directive ∧
      faultsShelf.LacksFeature none ⟨"lib".toList⟩ directive "x".toList
        (.notFound "x".toList [⟨"x".toList⟩])) ∧
    (∃ caller directive,
      faultsShelf.ComesTo none ⟨"main".toList⟩ (forwardingTo "lib".toList)
        caller directive ∧
      faultsShelf.LacksScenario none caller directive "lib".toList
        "B".toList) ∧
    ∃ caller directive,
      faultsShelf.ComesTo none ⟨"main".toList⟩ (forwardingTo "tab".toList)
        caller directive ∧
      faultsShelf.HasMisfit none caller directive "tab".toList "B".toList
        "| k | l |".toList 1 2 :=
  ⟨(faults_truthful faultsShelf none Settings.default ⟨"main".toList⟩
      (forwardingTo "x".toList)).1 _ _ _ (by with_unfolding_all rfl),
    (faults_truthful faultsShelf none Settings.default ⟨"main".toList⟩
      (forwardingTo "lib".toList)).2.1 _ _ (by with_unfolding_all rfl),
    (faults_truthful faultsShelf none Settings.default ⟨"main".toList⟩
      (forwardingTo "tab".toList)).2.2 _ _ _ _ _ (by with_unfolding_all rfl)⟩

end Shelf

end ScenarioInclusion
