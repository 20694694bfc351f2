import ScenarioInclusion.Library.Disk
import ScenarioInclusion.Proofs.Expansion.Questions
import ScenarioInclusion.Proofs.Library.Shelf

/-!
# Reading documents and holding them

A library that reads single places and a library that holds documents in memory
search the same candidates in the same order.  If a shelf mirrors what a reader
finds at the candidates, both searches end at the same place, or fail with the
same list of places.

So the two libraries answer alike, and an expansion cannot tell which of them it
has, as long as the shelf mirrors the reader at the places where the expansion
looks.
-/

namespace ScenarioInclusion

namespace Shelf

/-- Does the shelf hold at the place what the reader finds there, and nothing if
the reader finds nothing? -/
def Mirrors (shelf : Shelf) (read : Path → Except ReadFailure Text)
    (place : Path) : Prop :=
  match read place with
  | .ok text => shelf.find? place = some (Document.ofText text)
  | .error .missing => shelf.find? place = none
  | .error (.faulty _) => False

variable {shelf : Shelf} {read : Path → Except ReadFailure Text} {place : Path}

theorem Mirrors.cases (h : shelf.Mirrors read place) :
    (∃ text, read place = .ok text ∧
      shelf.find? place = some (Document.ofText text)) ∨
    (read place = .error .missing ∧ shelf.find? place = none) := by
  unfold Mirrors at h
  cases hread : read place with
  | ok text =>
      rw [hread] at h
      exact Or.inl ⟨text, rfl, h⟩
  | error failure =>
      rw [hread] at h
      cases failure with
      | missing => exact Or.inr ⟨rfl, h⟩
      | faulty fault => exact h.elim

/-- The two searches, on the places that are left. -/
theorem outcome_firstReadable {paths : List Path}
    (h : ∀ place ∈ paths, shelf.Mirrors read place) (feature : Text)
    (searched : List Path) :
    (Library.firstReadable read feature searched paths).outcome =
      match shelf.firstOf? paths with
      | some loaded => .ok loaded
      | none => .error (.notFound feature searched) := by
  induction paths with
  | nil => rfl
  | cons place rest ih =>
      have hrest := ih fun other hother =>
        h other (List.mem_cons_of_mem place hother)
      rw [Library.firstReadable]
      rcases (h place (List.mem_cons_self ..)).cases with
        ⟨text, hread, hfind⟩ | ⟨hread, hfind⟩
      · rw [hread, firstOf?_cons_of_some hfind]
        rfl
      · rw [hread, firstOf?_cons_of_none hfind]
        exact hrest

theorem load_eq_of_mirrors {root : Option Path} {feature : Text}
    {caller : Path}
    (h : ∀ place ∈ Path.candidates root feature caller,
      shelf.Mirrors read place) :
    ((Library.ofReader read root).load feature caller).outcome =
      ((shelf.library root).load feature caller).outcome := by
  have hsearch := outcome_firstReadable h feature
    (Path.candidates root feature caller)
  rw [load_library]
  cases hfirst : shelf.firstOf? (Path.candidates root feature caller) with
  | some loaded =>
      rw [hfirst] at hsearch
      exact hsearch
  | none =>
      rw [hfirst] at hsearch
      exact hsearch

/-- A reader and a shelf that mirrors it answer alike.  For a whole expansion the
shelf has to mirror the reader only at the candidates of the directives that are
come to. -/
theorem reader_interchangeable (read : Path → Except ReadFailure Text)
    (shelf : Shelf) (root : Option Path) :
    (∀ feature caller,
      (∀ place ∈ Path.candidates root feature caller,
        shelf.Mirrors read place) →
      ((Library.ofReader read root).load feature caller).outcome =
        ((shelf.library root).load feature caller).outcome) ∧
    ∀ settings path document,
      (∀ caller directive,
        (shelf.library root).Asks (document.site path) caller directive →
        ∀ place ∈ Path.candidates root directive.feature caller,
          shelf.Mirrors read place) →
      (Library.ofReader read root).expand settings path document =
        (shelf.library root).expand settings path document := by
  refine ⟨fun feature caller => load_eq_of_mirrors, ?_⟩
  intro settings path document h
  symm
  apply Library.expand_eq_of_answers
  intro caller directive hasks
  exact (load_eq_of_mirrors (h caller directive hasks)).symm

/-! ## One file under the root -/

def greetingText : Text :=
  "Scenario: A\nGiven a".toList

def greetingRoot : Path := ⟨"all".toList⟩

def greetingPlace : Path := ⟨"all/lib".toList⟩

def greetingDisk : Disk :=
  Disk.empty.write greetingPlace (String.ofList greetingText).toUTF8.toList

def greetingShelf : Shelf :=
  Shelf.empty.insert greetingPlace greetingText

def greetingCaller : Path := ⟨"on/main".toList⟩

def greetingDocument : Document :=
  ⟨["@include(feature: lib, scenario: A)".toList, "Scenario: B".toList]⟩

def greetingTarget : Link where
  tag := "@include(feature: lib, scenario: A)".toList
  number := 1
  directive := ⟨"lib".toList, "A".toList, []⟩
  excerpt := {
    startLine := 1
    tagLines := []
    lines := ["Scenario: A".toList, "Given a".toList]
    feature := "lib".toList
    source := greetingPlace
    name := "A".toList }

theorem candidates_greeting :
    Path.candidates (some greetingRoot) "lib".toList greetingCaller =
      [⟨"on/lib".toList⟩, greetingPlace] := rfl

/-- Beside the caller there is nothing, on the disk as on the shelf. -/
theorem mirrors_greetingDisk :
    ∀ place ∈ Path.candidates (some greetingRoot) "lib".toList greetingCaller,
      greetingShelf.Mirrors greetingDisk.read place := by
  have hmissing : greetingDisk.read ⟨"on/lib".toList⟩ = .error .missing :=
    rfl
  have hnone : greetingShelf.find? ⟨"on/lib".toList⟩ = none := by
    cbv
  have hread : greetingDisk.read greetingPlace = .ok greetingText := by
    with_unfolding_all rfl
  have hfind : greetingShelf.find? greetingPlace =
      some (Document.ofText greetingText) := rfl
  unfold Mirrors
  rw [candidates_greeting, List.forall_mem_cons, List.forall_mem_singleton,
    hmissing, hread]
  exact ⟨hnone, hfind⟩

theorem numberedTags_greetingDocument :
    numberedTags (greetingDocument.site greetingCaller).lines =
      [(greetingTarget.tag, greetingTarget.number)] := by
  cbv

theorem greetingTarget_from :
    greetingTarget.From (greetingShelf.library (some greetingRoot))
      (greetingDocument.site greetingCaller) where
  mem_tags := by
    rw [numberedTags_greetingDocument]
    exact List.mem_singleton_self _
  ofTag_eq := by cbv
  excerpt_eq := rfl

/-- The document asks for one feature, and the scenario that it gets asks for
none. -/
theorem asks_greetingDocument {caller : Path} {directive : Directive}
    (h : (greetingShelf.library (some greetingRoot)).Asks
      (greetingDocument.site greetingCaller) caller directive) :
    caller = greetingCaller ∧ directive = greetingTarget.directive := by
  rcases h.here_or_below with ⟨hpath, entry, hentry, htag⟩ |
    ⟨link, hfrom, -, hbelow⟩
  · rw [numberedTags_greetingDocument, List.mem_singleton] at hentry
    rw [hentry, greetingTarget_from.ofTag_eq] at htag
    injection htag with hdirective
    exact ⟨hpath.symm, hdirective.symm⟩
  · have hnone : numberedTags greetingTarget.site.lines = [] := by cbv
    rw [hfrom.eq_of_numberedTags greetingTarget_from
      numberedTags_greetingDocument] at hbelow
    exact absurd hbelow (Library.not_asks_of_numberedTags hnone)

theorem reader_interchangeable_greeting :
    ((Library.ofReader greetingDisk.read (some greetingRoot)).load "lib".toList
        greetingCaller).outcome =
      .ok ⟨greetingPlace, Document.ofText greetingText⟩ ∧
    (Library.ofReader greetingDisk.read (some greetingRoot)).expand
        Settings.default greetingCaller greetingDocument =
      .ok ⟨["Scenario: A".toList, "Given a".toList, "Scenario: B".toList]⟩ := by
  have hagree := reader_interchangeable greetingDisk.read greetingShelf
    (some greetingRoot)
  constructor
  · rw [hagree.1 _ _ mirrors_greetingDisk]
    rfl
  · rw [hagree.2 Settings.default greetingCaller greetingDocument]
    · with_unfolding_all rfl
    · intro caller directive hasks
      rcases asks_greetingDocument hasks with ⟨rfl, rfl⟩
      exact mirrors_greetingDisk

end Shelf

end ScenarioInclusion
