import ScenarioInclusion.Proofs.Expansion.Questions
import ScenarioInclusion.Proofs.Library.Shelf

/-!
# Documents put on a shelf later

Without a features root there is one place where a feature can be, so a document
that was found there is found there still when others are put on the shelf.  Only
a question that had no answer may get one.

An expansion that did not end with such a question is therefore the same on the
larger shelf, be it successful or not.
-/

namespace ScenarioInclusion

namespace Shelf

/-- Does the shelf hold all that the smaller one holds, unchanged? -/
def Extends (shelf smaller : Shelf) : Prop :=
  ∀ path document, smaller.find? path = some document →
    shelf.find? path = some document

variable {shelf smaller : Shelf}

theorem Extends.refl (shelf : Shelf) : shelf.Extends shelf :=
  fun _ _ h => h

/-- A document under a path of its own disturbs no other. -/
theorem Extends.insert (h : shelf.Extends smaller) {path : Path}
    (hnew : smaller.find? path.normal = none) (text : Text) :
    (shelf.insert path text).Extends smaller := by
  intro place document hfind
  have hother : ¬ path.normal.Same place := by
    intro hsame
    rw [find?_eq_of_same hsame, hfind] at hnew
    contradiction
  rw [find?_insert_of_not_same hother]
  exact h place document hfind

theorem exists_candidates_none (feature : Text) (caller : Path) :
    ∃ place, Path.candidates none feature caller = [place] := by
  unfold Path.candidates
  split
  · exact ⟨_, rfl⟩
  · exact ⟨_, rfl⟩

theorem load_of_extends (h : shelf.Extends smaller) (feature : Text)
    (caller : Path) :
    (∃ cause, ((smaller.library none).load feature caller).outcome =
      .error cause) ∨
    ((smaller.library none).load feature caller).outcome =
      ((shelf.library none).load feature caller).outcome := by
  rcases exists_candidates_none feature caller with ⟨place, hcandidates⟩
  rw [load_library, load_library, hcandidates]
  cases hfind : smaller.find? place with
  | none =>
      left
      rw [firstOf?_cons_of_none hfind]
      exact ⟨_, rfl⟩
  | some document =>
      right
      rw [firstOf?_cons_of_some hfind, firstOf?_cons_of_some (h _ _ hfind)]

/-- What does not end for want of a feature is not disturbed by further
documents. -/
theorem expand_of_extends (h : shelf.Extends smaller) (settings : Settings)
    (path : Path) (document : Document)
    (hfound : ∀ feature caller cause,
      (smaller.library none).expand settings path document ≠
        .error (.featureNotFound feature caller cause)) :
    (shelf.library none).expand settings path document =
      (smaller.library none).expand settings path document := by
  have hanswers : Library.AnsweredAlike
      (fun fault => ∃ feature caller cause,
        fault = .featureNotFound feature caller cause)
      (smaller.library none) (shelf.library none) (document.site path) := by
    intro caller directive _
    rcases load_of_extends h directive.feature caller with
      ⟨cause, hmissing⟩ | hsame
    · exact Or.inl ⟨cause, ⟨_, _, _, rfl⟩, hmissing⟩
    · exact Or.inr hsame
  rcases Library.eqUnless_expand hanswers with
    ⟨fault, ⟨feature, caller, cause, rfl⟩, hfault⟩ | hsame
  · exact absurd hfault (hfound feature caller cause)
  · exact hsame.symm

/-! ## One more document -/

def smallShelf : Shelf :=
  Shelf.empty.insert ⟨"lib".toList⟩ "Scenario: A\nGiven a".toList

def largeShelf : Shelf :=
  smallShelf.insert ⟨"new".toList⟩ "Scenario: A\nGiven n".toList

def lookingDocument : Document :=
  ⟨["@include(feature: ./x/../lib, scenario: A)".toList]⟩

theorem expand_largeShelf :
    largeShelf.Extends smallShelf ∧
    (largeShelf.library none).expand Settings.default ⟨"main".toList⟩
        lookingDocument =
      .ok ⟨["Scenario: A".toList, "Given a".toList]⟩ := by
  have hextends : largeShelf.Extends smallShelf :=
    (Extends.refl smallShelf).insert (by decide +kernel) _
  have hsmall : (smallShelf.library none).expand Settings.default
      ⟨"main".toList⟩ lookingDocument =
        .ok ⟨["Scenario: A".toList, "Given a".toList]⟩ := by
    cbv
  refine ⟨hextends, ?_⟩
  rw [expand_of_extends hextends, hsmall]
  intro feature caller cause hmissing
  rw [hsmall] at hmissing
  contradiction

end Shelf

end ScenarioInclusion
