import ScenarioInclusion.Proofs.Library.Shelf
import ScenarioInclusion.Proofs.Traced

/-!
# Shelves that correspond

Two shelves correspond if they have documents under the same paths and these
correspond, each to the other under its path.  Then every search ends at the same
path on both, or fails alike on both; and where corresponding documents have
corresponding passages, so do the shelves have corresponding excerpts.
-/

namespace ScenarioInclusion

/-- Excerpts asked for and found alike, with passages that correspond. -/
structure Excerpt.Related (P : Passage → Passage → Prop)
    (excerpt other : Excerpt) : Prop where
  passage : P excerpt.toPassage other.toPassage
  feature_eq : excerpt.feature = other.feature
  source_eq : excerpt.source = other.source
  name_eq : excerpt.name = other.name

namespace Shelf

variable {S : Document → Document → Prop} {P : Passage → Passage → Prop}
  {shelf other : Shelf}

def Related (S : Document → Document → Prop) (shelf other : Shelf) : Prop :=
  ∀ path, Option.Rel S (shelf.find? path) (other.find? path)

theorem Related.refl (hS : ∀ document, S document document) (shelf : Shelf) :
    shelf.Related S shelf := by
  intro path
  cases shelf.find? path with
  | none => exact Option.Rel.none
  | some document => exact Option.Rel.some (hS document)

theorem Related.insert (h : shelf.Related S other) (path : Path)
    {text text' : Text}
    (htext : S (Document.ofText text) (Document.ofText text')) :
    (shelf.insert path text).Related S (other.insert path text') := by
  intro place
  by_cases hsame : path.normal.Same place
  · rw [find?_insert_of_same hsame, find?_insert_of_same hsame]
    exact Option.Rel.some htext
  · rw [find?_insert_of_not_same hsame, find?_insert_of_not_same hsame]
    exact h place

theorem firstOf?_of_related (h : shelf.Related S other) (paths : List Path) :
    Option.Rel
      (fun loaded loaded' => loaded.path = loaded'.path ∧
        S loaded.document loaded'.document)
      (shelf.firstOf? paths) (other.firstOf? paths) := by
  unfold firstOf?
  induction paths with
  | nil => exact Option.Rel.none
  | cons path rest ih =>
      rw [List.findSome?_cons, List.findSome?_cons]
      have hpath := h path
      generalize shelf.find? path = found at hpath
      generalize other.find? path = found' at hpath
      cases hpath with
      | none => exact ih
      | some hdocument => exact Option.Rel.some ⟨rfl, hdocument⟩

theorem load_of_related (h : shelf.Related S other) (root : Option Path)
    (feature : Text) (caller : Path) :
    Traced.Related
      (fun loaded loaded' => loaded.path = loaded'.path ∧
        S loaded.document loaded'.document)
      ((shelf.library root).load feature caller)
      ((other.library root).load feature caller) := by
  have hfirst := firstOf?_of_related h (Path.candidates root feature caller)
  rw [load_library, load_library]
  generalize shelf.firstOf? (Path.candidates root feature caller) = found
    at hfirst
  generalize other.firstOf? (Path.candidates root feature caller) = found'
    at hfirst
  cases hfirst with
  | none => exact Traced.Related.fail _
  | some hloaded => exact Traced.Related.pure hloaded

theorem excerpt_of_related
    (hpassage : ∀ document document' name, S document document' →
      Option.Rel P (document.passage? name) (document'.passage? name))
    (hlength : ∀ passage passage', P passage passage' →
      passage.lines.length = passage'.lines.length)
    (h : shelf.Related S other) (root : Option Path)
    (feature scenario : Text) (caller : Path) :
    Traced.Related (Excerpt.Related P)
      ((shelf.library root).excerpt feature scenario caller)
      ((other.library root).excerpt feature scenario caller) := by
  unfold Library.excerpt
  apply ((load_of_related h root feature caller).mapError _).bind
  rintro ⟨path, document⟩ ⟨path', document'⟩ ⟨hpath, hdocument⟩
  have hfound := hpassage _ _ scenario hdocument
  simp only at hpath hfound ⊢
  subst hpath
  generalize document.passage? scenario = found at hfound
  generalize document'.passage? scenario = found' at hfound
  cases hfound with
  | none => exact Traced.Related.fail _
  | @some passage passage' hrelated =>
      simp only [hlength _ _ hrelated]
      apply (Traced.Related.refl _).bind
      intro _ _ _
      exact Traced.Related.pure ⟨hrelated, rfl, rfl, rfl⟩

end Shelf

end ScenarioInclusion
