import ScenarioInclusion.Library

/-!
# Documents in memory

A shelf holds the documents of texts under normal paths, at most one under each:
what is put under a path takes the place of what was there before.  The library of
a shelf serves the first candidate that is on the shelf.
-/

namespace ScenarioInclusion

@[ext]
structure Shelf where
  entries : List (Path × Document)
  filed : ∀ entry ∈ entries, ∃ path text,
    entry = (Path.normal path, Document.ofText text)
  distinct : entries.Pairwise fun entry other => ¬ entry.1.Same other.1
  deriving DecidableEq, Repr

namespace Shelf

def empty : Shelf := ⟨[], List.forall_mem_nil _, List.Pairwise.nil⟩

def insert (shelf : Shelf) (path : Path) (text : Text) : Shelf where
  entries := (path.normal, Document.ofText text) ::
    shelf.entries.filter fun entry => ¬ entry.1.Same path.normal
  filed := by
    intro entry hentry
    rcases List.mem_cons.mp hentry with rfl | hkept
    · exact ⟨path, text, rfl⟩
    · exact shelf.filed entry (List.mem_filter.mp hkept).1
  distinct := by
    refine List.pairwise_cons.mpr ⟨?_, shelf.distinct.filter _⟩
    intro entry hkept hsame
    have hapart := (List.mem_filter.mp hkept).2
    simp only [decide_not, Bool.not_eq_true', decide_eq_false_iff_not] at hapart
    exact hapart hsame.symm

def find? (shelf : Shelf) (path : Path) : Option Document :=
  (shelf.entries.find? fun entry => entry.1.Same path).map Prod.snd

def firstOf? (shelf : Shelf) (paths : List Path) : Option LoadedFeature :=
  paths.findSome? fun path =>
    (shelf.find? path).map fun document => ⟨path, document⟩

def library (shelf : Shelf) (featuresRoot : Option Path) : Library where
  load feature caller :=
    let searched := Path.candidates featuresRoot feature caller
    match shelf.firstOf? searched with
    | some loaded => pure loaded
    | none => .fail (.notFound feature searched)

@[simp] theorem find?_empty (path : Path) : empty.find? path = none := rfl

theorem find?_insert_of_same {shelf : Shelf} {path place : Path} {text : Text}
    (h : path.normal.Same place) :
    (shelf.insert path text).find? place = some (Document.ofText text) := by
  simp [insert, find?, h]

theorem find?_insert_of_not_same {shelf : Shelf} {path place : Path}
    {text : Text} (h : ¬ path.normal.Same place) :
    (shelf.insert path text).find? place = shelf.find? place := by
  have hfilter : ∀ entry : Path × Document,
      (¬ entry.1.Same path.normal ∧ entry.1.Same place) ↔
        entry.1.Same place := by
    intro entry
    constructor
    · intro hboth
      exact hboth.2
    · intro hplace
      exact ⟨fun hpath => h (hpath.symm.trans hplace), hplace⟩
  simp [insert, find?, h, List.find?_filter, hfilter]

end Shelf

end ScenarioInclusion
