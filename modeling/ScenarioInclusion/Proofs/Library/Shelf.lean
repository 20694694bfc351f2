import ScenarioInclusion.Library.Shelf
import ScenarioInclusion.Proofs.Excerpt
import ScenarioInclusion.Proofs.Path
import Mathlib.Data.List.Induction

/-!
# What is found on a shelf

A search ends at the first candidate under which the shelf has a document, and
says at which one.  So every excerpt from a shelf names the normal path of the
document that it was cut from.
-/

namespace ScenarioInclusion

namespace Shelf

variable {shelf : Shelf} {root : Option Path} {feature scenario : Text}
  {caller : Path}

theorem load_library (shelf : Shelf) (root : Option Path) (feature : Text)
    (caller : Path) :
    (shelf.library root).load feature caller =
      match shelf.firstOf? (Path.candidates root feature caller) with
      | some loaded => pure loaded
      | none => .fail (.notFound feature
          (Path.candidates root feature caller)) :=
  rfl

theorem exists_entry_of_find? {path : Path} {document : Document}
    (h : shelf.find? path = some document) :
    ∃ entry ∈ shelf.entries, entry.1.Same path ∧ entry.2 = document := by
  rcases Option.map_eq_some_iff.mp h with ⟨entry, hfind, heq⟩
  have hsame := List.find?_some hfind
  exact ⟨entry, List.mem_of_find?_eq_some hfind, of_decide_eq_true hsame, heq⟩

theorem find?_eq_of_same {path place : Path} (h : path.Same place) :
    shelf.find? path = shelf.find? place := by
  have hsame : ∀ entry : Path × Document,
      entry.1.Same path ↔ entry.1.Same place := by
    intro entry
    exact ⟨fun hpath => hpath.trans h, fun hplace => hplace.trans h.symm⟩
  simp only [find?, hsame]

theorem firstOf?_cons_of_some {path : Path} {document : Document}
    (h : shelf.find? path = some document) (rest : List Path) :
    shelf.firstOf? (path :: rest) = some ⟨path, document⟩ := by
  simp [firstOf?, h]

theorem firstOf?_cons_of_none {path : Path} (h : shelf.find? path = none)
    (rest : List Path) :
    shelf.firstOf? (path :: rest) = shelf.firstOf? rest := by
  simp [firstOf?, h]

/-- A search ends at the first place with a document on the shelf. -/
theorem firstOf?_eq_some_iff {paths : List Path} {loaded : LoadedFeature} :
    shelf.firstOf? paths = some loaded ↔
      ∃ earlier later, paths = earlier ++ loaded.path :: later ∧
        (∀ other ∈ earlier, shelf.find? other = none) ∧
        shelf.find? loaded.path = some loaded.document := by
  rw [firstOf?, List.findSome?_eq_some_iff]
  constructor
  · intro h
    rcases h with ⟨earlier, path, later, hpaths, hpath, hearlier⟩
    rcases Option.map_eq_some_iff.mp hpath with ⟨document, hfind, rfl⟩
    refine ⟨earlier, later, hpaths, ?_, hfind⟩
    intro other hother
    exact Option.map_eq_none_iff.mp (hearlier other hother)
  · intro h
    rcases h with ⟨earlier, later, hpaths, hearlier, hfind⟩
    refine ⟨earlier, loaded.path, later, hpaths, by simp [hfind], ?_⟩
    intro other hother
    simp [hearlier other hother]

theorem firstOf?_eq_none_iff {paths : List Path} :
    shelf.firstOf? paths = none ↔ ∀ path ∈ paths, shelf.find? path = none := by
  simp [firstOf?]

theorem find?_of_firstOf? {paths : List Path} {loaded : LoadedFeature}
    (h : shelf.firstOf? paths = some loaded) :
    loaded.path ∈ paths ∧ shelf.find? loaded.path = some loaded.document := by
  rcases firstOf?_eq_some_iff.mp h with ⟨earlier, later, rfl, -, hfind⟩
  exact ⟨by simp, hfind⟩

theorem find?_of_load {loaded : LoadedFeature}
    (h : ((shelf.library root).load feature caller).outcome = .ok loaded) :
    loaded.path ∈ Path.candidates root feature caller ∧
      shelf.find? loaded.path = some loaded.document := by
  rw [load_library] at h
  cases hfirst : shelf.firstOf? (Path.candidates root feature caller) with
  | none => simp [hfirst] at h
  | some found =>
      simp only [hfirst, Traced.outcome_pure] at h
      injection h with heq
      rw [← heq]
      exact find?_of_firstOf? hfirst

theorem find?_of_excerpt {excerpt : Excerpt}
    (h : ((shelf.library root).excerpt feature scenario caller).outcome =
      .ok excerpt) :
    excerpt.source ∈ Path.candidates root feature caller ∧
      excerpt.name = scenario ∧
      ∃ document, shelf.find? excerpt.source = some document ∧
        document.passage? scenario = some excerpt.toPassage := by
  rcases Library.excerpt_eq_ok_iff.mp h with
    ⟨loaded, passage, hload, hpassage, rfl⟩
  rcases find?_of_load hload with ⟨hmem, hfind⟩
  exact ⟨hmem, rfl, loaded.document, hfind, hpassage⟩

/-- What is on the shelf after texts were put there, one after the other. -/
def ofInserts (inserts : List (Path × Text)) : Shelf :=
  inserts.foldl (fun shelf entry => shelf.insert entry.1 entry.2) empty

theorem ofInserts_concat (inserts : List (Path × Text)) (path : Path)
    (text : Text) :
    ofInserts (inserts ++ [(path, text)]) =
      (ofInserts inserts).insert path text :=
  List.foldl_concat ..

/-- A shelf is what inserts have made of the empty one. -/
theorem exists_inserts (shelf : Shelf) :
    ∃ inserts, shelf = ofInserts inserts := by
  rcases shelf with ⟨entries, hfiled, hdistinct⟩
  induction entries with
  | nil => exact ⟨[], rfl⟩
  | cons entry rest ih =>
      rcases List.forall_mem_cons.mp hfiled with ⟨⟨path, text, rfl⟩, hrest⟩
      rcases List.pairwise_cons.mp hdistinct with ⟨hapart, hpairwise⟩
      rcases ih hrest hpairwise with ⟨inserts, hshelf⟩
      -- No entry has to make room for the one that is put in last.
      have hkept : rest.filter (fun other => ¬ other.1.Same path.normal) =
          rest := by
        apply List.filter_eq_self.mpr
        intro other hother
        simpa using fun hsame => hapart other hother hsame.symm
      refine ⟨inserts ++ [(path, text)], ?_⟩
      rw [ofInserts_concat, ← hshelf]
      apply Shelf.ext
      exact congrArg (List.cons _) hkept.symm

/-- Was the text put at the place, however it was spelled, and nothing put there
later? -/
def PutLast (inserts : List (Path × Text)) (place : Path) (text : Text) :
    Prop :=
  ∃ earlier path later, inserts = earlier ++ (path, text) :: later ∧
    path.normal.Same place ∧ ∀ entry ∈ later, ¬ entry.1.normal.Same place

section Inserts

variable {inserts : List (Path × Text)} {path place : Path} {text : Text}

/-- The last of the inserts decides, if it was made at the place. -/
theorem putLast_concat_iff {last : Text} :
    PutLast (inserts ++ [(path, text)]) place last ↔
      (path.normal.Same place ∧ last = text) ∨
        (¬ path.normal.Same place ∧ PutLast inserts place last) := by
  constructor
  · intro hput
    rcases hput with ⟨earlier, spelled, later, hsplit, hsame, hlater⟩
    rcases List.eq_nil_or_concat later with rfl | ⟨middle, entry, rfl⟩
    · have hpair := (List.append_inj' hsplit rfl).2
      simp only [List.cons.injEq, Prod.mk.injEq, and_true] at hpair
      rcases hpair with ⟨rfl, rfl⟩
      exact Or.inl ⟨hsame, rfl⟩
    · rw [List.concat_eq_append, ← List.cons_append, ← List.append_assoc]
        at hsplit
      rcases List.append_inj' hsplit rfl with ⟨rfl, hentry⟩
      simp only [List.cons.injEq, and_true] at hentry
      subst hentry
      refine Or.inr ⟨hlater (path, text) (by simp), ?_⟩
      refine ⟨earlier, spelled, middle, rfl, hsame, ?_⟩
      intro other hother
      exact hlater other (by simp [hother])
  · intro h
    rcases h with ⟨hsame, rfl⟩ | ⟨hapart, hput⟩
    · exact ⟨inserts, path, [], rfl, hsame, List.forall_mem_nil _⟩
    · rcases hput with ⟨earlier, spelled, later, rfl, hsame, hlater⟩
      refine ⟨earlier, spelled, later ++ [(path, text)], by simp, hsame, ?_⟩
      intro other hother
      rcases List.mem_append.mp hother with hmem | hmem
      · exact hlater other hmem
      · rw [List.mem_singleton.mp hmem]
        exact hapart

theorem find?_ofInserts_eq_some_iff {document : Document} :
    (ofInserts inserts).find? place = some document ↔
      ∃ text, PutLast inserts place text ∧ document = Document.ofText text := by
  induction inserts using List.reverseRecOn with
  | nil => simp [ofInserts, PutLast]
  | append_singleton earlier entry ih =>
      rcases entry with ⟨path, text⟩
      rw [ofInserts_concat]
      by_cases hsame : path.normal.Same place
      · simp [find?_insert_of_same hsame, putLast_concat_iff, hsame, eq_comm]
      · simp [find?_insert_of_not_same hsame, putLast_concat_iff, hsame, ih]

theorem find?_ofInserts_eq_none_iff :
    (ofInserts inserts).find? place = none ↔
      ∀ entry ∈ inserts, ¬ entry.1.normal.Same place := by
  induction inserts using List.reverseRecOn with
  | nil => simp [ofInserts]
  | append_singleton earlier entry ih =>
      rcases entry with ⟨path, text⟩
      rw [ofInserts_concat, List.forall_mem_append, List.forall_mem_singleton]
      by_cases hsame : path.normal.Same place
      · simp [find?_insert_of_same hsame, hsame]
      · simp only [find?_insert_of_not_same hsame, ih, hsame,
          not_false_eq_true, and_true]

theorem exists_insert_of_find? {document : Document}
    (h : (ofInserts inserts).find? place = some document) :
    ∃ entry ∈ inserts, entry.1.normal.Same place ∧
      document = Document.ofText entry.2 := by
  rcases find?_ofInserts_eq_some_iff.mp h with ⟨text, hput, hdocument⟩
  rcases hput with ⟨earlier, path, later, rfl, hsame, -⟩
  exact ⟨(path, text), by simp, hsame, hdocument⟩

end Inserts

end Shelf

end ScenarioInclusion
