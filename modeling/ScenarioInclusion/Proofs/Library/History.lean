import ScenarioInclusion.Proofs.Library.Shelf

/-!
# What a history of inserts leaves on a shelf

Texts are put under paths one after the other, and one place may be spelled in
many ways.  What a search then gives is said of the inserts alone: it ends at the
first candidate where anything was put, and what it finds there is the text that
was put there last.  If nothing was put at any candidate, the search fails and
names all of them.

Inserts at different places do not touch each other, so it does not matter which
of them is made first.
-/

namespace ScenarioInclusion

namespace Shelf

/-! ## One search -/

/-- The feature comes from the first of the places where anything was put, and is
what was put there last. -/
structure Serves (inserts : List (Path × Text)) (places : List Path)
    (loaded : LoadedFeature) : Prop where
  first : ∃ earlier later, places = earlier ++ loaded.path :: later ∧
    ∀ other ∈ earlier, ∀ entry ∈ inserts, ¬ entry.1.normal.Same other
  last : ∃ text, PutLast inserts loaded.path text ∧
    loaded.document = Document.ofText text

variable {inserts : List (Path × Text)} {places : List Path}

theorem firstOf?_ofInserts_eq_some_iff {loaded : LoadedFeature} :
    (ofInserts inserts).firstOf? places = some loaded ↔
      Serves inserts places loaded := by
  rw [firstOf?_eq_some_iff]
  simp only [find?_ofInserts_eq_none_iff, find?_ofInserts_eq_some_iff]
  constructor
  · intro h
    rcases h with ⟨earlier, later, hplaces, hearlier, hlast⟩
    exact ⟨⟨earlier, later, hplaces, hearlier⟩, hlast⟩
  · intro h
    rcases h.first with ⟨earlier, later, hplaces, hearlier⟩
    exact ⟨earlier, later, hplaces, hearlier, h.last⟩

theorem firstOf?_ofInserts_eq_none_iff :
    (ofInserts inserts).firstOf? places = none ↔
      ∀ place ∈ places, ∀ entry ∈ inserts, ¬ entry.1.normal.Same place := by
  simp only [firstOf?_eq_none_iff, find?_ofInserts_eq_none_iff]

section Load

variable {shelf : Shelf} {root : Option Path} {feature : Text} {caller : Path}

theorem load_eq_pure_iff {loaded : LoadedFeature} :
    (shelf.library root).load feature caller = pure loaded ↔
      shelf.firstOf? (Path.candidates root feature caller) = some loaded := by
  rw [load_library]
  cases hfirst : shelf.firstOf? (Path.candidates root feature caller) with
  | none =>
      constructor
      · intro h
        have houtcome := congrArg Traced.outcome h
        contradiction
      · intro h
        contradiction
  | some found =>
      constructor
      · intro h
        have houtcome := congrArg Traced.outcome h
        injection houtcome with heq
        rw [heq]
      · intro h
        injection h with heq
        rw [heq]

theorem load_of_firstOf?_eq_none
    (h : shelf.firstOf? (Path.candidates root feature caller) = none) :
    (shelf.library root).load feature caller =
      .fail (.notFound feature (Path.candidates root feature caller)) := by
  rw [load_library, h]

end Load

/-! ## Inserts at different places -/

theorem find?_insert (shelf : Shelf) (path place : Path) (text : Text) :
    (shelf.insert path text).find? place =
      if path.normal.Same place then some (Document.ofText text)
      else shelf.find? place := by
  by_cases h : path.normal.Same place
  · rw [find?_insert_of_same h, if_pos h]
  · rw [find?_insert_of_not_same h, if_neg h]

/-- What a library serves depends on the shelf only by what is found there. -/
theorem library_congr {shelf other : Shelf}
    (h : ∀ place, shelf.find? place = other.find? place)
    (root : Option Path) : shelf.library root = other.library root := by
  have hfirst : shelf.firstOf? = other.firstOf? := by
    funext places
    simp only [firstOf?, h]
  simp only [library, hfirst]

theorem find?_ofInserts_swap {first second : Path × Text}
    (hne : first.1.normal ≠ second.1.normal)
    (later : List (Path × Text)) (place : Path) :
    (ofInserts (inserts ++ first :: second :: later)).find? place =
      (ofInserts (inserts ++ second :: first :: later)).find? place := by
  induction later using List.reverseRecOn with
  | nil =>
      have hapart : ¬ (first.1.normal.Same place ∧
          second.1.normal.Same place) := by
        intro hboth
        exact hne (Path.normal_eq_of_same (hboth.1.trans hboth.2.symm))
      simp only [ofInserts, List.foldl_append, List.foldl_cons,
        List.foldl_nil, find?_insert]
      by_cases hfirst : first.1.normal.Same place
      · have hsecond : ¬ second.1.normal.Same place := fun hsecond =>
          hapart ⟨hfirst, hsecond⟩
        simp [hfirst, hsecond]
      · simp [hfirst]
  | append_singleton later entry ih =>
      rw [← List.cons_append, ← List.cons_append, ← List.append_assoc,
        ← List.cons_append, ← List.cons_append, ← List.append_assoc,
        ofInserts_concat, ofInserts_concat, find?_insert, find?_insert, ih]

/-! ## Histories -/

/-- After any history of inserts, a search gives the first candidate where
anything was put, with what was put there last, or it fails with all candidates;
and two inserts at different places may be made in either order. -/
theorem history_exact (inserts : List (Path × Text)) (root : Option Path) :
    (∀ feature caller loaded,
      ((ofInserts inserts).library root).load feature caller = pure loaded ↔
        Serves inserts (Path.candidates root feature caller) loaded) ∧
    (∀ feature caller,
      (∃ place ∈ Path.candidates root feature caller, ∃ entry ∈ inserts,
        entry.1.normal.Same place) →
      ∃ loaded, ((ofInserts inserts).library root).load feature caller =
        pure loaded) ∧
    (∀ feature caller,
      (∀ place ∈ Path.candidates root feature caller, ∀ entry ∈ inserts,
        ¬ entry.1.normal.Same place) →
      ((ofInserts inserts).library root).load feature caller =
        .fail (.notFound feature (Path.candidates root feature caller))) ∧
    ∀ first second later, first.1.normal ≠ second.1.normal →
      (ofInserts (inserts ++ first :: second :: later)).library root =
        (ofInserts (inserts ++ second :: first :: later)).library root := by
  refine ⟨?_, ?_, ?_, ?_⟩
  · intro feature caller loaded
    rw [load_eq_pure_iff, firstOf?_ofInserts_eq_some_iff]
  · intro feature caller hput
    cases hfirst : (ofInserts inserts).firstOf?
        (Path.candidates root feature caller) with
    | some loaded => exact ⟨loaded, load_eq_pure_iff.mpr hfirst⟩
    | none =>
        rcases hput with ⟨place, hplace, entry, hentry, hsame⟩
        have hnone := firstOf?_ofInserts_eq_none_iff.mp hfirst
        exact absurd hsame (hnone place hplace entry hentry)
  · intro feature caller hnone
    exact load_of_firstOf?_eq_none (firstOf?_ofInserts_eq_none_iff.mpr hnone)
  · intro first second later hne
    exact library_congr (find?_ofInserts_swap hne later) root

/-! ## A place that is spelled anew -/

def respelledInserts : List (Path × Text) :=
  [(⟨"a/x/../pay".toList⟩, "old".toList),
    (⟨"./all/pay".toList⟩, "rooted".toList),
    (⟨"a//pay".toList⟩, "Feature: new\r\n".toList)]

theorem candidates_pay :
    Path.candidates (some ⟨"all/".toList⟩) "./pay".toList ⟨"a/f".toList⟩ =
      [⟨"a/pay".toList⟩, ⟨"all/pay".toList⟩] := by
  decide +kernel

theorem candidates_gone :
    Path.candidates (some ⟨"all/".toList⟩) "gone".toList ⟨"a/f".toList⟩ =
      [⟨"a/gone".toList⟩, ⟨"all/gone".toList⟩] := by
  decide +kernel

/-- The document beside the caller hides the one under the root, and its second
text has taken the place of the first. -/
theorem history_exact_respelledInserts :
    ((ofInserts respelledInserts).library (some ⟨"all/".toList⟩)).load
        "./pay".toList ⟨"a/f".toList⟩ =
      pure ⟨⟨"a/pay".toList⟩, ⟨["Feature: new".toList]⟩⟩ ∧
    (∃ loaded, ((ofInserts respelledInserts).library
        (some ⟨"all/".toList⟩)).load "./pay".toList ⟨"a/f".toList⟩ =
      pure loaded) ∧
    ((ofInserts respelledInserts).library (some ⟨"all/".toList⟩)).load
        "gone".toList ⟨"a/f".toList⟩ =
      .fail (.notFound "gone".toList
        [⟨"a/gone".toList⟩, ⟨"all/gone".toList⟩]) ∧
    (ofInserts (respelledInserts ++
        [(⟨"a".toList⟩, []), (⟨"b/../c".toList⟩, [])])).library none =
      (ofInserts (respelledInserts ++
        [(⟨"b/../c".toList⟩, []), (⟨"a".toList⟩, [])])).library none := by
  have hhistory := history_exact respelledInserts (some ⟨"all/".toList⟩)
  refine ⟨?_, ?_, ?_, ?_⟩
  · rw [hhistory.1, candidates_pay]
    refine ⟨⟨[], [⟨"all/pay".toList⟩], rfl, List.forall_mem_nil _⟩,
      "Feature: new\r\n".toList, ?_, by decide +kernel⟩
    exact ⟨respelledInserts.take 2, ⟨"a//pay".toList⟩, [], rfl,
      by decide +kernel, List.forall_mem_nil _⟩
  · apply hhistory.2.1
    rw [candidates_pay]
    exact ⟨⟨"all/pay".toList⟩, by simp, (⟨"./all/pay".toList⟩, _),
      List.mem_cons_of_mem _ (List.mem_cons_self ..), by decide +kernel⟩
  · rw [← candidates_gone]
    apply hhistory.2.2.1
    rw [candidates_gone]
    decide +kernel
  · exact (history_exact respelledInserts none).2.2.2 _ _ []
      (by decide +kernel)

end Shelf

end ScenarioInclusion
