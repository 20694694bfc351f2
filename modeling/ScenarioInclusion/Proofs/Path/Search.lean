import ScenarioInclusion.Proofs.Path.Place

/-!
# A search does not see how paths are spelled

The places where a feature is looked for are normal paths, in an order that puts
the one in the directory of the caller first.  They depend on the normal forms of
the name, of the caller and of the features root and on nothing else, for joining
and finding the directory of a file do so.
-/

namespace ScenarioInclusion

open Component

namespace Path

/-- Maybe the root, then double dots, then names. -/
def InOrder (components : List Component) : Prop :=
  ∃ (base : List Component) (ups : Nat) (names : List Text),
    (base = [] ∨ base = [root]) ∧
      components = base ++ (List.replicate ups up ++ names.map name)

theorem inOrder_components_normal (path : Path) :
    InOrder path.normal.components := by
  obtain ⟨names, ups, base, hplace, hbase⟩ := path.layered_place
  refine ⟨base, ups, names.reverse, hbase, ?_⟩
  have hreverse : base.reverse = base := by
    rcases hbase with rfl | rfl <;> rfl
  have hcomponents : path.normal.components = path.place.reverse := by
    rw [place_eq_reverse, List.reverse_reverse]
  rw [hcomponents, hplace, List.reverse_append, List.reverse_append,
    hreverse, List.reverse_replicate, List.append_assoc, List.map_reverse]

section Spelling

variable {path path' : Path} (hpath : path.normal = path'.normal)

include hpath

theorem isAbsolute_iff_of_normal_eq : path.IsAbsolute ↔ path'.IsAbsolute := by
  rw [← isAbsolute_normal_iff, hpath, isAbsolute_normal_iff]

variable (hrelative : ¬ path.IsAbsolute)

include hrelative

theorem under_eq_of_normal_eq {directory directory' : Path}
    (hdirectory : directory.normal = directory'.normal) :
    directory.under path = directory'.under path' := by
  have hrelative' : ¬ path'.IsAbsolute := fun habsolute =>
    hrelative ((isAbsolute_iff_of_normal_eq hpath).mpr habsolute)
  rw [under, under, normal_join hrelative, normal_join hrelative',
    hdirectory, hpath]

theorem beside_eq_of_normal_eq {caller caller' : Path}
    (hfile : caller.fileName?.isSome) (hfile' : caller'.fileName?.isSome)
    (hcaller : caller.normal = caller'.normal) :
    caller.beside path = caller'.beside path' := by
  obtain ⟨text, htext⟩ := Option.isSome_iff_exists.mp hfile
  obtain ⟨text', htext'⟩ := Option.isSome_iff_exists.mp hfile'
  have hplace := place_eq_of_normal_eq hcaller
  rw [place_eq_cons_of_fileName? htext,
    place_eq_cons_of_fileName? htext'] at hplace
  injection hplace with _ hdirectory
  exact under_eq_of_normal_eq hpath hrelative
    (normal_eq_of_place_eq hdirectory)

end Spelling

theorem candidates_eq_of_normal_eq {root root' : Option Path}
    {feature feature' : Text} {caller caller' : Path}
    (hfile : caller.fileName?.isSome) (hfile' : caller'.fileName?.isSome)
    (hfeature : normal ⟨feature⟩ = normal ⟨feature'⟩)
    (hcaller : caller.normal = caller'.normal)
    (hroot : root.map normal = root'.map normal) :
    candidates root feature caller = candidates root' feature' caller' := by
  unfold candidates
  by_cases habsolute : IsAbsolute ⟨feature⟩
  · have habsolute' := (isAbsolute_iff_of_normal_eq hfeature).mp habsolute
    rw [if_pos habsolute, if_pos habsolute', hfeature]
  · have habsolute' : ¬ IsAbsolute ⟨feature'⟩ := fun h =>
      habsolute ((isAbsolute_iff_of_normal_eq hfeature).mpr h)
    rw [if_neg habsolute, if_neg habsolute',
      beside_eq_of_normal_eq hfeature habsolute hfile hfile' hcaller]
    cases root with
    | none =>
        cases root' with
        | none => rfl
        | some directory' => contradiction
    | some directory =>
        cases root' with
        | none => contradiction
        | some directory' =>
            injection hroot with hdirectory
            simp only [under_eq_of_normal_eq hfeature habsolute hdirectory]

variable {featuresRoot : Option Path} {feature : Text} {caller : Path}

theorem pairwise_candidates :
    (candidates featuresRoot feature caller).Pairwise
      fun path other => ¬ path.Same other := by
  unfold candidates
  split
  · exact List.pairwise_singleton ..
  · split
    · exact List.pairwise_singleton ..
    · split
      · exact List.pairwise_singleton ..
      · next hdiffer =>
          rw [List.pairwise_pair]
          exact fun hsame => hdiffer hsame.symm

section Relative

variable (h : ¬ IsAbsolute ⟨feature⟩)

include h

theorem head?_candidates :
    (candidates featuresRoot feature caller).head? =
      some (caller.directory.join ⟨feature⟩).normal := by
  unfold candidates
  rw [if_neg h]
  split
  · rfl
  · split <;> rfl

theorem mem_candidates_iff {path : Path} :
    path ∈ candidates featuresRoot feature caller ↔
      path = (caller.directory.join ⟨feature⟩).normal ∨
        ∃ root ∈ featuresRoot, path = (root.join ⟨feature⟩).normal := by
  unfold candidates beside under
  rw [if_neg h]
  split
  · simp
  · next root =>
      split
      · next hsame =>
          -- The two places are the same, and so is the way to write them.
          have heq : (root.join ⟨feature⟩).normal =
              (caller.directory.join ⟨feature⟩).normal :=
            normal_eq_of_same hsame
          simp [heq]
      · simp

end Relative

/-- A normal path is the one way to write a place, and neither joining nor a
search sees how paths are spelled.  A search goes through different places, the
one in the directory of the caller first; an absolute name has only its own. -/
theorem spelling_immaterial :
    (∀ path : Path, InOrder path.normal.components ∧
      path.normal.place = path.place ∧
      path.normal.normal = path.normal) ∧
    (∀ path other : Path, path.normal.Same other.normal →
      path.normal = other.normal) ∧
    (∀ directory path : Path, ¬ path.IsAbsolute →
      (directory.join path).place =
        path.components.foldl settle directory.place ∧
      (directory.join path).normal =
        (directory.normal.join path.normal).normal) ∧
    (∀ (caller : Path) (file : Text), caller.fileName? = some file →
      caller.components = caller.directory.components ++ [name file]) ∧
    (∀ (root root' : Option Path) (feature feature' : Text)
        (caller caller' : Path),
      caller.fileName?.isSome → caller'.fileName?.isSome →
      normal ⟨feature⟩ = normal ⟨feature'⟩ →
      caller.normal = caller'.normal →
      root.map normal = root'.map normal →
        candidates root feature caller =
          candidates root' feature' caller') ∧
    ∀ (root : Option Path) (feature : Text) (caller : Path),
      candidates root feature caller ≠ [] ∧
      ((candidates root feature caller).Pairwise
        fun path other => ¬ path.Same other) ∧
      (IsAbsolute ⟨feature⟩ →
        candidates root feature caller = [normal ⟨feature⟩]) ∧
      (¬ IsAbsolute ⟨feature⟩ →
        (candidates root feature caller).head? =
          some (caller.directory.join ⟨feature⟩).normal ∧
        ∀ path, path ∈ candidates root feature caller ↔
          path = (caller.directory.join ⟨feature⟩).normal ∨
            ∃ directory ∈ root,
              path = (directory.join ⟨feature⟩).normal) := by
  refine ⟨?_, fun _ _ => normal_eq_of_same, ?_,
    fun _ _ => components_eq_of_fileName?, ?_, ?_⟩
  · intro path
    exact ⟨path.inOrder_components_normal,
      place_eq_of_normal_eq path.normal_normal, path.normal_normal⟩
  · intro directory path hrelative
    exact ⟨place_join hrelative, normal_join hrelative⟩
  · intro root root' feature feature' caller caller' hfile hfile'
    exact candidates_eq_of_normal_eq hfile hfile'
  · intro root feature caller
    refine ⟨candidates_ne_nil root feature caller, pairwise_candidates,
      fun h => ?_, fun h => ⟨head?_candidates h, fun _ =>
        mem_candidates_iff h⟩⟩
    unfold candidates
    rw [if_pos h]

/-! ## Spellings of one search -/

theorem spelling_immaterial_lookup :
    normal ⟨"/a/./../..//b".toList⟩ = ⟨"/../b".toList⟩ ∧
    normal ⟨"/a/./../..//b".toList⟩ = normal ⟨"//../b/c/..".toList⟩ ∧
    (join ⟨"/a/..".toList⟩ ⟨"./../b//".toList⟩).normal =
      (join (normal ⟨"/a/..".toList⟩) (normal ⟨"./../b//".toList⟩)).normal ∧
    candidates (some ⟨"./lib/".toList⟩) "../x/pay".toList
        ⟨"main//a/./f".toList⟩ =
      candidates (some ⟨"lib".toList⟩) "./y/..//../x/pay".toList
        ⟨"z/../main/a/f".toList⟩ ∧
    candidates none "/a/../pay".toList ⟨"main/f".toList⟩ =
      [⟨"/pay".toList⟩] ∧
    components ⟨"main/a/f".toList⟩ =
      (directory ⟨"main/a/f".toList⟩).components ++ [name "f".toList] ∧
    (candidates (some ⟨"lib".toList⟩) "pay".toList
        ⟨"main/a/f".toList⟩).head? = some ⟨"main/a/pay".toList⟩ ∧
    ⟨"lib/pay".toList⟩ ∈ candidates (some ⟨"lib".toList⟩) "pay".toList
      ⟨"main/a/f".toList⟩ ∧
    candidates (some ⟨"lib".toList⟩) "pay".toList ⟨"main/a/f".toList⟩ =
      [⟨"main/a/pay".toList⟩, ⟨"lib/pay".toList⟩] := by
  obtain ⟨-, hsame, hjoin, hfile, hspelled, hsearch⟩ := spelling_immaterial
  obtain ⟨-, -, -, hrelative⟩ := hsearch (some ⟨"lib".toList⟩) "pay".toList
    ⟨"main/a/f".toList⟩
  obtain ⟨hfirst, hmem⟩ := hrelative (by decide)
  have hbeside : (join (directory ⟨"main/a/f".toList⟩)
      ⟨"pay".toList⟩).normal = ⟨"main/a/pay".toList⟩ := by cbv
  have hunder : (join ⟨"lib".toList⟩ ⟨"pay".toList⟩).normal =
      ⟨"lib/pay".toList⟩ := by cbv
  refine ⟨by cbv, hsame _ _ (by cbv), (hjoin _ _ (by decide)).2,
    hspelled _ _ _ _ _ _ (by cbv) (by cbv) (by cbv) (by cbv) (by cbv), ?_,
    hfile _ _ (by cbv), ?_, ?_, by decide +kernel⟩
  · have hnormal : normal ⟨"/a/../pay".toList⟩ = ⟨"/pay".toList⟩ := by cbv
    rw [← hnormal]
    exact (hsearch none _ _).2.2.1 (by decide)
  · rw [hfirst, hbeside]
  · exact (hmem _).mpr (Or.inr ⟨_, rfl, hunder.symm⟩)

end Path

end ScenarioInclusion
