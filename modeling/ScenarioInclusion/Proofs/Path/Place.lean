import ScenarioInclusion.Proofs.Path
import Mathlib.Data.List.Induction

/-!
# Where a path leads

The place of a path is what settling its components one after the other leaves.
To go on from a place it does not matter how a path is spelled: its normal form
leads on to the same place.  So joining paths and finding the directory of a file
are operations on places.

A place has the root or nothing at its bottom, then only double dots and then only
names.
-/

namespace ScenarioInclusion

open Component

namespace Component

/-! ## Settling -/

/-- A dot is dropped, two dots may take back the name before them, and any other
component is kept. -/
theorem settle_cases (above : List Component) (component : Component) :
    (component = here ∧ settle above component = above) ∨
    (∃ text rest, component = up ∧ above = name text :: rest ∧
      settle above component = rest) ∨
    (component ≠ here ∧ settle above component = component :: above ∧
      (component = up → ∀ text, above.head? ≠ some (name text))) := by
  cases component with
  | root => simp [settle]
  | here => simp [settle]
  | name text => simp [settle]
  | up =>
      cases above with
      | nil => simp [settle]
      | cons first rest => cases first <;> simp [settle]

/-- From any place, settled components lead on to where the components led that
were settled. -/
theorem foldl_settle_reverse (components above : List Component) :
    (components.foldl settle []).reverse.foldl settle above =
      components.foldl settle above := by
  induction components using List.reverseRecOn with
  | nil => rfl
  | append_singleton components last ih =>
      rw [List.foldl_append, List.foldl_append, List.foldl_cons,
        List.foldl_cons, List.foldl_nil, List.foldl_nil]
      rcases settle_cases (components.foldl settle []) last with
        ⟨rfl, hplace⟩ | ⟨text, rest, rfl, hname, hplace⟩ |
          ⟨-, hplace, -⟩
      · rw [hplace, ih]
        rfl
      · -- Settled first or not, the two dots take back the same name.
        rw [hname, List.reverse_cons, List.foldl_append] at ih
        rw [hplace, ← ih]
        rfl
      · rw [hplace, List.reverse_cons, List.foldl_append, ih]
        rfl

theorem root_mem_settle_iff {above : List Component} {component : Component} :
    root ∈ settle above component ↔ root ∈ above ∨ component = root := by
  rcases settle_cases above component with
    ⟨rfl, hplace⟩ | ⟨text, rest, rfl, rfl, hplace⟩ | ⟨-, hplace, -⟩
  · simp [hplace]
  · simp [hplace]
  · rw [hplace, List.mem_cons, or_comm, eq_comm (a := root)]

theorem root_mem_foldl_settle_iff {components above : List Component} :
    root ∈ components.foldl settle above ↔
      root ∈ above ∨ root ∈ components := by
  induction components generalizing above with
  | nil => simp
  | cons component rest ih =>
      rw [List.foldl_cons, ih, root_mem_settle_iff, List.mem_cons, or_assoc,
        eq_comm (a := component)]

/-- Components with the innermost first: names, then double dots, then the root
or nothing. -/
def Layered (above : List Component) : Prop :=
  ∃ (names : List Text) (ups : Nat) (base : List Component),
    above = names.map name ++ (List.replicate ups up ++ base) ∧
      (base = [] ∨ base = [root])

theorem Layered.settle {above : List Component} (h : Layered above)
    {component : Component} (hroot : component ≠ root) :
    Layered (settle above component) := by
  rcases h with ⟨names, ups, base, habove, hbase⟩
  rcases settle_cases above component with
    ⟨-, hplace⟩ | ⟨text, rest, -, rfl, hplace⟩ | ⟨hhere, hplace, hup⟩
  · exact ⟨names, ups, base, hplace.trans habove, hbase⟩
  · cases names with
    | nil =>
        -- Below the names there is none that could be taken back.
        cases ups with
        | zero => rcases hbase with rfl | rfl <;> simp at habove
        | succ ups => simp [List.replicate_succ] at habove
    | cons first names =>
        rw [List.map_cons, List.cons_append] at habove
        injection habove with _ hrest
        exact ⟨names, ups, base, hplace.trans hrest, hbase⟩
  · cases component with
    | root => contradiction
    | here => contradiction
    | name text =>
        exact ⟨text :: names, ups, base, by rw [hplace, habove]; rfl, hbase⟩
    | up =>
        cases names with
        | nil =>
            exact ⟨[], ups + 1, base, by rw [hplace, habove]; rfl, hbase⟩
        | cons first names =>
            rw [habove] at hup
            exact absurd rfl (hup rfl first)

theorem Layered.foldl_settle {above components : List Component}
    (h : Layered above) (hroot : ∀ component ∈ components, component ≠ root) :
    Layered (components.foldl Component.settle above) := by
  induction components generalizing above with
  | nil => exact h
  | cons component rest ih =>
      rw [List.forall_mem_cons] at hroot
      exact ih (h.settle hroot.1) hroot.2

end Component

namespace Path

/-! ## Components -/

/-- The components after the front. -/
def segments (path : Path) : List Component :=
  (path.text.splitOn '/').filterMap ofSegment?

theorem components_eq (path : Path) :
    path.components = path.front ++ path.segments := rfl

theorem isSegment_of_mem_segments {path : Path} :
    ∀ component ∈ path.segments, component.IsSegment :=
  fun _ h => isSegment_of_mem_filterMap h

theorem front_cases (path : Path) :
    path.front = [] ∨ path.front = [root] ∨ path.front = [here] := by
  unfold front
  split
  · exact Or.inr (Or.inl rfl)
  · split
    · exact Or.inr (Or.inr rfl)
    · exact Or.inl rfl

theorem root_not_mem_segments (path : Path) : root ∉ path.segments :=
  fun hmem => (isSegment_of_mem_segments root hmem).ne_root rfl

theorem isAbsolute_iff_front {path : Path} :
    path.IsAbsolute ↔ root ∈ path.front := by
  rw [front]
  split
  · simp [*]
  · split <;> simp [*]

theorem isAbsolute_iff {path : Path} :
    path.IsAbsolute ↔ root ∈ path.components := by
  rw [components_eq, List.mem_append, or_iff_left path.root_not_mem_segments,
    isAbsolute_iff_front]

/-! ## Places -/

/-- Where the path leads, with the innermost component first. -/
def place (path : Path) : List Component :=
  path.components.foldl settle []

theorem normal_eq_of_place_eq {path other : Path}
    (h : path.place = other.place) : path.normal = other.normal :=
  congrArg (fun above : List Component => ofComponents above.reverse) h

theorem place_eq_reverse (path : Path) :
    path.place = path.normal.components.reverse := by
  rw [components_normal, List.reverse_reverse]
  rfl

theorem place_eq_of_normal_eq {path other : Path}
    (h : path.normal = other.normal) : path.place = other.place := by
  rw [place_eq_reverse, place_eq_reverse, h]

/-- A path and its normal form lead on alike. -/
theorem foldl_settle_components_normal (path : Path)
    (above : List Component) :
    path.normal.components.foldl settle above =
      path.components.foldl settle above := by
  rw [components_normal]
  exact foldl_settle_reverse path.components above

theorem normal_normal (path : Path) : path.normal.normal = path.normal :=
  normal_eq_of_place_eq (path.foldl_settle_components_normal [])

theorem isAbsolute_normal_iff {path : Path} :
    path.normal.IsAbsolute ↔ path.IsAbsolute := by
  rw [isAbsolute_iff, isAbsolute_iff, components_normal, List.mem_reverse,
    root_mem_foldl_settle_iff]
  simp

theorem layered_place (path : Path) : Layered path.place := by
  have hfront : Layered (path.front.foldl settle []) := by
    rcases path.front_cases with hfront | hfront | hfront
    · exact ⟨[], 0, [], by rw [hfront]; rfl, Or.inl rfl⟩
    · exact ⟨[], 0, [root], by rw [hfront]; rfl, Or.inr rfl⟩
    · exact ⟨[], 0, [], by rw [hfront]; rfl, Or.inl rfl⟩
  rw [place, components_eq, List.foldl_append]
  exact hfront.foldl_settle fun component h =>
    (isSegment_of_mem_segments component h).ne_root

/-! ## Joining -/

theorem segments_append_slash (start rest : Text) :
    segments ⟨start ++ '/' :: rest⟩ = segments ⟨start⟩ ++ segments ⟨rest⟩ := by
  rw [segments, List.splitOn_append_cons_self, List.filterMap_append]
  rfl

theorem front_append_slash {start : Text} (hne : start ≠ []) (rest : Text) :
    front ⟨start ++ '/' :: rest⟩ = front ⟨start⟩ := by
  obtain ⟨c, more, rfl⟩ := List.exists_cons_of_ne_nil hne
  obtain ⟨first, others, hsplit⟩ :=
    List.exists_cons_of_ne_nil (List.splitOn_ne_nil '/' (c :: more))
  have habsolute : IsAbsolute ⟨c :: more ++ '/' :: rest⟩ ↔
      IsAbsolute ⟨c :: more⟩ := Iff.rfl
  have hhead : ((c :: more ++ '/' :: rest).splitOn '/').head? =
      ((c :: more).splitOn '/').head? := by
    rw [List.splitOn_append_cons_self, hsplit]
    rfl
  rw [front, front, hhead]
  rfl

/-- A relative path leads on from its directory, whatever it begins with. -/
theorem foldl_settle_of_relative {path : Path} (h : ¬ path.IsAbsolute)
    (above : List Component) :
    path.components.foldl settle above =
      path.segments.foldl settle above := by
  have hfront : path.front = [] ∨ path.front = [here] := by
    rcases path.front_cases with hfront | hfront | hfront
    · exact Or.inl hfront
    · rw [isAbsolute_iff, components_eq, hfront] at h
      exact absurd (List.mem_cons_self ..) h
    · exact Or.inr hfront
  rw [components_eq]
  rcases hfront with hfront | hfront <;> rw [hfront] <;> rfl

theorem components_join {directory path : Path} (hne : directory.text ≠ [])
    (h : ¬ path.IsAbsolute) :
    (directory.join path).components =
      directory.components ++ path.segments := by
  rw [join, if_neg (by simp [h, hne])]
  split
  · next hslash =>
      obtain ⟨start, hstart⟩ := List.getLast?_eq_some_iff.mp hslash
      have hfront : ∀ rest, front ⟨start ++ '/' :: rest⟩ =
          front ⟨start ++ ['/']⟩ := by
        intro rest
        cases start with
        | nil => rfl
        | cons c start =>
            rw [front_append_slash (List.cons_ne_nil c start),
              front_append_slash (List.cons_ne_nil c start)]
      have hdirectory : directory = ⟨start ++ ['/']⟩ := by
        rw [← hstart]
      have hnil : segments ⟨[]⟩ = [] := rfl
      rw [hdirectory, List.append_assoc, List.singleton_append,
        components_eq, components_eq, hfront, segments_append_slash,
        segments_append_slash, hnil, List.append_nil, List.append_assoc]
  · rw [components_eq, components_eq, front_append_slash hne,
      segments_append_slash, List.append_assoc]

theorem place_join {directory path : Path} (h : ¬ path.IsAbsolute) :
    (directory.join path).place =
      path.components.foldl settle directory.place := by
  by_cases hne : directory.text = []
  · have hempty : directory = empty := by
      cases directory
      simpa [empty] using hne
    rw [join, if_pos (Or.inr hne), hempty]
    rfl
  · rw [place, components_join hne h, List.foldl_append,
      foldl_settle_of_relative h]
    rfl

/-- A directory and a path in it may be brought into normal form before they are
joined. -/
theorem normal_join {directory path : Path} (h : ¬ path.IsAbsolute) :
    (directory.join path).normal =
      (directory.normal.join path.normal).normal := by
  have hnormal : ¬ path.normal.IsAbsolute := fun habsolute =>
    h (isAbsolute_normal_iff.mp habsolute)
  apply normal_eq_of_place_eq
  calc
    (directory.join path).place =
        path.components.foldl settle directory.place := place_join h
    _ = path.components.foldl settle directory.normal.place := by
        rw [place_eq_of_normal_eq (normal_normal directory)]
    _ = path.normal.components.foldl settle directory.normal.place :=
        (foldl_settle_components_normal path _).symm
    _ = (directory.normal.join path.normal).place :=
        (place_join hnormal).symm

/-! ## Directories -/

theorem components_here_segments {segments : List Component}
    (h : ∀ component ∈ segments, component.IsSegment) :
    (ofComponents (here :: segments)).components = here :: segments := by
  have hsplit : (joinSegments (here :: segments)).splitOn '/' =
      ['.'] :: segments.map Component.text := by
    apply List.splitOn_intercalate
    · intro text htext
      rcases List.mem_map.mp htext with ⟨component, hcomponent, rfl⟩
      rcases List.mem_cons.mp hcomponent with rfl | hmem
      · decide
      · exact (h component hmem).2
    · exact List.cons_ne_nil _ _
  have hrelative : ¬ (ofComponents (here :: segments)).IsAbsolute := by
    cases segments <;>
      simp [IsAbsolute, ofComponents, joinSegments, List.intercalate,
        Component.text]
  have hfront : (ofComponents (here :: segments)).front = [here] := by
    rw [front, if_neg hrelative, if_pos]
    exact congrArg List.head? hsplit
  have hsegments : Path.segments (ofComponents (here :: segments)) =
      segments := by
    change ((joinSegments (here :: segments)).splitOn '/').filterMap
      ofSegment? = segments
    rw [hsplit, List.filterMap_cons_none rfl, filterMap_ofSegment?_text h]
  rw [components_eq, hfront, hsegments]
  rfl

theorem components_ofComponents_front (path : Path)
    {segments : List Component}
    (h : ∀ component ∈ segments, component.IsSegment) :
    (ofComponents (path.front ++ segments)).components =
      path.front ++ segments := by
  rcases path.front_cases with hfront | hfront | hfront <;> rw [hfront]
  · exact components_segments h
  · exact components_root_segments h
  · exact components_here_segments h

theorem components_directory {path : Path} {above : List Component}
    {last : Component} (h : path.segments = above ++ [last]) :
    path.directory.components = path.front ++ above := by
  have hsegments : ∀ component ∈ above ++ [last], component.IsSegment :=
    h ▸ isSegment_of_mem_segments
  rw [List.forall_mem_append, List.forall_mem_singleton] at hsegments
  have hcomponents : path.components = (path.front ++ above) ++ [last] := by
    rw [components_eq, h, List.append_assoc]
  have hroot : path.components ≠ [root] := by
    intro hroot
    have hlast := congrArg List.getLast? (hcomponents.symm.trans hroot)
    rw [List.getLast?_concat] at hlast
    exact hsegments.2.ne_root (Option.some_inj.mp hlast)
  rw [directory, if_neg hroot, hcomponents, List.dropLast_concat]
  exact components_ofComponents_front path hsegments.1

section File

variable {file : Path} {text : Text} (h : file.fileName? = some text)

include h

theorem getLast?_components_of_fileName? :
    file.components.getLast? = some (name text) := by
  unfold fileName? at h
  split at h
  · next last hlast =>
      injection h with heq
      rw [hlast, heq]
  · contradiction

/-- The name of a file is no part of the front. -/
theorem exists_segments_of_fileName? :
    ∃ above, file.segments = above ++ [name text] := by
  have hlast := getLast?_components_of_fileName? h
  rw [components_eq, List.getLast?_append] at hlast
  cases hsegments : file.segments.getLast? with
  | none =>
      rw [hsegments, Option.none_or] at hlast
      rcases file.front_cases with hfront | hfront | hfront <;>
        simp [hfront] at hlast
  | some last =>
      rw [hsegments, Option.some_or] at hlast
      injection hlast with heq
      rw [heq] at hsegments
      exact List.getLast?_eq_some_iff.mp hsegments

/-- A file is in its directory. -/
theorem components_eq_of_fileName? :
    file.components = file.directory.components ++ [name text] := by
  obtain ⟨above, habove⟩ := exists_segments_of_fileName? h
  rw [components_directory habove, components_eq, habove, List.append_assoc]

theorem place_eq_cons_of_fileName? :
    file.place = name text :: file.directory.place := by
  rw [place, place, components_eq_of_fileName? h, List.foldl_concat]
  rfl

end File

end Path

end ScenarioInclusion
