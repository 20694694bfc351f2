import ScenarioInclusion.Proofs.Path.Search

/-!
# Absolute paths in a tree

In a tree without links an absolute path leads to a location, which is known by
the names from the root down to it.  Two dots at the root lead nowhere: the root
has nothing above it.

The normal form of an absolute path says its location, and also how often the path
climbs, that is, goes up when it is at the root already.  So it is one and the same
for all paths to a location that never climb, and for no others.
-/

namespace ScenarioInclusion

open Component

namespace Component

/-- Go on from a location in a tree, given by its names with the innermost
first. -/
def walk (above : List Text) : Component → List Text
  | root => []
  | here => above
  | up => above.tail
  | name text => text :: above

/-- How often the components go up when there is no name left, from that many
names below the root. -/
def climbFrom : Nat → List Component → Nat
  | _, [] => 0
  | _, root :: rest => climbFrom 0 rest
  | depth, here :: rest => climbFrom depth rest
  | 0, up :: rest => climbFrom 0 rest + 1
  | depth + 1, up :: rest => climbFrom depth rest
  | depth, name _ :: rest => climbFrom (depth + 1) rest

theorem climbFrom_append (components rest : List Component)
    (names : List Text) :
    climbFrom names.length (components ++ rest) =
      climbFrom names.length components +
        climbFrom (components.foldl walk names).length rest := by
  induction components generalizing names with
  | nil => exact (Nat.zero_add _).symm
  | cons component components ih =>
      cases component with
      | root => exact ih []
      | here => exact ih names
      | name text => exact ih (text :: names)
      | up =>
          cases names with
          | nil =>
              have hrest := ih []
              simp only [List.length_nil] at hrest
              simp only [List.cons_append, List.length_nil, climbFrom, hrest,
                List.foldl_cons, walk, List.tail_nil]
              omega
          | cons first names => exact ih names

/-- The names of a place are those of the location, and each climb has left two
dots below them. -/
theorem foldl_settle_eq_walk {components : List Component}
    (h : ∀ component ∈ components, component ≠ root) (names : List Text)
    (ups : Nat) :
    components.foldl settle
        (names.map name ++ (List.replicate ups up ++ [root])) =
      (components.foldl walk names).map name ++
        (List.replicate (ups + climbFrom names.length components) up ++
          [root]) := by
  induction components generalizing names ups with
  | nil => rfl
  | cons component rest ih =>
      rw [List.forall_mem_cons] at h
      rw [List.foldl_cons, List.foldl_cons]
      cases component with
      | root => exact absurd rfl h.1
      | here => exact ih h.2 names ups
      | name text => exact ih h.2 (text :: names) ups
      | up =>
          cases names with
          | nil =>
              have hsettle : settle
                  ([].map name ++ (List.replicate ups up ++ [root])) up =
                  [].map name ++ (List.replicate (ups + 1) up ++ [root]) := by
                cases ups <;> rfl
              rw [hsettle, ih h.2, Nat.add_right_comm, Nat.add_assoc]
              rfl
          | cons first names => exact ih h.2 names ups

theorem replicate_up_append_names_inj {ups ups' : Nat}
    {names names' : List Text} :
    List.replicate ups up ++ names.map name =
        List.replicate ups' up ++ names'.map name ↔
      ups = ups' ∧ names = names' := by
  constructor
  · intro h
    have hcount : ∀ (ups : Nat) (names : List Text),
        (List.replicate ups up ++ names.map name).count up = ups := by
      intro ups names
      have hnames : (names.map name).count up = 0 := by
        simp [List.count_eq_zero]
      rw [List.count_append, List.count_replicate_self, hnames, Nat.add_zero]
    have hups : ups = ups' := by
      rw [← hcount ups names, h, hcount]
    subst hups
    have hinjective : Function.Injective name := fun _ _ heq => by
      injection heq
    exact ⟨rfl, hinjective.list_map (List.append_cancel_left h)⟩
  · rintro ⟨rfl, rfl⟩
    rfl

end Component

namespace Path

/-- Where an absolute path leads in a tree, with the innermost name first. -/
def location (path : Path) : List Text :=
  path.components.foldl walk []

/-- How often an absolute path goes up from the root. -/
def climb (path : Path) : Nat :=
  climbFrom 0 path.components

section Absolute

variable {path other : Path} (h : path.IsAbsolute)

include h

theorem components_of_isAbsolute : path.components = root :: path.segments := by
  rw [components_eq, front, if_pos h]
  rfl

/-- The normal form keeps each climb in front of the location. -/
theorem components_normal_of_isAbsolute :
    path.normal.components =
      root :: (List.replicate path.climb up ++
        path.location.reverse.map name) := by
  have hsegments : ∀ component ∈ path.segments, component ≠ root :=
    fun component hmem => (isSegment_of_mem_segments component hmem).ne_root
  have hplace : path.place =
      path.location.map name ++ (List.replicate path.climb up ++ [root]) := by
    have hwalk := foldl_settle_eq_walk hsegments [] 0
    rw [Nat.zero_add] at hwalk
    rw [place, location, climb, components_of_isAbsolute h]
    exact hwalk
  have hreverse := place_eq_reverse path
  rw [hplace] at hreverse
  rw [← List.reverse_reverse path.normal.components, ← hreverse]
  simp

theorem up_mem_components_normal_iff :
    up ∈ path.normal.components ↔ path.climb ≠ 0 := by
  rw [components_normal_of_isAbsolute h]
  simp

variable (hother : other.IsAbsolute)

include hother

/-- Absolute paths have one normal form if they lead to one location and climb
equally often. -/
theorem normal_eq_iff_of_isAbsolute :
    path.normal = other.normal ↔
      path.location = other.location ∧ path.climb = other.climb := by
  have hsame : path.normal = other.normal ↔
      path.normal.components = other.normal.components :=
    ⟨congrArg components, normal_eq_of_same⟩
  rw [hsame, components_normal_of_isAbsolute h,
    components_normal_of_isAbsolute hother, List.cons.injEq,
    replicate_up_append_names_inj, List.reverse_inj]
  rw [and_iff_right rfl, and_comm]

end Absolute

theorem location_normal {path : Path} (h : path.IsAbsolute) :
    path.normal.location = path.location ∧ path.normal.climb = path.climb :=
  (normal_eq_iff_of_isAbsolute (isAbsolute_normal_iff.mpr h) h).mp
    path.normal_normal

/-! ## From the directory of a caller -/

section Joined

variable {directory path : Path}

theorem text_ne_nil_of_isAbsolute (h : path.IsAbsolute) : path.text ≠ [] := by
  intro hnil
  rw [IsAbsolute, hnil] at h
  contradiction

theorem location_eq_cons_of_fileName? {text : Text}
    (h : path.fileName? = some text) :
    path.location = text :: path.directory.location ∧
      path.climb = path.directory.climb := by
  have hcomponents := components_eq_of_fileName? h
  constructor
  · rw [location, location, hcomponents, List.foldl_concat]
    rfl
  · rw [climb, climb, hcomponents]
    exact climbFrom_append path.directory.components [name text] []

/-- A relative path leads on from the location of its directory, and the climbs
that it makes from there are added. -/
theorem location_join (h : directory.IsAbsolute)
    (hrelative : ¬ path.IsAbsolute) :
    (directory.join path).location =
        path.segments.foldl walk directory.location ∧
      (directory.join path).climb =
        directory.climb +
          climbFrom directory.location.length path.segments := by
  have hcomponents := components_join (text_ne_nil_of_isAbsolute h) hrelative
  rw [location, climb, hcomponents, List.foldl_append]
  exact ⟨rfl, climbFrom_append directory.components path.segments []⟩

theorem isAbsolute_join_iff :
    (directory.join path).IsAbsolute ↔
      path.IsAbsolute ∨ directory.IsAbsolute := by
  by_cases hpath : path.IsAbsolute
  · rw [join, if_pos (Or.inl hpath)]
    exact iff_of_true hpath (Or.inl hpath)
  · rw [or_iff_right hpath]
    by_cases hnil : directory.text = []
    · have hdirectory : ¬ directory.IsAbsolute := fun habsolute =>
        text_ne_nil_of_isAbsolute habsolute hnil
      rw [join, if_pos (Or.inr hnil)]
      exact iff_of_false hpath hdirectory
    · have hsegments : root ∉ path.segments := fun hmem =>
        (isSegment_of_mem_segments root hmem).ne_root rfl
      rw [isAbsolute_iff, isAbsolute_iff, components_join hnil hpath,
        List.mem_append, or_iff_left hsegments]

/-- All but the root lie in an absolute directory if their path is absolute. -/
theorem isAbsolute_directory_iff :
    path.directory.IsAbsolute ↔
      path.IsAbsolute ∧ path.components ≠ [root] := by
  by_cases hroot : path.components = [root]
  · rw [directory, if_pos hroot]
    exact iff_of_false (by decide) fun habsolute => habsolute.2 hroot
  · rw [and_iff_left hroot]
    rcases List.eq_nil_or_concat path.segments with hnil | ⟨above, last, hlast⟩
    · -- Without a segment only a single dot is left, or nothing.
      have hcomponents : path.components = path.front := by
        rw [components_eq, hnil, List.append_nil]
      have habsolute : path.IsAbsolute ↔ root ∈ path.front :=
        isAbsolute_iff_front
      rw [hcomponents] at hroot
      rw [habsolute, directory, hcomponents, if_neg hroot]
      rcases path.front_cases with hfront | hfront | hfront
      · rw [hfront]
        decide
      · exact absurd hfront hroot
      · rw [hfront]
        decide
    · rw [List.concat_eq_append] at hlast
      have habove : root ∉ above := fun hmem => by
        have hsegment := isSegment_of_mem_segments root
          (hlast ▸ List.mem_append_left [last] hmem)
        exact hsegment.ne_root rfl
      rw [isAbsolute_iff, components_directory hlast, List.mem_append,
        or_iff_left habove, isAbsolute_iff_front]

theorem head?_candidates_eq (featuresRoot : Option Path) (feature : Text)
    (caller : Path) :
    (candidates featuresRoot feature caller).head? =
      some (caller.directory.join ⟨feature⟩).normal := by
  by_cases habsolute : IsAbsolute ⟨feature⟩
  · unfold candidates
    rw [if_pos habsolute, join, if_pos (Or.inl habsolute)]
    rfl
  · exact head?_candidates habsolute

/-- From an absolute file, a relative name leads on from the location above the
file, and its climbs are added to those of the file. -/
theorem location_join_directory {caller : Path} {feature : Text}
    (hfile : caller.fileName?.isSome) (habsolute : caller.IsAbsolute)
    (hrelative : ¬ IsAbsolute ⟨feature⟩) :
    (caller.directory.join ⟨feature⟩).location =
        (segments ⟨feature⟩).foldl walk caller.location.tail ∧
      (caller.directory.join ⟨feature⟩).climb =
        caller.climb +
          climbFrom caller.location.tail.length (segments ⟨feature⟩) := by
  obtain ⟨text, htext⟩ := Option.isSome_iff_exists.mp hfile
  have hroot : caller.components ≠ [root] := by
    intro hroot
    have hlast := getLast?_components_of_fileName? htext
    rw [hroot] at hlast
    simp at hlast
  have hdirectory := isAbsolute_directory_iff.mpr ⟨habsolute, hroot⟩
  obtain ⟨hlocation, hclimb⟩ := location_eq_cons_of_fileName? htext
  rw [hlocation, hclimb]
  exact location_join hdirectory hrelative

end Joined

end Path

end ScenarioInclusion
