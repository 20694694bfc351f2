import ScenarioInclusion.Path
import Mathlib.Data.List.Basic

/-!
# Normal paths have one spelling

A normal path is written from components in a settled order: maybe the root, and
then names and the double dots that have no name to take back.  Such components
can be read off what is written.  So normal paths that are the same place are
the same text, and a place that is found in a search is known by its text.
-/

namespace ScenarioInclusion

namespace Component

/-- Is the component what is read from its own text, between two slashes? -/
def IsSegment (component : Component) : Prop :=
  ofSegment? component.text = some component ∧ '/' ∉ component.text

/-- Components with the innermost first, as `settle` leaves them. -/
def Settled (above : List Component) : Prop :=
  ∃ segments, (above = segments ∨ above = segments ++ [root]) ∧
    ∀ component ∈ segments, component.IsSegment

theorem text_of_ofSegment? {segment : Text} {component : Component}
    (h : ofSegment? segment = some component) : component.text = segment := by
  unfold ofSegment? at h
  split at h
  · contradiction
  · contradiction
  · injection h with h
    rw [← h]
    rfl
  · injection h with h
    rw [← h]
    rfl

theorem isSegment_of_ofSegment? {segment : Text} {component : Component}
    (h : ofSegment? segment = some component) (hslash : '/' ∉ segment) :
    component.IsSegment := by
  have htext := text_of_ofSegment? h
  rw [IsSegment, htext]
  exact ⟨h, hslash⟩

theorem IsSegment.text_ne_nil {component : Component}
    (h : component.IsSegment) : component.text ≠ [] := by
  intro hnil
  have hread := h.1
  rw [hnil] at hread
  contradiction

theorem IsSegment.text_ne_dot {component : Component}
    (h : component.IsSegment) : component.text ≠ ['.'] := by
  intro hdot
  have hread := h.1
  rw [hdot] at hread
  contradiction

theorem IsSegment.ne_root {component : Component} (h : component.IsSegment) :
    component ≠ root := by
  intro heq
  exact h.text_ne_nil (heq ▸ rfl)

theorem Settled.of_name_cons {text : Text} {above : List Component}
    (h : Settled (name text :: above)) : Settled above := by
  rcases h with ⟨segments, habove, hsegments⟩
  cases segments with
  | nil => simp at habove
  | cons first segments =>
      have hrest := fun other hother =>
        hsegments other (List.mem_cons_of_mem first hother)
      rcases habove with heq | heq
      · injection heq with hfirst habove
        exact ⟨segments, Or.inl habove, hrest⟩
      · rw [List.cons_append] at heq
        injection heq with hfirst habove
        exact ⟨segments, Or.inr habove, hrest⟩

theorem Settled.settle {above : List Component} (h : Settled above)
    {component : Component} (hcomponent : component.IsSegment) :
    Settled (settle above component) := by
  have hpush : Settled (component :: above) := by
    rcases h with ⟨segments, habove, hsegments⟩
    refine ⟨component :: segments, ?_,
      List.forall_mem_cons.mpr ⟨hcomponent, hsegments⟩⟩
    rcases habove with rfl | rfl
    · exact Or.inl rfl
    · exact Or.inr rfl
  cases component with
  | root => exact absurd rfl hcomponent.ne_root
  | here => exact absurd rfl hcomponent.text_ne_dot
  | name text => exact hpush
  | up =>
      cases above with
      | nil => exact hpush
      | cons first above =>
          cases first with
          | name text => exact h.of_name_cons
          | root => exact hpush
          | here => exact hpush
          | up => exact hpush

theorem Settled.foldl_settle {above components : List Component}
    (h : Settled above)
    (hcomponents : ∀ component ∈ components, component.IsSegment) :
    Settled (components.foldl Component.settle above) := by
  induction components generalizing above with
  | nil => exact h
  | cons component rest ih =>
      have hfirst := hcomponents component (List.mem_cons_self ..)
      exact ih (h.settle hfirst) fun other hother =>
        hcomponents other (List.mem_cons_of_mem component hother)

end Component

open Component

theorem not_mem_of_mem_splitOn {c : Char} {text segment : Text}
    (h : segment ∈ text.splitOn c) : c ∉ segment := by
  induction text generalizing segment with
  | nil =>
      rw [List.splitOn_nil, List.mem_singleton] at h
      simp [h]
  | cons d text ih =>
      rw [List.splitOn_cons_eq_if_modifyHead] at h
      split at h
      · rcases List.mem_cons.mp h with rfl | hmem
        · exact List.not_mem_nil
        · exact ih hmem
      · next hd =>
          obtain ⟨head, tail, hsplit⟩ :=
            List.exists_cons_of_ne_nil (List.splitOn_ne_nil c text)
          rw [hsplit] at h ih
          rcases List.mem_cons.mp h with rfl | hmem
          · have hhead := ih (List.mem_cons_self ..)
            have hne : c ≠ d := fun heq => hd (by simp [heq])
            simp [hhead, hne]
          · exact ih (List.mem_cons_of_mem head hmem)

namespace Path

theorem isSegment_of_mem_filterMap {text : Text} {component : Component}
    (h : component ∈ (text.splitOn '/').filterMap ofSegment?) :
    component.IsSegment := by
  rcases List.mem_filterMap.mp h with ⟨segment, hsegment, hread⟩
  exact isSegment_of_ofSegment? hread (not_mem_of_mem_splitOn hsegment)

theorem settled_components (path : Path) :
    Settled (path.components.foldl Component.settle []) := by
  have hfront : Settled (path.front.foldl Component.settle []) := by
    unfold front
    split
    · exact ⟨[], Or.inr rfl, List.forall_mem_nil _⟩
    · split
      · exact ⟨[], Or.inl rfl, List.forall_mem_nil _⟩
      · exact ⟨[], Or.inl rfl, List.forall_mem_nil _⟩
  rw [components, List.foldl_append]
  exact hfront.foldl_settle fun component h => isSegment_of_mem_filterMap h

/-! ## Reading what is written -/

variable {segments : List Component}

theorem filterMap_ofSegment?_text
    (h : ∀ component ∈ segments, component.IsSegment) :
    (segments.map Component.text).filterMap ofSegment? = segments := by
  induction segments with
  | nil => rfl
  | cons component rest ih =>
      have hfirst := (h component (List.mem_cons_self ..)).1
      have hrest := ih fun other hother =>
        h other (List.mem_cons_of_mem component hother)
      rw [List.map_cons, List.filterMap_cons_some hfirst, hrest]

theorem splitOn_joinSegments
    (h : ∀ component ∈ segments, component.IsSegment)
    (hne : segments ≠ []) :
    (joinSegments segments).splitOn '/' = segments.map Component.text := by
  apply List.splitOn_intercalate
  · intro text htext
    rcases List.mem_map.mp htext with ⟨component, hcomponent, rfl⟩
    exact (h component hcomponent).2
  · simpa using hne

theorem filterMap_splitOn_joinSegments
    (h : ∀ component ∈ segments, component.IsSegment) :
    ((joinSegments segments).splitOn '/').filterMap ofSegment? = segments := by
  cases segments with
  | nil => rfl
  | cons component rest =>
      rw [splitOn_joinSegments h (List.cons_ne_nil _ _),
        filterMap_ofSegment?_text h]

theorem components_root_segments
    (h : ∀ component ∈ segments, component.IsSegment) :
    (ofComponents (root :: segments)).components = root :: segments := by
  have habsolute : (ofComponents (root :: segments)).IsAbsolute := rfl
  have hsplit : (ofComponents (root :: segments)).text.splitOn '/' =
      [] :: (joinSegments segments).splitOn '/' := by
    change ('/' :: joinSegments segments).splitOn '/' = _
    rw [List.splitOn_cons_eq_if_modifyHead]
    rfl
  rw [components, front, if_pos habsolute, hsplit,
    List.filterMap_cons_none rfl, filterMap_splitOn_joinSegments h]
  rfl

theorem ofComponents_segments
    (h : ∀ component ∈ segments, component.IsSegment) :
    ofComponents segments = ⟨joinSegments segments⟩ := by
  cases segments with
  | nil => rfl
  | cons component rest =>
      cases component with
      | root =>
          have hfirst := h root (List.mem_cons_self ..)
          exact absurd rfl hfirst.ne_root
      | here => rfl
      | up => rfl
      | name text => rfl

theorem head?_joinSegments_ne_slash
    (h : ∀ component ∈ segments, component.IsSegment) :
    (joinSegments segments).head? ≠ some '/' := by
  cases segments with
  | nil => simp [joinSegments]
  | cons component rest =>
      have hfirst := h component (List.mem_cons_self ..)
      obtain ⟨c, text, htext⟩ := List.exists_cons_of_ne_nil hfirst.text_ne_nil
      have hslash := hfirst.2
      have hhead : (joinSegments (component :: rest)).head? = some c := by
        cases rest <;> simp [joinSegments, List.intercalate, htext]
      rw [hhead]
      rintro ⟨rfl⟩
      exact hslash (htext ▸ List.mem_cons_self ..)

theorem front_segments (h : ∀ component ∈ segments, component.IsSegment) :
    (Path.mk (joinSegments segments)).front = [] := by
  have hrelative : ¬ (Path.mk (joinSegments segments)).IsAbsolute :=
    head?_joinSegments_ne_slash h
  have hdot : ((joinSegments segments).splitOn '/').head? ≠ some ['.'] := by
    cases segments with
    | nil => simp [joinSegments]
    | cons component rest =>
        have hfirst := h component (List.mem_cons_self ..)
        rw [splitOn_joinSegments h (List.cons_ne_nil _ _)]
        simpa using hfirst.text_ne_dot
  rw [front, if_neg hrelative, if_neg hdot]

theorem components_segments
    (h : ∀ component ∈ segments, component.IsSegment) :
    (ofComponents segments).components = segments := by
  rw [ofComponents_segments h, components, front_segments h, List.nil_append]
  exact filterMap_splitOn_joinSegments h

theorem components_ofComponents {above : List Component}
    (h : Settled above) :
    (ofComponents above.reverse).components = above.reverse := by
  rcases h with ⟨segments, rfl | rfl, hsegments⟩
  · apply components_segments
    simpa using hsegments
  · rw [List.reverse_append]
    apply components_root_segments
    simpa using hsegments

/-! ## Normal paths -/

theorem components_normal (path : Path) :
    path.normal.components =
      (path.components.foldl Component.settle []).reverse :=
  components_ofComponents (settled_components path)

theorem ofComponents_components_normal (path : Path) :
    ofComponents path.normal.components = path.normal := by
  rw [components_normal]
  rfl

/-- Normal paths that are the same place are written alike. -/
theorem normal_eq_of_same {path other : Path}
    (h : path.normal.Same other.normal) : path.normal = other.normal := by
  rw [← ofComponents_components_normal path, h,
    ofComponents_components_normal]

theorem exists_normal_of_mem_candidates {root : Option Path} {feature : Text}
    {caller candidate : Path}
    (h : candidate ∈ candidates root feature caller) :
    ∃ path : Path, candidate = path.normal := by
  unfold candidates at h
  split at h
  · exact ⟨_, List.mem_singleton.mp h⟩
  · split at h
    · exact ⟨_, List.mem_singleton.mp h⟩
    · split at h
      · exact ⟨_, List.mem_singleton.mp h⟩
      · rcases List.mem_cons.mp h with hfirst | hsecond
        · exact ⟨_, hfirst⟩
        · exact ⟨_, List.mem_singleton.mp hsecond⟩

theorem eq_of_same_of_mem_candidates {root root' : Option Path}
    {feature feature' : Text} {caller caller' path other : Path}
    (hpath : path ∈ candidates root feature caller)
    (hother : other ∈ candidates root' feature' caller')
    (h : path.Same other) : path = other := by
  rcases exists_normal_of_mem_candidates hpath with ⟨first, rfl⟩
  rcases exists_normal_of_mem_candidates hother with ⟨second, rfl⟩
  exact normal_eq_of_same h

end Path

end ScenarioInclusion
