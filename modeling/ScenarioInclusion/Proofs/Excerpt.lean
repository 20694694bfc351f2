import ScenarioInclusion.Excerpt
import ScenarioInclusion.Proofs.Passage
import ScenarioInclusion.Proofs.Sequence

/-!
# What is spliced for an excerpt

The lines that are spliced come in two runs: directive lines for the include
tags above the scenario, and the text of the scenario, which begins with a
header.
-/

namespace ScenarioInclusion

theorem Library.excerpt_eq_ok_iff {library : Library}
    {feature scenario : Text} {caller : Path} {excerpt : Excerpt} :
    (library.excerpt feature scenario caller).outcome = .ok excerpt ↔
      ∃ loaded passage,
        (library.load feature caller).outcome = .ok loaded ∧
        loaded.document.passage? scenario = some passage ∧
        excerpt =
          { passage with
            feature
            source := loaded.path
            name := scenario } := by
  rw [Library.excerpt, Traced.outcome_bind, bind_eq_ok_iff]
  constructor
  · intro h
    rcases h with ⟨loaded, hload, h⟩
    rw [Traced.outcome_mapError, mapError_eq_ok_iff] at hload
    cases hpassage : loaded.document.passage? scenario with
    | none => simp [hpassage] at h
    | some passage =>
        simp only [hpassage, Traced.outcome_bind, Traced.outcome_note,
          Traced.outcome_pure] at h
        injection h with heq
        exact ⟨loaded, passage, hload, hpassage, heq.symm⟩
  · intro h
    rcases h with ⟨loaded, passage, hload, hpassage, heq⟩
    refine ⟨loaded, ?_, ?_⟩
    · rw [Traced.outcome_mapError, mapError_eq_ok_iff, hload]
    · simp only [hpassage, Traced.outcome_bind, Traced.outcome_note,
        Traced.outcome_pure, heq]
      rfl

theorem Library.excerpt_eq_error_iff {library : Library}
    {feature scenario : Text} {caller : Path} {fault : ExpansionError} :
    (library.excerpt feature scenario caller).outcome = .error fault ↔
      (∃ cause, (library.load feature caller).outcome = .error cause ∧
        fault = .featureNotFound feature caller cause) ∨
      (∃ loaded, (library.load feature caller).outcome = .ok loaded ∧
        loaded.document.passage? scenario = none ∧
        fault = .scenarioNotFound feature scenario) := by
  rw [Library.excerpt, Traced.outcome_bind, bind_eq_error_iff,
    Traced.outcome_mapError, mapError_eq_error_iff]
  constructor
  · intro h
    rcases h with ⟨cause, hcause, heq⟩ | ⟨loaded, hload, h⟩
    · exact Or.inl ⟨cause, hcause, heq.symm⟩
    · rw [mapError_eq_ok_iff] at hload
      cases hpassage : loaded.document.passage? scenario with
      | none =>
          rw [hpassage, Traced.outcome_fail] at h
          injection h with heq
          exact Or.inr ⟨loaded, hload, hpassage, heq.symm⟩
      | some passage =>
          simp only [hpassage, Traced.outcome_bind, Traced.outcome_note] at h
          contradiction
  · intro h
    rcases h with ⟨cause, hcause, rfl⟩ | ⟨loaded, hload, hpassage, rfl⟩
    · exact Or.inl ⟨cause, hcause, rfl⟩
    · refine Or.inr ⟨loaded, mapError_eq_ok_iff.mpr hload, ?_⟩
      rw [hpassage, Traced.outcome_fail]

namespace Excerpt

variable {excerpt : Excerpt} {bindings : Bindings}

theorem bind_eq_error_iff {fault : ExpansionError} :
    excerpt.bind bindings = .error fault ↔
      bindings ≠ [] ∧ ∃ row,
        bindings.firstMisfit? false excerpt.lines = some row ∧
        fault = .arityMismatch excerpt.feature excerpt.name row
          bindings.length (TableRow.cellCount row) := by
  rw [bind]
  split
  · next hnil => simp [hnil]
  · next hne =>
      cases hmisfit : bindings.firstMisfit? false excerpt.lines with
      | none => simp
      | some row => simp [hne, eq_comm]

theorem eq_map_of_bind {text : List Line}
    (h : excerpt.bind bindings = .ok text) :
    text = excerpt.lines.map bindings.substitute := by
  rw [bind] at h
  split at h
  · next hnil =>
      injection h with heq
      have hid : Bindings.substitute [] = id := by
        funext line
        exact Bindings.substitute_nil line
      rw [hnil, hid, List.map_id, heq]
  · split at h
    · contradiction
    · injection h with heq
      exact heq.symm

theorem isDirective_of_mem_nested {entry : Line × Nat}
    (h : entry ∈ excerpt.nested bindings) : entry.1.IsDirective := by
  rcases List.mem_filterMap.mp h with ⟨numbered, -, hforward⟩
  rcases Option.map_eq_some_iff.mp hforward with ⟨parsed, hparsed, heq⟩
  rw [← heq]
  exact DirectiveLine.isDirective_forward hparsed bindings

end Excerpt

theorem Library.startsScenario_of_bind {library : Library}
    {feature scenario : Text} {caller : Path} {excerpt : Excerpt}
    {bindings : Bindings} {text : List Line}
    (hexcerpt :
      (library.excerpt feature scenario caller).outcome = .ok excerpt)
    (hbind : excerpt.bind bindings = .ok text) : StartsScenario text := by
  rcases excerpt_eq_ok_iff.mp hexcerpt with ⟨loaded, passage, -, hpassage, rfl⟩
  rcases Document.exists_header_of_passage? hpassage with
    ⟨header, rest, hlines, hname⟩
  have hheader : header.IsHeader := by
    rw [Line.IsHeader, hname]
    rfl
  have htext := Excerpt.eq_map_of_bind hbind
  rw [hlines, List.map_cons] at htext
  exact ⟨_, _, htext, Line.isHeader_substitute hheader bindings⟩

end ScenarioInclusion
