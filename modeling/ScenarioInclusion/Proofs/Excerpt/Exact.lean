import ScenarioInclusion.Library.Shelf
import ScenarioInclusion.Proofs.Excerpt
import ScenarioInclusion.Proofs.Passage.Extent

/-!
# When a scenario is found, and what is taken

An excerpt comes from the document that the library loads.  It fails for a
scenario that no header of the document names, and otherwise holds just what
belongs to the first one that is so named.
-/

namespace ScenarioInclusion

namespace Library

variable {library : Library} {feature scenario : Text} {caller : Path}
  {loaded : LoadedFeature}

theorem excerpt_eq_scenarioNotFound_iff
    (h : (library.load feature caller).outcome = .ok loaded) :
    (library.excerpt feature scenario caller).outcome =
        .error (.scenarioNotFound feature scenario) ↔
      ∀ line ∈ loaded.document.lines, ¬ line.Heads scenario := by
  rw [excerpt_eq_error_iff,
    ← Document.passage?_eq_none_iff_forall_not_heads]
  constructor
  · rintro (⟨_, -, hfault⟩ | ⟨other, hother, hnone, -⟩)
    · contradiction
    · rw [h] at hother
      cases hother
      exact hnone
  · intro hnone
    exact Or.inr ⟨loaded, h, hnone, rfl⟩

/-- If the feature is not found, this is the fault.  Otherwise the scenario is
not found just when the document has no header of its name; and when it has one,
the excerpt is exactly the first scenario of this name. -/
theorem excerpt_exact (library : Library) (feature scenario : Text)
    (caller : Path) :
    (∀ cause, (library.load feature caller).outcome = .error cause →
      (library.excerpt feature scenario caller).outcome =
        .error (.featureNotFound feature caller cause)) ∧
    ∀ loaded, (library.load feature caller).outcome = .ok loaded →
      ((library.excerpt feature scenario caller).outcome =
          .error (.scenarioNotFound feature scenario) ↔
        ∀ line ∈ loaded.document.lines, ¬ line.Heads scenario) ∧
      ((∃ line ∈ loaded.document.lines, line.Heads scenario) →
        ∃ header next excerpt,
          loaded.document.Extent scenario header next ∧
          (library.excerpt feature scenario caller).outcome = .ok excerpt ∧
          excerpt.feature = feature ∧ excerpt.source = loaded.path ∧
          excerpt.name = scenario ∧
          excerpt.toPassage.IsExact loaded.document header next) := by
  refine ⟨fun cause hcause => ?_, fun loaded hload => ⟨?_, fun hheads => ?_⟩⟩
  · exact excerpt_eq_error_iff.mpr (Or.inl ⟨cause, hcause, rfl⟩)
  · exact excerpt_eq_scenarioNotFound_iff hload
  · obtain ⟨passage, hpassage⟩ := Document.exists_passage?_iff.mpr hheads
    obtain ⟨header, next, hextent, hexact⟩ := Document.exists_exact hpassage
    exact ⟨header, next, _, hextent,
      excerpt_eq_ok_iff.mpr ⟨loaded, passage, hload, hpassage, rfl⟩,
      rfl, rfl, rfl, hexact⟩

/-! ## A scenario between tag lines, before a rule -/

def ruledDocument : Document :=
  ⟨["Feature: shop".toList, "".toList, "  @slow".toList, "  @card".toList,
    "  Scenario: Pay".toList, "    When I pay".toList, "".toList,
    "  @ignore".toList, "".toList, "  Rule: refunds".toList,
    "  Scenario: Pay".toList]⟩

def ruledLibrary : Library :=
  (Shelf.empty.insert ⟨"features/shop.feature".toList⟩
    ruledDocument.toText).library none

def ruledCaller : Path := ⟨"features/main.feature".toList⟩

theorem load_ruledLibrary :
    (ruledLibrary.load "shop.feature".toList ruledCaller).outcome =
      .ok ⟨⟨"features/shop.feature".toList⟩, ruledDocument⟩ := by
  cbv

theorem extent_ruledDocument : ruledDocument.Extent "Pay".toList 4 9 where
  header_lt := by decide
  next_le := by decide
  heads := ⟨_, rfl, by decide +kernel⟩
  first := by decide +kernel
  inside := by decide +kernel
  stops := by decide +kernel

theorem excerpt_exact_ruledLibrary :
    (∃ cause, (ruledLibrary.excerpt "bank.feature".toList "Pay".toList
        ruledCaller).outcome =
      .error (.featureNotFound "bank.feature".toList ruledCaller cause)) ∧
    (ruledLibrary.excerpt "shop.feature".toList "Refund".toList
        ruledCaller).outcome =
      .error (.scenarioNotFound "shop.feature".toList "Refund".toList) ∧
    ∃ excerpt,
      (ruledLibrary.excerpt "shop.feature".toList "Pay".toList
        ruledCaller).outcome = .ok excerpt ∧
      excerpt.toPassage.IsExact ruledDocument 4 9 := by
  have hbank : (ruledLibrary.load "bank.feature".toList ruledCaller).outcome =
      .error (.notFound "bank.feature".toList
        (Path.candidates none "bank.feature".toList ruledCaller)) := by
    cbv
  have hfailed := (excerpt_exact ruledLibrary "bank.feature".toList
    "Pay".toList ruledCaller).1 _ hbank
  have hrefund := (excerpt_exact ruledLibrary "shop.feature".toList
    "Refund".toList ruledCaller).2 _ load_ruledLibrary
  have hpay := (excerpt_exact ruledLibrary "shop.feature".toList
    "Pay".toList ruledCaller).2 _ load_ruledLibrary
  obtain ⟨header, next, excerpt, hextent, hexcerpt, -, -, -, hexact⟩ :=
    hpay.2 (by decide +kernel)
  obtain ⟨rfl, rfl⟩ := hextent.unique extent_ruledDocument
  exact ⟨⟨_, hfailed⟩, hrefund.1.mpr (by decide +kernel), excerpt, hexcerpt,
    hexact⟩

end Library

end ScenarioInclusion
