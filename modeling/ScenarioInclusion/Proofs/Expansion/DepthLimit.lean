import ScenarioInclusion.Expansion
import ScenarioInclusion.Library.Shelf
import Mathlib.Tactic

/-!
# A limit that is not reached

An expansion asks for room each time it enters a scenario, and the first time
that there is none it stops.  So more room can change nothing before that: a run
that does not end for lack of room is the same run under every higher limit,
with the same events on the way.

Two runs with different room are followed side by side.  At each step either the
first one has run out of room, or both have done the same so far.
-/

namespace ScenarioInclusion

namespace Traced

variable {α β : Type}

/-- Did the computation end for lack of room? -/
def RunsOut (x : Traced ExpansionError α) : Prop :=
  ∃ limit chain, x.outcome = .error (.tooDeep limit chain)

/-- Does more room change nothing but an end for lack of room? -/
def RoomOnly (x y : Traced ExpansionError α) : Prop :=
  x.RunsOut ∨ y = x

theorem RoomOnly.refl (x : Traced ExpansionError α) : RoomOnly x x :=
  Or.inr rfl

theorem RunsOut.bind {x : Traced ExpansionError α} (h : x.RunsOut)
    (f : α → Traced ExpansionError β) : (x >>= f).RunsOut := by
  rcases h with ⟨limit, chain, hx⟩
  refine ⟨limit, chain, ?_⟩
  rw [outcome_bind, hx]
  rfl

theorem bind_congr_of_ok {x : Traced ExpansionError α}
    {f g : α → Traced ExpansionError β}
    (h : ∀ a, x.outcome = .ok a → f a = g a) : x >>= f = x >>= g := by
  rcases x with ⟨log, fault | a⟩
  · rfl
  · change Traced.bind ⟨log, .ok a⟩ f = Traced.bind ⟨log, .ok a⟩ g
    simp only [Traced.bind, h a rfl]

theorem RoomOnly.bind {x y : Traced ExpansionError α} (h : RoomOnly x y)
    {f g : α → Traced ExpansionError β} (hfg : ∀ a, RoomOnly (f a) (g a)) :
    RoomOnly (x >>= f) (y >>= g) := by
  rcases h with hout | rfl
  · exact Or.inl (hout.bind f)
  · by_cases hnext : ∃ a, y.outcome = .ok a ∧ (f a).RunsOut
    · rcases hnext with ⟨a, ha, limit, chain, hf⟩
      refine Or.inl ⟨limit, chain, ?_⟩
      rw [outcome_bind, ha]
      exact hf
    · right
      apply bind_congr_of_ok
      intro a ha
      rcases hfg a with hout | heq
      · exact absurd ⟨a, ha, hout⟩ hnext
      · exact heq

theorem RoomOnly.mapM {f g : α → Traced ExpansionError β}
    (h : ∀ a, RoomOnly (f a) (g a)) (xs : List α) :
    RoomOnly (xs.mapM f) (xs.mapM g) := by
  induction xs with
  | nil => exact .refl _
  | cons x xs ih =>
      rw [List.mapM_cons, List.mapM_cons]
      apply (h x).bind
      intro value
      apply ih.bind
      intro values
      exact .refl _

end Traced

open Traced

theorem roomOnly_expandLines
    {splice splice' : Nat → Tag → Traced ExpansionError (List Line)}
    (h : ∀ number tag, RoomOnly (splice number tag) (splice' number tag))
    (held : List Line) (lines : List (Line × Nat)) :
    RoomOnly (expandLines splice held lines) (expandLines splice' held lines) := by
  induction lines generalizing held with
  | nil => exact .refl _
  | cons entry rest ih =>
      rcases entry with ⟨line, number⟩
      rw [expandLines, expandLines]
      cases DirectiveLine.ofLine? line with
      | none =>
          apply (ih []).bind
          intro after
          exact .refl _
      | some parsed =>
          apply (RoomOnly.mapM (h number) parsed.directives).bind
          intro spliced
          apply (ih _).bind
          intro after
          exact .refl _

namespace Library

variable (library : Library)

/-- The chain and the tag alone decide what is to be spliced, so without room a
splice fails as it would with room, or for lack of it. -/
theorem roomOnly_splice {room room' : Nat} (hle : room ≤ room')
    (chain : List Inclusion) (path : Path) (number : Nat) (tag : Tag) :
    RoomOnly (library.splice room chain path number tag)
      (library.splice room' chain path number tag) := by
  induction room generalizing room' chain path number tag with
  | zero =>
      cases room' with
      | zero => exact .refl _
      | succ room' =>
          rw [splice, splice]
          apply (RoomOnly.refl _).bind
          rintro ⟨directive, excerpt⟩
          exact Or.inl ⟨_, _, rfl⟩
  | succ room ih =>
      cases room' with
      | zero => omega
      | succ room' =>
          have hrest : room ≤ room' := by omega
          rw [splice, splice]
          apply (RoomOnly.refl _).bind
          rintro ⟨directive, excerpt⟩
          apply (RoomOnly.refl _).bind
          intro text
          apply (RoomOnly.refl _).bind
          intro _
          apply roomOnly_expandLines
          exact ih hrest _ _

theorem roomOnly_expandTraced {settings settings' : Settings}
    (hle : settings.maxDepth ≤ settings'.maxDepth) (path : Path)
    (document : Document) :
    RoomOnly (library.expandTraced settings path document)
      (library.expandTraced settings' path document) := by
  rw [expandTraced, expandTraced]
  apply (roomOnly_expandLines (library.roomOnly_splice hle [] path) _ _).bind
  intro lines
  exact .refl _

/-- A higher limit changes nothing about an expansion that comes to any other
end than the lack of room. -/
theorem expand_withMaxDepth_of_le (settings : Settings) (path : Path)
    (document : Document) {limit limit' : Nat} (hle : limit ≤ limit')
    (h : ∀ shown chain,
      library.expand (settings.withMaxDepth limit) path document ≠
        .error (.tooDeep shown chain)) :
    library.expand (settings.withMaxDepth limit') path document =
      library.expand (settings.withMaxDepth limit) path document := by
  have hroom : RoomOnly
      (library.expandTraced (settings.withMaxDepth limit) path document)
      (library.expandTraced (settings.withMaxDepth limit') path document) :=
    library.roomOnly_expandTraced hle path document
  rcases hroom with ⟨shown, chain, hout⟩ | heq
  · exact absurd hout (h shown chain)
  · rw [expand, expand, heq]

/-! ## Two scenarios deep -/

def twoDeepLibrary : Library :=
  ((Shelf.empty.insert ⟨"inner".toList⟩
    "Scenario: Inner\nGiven b".toList).insert ⟨"outer".toList⟩
      "@include(feature: inner, scenario: Inner)\nScenario: Outer\nGiven a".toList
    ).library none

def twoDeepDocument : Document :=
  ⟨["@include(feature: outer, scenario: Outer)".toList]⟩

def twoDeepExpansion : Document :=
  ⟨["Scenario: Inner".toList, "Given b".toList, "Scenario: Outer".toList,
    "Given a".toList]⟩

theorem expand_twoDeep :
    (∃ chain, twoDeepLibrary.expand (Settings.default.withMaxDepth 1)
      ⟨"main".toList⟩ twoDeepDocument = .error (.tooDeep 1 chain)) ∧
    twoDeepLibrary.expand (Settings.default.withMaxDepth 2) ⟨"main".toList⟩
      twoDeepDocument = .ok twoDeepExpansion ∧
    twoDeepLibrary.expand (Settings.default.withMaxDepth 9000) ⟨"main".toList⟩
      twoDeepDocument = .ok twoDeepExpansion := by
  have htwo : twoDeepLibrary.expand (Settings.default.withMaxDepth 2)
      ⟨"main".toList⟩ twoDeepDocument = .ok twoDeepExpansion := by
    cbv
  have hended : ∀ shown chain,
      twoDeepLibrary.expand (Settings.default.withMaxDepth 2) ⟨"main".toList⟩
        twoDeepDocument ≠ .error (.tooDeep shown chain) := by
    intro shown chain
    rw [htwo]
    simp
  have hle : 2 ≤ 9000 := by omega
  have hhigher := expand_withMaxDepth_of_le twoDeepLibrary Settings.default
    ⟨"main".toList⟩ twoDeepDocument hle hended
  refine ⟨⟨[⟨⟨"outer".toList⟩, "Outer".toList⟩,
    ⟨⟨"inner".toList⟩, "Inner".toList⟩], by cbv⟩, htwo, ?_⟩
  rw [hhigher, htwo]

end Library

end ScenarioInclusion
