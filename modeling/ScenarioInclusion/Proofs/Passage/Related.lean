import ScenarioInclusion.Proofs.Passage
import Mathlib.Data.List.Forall2

/-!
# Passages of documents that agree line by line

Which lines a scenario takes up is decided by its headers and rules, by blank
lines and by which lines are tag lines.  So if tag lines are replaced by other
tag lines only, the same scenarios are found at the same places, and their lines
correspond as those of the documents do.
-/

namespace ScenarioInclusion

/-! ## Lists that correspond -/

section Forall2

variable {α β : Type} {R : α → β → Prop} {p : α → Bool} {q : β → Bool}
  {xs : List α} {ys : List β}

theorem forall₂_takeWhile (hpq : ∀ x y, R x y → p x = q y)
    (h : List.Forall₂ R xs ys) :
    List.Forall₂ R (xs.takeWhile p) (ys.takeWhile q) := by
  induction h with
  | nil => exact List.Forall₂.nil
  | @cons x y xs ys hxy _ ih =>
      have heq := hpq x y hxy
      by_cases hx : p x = true
      · rw [List.takeWhile_cons_of_pos hx,
          List.takeWhile_cons_of_pos (heq ▸ hx)]
        exact List.Forall₂.cons hxy ih
      · rw [List.takeWhile_cons_of_neg hx,
          List.takeWhile_cons_of_neg (heq ▸ hx)]
        exact List.Forall₂.nil

theorem forall₂_dropWhile (hpq : ∀ x y, R x y → p x = q y)
    (h : List.Forall₂ R xs ys) :
    List.Forall₂ R (xs.dropWhile p) (ys.dropWhile q) := by
  induction h with
  | nil => exact List.Forall₂.nil
  | @cons x y xs ys hxy hrest ih =>
      have heq := hpq x y hxy
      by_cases hx : p x = true
      · rw [List.dropWhile_cons_of_pos hx,
          List.dropWhile_cons_of_pos (heq ▸ hx)]
        exact ih
      · rw [List.dropWhile_cons_of_neg hx,
          List.dropWhile_cons_of_neg (heq ▸ hx)]
        exact List.Forall₂.cons hxy hrest

theorem forall₂_takeAtEnd (hpq : ∀ x y, R x y → p x = q y)
    (h : List.Forall₂ R xs ys) :
    List.Forall₂ R (takeAtEnd p xs) (takeAtEnd q ys) :=
  List.forall₂_reverse_iff.mpr
    (forall₂_takeWhile hpq (List.forall₂_reverse_iff.mpr h))

theorem forall₂_dropAtEnd (hpq : ∀ x y, R x y → p x = q y)
    (h : List.Forall₂ R xs ys) :
    List.Forall₂ R (dropAtEnd p xs) (dropAtEnd q ys) :=
  List.forall₂_reverse_iff.mpr
    (forall₂_dropWhile hpq (List.forall₂_reverse_iff.mpr h))

theorem findIdx?_eq_of_forall₂ (hpq : ∀ x y, R x y → p x = q y)
    (h : List.Forall₂ R xs ys) : xs.findIdx? p = ys.findIdx? q := by
  induction h with
  | nil => rfl
  | @cons x y xs ys hxy _ ih =>
      rw [List.findIdx?_cons, List.findIdx?_cons, hpq x y hxy, ih]

end Forall2

/-! ## Lines of one kind -/

namespace Line

/-- Are the lines equal, or are both of them tag lines? -/
def SameKind (line other : Line) : Prop :=
  line = other ∨ (line.isTagLine = true ∧ other.isTagLine = true)

variable {line other : Line}

theorem headerName?_of_isTagLine (h : line.isTagLine = true) :
    line.headerName? = none := by
  cases hname : line.headerName? with
  | none => rfl
  | some name =>
      have hheader : line.IsHeader := by
        rw [IsHeader, hname]
        rfl
      rw [isTagLine_of_isHeader hheader] at h
      contradiction

theorem endsScenario_of_isTagLine (h : line.isTagLine = true) :
    line.endsScenario = false := by
  have hrule : ruleKeyword.isPrefixOf line.trimStart = false := by
    rcases exists_cons_of_beginsTag h with ⟨rest, hrest⟩
    rw [hrest]
    rfl
  rw [endsScenario, headerName?_of_isTagLine h, hrule]
  rfl

namespace SameKind

theorem isTagLine_eq (h : line.SameKind other) :
    line.isTagLine = other.isTagLine := by
  rcases h with rfl | ⟨hline, hother⟩
  · rfl
  · rw [hline, hother]

theorem headerName?_eq (h : line.SameKind other) :
    line.headerName? = other.headerName? := by
  rcases h with rfl | ⟨hline, hother⟩
  · rfl
  · rw [headerName?_of_isTagLine hline, headerName?_of_isTagLine hother]

theorem endsScenario_eq (h : line.SameKind other) :
    line.endsScenario = other.endsScenario := by
  rcases h with rfl | ⟨hline, hother⟩
  · rfl
  · rw [endsScenario_of_isTagLine hline, endsScenario_of_isTagLine hother]

theorem isPreamble_eq (h : line.SameKind other) :
    line.isPreamble = other.isPreamble := by
  rcases h with rfl | ⟨hline, hother⟩
  · rfl
  · rw [isPreamble, isPreamble, hline, hother, Bool.or_true, Bool.or_true]

end SameKind

end Line

/-! ## Passages -/

/-- Passages at one place whose lines correspond. -/
structure Passage.Related (R : Line → Line → Prop) (passage other : Passage) :
    Prop where
  startLine_eq : passage.startLine = other.startLine
  tagLines : List.Forall₂ R passage.tagLines other.tagLines
  lines : List.Forall₂ R passage.lines other.lines

namespace Document

variable {R : Line → Line → Prop} {document other : Document}

theorem headerIndex?_eq_of_forall₂
    (hR : ∀ line line', R line line' → line.SameKind line')
    (h : List.Forall₂ R document.lines other.lines) (name : Text) :
    document.headerIndex? name = other.headerIndex? name := by
  apply findIdx?_eq_of_forall₂ _ h
  intro line line' hline
  rw [(hR line line' hline).headerName?_eq]

theorem scenarioLines_of_forall₂
    (hR : ∀ line line', R line line' → line.SameKind line')
    (h : List.Forall₂ R document.lines other.lines) (start : Nat) :
    List.Forall₂ R (document.scenarioLines start)
      (other.scenarioLines start) := by
  have hdrop := List.forall₂_drop start h
  unfold scenarioLines
  generalize document.lines.drop start = lines at hdrop
  generalize other.lines.drop start = lines' at hdrop
  cases hdrop with
  | nil => exact List.Forall₂.nil
  | @cons header header' rest rest' hheader hrest =>
      apply List.Forall₂.cons hheader
      apply forall₂_dropAtEnd
      · intro line line' hline
        exact (hR line line' hline).isPreamble_eq
      · apply forall₂_takeWhile _ hrest
        intro line line' hline
        rw [(hR line line' hline).endsScenario_eq]

theorem tagLines_of_forall₂
    (hR : ∀ line line', R line line' → line.SameKind line')
    (h : List.Forall₂ R document.lines other.lines) (start : Nat) :
    List.Forall₂ R (takeAtEnd Line.isTagLine (document.lines.take start))
      (takeAtEnd Line.isTagLine (other.lines.take start)) := by
  apply forall₂_takeAtEnd _ (List.forall₂_take start h)
  intro line line' hline
  exact (hR line line' hline).isTagLine_eq

theorem passage?_of_forall₂
    (hR : ∀ line line', R line line' → line.SameKind line')
    (h : List.Forall₂ R document.lines other.lines) (name : Text) :
    Option.Rel (Passage.Related R) (document.passage? name)
      (other.passage? name) := by
  unfold passage?
  rw [← headerIndex?_eq_of_forall₂ hR h name]
  cases document.headerIndex? name with
  | none => exact Option.Rel.none
  | some start =>
      apply Option.Rel.some
      exact ⟨rfl, tagLines_of_forall₂ hR h start,
        scenarioLines_of_forall₂ hR h start⟩

end Document

end ScenarioInclusion
