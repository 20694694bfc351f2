import ScenarioInclusion.Proofs.Directive.Grammar
import ScenarioInclusion.Proofs.Substitution

/-!
# Keys that no placeholder has

A binding is declared for any key that is not empty, but a name that stands in a
line as a placeholder does not begin with a blank and has no closing bracket.  So
a directive may bind keys that no placeholder can have.  Such a binding counts as
one of the directive's bindings and puts its value in nowhere: the directive does
to every line what it does without it.

All other keys serve.  In angle brackets they are placeholders, and the value of
the first binding for the key takes their place.
-/

namespace ScenarioInclusion

open Text

namespace Bindings

/-- In angle brackets the key is a placeholder, and what becomes of it is the
value that is bound to the key. -/
structure Serves (bindings : Bindings) (key : Text) : Prop where
  pieces_eq : Line.pieces (Piece.token key).text = [.token key]
  valueOf?_eq : bindings.valueOf? key =
    some (bindings.substitute (Piece.token key).text)

/-- The bindings of all other keys. -/
def without (bindings : Bindings) (key : Text) : Bindings :=
  bindings.filter (·.key ≠ key)

variable {bindings : Bindings} {key : Text}

theorem exists_valueOf?_of_mem {binding : Binding} (h : binding ∈ bindings) :
    ∃ value, bindings.valueOf? binding.key = some value := by
  cases hfind : bindings.find? (·.key = binding.key) with
  | none =>
      have hnone := List.find?_eq_none.mp hfind binding h
      simp at hnone
  | some first => exact ⟨first.value, by rw [valueOf?, hfind]; rfl⟩

theorem serves_iff_isName {binding : Binding} (h : binding ∈ bindings) :
    bindings.Serves binding.key ↔ IsName binding.key := by
  constructor
  · intro hserves
    apply Line.isName_of_mem_pieces
    rw [hserves.pieces_eq]
    exact List.mem_singleton_self _
  · intro hname
    obtain ⟨value, hvalue⟩ := exists_valueOf?_of_mem h
    have hpieces : Line.pieces (Piece.token binding.key).text =
        [.token binding.key] := by
      have hcut := Line.pieces_token hname []
      simpa [Line.pieces] using hcut
    refine ⟨hpieces, ?_⟩
    simp [substitute, hpieces, fill, hvalue]

/-! ## Doing without a key -/

theorem valueOf?_without_of_ne {other : Text} (h : other ≠ key) :
    (bindings.without key).valueOf? other = bindings.valueOf? other := by
  induction bindings with
  | nil => rfl
  | cons binding rest ih =>
      rw [without, List.filter_cons]
      split
      · rw [valueOf?_cons, valueOf?_cons, ← ih]
        rfl
      · next hkey =>
          have hother : binding.key ≠ other := by
            rintro rfl
            exact hkey (by simpa using h)
          rw [valueOf?_cons, if_neg hother, ← ih]
          rfl

/-- What no placeholder is called is never looked up. -/
theorem substitute_without (h : ¬ IsName key) (line : Line) :
    (bindings.without key).substitute line = bindings.substitute line := by
  have hfill : (Line.pieces line).map (bindings.without key).fill =
      (Line.pieces line).map bindings.fill := by
    apply List.map_congr_left
    intro piece hpiece
    cases piece with
    | plain c => rfl
    | token name =>
        have hne : name ≠ key := by
          rintro rfl
          exact h (Line.isName_of_mem_pieces hpiece)
        rw [fill, fill, valueOf?_without_of_ne hne]
  rw [substitute, substitute, List.flatMap_def, List.flatMap_def, hfill]

end Bindings

namespace Directive

/-! ## What a directive may bind -/

theorem Clause.HasValue.exists_entry {bindings : Bindings} {value : Text}
    (h : Clause.HasValue (.params bindings) value) :
    ∀ binding ∈ bindings, ∃ entry, Declares entry binding := by
  intro binding hmem
  cases h with
  | params hentries =>
      obtain ⟨entry, -, hentry⟩ :=
        exists_mem_of_forall₂ hentries binding hmem
      exact ⟨entry, hentry⟩

theorem exists_entry_of_mem_bindings {tag : Tag} {directive : Directive}
    (h : ofTag tag = .ok directive) {binding : Binding}
    (hmem : binding ∈ directive.bindings) :
    ∃ entry, Declares entry binding := by
  obtain ⟨body, hbody, -⟩ := bind_eq_ok_iff.mp h
  obtain ⟨clauses, hsay, hgives⟩ := (ofTag_eq_ok_iff hbody).mp h
  rcases hgives.params with hparams | ⟨hnil, -⟩
  · obtain ⟨part, -, hpart⟩ := exists_mem_of_forall₂ hsay.forall₂ _ hparams
    cases hpart with
    | part _ _ hvalue => exact hvalue.exists_entry binding hmem
  · rw [hnil] at hmem
    contradiction

theorem Declares.isName_key_iff {entry : Text} {binding : Binding}
    (h : Declares entry binding) :
    IsName binding.key ↔
      '>' ∉ binding.key ∧ ∀ c ∈ binding.key.head?, isBlank c = false := by
  cases h with
  | @entry spelling value _ hne =>
      obtain ⟨c, rest, hkey⟩ := List.exists_cons_of_ne_nil hne
      constructor
      · rintro ⟨⟨d, hd, hblank⟩, hclosing⟩
        refine ⟨hclosing, fun c hc => ?_⟩
        rwa [Option.mem_unique hc hd]
      · rintro ⟨hclosing, hblank⟩
        exact ⟨⟨c, by simp [hkey], hblank c (by simp [hkey])⟩, hclosing⟩

/-- A key that a directive binds serves if and only if it has no closing bracket
and does not begin with a blank.  If it does not serve, all lines become what they
become without it. -/
theorem keyServes_iff {tag : Tag} {directive : Directive}
    (h : ofTag tag = .ok directive) {binding : Binding}
    (hmem : binding ∈ directive.bindings) :
    (directive.bindings.Serves binding.key ↔
      '>' ∉ binding.key ∧ ∀ c ∈ binding.key.head?, isBlank c = false) ∧
    (¬ directive.bindings.Serves binding.key → ∀ line,
      (directive.bindings.without binding.key).substitute line =
        directive.bindings.substitute line) := by
  obtain ⟨entry, hentry⟩ := exists_entry_of_mem_bindings h hmem
  have hserves := Bindings.serves_iff_isName hmem
  refine ⟨hserves.trans hentry.isName_key_iff, fun hnot => ?_⟩
  rw [hserves] at hnot
  exact Bindings.substitute_without hnot

/-! ## An arrow in a key -/

def arrowTag : Tag :=
  ("@include(feature: lib.feature, scenario: A, " ++
    "params: [user name:ann, from->to:1, < x>:2])").toList

def arrowBindings : Bindings :=
  [⟨"user name".toList, "ann".toList⟩, ⟨"from->to".toList, "1".toList⟩,
    ⟨" x".toList, "2".toList⟩]

theorem ofTag_arrowTag :
    ofTag arrowTag =
      .ok ⟨"lib.feature".toList, "A".toList, arrowBindings⟩ := by
  cbv

theorem keyServes_arrowTag :
    arrowBindings.Serves "user name".toList ∧
    ¬ arrowBindings.Serves "from->to".toList ∧
    ¬ arrowBindings.Serves " x".toList ∧
    (arrowBindings.without "from->to".toList).substitute
        "<from->to> by <user name>".toList =
      arrowBindings.substitute "<from->to> by <user name>".toList := by
  have hspaced : ⟨"user name".toList, "ann".toList⟩ ∈ arrowBindings := by
    decide
  have hcrossed : ⟨"from->to".toList, "1".toList⟩ ∈ arrowBindings := by
    decide
  have hindented : ⟨" x".toList, "2".toList⟩ ∈ arrowBindings := by
    decide
  obtain ⟨hname, -⟩ := keyServes_iff ofTag_arrowTag hspaced
  obtain ⟨harrow, hidle⟩ := keyServes_iff ofTag_arrowTag hcrossed
  obtain ⟨hblank, -⟩ := keyServes_iff ofTag_arrowTag hindented
  have hvisible : ∀ c ∈ "user name".toList.head?, isBlank c = false := by
    intro c hc
    obtain rfl : 'u' = c := Option.some.inj hc
    decide
  have hnot : ¬ arrowBindings.Serves "from->to".toList :=
    fun hserves => (harrow.mp hserves).1 (by decide)
  refine ⟨hname.mpr ⟨by decide, hvisible⟩, hnot, ?_, hidle hnot _⟩
  exact fun hserves => absurd ((hblank.mp hserves).2 ' ' rfl) (by decide)

theorem not_keyServes_arrowTag :
    ¬ ∀ (tag : Tag) (directive : Directive), ofTag tag = .ok directive →
      ∀ binding ∈ directive.bindings,
        directive.bindings.valueOf? binding.key =
          some (directive.bindings.substitute
            (Piece.token binding.key).text) := by
  intro h
  have harrow := h arrowTag _ ofTag_arrowTag
    ⟨"from->to".toList, "1".toList⟩ (by decide)
  have hvalue : arrowBindings.valueOf? "from->to".toList =
      some "1".toList := by
    decide
  have hline : arrowBindings.substitute
      (Piece.token "from->to".toList).text = "<from->to>".toList := by
    cbv
  simp only [hvalue, hline] at harrow
  contradiction

end Directive

end ScenarioInclusion
