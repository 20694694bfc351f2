import ScenarioInclusion.Binding
import ScenarioInclusion.Proofs.Placeholder

/-!
# What substitution leaves alone

Only an opening angle bracket begins a placeholder, so the text up to the first
one stays as it is, whatever is bound.  And bindings leave alone every text that
has none of their placeholders.
-/

namespace ScenarioInclusion

namespace Bindings

@[simp] theorem substitute_nil_line (bindings : Bindings) :
    bindings.substitute [] = [] := by
  simp [substitute, Line.pieces]

theorem substitute_cons_of_ne (bindings : Bindings) {c : Char}
    (hc : c ≠ '<') (rest : Text) :
    bindings.substitute (c :: rest) = c :: bindings.substitute rest := by
  rw [substitute, Line.pieces_cons_of_ne hc, List.flatMap_cons]
  rfl

theorem substitute_token (bindings : Bindings) {name : Text}
    (hname : IsName name) (rest : Text) :
    bindings.substitute ((Piece.token name).text ++ rest) =
      bindings.fill (.token name) ++ bindings.substitute rest := by
  rw [substitute, Line.pieces_token hname, List.flatMap_cons]
  rfl

theorem substitute_append_of_not_mem (bindings : Bindings) {start : Text}
    (hstart : '<' ∉ start) (rest : Text) :
    bindings.substitute (start ++ rest) =
      start ++ bindings.substitute rest := by
  induction start with
  | nil => rfl
  | cons c start ih =>
      have hc : c ≠ '<' := by
        intro heq
        exact hstart (heq ▸ List.mem_cons_self ..)
      have htail : '<' ∉ start := fun hmem =>
        hstart (List.mem_cons_of_mem c hmem)
      rw [List.cons_append, substitute_cons_of_ne bindings hc, ih htail,
        List.cons_append]

/-- The value of a placeholder is that of one of its bindings. -/
theorem exists_binding_of_valueOf? {bindings : Bindings} {key value : Text}
    (h : bindings.valueOf? key = some value) :
    ∃ binding ∈ bindings, binding.key = key ∧ binding.value = value := by
  rcases Option.map_eq_some_iff.mp h with ⟨binding, hfind, hvalue⟩
  have hkey := List.find?_some hfind
  exact ⟨binding, List.mem_of_find?_eq_some hfind, by simpa using hkey, hvalue⟩

/-- Is the piece a placeholder with a value? -/
def binds (bindings : Bindings) : Piece → Bool
  | .plain _ => false
  | .token name => (bindings.valueOf? name).isSome

/-- Is no placeholder of the text bound? -/
def LeavesAlone (bindings : Bindings) (text : Text) : Prop :=
  ∀ piece ∈ Line.pieces text, bindings.binds piece = false

instance (bindings : Bindings) (text : Text) :
    Decidable (bindings.LeavesAlone text) :=
  inferInstanceAs (Decidable (∀ piece ∈ Line.pieces text, _))

theorem fill_eq_text {bindings : Bindings} {piece : Piece}
    (h : bindings.binds piece = false) : bindings.fill piece = piece.text := by
  cases piece with
  | plain c => rfl
  | token name =>
      have hnone : bindings.valueOf? name = none := by
        simpa [binds] using h
      rw [fill, hnone]
      rfl

theorem substitute_of_leavesAlone {bindings : Bindings} {text : Text}
    (h : bindings.LeavesAlone text) : bindings.substitute text = text := by
  have hfill : (Line.pieces text).map bindings.fill =
      (Line.pieces text).map Piece.text :=
    List.map_congr_left fun piece hpiece => fill_eq_text (h piece hpiece)
  rw [substitute, List.flatMap_def, hfill, ← List.flatMap_def,
    Line.flatMap_text_pieces]

end Bindings

end ScenarioInclusion
