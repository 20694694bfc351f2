import ScenarioInclusion.Proofs.Substitution
import Mathlib.Data.List.Nodup

/-!
# Substitution is one pass over the line

A line is cut into characters and placeholders before anything is looked up.  So
one cut of it gives what becomes of it for all bindings at once: a character
stays, a bound placeholder becomes its value, which is not read again, and any
other placeholder stays too.

There is only one such cut, since bindings can tell a placeholder from the
characters that spell it.
-/

namespace ScenarioInclusion

/-! ## What is looked up -/

namespace Bindings

variable {bindings other : Bindings}

/-- If no key is bound twice, the order of the bindings does not matter. -/
theorem valueOf?_of_perm (hperm : bindings.Perm other)
    (hnodup : (bindings.map Binding.key).Nodup) (key : Text) :
    other.valueOf? key = bindings.valueOf? key := by
  induction hperm with
  | nil => rfl
  | cons binding _ ih =>
      rw [List.map_cons, List.nodup_cons] at hnodup
      rw [valueOf?_cons, valueOf?_cons, ih hnodup.2]
  | swap first second rest =>
      have hne : second.key ≠ first.key := by
        simp only [List.map_cons, List.nodup_cons, List.mem_cons,
          not_or] at hnodup
        exact hnodup.1.1
      by_cases hfirst : first.key = key
      · have hsecond : second.key ≠ key := hfirst ▸ hne
        simp [valueOf?_cons, hfirst, hsecond]
      · simp [valueOf?_cons, hfirst]
  | trans hperm _ ih ih' =>
      have hnodup' := (hperm.map Binding.key).nodup_iff.mp hnodup
      rw [ih' hnodup', ih hnodup]

/-- A second binding of a key is never looked at. -/
theorem valueOf?_push {binding : Binding}
    (h : binding.key ∈ bindings.map Binding.key) (key : Text) :
    (bindings.push binding).valueOf? key = bindings.valueOf? key := by
  rw [valueOf?, valueOf?, push, List.find?_append]
  by_cases hkey : binding.key = key
  · obtain ⟨earlier, hmem, heq⟩ := List.mem_map.mp h
    cases hfind : bindings.find? (·.key = key) with
    | none =>
        have hnone := List.find?_eq_none.mp hfind earlier hmem
        simp [heq, hkey] at hnone
    | some found => rfl
  · simp [hkey]

theorem substitute_congr
    (h : ∀ key, bindings.valueOf? key = other.valueOf? key) (line : Text) :
    bindings.substitute line = other.substitute line := by
  have hfill : bindings.fill = other.fill := by
    funext piece
    cases piece with
    | plain c => rfl
    | token name => rw [fill, fill, h]
  rw [substitute, substitute, hfill]

end Bindings

/-! ## What the bindings tell -/

theorem fill_bound (name value : Text) :
    Bindings.fill [⟨name, value⟩] (.token name) = value := by
  simp [Bindings.fill, Bindings.valueOf?]

section Pieces

variable {rest rest' : Bindings → Text}

/-- Bound to a text that does not begin with an opening bracket, a placeholder
begins unlike every character that stays. -/
theorem not_forall_plain_eq_token (c : Char) (name : Text) :
    ¬ ∀ bindings : Bindings,
      bindings.fill (.plain c) ++ rest bindings =
        bindings.fill (.token name) ++ rest' bindings := by
  intro h
  have hunbound : c = '<' := by
    have hnil := h []
    simp only [Bindings.fill, Bindings.valueOf?_nil, Option.getD_none,
      Piece.text, List.cons_append, List.cons.injEq] at hnil
    exact hnil.1
  have hbound : c = '>' := by
    have hvalue := h [⟨name, ['>']⟩]
    rw [fill_bound] at hvalue
    injection hvalue
  rw [hunbound] at hbound
  contradiction

theorem Piece.eq_of_forall_fill {piece other : Piece}
    (hpiece : ∀ name, piece = .token name → IsName name)
    (hother : ∀ name, other = .token name → IsName name)
    (h : ∀ bindings : Bindings,
      bindings.fill piece ++ rest bindings =
        bindings.fill other ++ rest' bindings) : piece = other := by
  cases piece with
  | plain c =>
      cases other with
      | plain d =>
          have hnil := h []
          injection hnil with hc
          rw [hc]
      | token name => exact absurd h (not_forall_plain_eq_token c name)
  | token name =>
      cases other with
      | plain d =>
          have hsymm := fun bindings => (h bindings).symm
          exact absurd hsymm (not_forall_plain_eq_token d name)
      | token name' =>
          have hnil := h []
          simp only [Bindings.fill, Bindings.valueOf?_nil, Option.getD_none,
            Piece.text, List.cons_append, List.append_assoc, List.nil_append,
            List.cons.injEq, true_and] at hnil
          rw [eq_of_append_closing_eq (hpiece name rfl).closing_not_mem
            (hother name' rfl).closing_not_mem hnil]

end Pieces

theorem eq_of_flatMap_fill_eq {pieces other : List Piece}
    (hpieces : ∀ name, Piece.token name ∈ pieces → IsName name)
    (hother : ∀ name, Piece.token name ∈ other → IsName name)
    (h : ∀ bindings : Bindings,
      pieces.flatMap bindings.fill = other.flatMap bindings.fill) :
    pieces = other := by
  have hne : ∀ piece : Piece, piece.text ≠ [] := by
    intro piece
    cases piece <;> simp [Piece.text]
  induction pieces generalizing other with
  | nil =>
      cases other with
      | nil => rfl
      | cons first more =>
          have hnil := h []
          simp [Bindings.fill_nil, hne] at hnil
  | cons piece pieces ih =>
      cases other with
      | nil =>
          have hnil := h []
          simp [Bindings.fill_nil, hne] at hnil
      | cons first more =>
          simp only [List.flatMap_cons] at h
          have hhead : piece = first := by
            apply Piece.eq_of_forall_fill _ _ h
            · rintro name rfl
              exact hpieces name (List.mem_cons_self ..)
            · rintro name rfl
              exact hother name (List.mem_cons_self ..)
          subst hhead
          have htail : pieces = more := by
            apply ih
            · exact fun name hname =>
                hpieces name (List.mem_cons_of_mem piece hname)
            · exact fun name hname =>
                hother name (List.mem_cons_of_mem piece hname)
            · exact fun bindings => List.append_cancel_left (h bindings)
          rw [htail]

/-! ## One cut for all bindings -/

/-- A cut of the line into characters and placeholders that gives what becomes
of the line, whatever is bound. -/
structure Line.CutForAll (line : Text) (pieces : List Piece) : Prop where
  isName : ∀ name, Piece.token name ∈ pieces → IsName name
  flatMap_text : pieces.flatMap Piece.text = line
  substitute_eq : ∀ bindings : Bindings,
    bindings.substitute line = pieces.flatMap bindings.fill

theorem Line.cutForAll_pieces (line : Text) :
    Line.CutForAll line (Line.pieces line) where
  isName _ hname := Line.isName_of_mem_pieces hname
  flatMap_text := Line.flatMap_text_pieces line
  substitute_eq _ := rfl

theorem Line.CutForAll.unique {line : Text} {pieces other : List Piece}
    (h : Line.CutForAll line pieces) (hother : Line.CutForAll line other) :
    pieces = other := by
  apply eq_of_flatMap_fill_eq h.isName hother.isName
  intro bindings
  rw [← h.substitute_eq, hother.substitute_eq]

/-- The leftmost cut of a line is the one and only cut that gives what becomes
of it for all bindings. -/
theorem Line.substitute_onePass (line : Text) :
    (∃ pieces, LeftmostCut line pieces ∧ Line.CutForAll line pieces ∧
      ∀ other, Line.CutForAll line other → other = pieces) ∧
    (∀ bindings other : Bindings, bindings.Perm other →
      (bindings.map Binding.key).Nodup →
        other.substitute line = bindings.substitute line) ∧
    (∀ (bindings : Bindings) (binding : Binding),
      binding.key ∈ bindings.map Binding.key →
        (bindings.push binding).substitute line =
          bindings.substitute line) ∧
    Bindings.substitute [] line = line := by
  refine ⟨?_, ?_, ?_, Bindings.substitute_nil line⟩
  · refine ⟨Line.pieces line, leftmostCut_iff.mpr rfl,
      Line.cutForAll_pieces line, ?_⟩
    intro other hother
    exact hother.unique (Line.cutForAll_pieces line)
  · intro bindings other hperm hnodup
    exact Bindings.substitute_congr
      (Bindings.valueOf?_of_perm hperm hnodup) line
  · intro bindings binding hkey
    exact Bindings.substitute_congr (Bindings.valueOf?_push hkey) line

/-! ## Brackets in brackets -/

def bracketedLine : Line := "<a><<b> < x> <a".toList

def bracketedBindings : Bindings :=
  [⟨"<b".toList, "3".toList⟩, ⟨"a".toList, "<b>$1".toList⟩]

theorem substitute_onePass_bracketedLine :
    bracketedBindings.substitute bracketedLine =
      "<b>$13 < x> <a".toList ∧
    Bindings.substitute bracketedBindings.reverse bracketedLine =
      bracketedBindings.substitute bracketedLine ∧
    (bracketedBindings.push ⟨"a".toList, "4".toList⟩).substitute
        bracketedLine = bracketedBindings.substitute bracketedLine := by
  obtain ⟨-, hperm, hpush, -⟩ := Line.substitute_onePass bracketedLine
  refine ⟨by cbv, ?_, ?_⟩
  · exact hperm _ _ (List.reverse_perm _).symm (by decide)
  · exact hpush _ _ (by decide)

end ScenarioInclusion
