import ScenarioInclusion.Proofs.Substitution
import Mathlib.Data.List.Find
import Mathlib.Data.List.Infix

/-!
# Putting values in wherever a placeholder is spelled out

What a reader expects of bindings is this: wherever a bound placeholder is
spelled out its value takes the place of it, and nothing else changes.
`Bindings.replaceEvery` does just that and knows of no cut of the line.

It is clear what to do only for keys without angle brackets.  Two placeholders
with such names never overlap, so a text is replaced piece by piece around each
of them.
-/

namespace ScenarioInclusion

/-- The name of a placeholder, without angle brackets in it. -/
structure IsFlatName (name : Text) : Prop extends IsName name where
  opening_not_mem : '<' ∉ name

instance (name : Text) : Decidable (IsFlatName name) :=
  decidable_of_iff (IsName name ∧ '<' ∉ name)
    ⟨fun h => ⟨h.1, h.2⟩, fun h => ⟨h.toIsName, h.opening_not_mem⟩⟩

namespace Bindings

/-- The first binding whose placeholder is spelled out at the beginning of the
text. -/
def spelledAt? (bindings : Bindings) (text : Text) : Option Binding :=
  bindings.find? fun binding =>
    (Piece.token binding.key).text.isPrefixOf text

/-- The text with the value of every bound placeholder in its place. -/
def replaceEvery (bindings : Bindings) : Text → Text
  | [] => []
  | c :: rest =>
    match bindings.spelledAt? (c :: rest) with
    | some binding =>
      binding.value ++
        bindings.replaceEvery
          ((c :: rest).drop (Piece.token binding.key).text.length)
    | none => c :: bindings.replaceEvery rest
termination_by text => text.length
decreasing_by
  · simp only [Piece.text, List.length_drop, List.length_cons,
      List.length_append]
    omega
  · simp

def HasFlatKeys (bindings : Bindings) : Prop :=
  ∀ key ∈ bindings.map Binding.key, IsFlatName key

instance (bindings : Bindings) : Decidable bindings.HasFlatKeys :=
  inferInstanceAs (Decidable (∀ key ∈ _, _))

end Bindings

/-! ## Placeholders do not overlap -/

theorem token_prefix_token_iff {name other : Text} (hname : '>' ∉ name)
    (hother : '>' ∉ other) (rest : Text) :
    (Piece.token name).text <+: (Piece.token other).text ++ rest ↔
      name = other := by
  constructor
  · rintro ⟨more, hmore⟩
    simp only [Piece.text, List.cons_append, List.append_assoc,
      List.nil_append, List.cons.injEq, true_and] at hmore
    exact eq_of_append_closing_eq hname hother hmore
  · rintro rfl
    exact List.prefix_append _ _

/-- A placeholder that begins before an opening bracket ends before it. -/
theorem token_prefix_append_iff {name before : Text} (hname : '<' ∉ name)
    (hne : before ≠ []) (rest : Text) :
    (Piece.token name).text <+: before ++ '<' :: rest ↔
      (Piece.token name).text <+: before := by
  constructor
  · intro h
    rcases List.prefix_or_prefix_of_prefix h (List.prefix_append before _)
      with hshort | ⟨late, hlate⟩
    · exact hshort
    · obtain ⟨c, more, rfl⟩ := List.exists_cons_of_ne_nil hne
      rw [← hlate, List.prefix_append_right_inj] at h
      rcases List.prefix_cons_iff.mp h with rfl | ⟨tail, rfl, -⟩
      · rw [← hlate, List.append_nil]
      · -- The bracket would have to be a part of the name.
        simp only [Piece.text, List.cons_append, List.cons.injEq] at hlate
        have hmem : '<' ∈ name ++ ['>'] := by
          rw [← hlate.2]
          simp
        simp [hname] at hmem
  · intro h
    exact h.trans (List.prefix_append _ _)

namespace Bindings

variable {bindings : Bindings}

theorem HasFlatKeys.of_mem (hkeys : bindings.HasFlatKeys) {binding : Binding}
    (h : binding ∈ bindings) : IsFlatName binding.key :=
  hkeys _ (List.mem_map_of_mem h)

theorem HasFlatKeys.of_valueOf? (hkeys : bindings.HasFlatKeys)
    {key value : Text} (h : bindings.valueOf? key = some value) :
    IsFlatName key := by
  rcases exists_binding_of_valueOf? h with ⟨binding, hmem, rfl, -⟩
  exact hkeys.of_mem hmem

theorem spelledAt?_token (hkeys : bindings.HasFlatKeys) {name : Text}
    (hname : IsName name) (rest : Text) :
    bindings.spelledAt? ((Piece.token name).text ++ rest) =
      bindings.find? (·.key = name) := by
  apply List.find?_congr
  intro binding hmem
  rw [Bool.eq_iff_iff, List.isPrefixOf_iff_prefix, decide_eq_true_iff]
  exact token_prefix_token_iff (hkeys.of_mem hmem).closing_not_mem
    hname.closing_not_mem rest

theorem spelledAt?_append (hkeys : bindings.HasFlatKeys) {before : Text}
    (hne : before ≠ []) (rest : Text) :
    bindings.spelledAt? (before ++ '<' :: rest) =
      bindings.spelledAt? before := by
  apply List.find?_congr
  intro binding hmem
  rw [Bool.eq_iff_iff, List.isPrefixOf_iff_prefix, List.isPrefixOf_iff_prefix]
  exact token_prefix_append_iff (hkeys.of_mem hmem).opening_not_mem hne rest

/-! ## Replacing piece by piece -/

@[simp] theorem replaceEvery_nil (bindings : Bindings) :
    bindings.replaceEvery [] = [] := by
  rw [replaceEvery]

theorem replaceEvery_cons_of_none {c : Char} {rest : Text}
    (h : bindings.spelledAt? (c :: rest) = none) :
    bindings.replaceEvery (c :: rest) = c :: bindings.replaceEvery rest := by
  rw [replaceEvery, h]

theorem replaceEvery_of_spelledAt? {binding : Binding} {rest : Text}
    (h : bindings.spelledAt? ((Piece.token binding.key).text ++ rest) =
      some binding) :
    bindings.replaceEvery ((Piece.token binding.key).text ++ rest) =
      binding.value ++ bindings.replaceEvery rest := by
  have htext : (Piece.token binding.key).text ++ rest =
      '<' :: (binding.key ++ ['>'] ++ rest) := rfl
  have hrest : ('<' :: (binding.key ++ ['>'] ++ rest)).drop
      (Piece.token binding.key).text.length = rest := by
    rw [← htext, List.drop_left]
  rw [htext] at h ⊢
  rw [replaceEvery, h]
  simp only [hrest]

theorem replaceEvery_token (hkeys : bindings.HasFlatKeys) {key value : Text}
    (hvalue : bindings.valueOf? key = some value) (rest : Text) :
    bindings.replaceEvery ((Piece.token key).text ++ rest) =
      value ++ bindings.replaceEvery rest := by
  have hname := hkeys.of_valueOf? hvalue
  have hspelled := spelledAt?_token hkeys hname.toIsName rest
  obtain ⟨binding, hfind, rfl⟩ := Option.map_eq_some_iff.mp hvalue
  have hkey : binding.key = key := by simpa using List.find?_some hfind
  subst hkey
  rw [hfind] at hspelled
  exact replaceEvery_of_spelledAt? hspelled

theorem replaceEvery_append_token (hkeys : bindings.HasFlatKeys)
    {key value : Text} (hvalue : bindings.valueOf? key = some value)
    (before after : Text) :
    bindings.replaceEvery (before ++ ((Piece.token key).text ++ after)) =
      bindings.replaceEvery before ++
        (value ++ bindings.replaceEvery after) := by
  have hopening : (Piece.token key).text ++ after =
      '<' :: (key ++ ['>'] ++ after) := rfl
  fun_induction replaceEvery bindings before with
  | case1 => exact replaceEvery_token hkeys hvalue after
  | case2 c rest binding hspelled ih =>
      have hprefix : (Piece.token binding.key).text <+: c :: rest := by
        simpa using List.find?_some hspelled
      obtain ⟨more, hmore⟩ := hprefix
      have hlonger := spelledAt?_append hkeys (List.cons_ne_nil c rest)
        (key ++ ['>'] ++ after)
      rw [hspelled, ← hopening, ← hmore, List.append_assoc] at hlonger
      rw [← hmore, List.drop_left] at ih ⊢
      rw [List.append_assoc, replaceEvery_of_spelledAt? hlonger, ih,
        List.append_assoc]
  | case3 c rest hspelled ih =>
      have hlonger := spelledAt?_append hkeys (List.cons_ne_nil c rest)
        (key ++ ['>'] ++ after)
      rw [hspelled, ← hopening] at hlonger
      rw [List.cons_append] at hlonger ⊢
      rw [replaceEvery_cons_of_none hlonger, ih, List.cons_append]

/-! ## Texts without bound placeholders -/

/-- Is no bound placeholder spelled out anywhere in the text? -/
def SpellsNone (bindings : Bindings) (text : Text) : Prop :=
  ∀ late, late <:+ text → bindings.spelledAt? late = none

theorem replaceEvery_of_spellsNone {text : Text}
    (h : bindings.SpellsNone text) : bindings.replaceEvery text = text := by
  induction text with
  | nil => exact replaceEvery_nil bindings
  | cons c rest ih =>
      have hrest : bindings.SpellsNone rest := by
        intro late hlate
        exact h late (hlate.trans (List.suffix_cons c rest))
      rw [replaceEvery_cons_of_none (h _ (List.suffix_refl _)), ih hrest]

theorem exists_occurrence {text : Text} (hkeys : bindings.HasFlatKeys)
    (h : ¬ bindings.SpellsNone text) :
    ∃ before key value after, bindings.valueOf? key = some value ∧
      text = before ++ ((Piece.token key).text ++ after) := by
  simp only [SpellsNone, not_forall] at h
  obtain ⟨late, ⟨before, htext⟩, hspelled⟩ := h
  obtain ⟨binding, hspelled⟩ := Option.ne_none_iff_exists'.mp hspelled
  have hprefix : (Piece.token binding.key).text <+: late := by
    simpa using List.find?_some hspelled
  obtain ⟨after, rfl⟩ := hprefix
  have hname := hkeys.of_mem (List.mem_of_find?_eq_some hspelled)
  rw [spelledAt?_token hkeys hname.toIsName] at hspelled
  refine ⟨before, binding.key, binding.value, after, ?_, htext.symm⟩
  rw [valueOf?, hspelled]
  rfl

/-- Every text is free of bound placeholders, or it is shorter texts around one
of them. -/
theorem occurrence_induction (hkeys : bindings.HasFlatKeys)
    {motive : Text → Prop}
    (free : ∀ text, bindings.SpellsNone text → motive text)
    (occurrence : ∀ before key value after,
      bindings.valueOf? key = some value → motive before → motive after →
        motive (before ++ ((Piece.token key).text ++ after)))
    (text : Text) : motive text := by
  induction hlength : text.length using Nat.strong_induction_on
    generalizing text with
  | _ length ih =>
      by_cases hfree : bindings.SpellsNone text
      · exact free text hfree
      · obtain ⟨before, key, value, after, hvalue, rfl⟩ :=
          exists_occurrence hkeys hfree
        simp only [List.length_append, Piece.text, List.length_cons] at hlength
        exact occurrence before key value after hvalue
          (ih before.length (by omega) before rfl)
          (ih after.length (by omega) after rfl)

end Bindings

end ScenarioInclusion
