import ScenarioInclusion.Proofs.Substitution.Spelled
import ScenarioInclusion.Proofs.Text.Margins
import Mathlib.Data.List.Forall2

/-!
# Filling in plain values

Brackets, commas and colons divide a tag, and so do the blanks at the ends of its
parts.  A placeholder with none of them in its name belongs to one part as a
whole, and so does a plain value in its place.

`Bindings.Fills` follows the placeholders of a text with its values side by side.
It is kept by all that reading does to a text: cutting it and trimming what was
cut out.  So it does not matter whether values are filled in before or after.
-/

namespace ScenarioInclusion

open Text

theorem forall₂_modifyHead {α β : Type} {R : α → β → Prop} {f : α → α}
    {g : β → β} {xs : List α} {ys : List β} (h : List.Forall₂ R xs ys)
    (hfg : ∀ x y, R x y → R (f x) (g y)) :
    List.Forall₂ R (xs.modifyHead f) (ys.modifyHead g) := by
  cases h with
  | nil => exact .nil
  | cons hhead htail => exact .cons (hfg _ _ hhead) htail

/-! ## Plain placeholders and values -/

/-- The name of a placeholder, without a separator in it. -/
structure IsPlainName (name : Text) : Prop extends IsFlatName name where
  plain : name.IsPlain
  colon_not_mem : ':' ∉ name

instance (name : Text) : Decidable (IsPlainName name) :=
  decidable_of_iff (IsFlatName name ∧ name.IsPlain ∧ ':' ∉ name)
    ⟨fun ⟨hflat, hplain, hcolon⟩ => ⟨hflat, hplain, hcolon⟩,
      fun h => ⟨h.toIsFlatName, h.plain, h.colon_not_mem⟩⟩

/-- A value that reading leaves in one piece. -/
structure IsPlainValue (value : Text) : Prop where
  ne_nil : value ≠ []
  trim_eq : value.trim = value
  plain : value.IsPlain

instance (value : Text) : Decidable (IsPlainValue value) :=
  decidable_of_iff (value ≠ [] ∧ value.trim = value ∧ value.IsPlain)
    ⟨fun ⟨hne, htrim, hplain⟩ => ⟨hne, htrim, hplain⟩,
      fun h => ⟨h.ne_nil, h.trim_eq, h.plain⟩⟩

theorem IsPlainValue.trimStart_append {value : Text} (h : IsPlainValue value)
    (rest : Text) : Text.trimStart (value ++ rest) = value ++ rest := by
  have hstart : value.trimStart = value := trimStart_eq_of_trim_eq h.trim_eq
  have hne : value.trimStart ≠ [] := by
    rw [hstart]
    exact h.ne_nil
  rw [trimStart_append_of_ne_nil hne, hstart]

theorem IsPlainValue.trimEnd_eq {value : Text} (h : IsPlainValue value) :
    value.trimEnd = value := by
  rw [← h.trim_eq, trim, trimEnd_trimEnd]

/-- Together with its brackets, a plain name is a plain value. -/
theorem IsPlainName.isPlainValue_token {name : Text} (h : IsPlainName name) :
    IsPlainValue (Piece.token name).text := by
  refine ⟨List.cons_ne_nil _ _,
    trim_cons_append_singleton (by decide) (by decide) name, ?_⟩
  have hopening : IsPlain ['<'] := by decide
  have hclosing : IsPlain ['>'] := by decide
  exact hopening.append (h.plain.append hclosing)

theorem IsPlainName.not_mem_token {name : Text} (h : IsPlainName name)
    {c : Char} (hc : c ∈ ['(', ')', '[', ']', ',', ':']) :
    c ∉ (Piece.token name).text := by
  intro hmem
  by_cases hcolon : c = ':'
  · subst hcolon
    simp [Piece.text, h.colon_not_mem] at hmem
  · refine h.isPlainValue_token.plain c hmem ?_
    simp only [List.mem_cons, List.not_mem_nil, or_false] at hc ⊢
    tauto

/-! ## Brackets that open plain placeholders -/

/-- Does every opening bracket of the text begin a plain placeholder? -/
def OpensPlainNames (text : Text) : Prop :=
  ∀ before rest, text = before ++ '<' :: rest →
    ∃ name after, rest = name ++ '>' :: after ∧ IsPlainName name

/-- Is the piece a plain placeholder, or a character that is no opening
bracket? -/
def Piece.IsTame : Piece → Prop
  | .plain c => c ≠ '<'
  | .token name => IsPlainName name

instance : (piece : Piece) → Decidable piece.IsTame
  | .plain c => inferInstanceAs (Decidable (c ≠ '<'))
  | .token name => inferInstanceAs (Decidable (IsPlainName name))

theorem OpensPlainNames.of_append (front : Text) {text : Text}
    (h : OpensPlainNames (front ++ text)) : OpensPlainNames text := by
  rintro before rest rfl
  exact h (front ++ before) rest (List.append_assoc ..).symm

theorem OpensPlainNames.isTame_of_mem_pieces {text : Text}
    (h : OpensPlainNames text) :
    ∀ piece ∈ Line.pieces text, piece.IsTame := by
  fun_induction Line.pieces text with
  | case1 => exact List.forall_mem_nil _
  | case2 rest name after hread ih =>
      obtain ⟨hname, rfl⟩ := readName_eq_some_iff.mp hread
      obtain ⟨other, more, heq, hother⟩ := h [] _ rfl
      have hsame : name = other := eq_of_append_closing_eq
        hname.closing_not_mem hother.closing_not_mem heq
      subst hsame
      refine List.forall_mem_cons.mpr ⟨hother, ih ?_⟩
      have htoken : '<' :: (name ++ '>' :: after) =
          (Piece.token name).text ++ after := by
        simp [Piece.text]
      rw [htoken] at h
      exact h.of_append _
  | case3 rest hread ih =>
      obtain ⟨name, after, rfl, hname⟩ := h [] _ rfl
      have hsome : readName (name ++ '>' :: after) = some (name, after) :=
        readName_eq_some_iff.mpr ⟨hname.toIsName, rfl⟩
      rw [hread] at hsome
      contradiction
  | case4 c rest hc ih =>
      have hrest : OpensPlainNames rest := OpensPlainNames.of_append [c] h
      exact List.forall_mem_cons.mpr ⟨hc, ih hrest⟩

theorem opensPlainNames_of_isTame {text : Text}
    (h : ∀ piece ∈ Line.pieces text, piece.IsTame) : OpensPlainNames text := by
  fun_induction Line.pieces text with
  | case1 =>
      intro before rest heq
      simp at heq
  | case2 rest name after hread ih =>
      obtain ⟨hname, hafter⟩ := List.forall_mem_cons.mp h
      obtain rfl := eq_append_of_readName hread
      intro before rest heq
      cases before with
      | nil =>
          injection heq with _ heq
          exact ⟨name, after, heq.symm, hname⟩
      | cons c before =>
          injection heq with _ heq
          -- No bracket opens inside of the name.
          rcases List.append_eq_append_iff.mp heq with
            ⟨late, rfl, hlate⟩ | ⟨late, rfl, hlate⟩
          · cases late with
            | nil => simp at hlate
            | cons d late =>
                injection hlate with _ hlate
                exact ih hafter late rest hlate
          · cases late with
            | nil => simp at hlate
            | cons d late =>
                injection hlate with hd _
                subst hd
                exact absurd (by simp) hname.opening_not_mem
  | case3 rest hread ih =>
      have hplain := h (.plain '<') (List.mem_cons_self ..)
      exact absurd rfl hplain
  | case4 c rest hc ih =>
      intro before more heq
      cases before with
      | nil =>
          injection heq with hopening _
          contradiction
      | cons d before =>
          injection heq with _ heq
          exact ih (List.forall_mem_cons.mp h).2 before more heq

instance (text : Text) : Decidable (OpensPlainNames text) :=
  decidable_of_iff (∀ piece ∈ Line.pieces text, piece.IsTame)
    ⟨opensPlainNames_of_isTame, OpensPlainNames.isTame_of_mem_pieces⟩

/-- Does no plain placeholder stand in the text? -/
def HoldsNoToken (text : Text) : Prop :=
  ∀ name, IsPlainName name → ¬ (Piece.token name).text <:+: text

theorem holdsNoToken_of_not_mem {text : Text} (h : '<' ∉ text) :
    HoldsNoToken text := by
  intro name _ htoken
  exact h (htoken.subset (List.mem_cons_self ..))

namespace Bindings

def HasPlainValues (bindings : Bindings) : Prop :=
  ∀ binding ∈ bindings, IsPlainValue binding.value

instance (bindings : Bindings) : Decidable bindings.HasPlainValues :=
  inferInstanceAs (Decidable (∀ binding ∈ bindings, _))

theorem HasPlainValues.isPlainValue_fill {bindings : Bindings}
    (h : bindings.HasPlainValues) {name : Text} (hname : IsPlainName name) :
    IsPlainValue (bindings.fill (.token name)) := by
  cases hvalue : bindings.valueOf? name with
  | none =>
      rw [fill, hvalue]
      exact hname.isPlainValue_token
  | some value =>
      rcases exists_binding_of_valueOf? hvalue with ⟨binding, hmem, -, rfl⟩
      rw [fill, hvalue]
      exact h binding hmem

/-! ## Texts side by side -/

/-- The second text is the first one with values for its placeholders, which are
all plain. -/
inductive Fills (bindings : Bindings) : Text → Text → Prop where
  | nil : Fills bindings [] []
  | plain {c : Char} {text filled : Text} : c ≠ '<' →
      Fills bindings text filled → Fills bindings (c :: text) (c :: filled)
  | token {name text filled : Text} : IsPlainName name →
      Fills bindings text filled →
      Fills bindings ((Piece.token name).text ++ text)
        (bindings.fill (.token name) ++ filled)

variable {bindings : Bindings} {text filled : Text}

theorem fills_substitute (h : OpensPlainNames text) :
    bindings.Fills text (bindings.substitute text) := by
  have hpieces : ∀ pieces : List Piece, (∀ piece ∈ pieces, piece.IsTame) →
      bindings.Fills (pieces.flatMap Piece.text)
        (pieces.flatMap bindings.fill) := by
    intro pieces htame
    induction pieces with
    | nil => exact .nil
    | cons piece pieces ih =>
        obtain ⟨hpiece, hmore⟩ := List.forall_mem_cons.mp htame
        cases piece with
        | plain c => exact .plain hpiece (ih hmore)
        | token name => exact .token hpiece (ih hmore)
  have hfills := hpieces _ h.isTame_of_mem_pieces
  rwa [Line.flatMap_text_pieces] at hfills

theorem fills_of_not_mem (h : '<' ∉ text) : bindings.Fills text text := by
  induction text with
  | nil => exact .nil
  | cons c text ih =>
      simp only [List.mem_cons, not_or] at h
      obtain ⟨hc, htext⟩ := h
      exact .plain (Ne.symm hc) (ih htext)

namespace Fills

theorem eq_substitute (h : bindings.Fills text filled) :
    filled = bindings.substitute text := by
  induction h with
  | nil => exact (substitute_nil_line bindings).symm
  | plain hc _ ih => rw [substitute_cons_of_ne bindings hc, ← ih]
  | token hname _ ih =>
      rw [substitute_token bindings hname.toIsName, ← ih]

theorem eq_of_not_mem (h : bindings.Fills text filled) (hmem : '<' ∉ text) :
    filled = text := by
  rw [h.eq_substitute, ← (fills_of_not_mem hmem).eq_substitute]

theorem eq_of_holdsNoToken (h : bindings.Fills text filled)
    (htext : HoldsNoToken text) : filled = text := by
  induction h with
  | nil => rfl
  | plain _ _ ih =>
      rw [ih fun name hname htoken =>
        htext name hname (htoken.trans (List.suffix_cons ..).isInfix)]
  | token hname _ _ =>
      exact absurd (List.prefix_append ..).isInfix (htext _ hname)

/-! ### Cutting -/

/-- A separator stands outside of all placeholders, so it cuts both texts. -/
theorem exists_cut {c : Char} (hc : c ∈ ['(', ')', '[', ']', ',', ':'])
    {before after : Text} (h : bindings.Fills (before ++ c :: after) filled) :
    ∃ before' after', filled = before' ++ c :: after' ∧
      bindings.Fills before before' ∧ bindings.Fills after after' := by
  generalize htext : before ++ c :: after = text at h
  induction h generalizing before with
  | nil => simp at htext
  | @plain d text filled hd h ih =>
      cases before with
      | nil =>
          injection htext with hcd htext
          subst hcd htext
          exact ⟨[], filled, rfl, .nil, h⟩
      | cons e before =>
          injection htext with hed htext
          subst hed
          obtain ⟨before', after', rfl, hbefore, hafter⟩ := ih htext
          exact ⟨e :: before', after', rfl, .plain hd hbefore, hafter⟩
  | @token name text filled hname h ih =>
      have hnot := hname.not_mem_token hc
      rcases List.append_eq_append_iff.mp htext with
        ⟨late, htoken, hlate⟩ | ⟨late, rfl, hlate⟩
      · cases late with
        | nil =>
            rw [List.append_nil] at htoken
            subst htoken
            have hrest : [] ++ c :: after = text := hlate
            obtain ⟨before', after', rfl, hbefore, hafter⟩ := ih hrest
            refine ⟨_ ++ before', after', (List.append_assoc ..).symm, ?_,
              hafter⟩
            have hwhole := Fills.token hname hbefore
            rwa [List.append_nil] at hwhole
        | cons d late =>
            injection hlate with hcd _
            exact absurd (by simp [htoken, hcd]) hnot
      · obtain ⟨before', after', rfl, hbefore, hafter⟩ := ih hlate.symm
        exact ⟨_ ++ before', after', (List.append_assoc ..).symm,
          .token hname hbefore, hafter⟩

section Values

variable (hvalues : bindings.HasPlainValues)

include hvalues

theorem eq_nil_iff (h : bindings.Fills text filled) :
    text = [] ↔ filled = [] := by
  cases h with
  | nil => exact Iff.rfl
  | plain _ _ => simp
  | token hname _ =>
      simp [hname.isPlainValue_token.ne_nil,
        (hvalues.isPlainValue_fill hname).ne_nil]

theorem partsFrom (h : bindings.Fills text filled) (level : Nat) :
    List.Forall₂ bindings.Fills (Text.partsFrom level text)
      (Text.partsFrom level filled) := by
  induction h generalizing level with
  | nil => exact .cons .nil .nil
  | @plain c text filled hc _ ih =>
      rw [Text.partsFrom, Text.partsFrom]
      split
      · exact .cons .nil (ih 0)
      · exact forall₂_modifyHead (ih _) fun _ _ => .plain hc
  | token hname _ ih =>
      have hplain := hname.isPlainValue_token.plain
      have hfilled := (hvalues.isPlainValue_fill hname).plain
      rw [partsFrom_append (partsFrom_of_isPlain hplain level),
        partsFrom_append (partsFrom_of_isPlain hfilled level),
        levelAtEnd_of_isPlain hplain, levelAtEnd_of_isPlain hfilled]
      exact forall₂_modifyHead (ih level) fun _ _ => .token hname

/-! ### Trimming -/

theorem trimStart (h : bindings.Fills text filled) :
    bindings.Fills text.trimStart filled.trimStart := by
  induction h with
  | nil => exact .nil
  | @plain c text filled hc h ih =>
      by_cases hblank : isBlank c = true
      · rw [Text.trimStart, Text.trimStart, List.dropWhile_cons_of_pos hblank,
          List.dropWhile_cons_of_pos hblank]
        exact ih
      · rw [trimStart_cons_of_not_blank (by simpa using hblank),
          trimStart_cons_of_not_blank (by simpa using hblank)]
        exact .plain hc h
  | token hname h _ =>
      rw [hname.isPlainValue_token.trimStart_append,
        (hvalues.isPlainValue_fill hname).trimStart_append]
      exact .token hname h

theorem trimEnd (h : bindings.Fills text filled) :
    bindings.Fills text.trimEnd filled.trimEnd := by
  induction h with
  | nil => exact .nil
  | @plain c text filled hc _ ih =>
      rw [← List.singleton_append, ← List.singleton_append (l := filled),
        trimEnd_append, trimEnd_append]
      simp only [ih.eq_nil_iff hvalues]
      split
      · have hmem : '<' ∉ Text.trimEnd [c] := fun hmem =>
          hc (List.mem_singleton.mp ((isPrefix_trimEnd [c]).subset hmem)).symm
        exact fills_of_not_mem hmem
      · exact .plain hc ih
  | token hname _ ih =>
      have htoken := hname.isPlainValue_token.trimEnd_eq
      have hfilled := (hvalues.isPlainValue_fill hname).trimEnd_eq
      rw [trimEnd_append, trimEnd_append, htoken, hfilled]
      simp only [ih.eq_nil_iff hvalues]
      split
      · next hnil =>
          have hwhole : bindings.Fills ((Piece.token _).text ++ [])
              (bindings.fill (.token _) ++ []) := .token hname .nil
          rwa [List.append_nil, List.append_nil] at hwhole
      · exact .token hname ih

theorem trim (h : bindings.Fills text filled) :
    bindings.Fills text.trim filled.trim :=
  (h.trimStart hvalues).trimEnd hvalues

end Values

end Fills

end Bindings

end ScenarioInclusion
