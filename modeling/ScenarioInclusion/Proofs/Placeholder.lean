import ScenarioInclusion.Placeholder
import Mathlib.Data.List.Infix

/-!
# Where the placeholders of a line are

A placeholder ends at the first closing bracket behind its opening one, so the
text from a place on settles whether one begins there, and which one.

Reading from the left takes every placeholder as early as possible and goes on
behind it.  `LeftmostCut` says this without reading: no placeholder begins in
the text before the one that is taken.  The pieces of a line are its only such
cut.
-/

namespace ScenarioInclusion

/-! ## Names -/

/-- Can the text stand between the brackets of a placeholder? -/
structure IsName (name : Text) : Prop where
  begins : ∃ c ∈ name.head?, isBlank c = false
  closing_not_mem : '>' ∉ name

instance (name : Text) : Decidable (IsName name) :=
  -- Without this all characters there are would be tried.
  letI := Option.decidableExistsMem (p := fun c => isBlank c = false) name.head?
  decidable_of_iff ((∃ c ∈ name.head?, isBlank c = false) ∧ '>' ∉ name)
    ⟨fun h => ⟨h.1, h.2⟩, fun h => ⟨h.begins, h.closing_not_mem⟩⟩

theorem isName_cons_iff {c : Char} {rest : Text} :
    IsName (c :: rest) ↔ beginsName c = true ∧ '>' ∉ rest := by
  constructor
  · intro h
    obtain ⟨d, hd, hblank⟩ := h.begins
    have hclosing := h.closing_not_mem
    simp only [List.head?_cons, Option.mem_some_iff] at hd
    simp only [List.mem_cons, not_or] at hclosing
    subst hd
    simp [beginsName, hblank, Ne.symm hclosing.1, hclosing.2]
  · rintro ⟨hbegins, hrest⟩
    simp only [beginsName, Bool.and_eq_true, decide_eq_true_eq,
      Bool.not_eq_true'] at hbegins
    refine ⟨⟨c, rfl, hbegins.2⟩, ?_⟩
    simp [Ne.symm hbegins.1, hrest]

theorem IsName.ne_nil {name : Text} (h : IsName name) : name ≠ [] := by
  rintro rfl
  obtain ⟨c, hc, -⟩ := h.begins
  simp at hc

theorem cutAtClosing_append {name : Text} (h : '>' ∉ name) (rest : Text) :
    cutAtClosing (name ++ '>' :: rest) = some (name, rest) := by
  induction name with
  | nil => rfl
  | cons c name ih =>
      simp only [List.mem_cons, not_or] at h
      rw [List.cons_append, cutAtClosing, if_neg (Ne.symm h.1), ih h.2]
      rfl

theorem eq_of_append_closing_eq {name other rest rest' : Text}
    (hname : '>' ∉ name) (hother : '>' ∉ other)
    (h : name ++ '>' :: rest = other ++ '>' :: rest') : name = other := by
  have hcut := congrArg cutAtClosing h
  rw [cutAtClosing_append hname, cutAtClosing_append hother] at hcut
  injection hcut with hpair
  exact congrArg Prod.fst hpair

theorem not_mem_of_cutAtClosing {text before after : Text}
    (h : cutAtClosing text = some (before, after)) : '>' ∉ before := by
  induction text generalizing before with
  | nil => simp [cutAtClosing] at h
  | cons c rest ih =>
      rw [cutAtClosing] at h
      split at h
      · simp_all
      · next hc =>
          obtain ⟨⟨first, last⟩, hrest, heq⟩ := Option.map_eq_some_iff.mp h
          cases heq
          simp [Ne.symm hc, ih hrest]

theorem cutAtClosing_eq_none_iff {text : Text} :
    cutAtClosing text = none ↔ '>' ∉ text := by
  constructor
  · intro hnone hmem
    obtain ⟨before, after, rfl, hbefore⟩ := List.eq_append_cons_of_mem hmem
    rw [cutAtClosing_append hbefore] at hnone
    contradiction
  · intro h
    cases hcut : cutAtClosing text with
    | none => rfl
    | some parts =>
        rw [eq_append_of_cutAtClosing hcut] at h
        simp at h

theorem readName_eq_some_iff {text name after : Text} :
    readName text = some (name, after) ↔
      IsName name ∧ text = name ++ '>' :: after := by
  cases text with
  | nil => simp [readName]
  | cons c rest =>
      constructor
      · intro h
        refine ⟨?_, eq_append_of_readName h⟩
        rw [readName] at h
        split at h
        · next hbegins =>
            obtain ⟨⟨before, later⟩, hcut, heq⟩ := Option.map_eq_some_iff.mp h
            cases heq
            exact isName_cons_iff.mpr ⟨hbegins, not_mem_of_cutAtClosing hcut⟩
        · contradiction
      · rintro ⟨hname, htext⟩
        obtain ⟨first, more, rfl⟩ := List.exists_cons_of_ne_nil hname.ne_nil
        rw [List.cons_append, List.cons.injEq] at htext
        obtain ⟨rfl, rfl⟩ := htext
        rw [isName_cons_iff] at hname
        rw [readName, if_pos hname.1, cutAtClosing_append hname.2]
        rfl

/-- No name is read where the text does not begin with one, or where nothing
closes it. -/
theorem readName_eq_none_iff {text : Text} :
    readName text = none ↔
      (∀ c ∈ text.head?, beginsName c = false) ∨ '>' ∉ text := by
  cases text with
  | nil => simp [readName]
  | cons c rest =>
      by_cases hbegins : beginsName c = true
      · have hc : '>' ≠ c := by
          rintro rfl
          simp [beginsName] at hbegins
        simp [readName, hbegins, cutAtClosing_eq_none_iff, hc]
      · simp [readName, hbegins]

/-! ## Beginnings of placeholders -/

/-- Does a placeholder begin where the text begins? -/
def StartsToken (text : Text) : Prop :=
  ∃ name, IsName name ∧ (Piece.token name).text <+: text

theorem startsToken_cons_iff {c : Char} {rest : Text} :
    StartsToken (c :: rest) ↔
      c = '<' ∧ ∃ name after, readName rest = some (name, after) := by
  simp only [readName_eq_some_iff]
  constructor
  · rintro ⟨name, hname, after, htext⟩
    simp only [Piece.text, List.cons_append, List.append_assoc,
      List.cons.injEq] at htext
    exact ⟨htext.1.symm, name, after, hname, htext.2.symm⟩
  · rintro ⟨rfl, name, after, hname, rfl⟩
    exact ⟨name, hname, after, by simp [Piece.text]⟩

namespace Line

theorem pieces_token {name : Text} (h : IsName name) (after : Text) :
    Line.pieces ((Piece.token name).text ++ after) =
      .token name :: Line.pieces after := by
  have htext : (Piece.token name).text ++ after =
      '<' :: (name ++ '>' :: after) := by
    simp [Piece.text]
  have hread : readName (name ++ '>' :: after) = some (name, after) :=
    readName_eq_some_iff.mpr ⟨h, rfl⟩
  rw [htext, Line.pieces, if_pos rfl]
  split
  · next hname =>
      rw [hread] at hname
      cases hname
      rfl
  · next hname =>
      rw [hread] at hname
      contradiction

theorem pieces_cons_of_not_startsToken {c : Char} {rest : Text}
    (h : ¬ StartsToken (c :: rest)) :
    Line.pieces (c :: rest) = .plain c :: Line.pieces rest := by
  rw [startsToken_cons_iff] at h
  rw [Line.pieces]
  split
  · next hc =>
      split
      · next name after hname => exact absurd ⟨hc, name, after, hname⟩ h
      · rfl
  · rfl

theorem pieces_cons_of_ne {c : Char} (hc : c ≠ '<') (rest : Text) :
    Line.pieces (c :: rest) = .plain c :: Line.pieces rest := by
  rw [Line.pieces, if_neg hc]

theorem isName_of_mem_pieces {line name : Text}
    (h : Piece.token name ∈ Line.pieces line) : IsName name := by
  fun_induction Line.pieces line with
  | case1 => contradiction
  | case2 rest first after hread ih =>
      rcases List.mem_cons.mp h with heq | hmem
      · cases heq
        exact (readName_eq_some_iff.mp hread).1
      · exact ih hmem
  | case3 rest hread ih =>
      apply ih
      simpa using h
  | case4 c rest hc ih =>
      apply ih
      simpa using h

end Line

/-! ## The leftmost cut -/

/-- Does no placeholder begin in a text, before the rest that follows it? -/
def NoTokenBefore (before rest : Text) : Prop :=
  ∀ late, late ≠ [] → late <:+ before → ¬ StartsToken (late ++ rest)

theorem noTokenBefore_nil (rest : Text) : NoTokenBefore [] rest := by
  intro late hne hlate
  exact absurd (List.suffix_nil.mp hlate) hne

theorem noTokenBefore_cons_iff {c : Char} {before rest : Text} :
    NoTokenBefore (c :: before) rest ↔
      ¬ StartsToken (c :: before ++ rest) ∧ NoTokenBefore before rest := by
  constructor
  · intro h
    refine ⟨h _ (List.cons_ne_nil c before) (List.suffix_refl _), ?_⟩
    intro late hne hlate
    exact h late hne (hlate.trans (List.suffix_cons c before))
  · rintro ⟨hhead, htail⟩ late hne hlate
    rcases List.suffix_cons_iff.mp hlate with rfl | hlate
    · exact hhead
    · exact htail late hne hlate

/-- A cut of a text into characters and placeholders that takes every
placeholder as early as possible, and the next one behind it. -/
inductive LeftmostCut : Text → List Piece → Prop where
  | plain {text : Text} :
      NoTokenBefore text [] → LeftmostCut text (text.map .plain)
  | token {before name after : Text} {pieces : List Piece} :
      NoTokenBefore before ((Piece.token name).text ++ after) →
        IsName name → LeftmostCut after pieces →
        LeftmostCut (before ++ ((Piece.token name).text ++ after))
          (before.map .plain ++ .token name :: pieces)

theorem Line.pieces_append_of_noTokenBefore {before rest : Text}
    (h : NoTokenBefore before rest) :
    Line.pieces (before ++ rest) =
      before.map .plain ++ Line.pieces rest := by
  induction before with
  | nil => rfl
  | cons c before ih =>
      rw [noTokenBefore_cons_iff, List.cons_append] at h
      rw [List.cons_append, Line.pieces_cons_of_not_startsToken h.1, ih h.2]
      rfl

namespace LeftmostCut

theorem eq_pieces {line : Text} {pieces : List Piece}
    (h : LeftmostCut line pieces) : pieces = Line.pieces line := by
  induction h with
  | @plain text hnone =>
      have hpieces := Line.pieces_append_of_noTokenBefore hnone
      simpa [Line.pieces] using hpieces.symm
  | token hbefore hname _ ih =>
      rw [Line.pieces_append_of_noTokenBefore hbefore,
        Line.pieces_token hname, ih]

theorem cons {c : Char} {rest : Text} {pieces : List Piece}
    (h : LeftmostCut rest pieces) (hc : ¬ StartsToken (c :: rest)) :
    LeftmostCut (c :: rest) (.plain c :: pieces) := by
  cases h with
  | plain hnone =>
      have hcons : NoTokenBefore (c :: rest) [] := by
        rw [noTokenBefore_cons_iff, List.append_nil]
        exact ⟨hc, hnone⟩
      exact plain hcons
  | @token before name after pieces hbefore hname hafter =>
      have hcons : NoTokenBefore (c :: before)
          ((Piece.token name).text ++ after) :=
        noTokenBefore_cons_iff.mpr ⟨hc, hbefore⟩
      exact token hcons hname hafter

end LeftmostCut

theorem Line.leftmostCut_pieces (line : Text) :
    LeftmostCut line (Line.pieces line) := by
  fun_induction Line.pieces line with
  | case1 => exact LeftmostCut.plain (noTokenBefore_nil [])
  | case2 rest name after hread ih =>
      obtain ⟨hname, rfl⟩ := readName_eq_some_iff.mp hread
      have hcut := LeftmostCut.token (noTokenBefore_nil _) hname ih
      simpa [Piece.text] using hcut
  | case3 rest hread ih =>
      apply ih.cons
      rw [startsToken_cons_iff]
      rintro ⟨-, name, after, hname⟩
      rw [hread] at hname
      contradiction
  | case4 c rest hc ih =>
      apply ih.cons
      rw [startsToken_cons_iff]
      rintro ⟨hbracket, -⟩
      exact hc hbracket

/-- The pieces of a line are its only leftmost cut. -/
theorem leftmostCut_iff {line : Text} {pieces : List Piece} :
    LeftmostCut line pieces ↔ pieces = Line.pieces line := by
  constructor
  · exact LeftmostCut.eq_pieces
  · rintro rfl
    exact Line.leftmostCut_pieces line

end ScenarioInclusion
