import ScenarioInclusion.Proofs.Sequence
import ScenarioInclusion.Proofs.Text.Reading
import Mathlib.Data.List.Basic

/-!
# Two spellings of a key

The key of a binding may be spelled bare or in angle brackets.  Where it stands
in the list of parameters of an include tag, both spellings are read alike: the
tag says the same, or it cannot be read in either spelling.
-/

namespace ScenarioInclusion

open Text

/-! ## Trimming and cutting -/

namespace Text

theorem trimStart_append_of_ne_nil {text : Text} (h : text.trimStart ≠ [])
    (more : Text) : Text.trimStart (text ++ more) = text.trimStart ++ more := by
  have hempty : (text.dropWhile isBlank).isEmpty = false := by
    simpa [Text.trimStart] using h
  rw [Text.trimStart, List.dropWhile_append, hempty]
  rfl

theorem mem_trim_of_not_blank {text : Text} {c : Char} (h : c ∈ text)
    (hc : isBlank c = false) : c ∈ text.trim := by
  have hstart : c ∈ text.trimStart := by
    rw [← indent_append_trimStart text, List.mem_append] at h
    rcases h with hindent | hstart
    · have hblank := isBlank_of_mem_indent c hindent
      simp [hc] at hblank
    · exact hstart
  have hreverse := List.takeWhile_append_dropWhile (p := isBlank)
    (l := text.trimStart.reverse)
  rw [← List.mem_reverse, ← hreverse, List.mem_append] at hstart
  rcases hstart with hend | hmem
  · have hblank := List.mem_takeWhile_imp hend
    simp [hc] at hblank
  · exact List.mem_reverse.mpr hmem

theorem trimEnd_append_of_blank {gap : Text}
    (h : ∀ c ∈ gap, isBlank c = true) (text : Text) :
    Text.trimEnd (text ++ gap) = text.trimEnd := by
  rw [Text.trimEnd, List.reverse_append, List.dropWhile_append_of_pos]
  · rfl
  · intro c hc
    exact h c (List.mem_reverse.mp hc)

theorem trimEnd_cons_of_not_blank {c : Char} (hc : isBlank c = false)
    (rest : Text) : Text.trimEnd (c :: rest) = c :: rest.trimEnd :=
  trimEnd_append_cons hc [] rest

theorem cutAtColon_append {name : Text} (h : ':' ∉ name) (value : Text) :
    cutAtColon (name ++ ':' :: value) = some (name, value) := by
  induction name with
  | nil => rfl
  | cons c name ih =>
      have hc : c ≠ ':' := by
        rintro rfl
        exact h (List.mem_cons_self ..)
      have hname : ':' ∉ name := fun hmem => h (List.mem_cons_of_mem c hmem)
      rw [List.cons_append, cutAtColon, if_neg hc, ih hname]
      rfl

theorem cutAtColon_eq_none_iff {text : Text} :
    cutAtColon text = none ↔ ':' ∉ text := by
  constructor
  · intro hnone hmem
    obtain ⟨before, after, rfl, hbefore⟩ := List.eq_append_cons_of_mem hmem
    rw [cutAtColon_append hbefore] at hnone
    contradiction
  · intro h
    cases hcut : cutAtColon text with
    | none => rfl
    | some sides =>
        rw [eq_append_of_cutAtColon hcut] at h
        simp at h

theorem cutAtColon_eq_some_iff {text before after : Text} :
    cutAtColon text = some (before, after) ↔
      text = before ++ ':' :: after ∧ ':' ∉ before := by
  constructor
  · intro hcut
    have hmem : ':' ∈ text := by
      rw [eq_append_of_cutAtColon hcut]
      simp
    -- The text cannot be cut at a later colon.
    obtain ⟨first, rest, rfl, hfirst⟩ := List.eq_append_cons_of_mem hmem
    rw [cutAtColon_append hfirst] at hcut
    cases hcut
    exact ⟨rfl, hfirst⟩
  · rintro ⟨rfl, hbefore⟩
    exact cutAtColon_append hbefore after

theorem between?_eq_some_iff {opening closing : Char} {text inner : Text} :
    between? opening closing text = some inner ↔
      text = opening :: (inner ++ [closing]) := by
  cases text with
  | nil => simp [between?]
  | cons c rest =>
      rw [between?]
      constructor
      · intro h
        split at h
        · next hends =>
            obtain ⟨rfl, hlast⟩ := hends
            obtain ⟨start, rfl⟩ := List.getLast?_eq_some_iff.mp hlast
            rw [List.dropLast_concat] at h
            cases h
            rfl
        · contradiction
      · intro h
        injection h with hc hrest
        subst hc hrest
        simp

theorem getLast?_colon {c : Char} (h : c ≠ ':') (start tail : Text) :
    (start ++ ':' :: tail).getLast? = some c ↔ tail.getLast? = some c := by
  cases tail with
  | nil => simp [h.symm]
  | cons d tail => simp [List.getLast?_cons_cons]

theorem dropLast_colon {c : Char} {tail : Text}
    (h : tail.getLast? = some c) (start : Text) :
    (start ++ ':' :: tail).dropLast = start ++ ':' :: tail.dropLast := by
  cases tail with
  | nil => contradiction
  | cons d tail => simp

end Text

namespace Directive

/-- Plain text before a colon stays in one item, and changes no other. -/
theorem exists_items_around {front start : Text} (hfront : EndsPart front)
    (hstart : parts start = [start]) (rest : Text) :
    ∃ earlier tail later, ∀ middle : Text, middle.IsPlain →
      items (front ++ (start ++ (middle ++ ':' :: rest))) =
        earlier ++ Text.trim (start ++ (middle ++ ':' :: tail)) :: later := by
  rcases exists_parts_around hfront hstart rest with
    ⟨earlier, tail, later, hparts⟩
  refine ⟨(earlier.map Text.trim).filter (· ≠ []), tail,
    (later.map Text.trim).filter (· ≠ []), fun middle hmiddle => ?_⟩
  have hvisible : Text.trim (start ++ (middle ++ ':' :: tail)) ≠ [] := by
    apply List.ne_nil_of_mem (a := ':')
    exact mem_trim_of_not_blank (by simp) (by decide)
  rw [items, hparts middle hmiddle, List.map_append, List.map_cons,
    List.filter_append, List.filter_cons_of_pos (by simpa using hvisible)]

theorem argumentList_colon (start tail : Text) :
    argumentList ('@' :: Tag.includeName ++ '(' :: (start ++ ':' :: tail)) =
      if tail.trimEnd.getLast? = some ')' then
        .ok (start ++ ':' :: tail.trimEnd.dropLast)
      else .error .unterminated := by
  have htrim : Text.trim
      ('@' :: Tag.includeName ++ '(' :: (start ++ ':' :: tail)) =
      '@' :: Tag.includeName ++ '(' :: (start ++ ':' :: tail.trimEnd) := by
    have hend := trimEnd_append_cons (c := ':') (by decide)
      ('@' :: Tag.includeName ++ '(' :: start) tail
    rw [Text.trim, List.cons_append,
      trimStart_cons_of_not_blank (c := '@') (by decide)]
    simpa using hend
  have hrest : ('@' :: Tag.includeName).isPrefixOf?
      ('@' :: Tag.includeName ++ '(' :: (start ++ ':' :: tail.trimEnd)) =
      some ('(' :: (start ++ ':' :: tail.trimEnd)) := rfl
  have hvoid : Text.isVoid ('(' :: (start ++ ':' :: tail.trimEnd)) = false :=
    rfl
  rw [argumentList, htrim, hrest]
  simp only [hvoid, trimStart_cons_of_not_blank (c := '(') (by decide),
    getLast?_colon (c := ')') (by decide)]
  by_cases hlast : tail.trimEnd.getLast? = some ')'
  · simp [hlast, dropLast_colon hlast]
  · simp [hlast]

end Directive

/-! ## Keys -/

/-- A key that can be spelled bare. -/
structure IsKey (key : Text) : Prop where
  ne_nil : key ≠ []
  trimStart_eq : key.trimStart = key
  trimEnd_eq : key.trimEnd = key
  plain : ∀ c ∈ key, c ∉ ['<', '>', '(', ')', '[', ']', ',', ':']

/-- A spelling of a key, maybe with blanks behind it. -/
inductive Spells (key : Text) : Text → Prop where
  | bare {gap : Text} : (∀ c ∈ gap, isBlank c = true) → Spells key (key ++ gap)
  | bracketed {gap : Text} : (∀ c ∈ gap, isBlank c = true) →
      Spells key ((Piece.token key).text ++ gap)

section Spells

variable {key spelling : Text} (hkey : IsKey key) (h : Spells key spelling)

include hkey

theorem IsKey.isPlain : key.IsPlain := by
  intro c hc hbracket
  apply hkey.plain c hc
  simp only [List.mem_cons, List.not_mem_nil, or_false] at hbracket ⊢
  tauto

theorem IsKey.isPlain_token : Text.IsPlain (Piece.token key).text := by
  intro c hc
  rcases List.mem_cons.mp hc with rfl | hc
  · decide
  · rcases List.mem_append.mp hc with hc | hc
    · exact hkey.isPlain c hc
    · rw [List.mem_singleton.mp hc]
      decide

theorem IsKey.not_mem {c : Char}
    (hc : c ∈ ['<', '>', '(', ')', '[', ']', ',', ':']) : c ∉ key :=
  fun hmem => hkey.plain c hmem hc

include h

theorem Spells.isPlain : spelling.IsPlain := by
  cases h with
  | bare hgap => exact hkey.isPlain.append (isPlain_of_blank hgap)
  | bracketed hgap => exact hkey.isPlain_token.append (isPlain_of_blank hgap)

theorem Spells.colon_not_mem : ':' ∉ spelling := by
  have hcolon : ':' ∉ key := hkey.not_mem (by decide)
  have hblank : ∀ gap : Text, (∀ c ∈ gap, isBlank c = true) → ':' ∉ gap := by
    intro gap hgap hmem
    exact absurd (hgap _ hmem) (by decide)
  cases h with
  | bare hgap => simp [hcolon, hblank _ hgap]
  | bracketed hgap => simp [Piece.text, hcolon, hblank _ hgap]

theorem Spells.trimStart_append (rest : Text) :
    Text.trimStart (spelling ++ rest) = spelling ++ rest := by
  have hstart : key.trimStart ≠ [] := by
    rw [hkey.trimStart_eq]
    exact hkey.ne_nil
  cases h with
  | bare hgap =>
      rw [List.append_assoc, trimStart_append_of_ne_nil hstart,
        hkey.trimStart_eq]
  | bracketed hgap => exact trimStart_cons_of_not_blank (by decide) _

theorem Spells.keyOf_eq : Binding.keyOf spelling = key := by
  have hstart := h.trimStart_append hkey []
  rw [List.append_nil] at hstart
  rw [Binding.keyOf, Text.trim, hstart]
  cases h with
  | bare hgap =>
      rw [trimEnd_append_of_blank hgap, hkey.trimEnd_eq]
      cases hcons : key with
      | nil => exact absurd hcons hkey.ne_nil
      | cons c rest =>
          have hc : c ≠ '<' := by
            rintro rfl
            exact hkey.not_mem (by decide) (hcons ▸ List.mem_cons_self ..)
          simp [between?, hc]
  | bracketed hgap =>
      have hend : Text.trimEnd ('<' :: key ++ ['>']) = '<' :: key ++ ['>'] :=
        trimEnd_append_cons (by decide) ('<' :: key) []
      have htrim : Text.trimEnd (Piece.token key).text =
          (Piece.token key).text := hend
      rw [trimEnd_append_of_blank hgap, htrim]
      simp [Piece.text, between?]

end Spells

/-! ## Reading -/

namespace Directive

section Reading

variable {key : Text} (hkey : IsKey key)

include hkey

theorem readBinding_of_spells {spelling : Text} (h : Spells key spelling)
    {margin : Text} (hmargin : ∀ c ∈ margin, isBlank c = true) (tail : Text) :
    readBinding (Text.trim (margin ++ (spelling ++ ':' :: tail))) =
      .ok ⟨key, tail.trimEnd.trim⟩ := by
  have hentry : Text.trim (margin ++ (spelling ++ ':' :: tail)) =
      spelling ++ ':' :: tail.trimEnd := by
    rw [Text.trim, trimStart_append_of_blank hmargin,
      h.trimStart_append hkey, trimEnd_append_cons (by decide)]
  rw [hentry, readBinding, cutAtColon_append (h.colon_not_mem hkey)]
  simp only [h.keyOf_eq hkey, if_neg hkey.ne_nil, Binding.ofSpelling]

variable {spelling other : Text} (h : Spells key spelling)
  (hother : Spells key other)

include h hother

theorem readParams_of_spells {entries margin : Text}
    (hentries : EndsPart entries) (hmargin : ∀ c ∈ margin, isBlank c = true)
    (tail : Text) :
    (readParams ('[' :: (entries ++ (margin ++ (spelling ++ ':' :: tail))))
      ).toOption =
      (readParams ('[' :: (entries ++ (margin ++ (other ++ ':' :: tail))))
        ).toOption := by
  have hbetween : ∀ middle : Text,
      between? '[' ']' ('[' :: (entries ++ (margin ++ (middle ++ ':' :: tail)))) =
        if tail.getLast? = some ']' then
          some (entries ++ (margin ++ (middle ++ ':' :: tail.dropLast)))
        else none := by
    intro middle
    have hlast := getLast?_colon (c := ']') (by decide)
      (entries ++ (margin ++ middle)) tail
    have hdrop : tail.getLast? = some ']' → _ := fun hclosed =>
      dropLast_colon hclosed (entries ++ (margin ++ middle))
    simp only [List.append_assoc] at hlast hdrop
    by_cases hclosed : tail.getLast? = some ']'
    · rw [between?, if_pos ⟨rfl, hlast.mpr hclosed⟩, if_pos hclosed,
        hdrop hclosed]
    · rw [between?, if_neg fun hboth => hclosed (hlast.mp hboth.2),
        if_neg hclosed]
  rw [readParams, readParams, hbetween, hbetween]
  by_cases hclosed : tail.getLast? = some ']'
  · have hplain : parts margin = [margin] :=
      partsFrom_of_isPlain (isPlain_of_blank hmargin) 0
    rcases exists_items_around hentries hplain tail.dropLast with
      ⟨earlier, last, later, hitems⟩
    simp only [if_pos hclosed, hitems _ (h.isPlain hkey),
      hitems _ (hother.isPlain hkey), List.mapM_append, List.mapM_cons,
      readBinding_of_spells hkey h hmargin,
      readBinding_of_spells hkey hother hmargin]
  · simp only [if_neg hclosed]
    rfl

end Reading

end Directive

end ScenarioInclusion
