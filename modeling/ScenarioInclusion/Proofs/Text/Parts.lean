import ScenarioInclusion.Proofs.Text.Balanced
import Mathlib.Data.String.Basic

/-!
# Cutting at commas and joining again

Every text is a list of parts with commas between them, and it is that for one
list only: `Text.parts` finds it.  So cutting loses nothing, and whatever is a
list of parts comes back when it is joined and cut.

A reader of text in UTF-8 keeps no characters but byte offsets, and takes each
part out of the text between two of them.  Between offsets that are no boundaries
of characters there would be nothing to take, and a part would be lost.
`Text.partSpans` are the offsets that such a reader keeps, and all of them are
boundaries.
-/

namespace ScenarioInclusion

namespace Text

/-! ## The first part -/

theorem exists_first_comma (level : Nat) (text : Text) :
    Guards isComma level text ∨
      ∃ part rest, text = part ++ ',' :: rest ∧
        Guards isComma level part ∧ levelAtEnd level part = 0 := by
  induction text generalizing level with
  | nil => exact Or.inl (guards_nil isComma level)
  | cons c rest ih =>
      by_cases hcut : c = ',' ∧ level = 0
      · refine Or.inr ⟨[], rest, ?_, guards_nil isComma level, hcut.2⟩
        simp [hcut.1]
      · have hc : isComma c = true → level ≠ 0 := by
          intro hcomma hlevel
          exact hcut ⟨by simpa [isComma] using hcomma, hlevel⟩
        rcases ih (levelAfter level c) with
          hrest | ⟨part, more, rfl, hpart, hclosed⟩
        · exact Or.inl (guards_cons.mpr ⟨hc, hrest⟩)
        · exact Or.inr ⟨c :: part, more, rfl, guards_cons.mpr ⟨hc, hpart⟩,
            hclosed⟩

/-- Every text is one part, or a part, a comma and a shorter text. -/
theorem parts_induction {motive : Text → Prop}
    (last : ∀ text, Guards isComma 0 text → motive text)
    (comma : ∀ part rest, Guards isComma 0 part → levelAtEnd 0 part = 0 →
      motive rest → motive (part ++ ',' :: rest))
    (text : Text) : motive text := by
  induction hlength : text.length using Nat.strong_induction_on
    generalizing text with
  | _ length ih =>
      rcases exists_first_comma 0 text with
        hguarded | ⟨part, rest, rfl, hguarded, hclosed⟩
      · exact last text hguarded
      · have hshorter : rest.length < length := by
          simp only [List.length_append, List.length_cons] at hlength
          omega
        exact comma part rest hguarded hclosed (ih _ hshorter rest rfl)

theorem areParts_parts (text : Text) : AreParts (parts text) := by
  induction text using parts_induction with
  | last text hguarded =>
      rw [parts, partsFrom_eq_singleton_iff.mpr hguarded,
        areParts_singleton_iff]
      exact hguarded
  | comma part rest hguarded hclosed ih =>
      have hne : parts rest ≠ [] := partsFrom_ne_nil 0 rest
      rw [parts_append_comma hguarded hclosed, areParts_cons_iff hne]
      exact ⟨hguarded, hclosed, ih⟩

/-- The parts of a text are the only parts that make the text. -/
theorem parts_eq_iff {text : Text} {texts : List Text} :
    parts text = texts ↔
      AreParts texts ∧ List.intercalate [','] texts = text := by
  constructor
  · rintro rfl
    exact ⟨areParts_parts text, intercalate_partsFrom 0 text⟩
  · rintro ⟨hparts, rfl⟩
    exact hparts.parts_intercalate

/-! ## Byte offsets -/

/-- Two offsets into a text, counted in bytes. -/
structure Span where
  start : Nat
  stop : Nat
  deriving DecidableEq, Repr

/-- The characters between two offsets, if both are boundaries of characters and
in order. -/
def slice? (text : Text) (span : Span) : Option Text :=
  if String.Pos.Raw.IsValid (String.ofList text) ⟨span.start⟩ ∧
      String.Pos.Raw.IsValid (String.ofList text) ⟨span.stop⟩ ∧
      span.start ≤ span.stop then
    some (String.Pos.Raw.extract (String.ofList text)
      ⟨span.start⟩ ⟨span.stop⟩).toList
  else none

/-- The spans of the parts from the one that began at `start`, when the text is
entered at the given level and offset. -/
def partSpansFrom (level start offset : Nat) : Text → List Span
  | [] => [⟨start, offset⟩]
  | c :: rest =>
    if c = ',' ∧ level = 0 then
      ⟨start, offset⟩ ::
        partSpansFrom 0 (offset + c.utf8Size) (offset + c.utf8Size) rest
    else partSpansFrom (levelAfter level c) start (offset + c.utf8Size) rest

def partSpans (text : Text) : List Span :=
  partSpansFrom 0 0 0 text

theorem isValid_utf8Len (before after : Text) :
    String.Pos.Raw.IsValid (String.ofList (before ++ after))
      ⟨String.utf8Len before⟩ := by
  rw [String.Pos.Raw.isValid_ofList]
  refine ⟨before.length, ?_⟩
  rw [List.take_left, ← String.utf8Len_toList, String.toList_ofList]

theorem slice?_append (before part after : Text) :
    slice? (before ++ (part ++ after))
      ⟨String.utf8Len before, String.utf8Len (before ++ part)⟩ =
        some part := by
  have hstart := isValid_utf8Len before (part ++ after)
  have hstop := isValid_utf8Len (before ++ part) after
  have hle : String.utf8Len before ≤ String.utf8Len (before ++ part) := by
    simp
  rw [List.append_assoc] at hstop
  rw [slice?, if_pos ⟨hstart, hstop, hle⟩, String.utf8Len_append,
    ← List.append_assoc, String.extract_of_valid, String.toList_ofList]

theorem modifyHead_nil_append (texts : List Text) :
    texts.modifyHead ([] ++ ·) = texts :=
  congrFun List.modifyHead_id texts

/-- The part that is being read began behind `before`, and so far it is
`part`. -/
theorem map_slice?_partSpansFrom (level : Nat) (before part rest : Text) :
    (partSpansFrom level (String.utf8Len before)
        (String.utf8Len (before ++ part)) rest).map
      (slice? (before ++ (part ++ rest))) =
        ((partsFrom level rest).modifyHead (part ++ ·)).map some := by
  induction rest generalizing level before part with
  | nil =>
      rw [partSpansFrom, partsFrom, List.map_singleton, slice?_append]
      simp
  | cons c rest ih =>
      have hoffset : String.utf8Len (before ++ part) + c.utf8Size =
          String.utf8Len (before ++ (part ++ [c])) := by
        simp [Nat.add_assoc]
      rw [partSpansFrom, partsFrom, hoffset]
      split
      · have hnext := ih 0 (before ++ (part ++ [c])) []
        rw [modifyHead_nil_append, List.append_nil, List.nil_append,
          List.append_assoc, List.append_assoc, List.singleton_append] at hnext
        rw [List.map_cons, slice?_append, hnext, List.modifyHead_cons,
          List.append_nil, List.map_cons]
      · have hsame := ih (levelAfter level c) before (part ++ [c])
        simp only [List.append_assoc, List.singleton_append] at hsame
        rw [hsame, List.modifyHead_modifyHead]
        rfl

theorem map_slice?_partSpans (text : Text) :
    (partSpans text).map (slice? text) = (parts text).map some := by
  have h := map_slice?_partSpansFrom 0 [] [] text
  rw [modifyHead_nil_append] at h
  exact h

/-- Cutting at the commas outside brackets and joining by commas are inverse to
each other, and no part is lost where characters have several bytes. -/
theorem parts_exact (text : Text) :
    (∀ texts, parts text = texts ↔
      AreParts texts ∧ List.intercalate [','] texts = text) ∧
    (partSpans text).map (slice? text) = (parts text).map some :=
  ⟨fun _ => parts_eq_iff, map_slice?_partSpans text⟩

example : partSpans "é,(ß,b),".toList = [⟨0, 2⟩, ⟨3, 9⟩, ⟨10, 10⟩] := by
  decide

end Text

end ScenarioInclusion
