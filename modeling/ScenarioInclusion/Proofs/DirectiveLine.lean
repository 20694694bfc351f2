import ScenarioInclusion.Proofs.Substitution
import ScenarioInclusion.Proofs.Tag.Rejoined
import Mathlib.Data.List.TakeWhile

/-!
# Lines with and without directives

A directive line is a tag line with an include tag among its tags.  Taking it
apart and writing its parts again keeps them apart: an include tag alone on a
line is a directive line with that tag only, and the sibling line is no
directive line.

Whatever is bound, the line that goes along with an included scenario is a
directive line still, for a placeholder in an include tag can stand only behind
the opening parenthesis of its argument list.
-/

namespace ScenarioInclusion

open Text

def Line.IsDirective (line : Line) : Prop :=
  line.isTagLine = true ∧ ∃ tag ∈ line.tags, Tag.isInclude tag = true

instance (line : Line) : Decidable line.IsDirective :=
  inferInstanceAs (Decidable (_ ∧ _))

/-! ## Indentation -/

theorem isBlank_of_mem_indent {text : Text} :
    ∀ c ∈ text.indent, isBlank c = true :=
  fun _ hc => List.mem_takeWhile_imp hc

theorem trimStart_append_of_blank {indent : Text}
    (hindent : ∀ c ∈ indent, isBlank c = true) (text : Text) :
    Text.trimStart (indent ++ text) = text.trimStart :=
  List.dropWhile_append_of_pos hindent

theorem trimStart_cons_of_not_blank {c : Char} (hc : isBlank c = false)
    (rest : Text) : Text.trimStart (c :: rest) = c :: rest :=
  List.dropWhile_cons_of_neg (by simp [hc])

theorem exists_cons_of_beginsTag {text : Text} (h : beginsTag text = true) :
    ∃ rest, text = '@' :: rest := by
  cases text with
  | nil => simp [beginsTag] at h
  | cons c rest =>
      have hc : c = '@' := by simpa [beginsTag] using h
      exact ⟨rest, by rw [hc]⟩

theorem isTagLine_append {indent text : Text}
    (hindent : ∀ c ∈ indent, isBlank c = true)
    (htext : beginsTag text = true) :
    Line.isTagLine (indent ++ text) = true := by
  obtain ⟨rest, rfl⟩ := exists_cons_of_beginsTag htext
  rw [Line.isTagLine, trimStart_append_of_blank hindent,
    trimStart_cons_of_not_blank (by decide)]
  rfl

theorem indent_eq_nil_of_beginsTag {text : Text}
    (h : beginsTag text = true) : text.indent = [] := by
  obtain ⟨rest, rfl⟩ := exists_cons_of_beginsTag h
  exact List.takeWhile_cons_of_neg (by decide)

theorem beginsTag_joinTags {line : Line} {tags : List Tag}
    (h : tags.Sublist line.tags) (hne : tags ≠ []) :
    beginsTag (joinTags tags) = true := by
  cases tags with
  | nil => exact absurd rfl hne
  | cons tag rest =>
      have htag : beginsTag tag = true :=
        beginsTag_of_mem_tags (h.subset (List.mem_cons_self ..))
      obtain ⟨text, rfl⟩ := exists_cons_of_beginsTag htag
      cases rest with
      | nil => rw [joinTags_singleton]; exact htag
      | cons next more => rw [joinTags_cons_cons]; rfl

namespace DirectiveLine

/-! ## Taking a line apart -/

theorem ofLine?_eq_some_iff {line : Line} {parsed : DirectiveLine} :
    ofLine? line = some parsed ↔
      line.IsDirective ∧
        parsed = {
          indent := Text.indent line
          directives := line.tags.filter Tag.isInclude
          siblings := line.tags.filter fun tag => !tag.isInclude } := by
  have hiff : (line.isTagLine ∧ line.tags.any Tag.isInclude) ↔
      line.IsDirective := by
    rw [Line.IsDirective, List.any_eq_true]
  unfold ofLine?
  split
  · next h => simp [hiff.mp h, eq_comm]
  · next h =>
      have hnot : ¬ line.IsDirective := fun hdirective =>
        h (hiff.mpr hdirective)
      simp [hnot]

theorem ofLine?_eq_none_iff {line : Line} :
    ofLine? line = none ↔ ¬ line.IsDirective := by
  constructor
  · intro hnone hdirective
    have hsome := ofLine?_eq_some_iff.mpr ⟨hdirective, rfl⟩
    rw [hnone] at hsome
    contradiction
  · intro hnot
    cases h : ofLine? line with
    | none => rfl
    | some parsed => exact absurd (ofLine?_eq_some_iff.mp h).1 hnot

theorem exists_ofLine? {line : Line} (h : line.IsDirective) :
    ∃ parsed, ofLine? line = some parsed :=
  ⟨_, ofLine?_eq_some_iff.mpr ⟨h, rfl⟩⟩

theorem mem_directives_iff {line : Line} {parsed : DirectiveLine}
    (h : ofLine? line = some parsed) {tag : Tag} :
    tag ∈ parsed.directives ↔ tag ∈ line.tags ∧ tag.isInclude = true := by
  rw [(ofLine?_eq_some_iff.mp h).2]
  exact List.mem_filter

theorem directives_ne_nil {line : Line} {parsed : DirectiveLine}
    (h : ofLine? line = some parsed) : parsed.directives ≠ [] := by
  obtain ⟨tag, hmem, hinclude⟩ := (ofLine?_eq_some_iff.mp h).1.2
  exact List.ne_nil_of_mem ((mem_directives_iff h).mpr ⟨hmem, hinclude⟩)

/-- An include tag that is the only tag of its line is all that there is. -/
theorem ofLine?_of_tags_eq {tag : Tag} (hbegins : beginsTag tag = true)
    (hinclude : tag.isInclude = true) (htags : Line.tags tag = [tag]) :
    ofLine? tag = some ⟨[], [tag], []⟩ := by
  have htagLine : Line.isTagLine tag = true :=
    isTagLine_append (List.forall_mem_nil _) hbegins
  rw [ofLine?_eq_some_iff]
  refine ⟨⟨htagLine, tag, by simp [htags], hinclude⟩, ?_⟩
  rw [indent_eq_nil_of_beginsTag hbegins, htags]
  simp [hinclude]

theorem ofLine?_of_mem_directives {line : Line} {parsed : DirectiveLine}
    (h : ofLine? line = some parsed) {tag : Tag}
    (htag : tag ∈ parsed.directives) :
    ofLine? tag = some ⟨[], [tag], []⟩ := by
  obtain ⟨hmem, hinclude⟩ := (mem_directives_iff h).mp htag
  exact ofLine?_of_tags_eq (beginsTag_of_mem_tags hmem) hinclude
    (Line.tags_of_mem_tags hmem)

/-! ## The sibling line -/

theorem siblingLine?_eq_some_iff {parsed : DirectiveLine} {sibling : Line} :
    parsed.siblingLine? = some sibling ↔
      parsed.siblings ≠ [] ∧
        sibling = parsed.indent ++ joinTags parsed.siblings := by
  unfold siblingLine?
  split
  · next h => simp [h]
  · next h => simp [h, eq_comm]

theorem siblings_sublist {line : Line} {parsed : DirectiveLine}
    (h : ofLine? line = some parsed) : parsed.siblings.Sublist line.tags := by
  rw [(ofLine?_eq_some_iff.mp h).2]
  exact List.filter_sublist

theorem isBlank_of_mem_parsed_indent {line : Line} {parsed : DirectiveLine}
    (h : ofLine? line = some parsed) :
    ∀ c ∈ parsed.indent, isBlank c = true := by
  rw [(ofLine?_eq_some_iff.mp h).2]
  exact isBlank_of_mem_indent

theorem tags_siblingLine {line : Line} {parsed : DirectiveLine}
    (h : ofLine? line = some parsed) {sibling : Line}
    (hsibling : parsed.siblingLine? = some sibling) :
    sibling.tags = parsed.siblings := by
  rw [(siblingLine?_eq_some_iff.mp hsibling).2]
  exact Line.tags_append_joinTags (siblings_sublist h)
    (isBlank_of_mem_parsed_indent h)

theorem isTagLine_siblingLine {line : Line} {parsed : DirectiveLine}
    (h : ofLine? line = some parsed) {sibling : Line}
    (hsibling : parsed.siblingLine? = some sibling) :
    sibling.isTagLine = true := by
  obtain ⟨hne, rfl⟩ := siblingLine?_eq_some_iff.mp hsibling
  exact isTagLine_append (isBlank_of_mem_parsed_indent h)
    (beginsTag_joinTags (siblings_sublist h) hne)

theorem not_isDirective_siblingLine {line : Line} {parsed : DirectiveLine}
    (h : ofLine? line = some parsed) {sibling : Line}
    (hsibling : parsed.siblingLine? = some sibling) :
    ¬ sibling.IsDirective := by
  rintro ⟨-, tag, hmem, hinclude⟩
  rw [tags_siblingLine h hsibling, (ofLine?_eq_some_iff.mp h).2] at hmem
  have hnot := (List.mem_filter.mp hmem).2
  simp [hinclude] at hnot

end DirectiveLine

/-! ## The line that goes along -/

theorem trimEnd_append_cons {c : Char} (hc : isBlank c = false)
    (start rest : Text) :
    Text.trimEnd (start ++ c :: rest) = start ++ c :: rest.trimEnd := by
  have hreverse : (start ++ c :: rest).reverse =
      rest.reverse ++ c :: start.reverse := by
    simp
  have hcons : (c :: start.reverse).dropWhile isBlank = c :: start.reverse :=
    List.dropWhile_cons_of_neg (by simp [hc])
  rw [Text.trimEnd, Text.trimEnd, hreverse, List.dropWhile_append]
  split
  · next hnil =>
      rw [List.isEmpty_iff.mp hnil, hcons]
      simp
  · simp

theorem Tag.name_append_of_visible {c : Char} (hc : isBlank c = false)
    (more : Text) :
    Tag.name ('@' :: Tag.includeName ++ c :: more) =
      Text.trimEnd (Tag.includeName ++
        (c :: trimEnd more).takeWhile fun d => decide (d ≠ '(')) := by
  have hstart : Text.trimStart ('@' :: Tag.includeName ++ c :: more) =
      '@' :: Tag.includeName ++ c :: more :=
    trimStart_cons_of_not_blank (by decide) _
  have hname : ∀ d ∈ Tag.includeName, decide (d ≠ '(') = true := by
    simp [Tag.includeName]
  have hdrop : (('@' :: Tag.includeName ++ c :: trimEnd more).dropWhile
        fun d => decide (d = '@')) =
      Tag.includeName ++ c :: trimEnd more := by
    simp [Tag.includeName]
  rw [Tag.name, Text.trim, hstart, trimEnd_append_cons hc, hdrop,
    List.takeWhile_append_of_pos hname]

/-- A text that begins with the name of the include tag, followed by its
argument list, a blank or nothing. -/
def BeginsInclude (text : Text) : Prop :=
  ∃ rest, text = '@' :: Tag.includeName ++ rest ∧
    ∀ c ∈ rest.head?, c = '(' ∨ isBlank c = true

theorem BeginsInclude.of_isInclude {tag : Tag} (hbegins : beginsTag tag = true)
    (h : tag.isInclude = true) : BeginsInclude tag := by
  have hstart : tag.trimStart = tag := by
    obtain ⟨text, rfl⟩ := exists_cons_of_beginsTag hbegins
    exact trimStart_cons_of_not_blank (by decide) text
  simp only [Tag.isInclude, Bool.and_eq_true, decide_eq_true_eq, hstart,
    List.isPrefixOf_iff_prefix] at h
  obtain ⟨hname, rest, rfl⟩ := h
  refine ⟨rest, rfl, ?_⟩
  intro c hhead
  by_contra hnot
  obtain ⟨hparen, hblank⟩ := not_or.mp hnot
  obtain ⟨more, rfl⟩ : ∃ more, rest = c :: more := by
    cases rest with
    | nil => simp at hhead
    | cons d more =>
        simp only [List.head?_cons, Option.mem_some_iff] at hhead
        exact ⟨more, by rw [hhead]⟩
  -- The character would be part of the name.
  have hvisible : isBlank c = false := by simpa using hblank
  have htake : (c :: trimEnd more).takeWhile (fun d => decide (d ≠ '(')) =
      c :: (trimEnd more).takeWhile fun d => decide (d ≠ '(') :=
    List.takeWhile_cons_of_pos (by simp [hparen])
  rw [Tag.name_append_of_visible hvisible, htake,
    trimEnd_append_cons hvisible] at hname
  simp at hname

theorem BeginsInclude.append {text : Text} (h : BeginsInclude text)
    {c : Char} (hc : isBlank c = true) (rest : Text) :
    BeginsInclude (text ++ c :: rest) := by
  obtain ⟨arguments, rfl, harguments⟩ := h
  refine ⟨arguments ++ c :: rest, by simp, ?_⟩
  cases arguments with
  | nil => simp [hc]
  | cons d more => simpa using harguments

theorem BeginsInclude.joinTags {tag : Tag} (h : BeginsInclude tag)
    (rest : List Tag) : BeginsInclude (joinTags (tag :: rest)) := by
  cases rest with
  | nil => rwa [joinTags_singleton]
  | cons next more =>
      rw [joinTags_cons_cons]
      exact h.append (by decide) _

theorem BeginsInclude.substitute {text : Text} (h : BeginsInclude text)
    (bindings : Bindings) : BeginsInclude (bindings.substitute text) := by
  obtain ⟨rest, rfl, hrest⟩ := h
  rw [bindings.substitute_append_of_not_mem (by decide)]
  refine ⟨bindings.substitute rest, rfl, ?_⟩
  cases rest with
  | nil => simp
  | cons c more =>
      have hc : c = '(' ∨ isBlank c = true := hrest c rfl
      have hne : c ≠ '<' := by
        rintro rfl
        rcases hc with hparen | hblank
        · exact absurd hparen (by decide)
        · exact absurd hblank (by decide)
      rw [bindings.substitute_cons_of_ne hne]
      simpa using hc

theorem Tag.isInclude_append_arguments (arguments : Text) :
    Tag.isInclude ('@' :: Tag.includeName ++ '(' :: arguments) = true := by
  have hstart : Text.trimStart ('@' :: Tag.includeName ++ '(' :: arguments) =
      '@' :: Tag.includeName ++ '(' :: arguments :=
    trimStart_cons_of_not_blank (by decide) _
  have hname : Tag.name ('@' :: Tag.includeName ++ '(' :: arguments) =
      Tag.includeName := by
    rw [Tag.name_append_of_visible (by decide),
      List.takeWhile_cons_of_neg (by decide)]
    decide
  simp only [Tag.isInclude, hname, hstart, decide_true, Bool.true_and,
    List.isPrefixOf_iff_prefix]
  exact List.prefix_append _ _

/-- What begins like an include tag begins with one, however it goes on. -/
theorem BeginsInclude.exists_words {text : Text} (h : BeginsInclude text) :
    ∃ tag later, words text = tag :: later ∧ beginsTag tag = true ∧
      Tag.isInclude tag = true := by
  obtain ⟨rest, rfl, hrest⟩ := h
  have hword : restOfWord 0 (Tag.includeName ++ rest) =
      Tag.includeName ++ restOfWord 0 rest := by
    simp [Tag.includeName, restOfWord, isBlank, blankRanges, levelAfter]
  have hwords : words ('@' :: Tag.includeName ++ rest) =
      ('@' :: Tag.includeName ++ restOfWord 0 rest) ::
        words (afterWord 0 (Tag.includeName ++ rest)) := by
    rw [List.cons_append, words, if_neg (by decide), if_neg (by decide),
      hword, List.cons_append]
  refine ⟨_, _, hwords, rfl, ?_⟩
  cases rest with
  | nil => decide
  | cons c more =>
      rw [restOfWord]
      split
      · decide
      · next hnot =>
          rcases hrest c rfl with rfl | hblank
          · exact Tag.isInclude_append_arguments _
          · exact absurd ⟨hblank, rfl⟩ hnot

theorem BeginsInclude.isDirective {text : Text} (h : BeginsInclude text)
    {indent : Text} (hindent : ∀ c ∈ indent, isBlank c = true) :
    Line.IsDirective (indent ++ text) := by
  obtain ⟨tag, later, hwords, hbegins, hinclude⟩ := h.exists_words
  obtain ⟨rest, rfl, -⟩ := h
  refine ⟨isTagLine_append hindent rfl, tag, ?_, hinclude⟩
  rw [Line.tags, words_append_of_blank hindent, hwords,
    List.filter_cons_of_pos hbegins]
  exact List.mem_cons_self ..

theorem DirectiveLine.isDirective_forward {line : Line}
    {parsed : DirectiveLine} (h : ofLine? line = some parsed)
    (bindings : Bindings) : (parsed.forward bindings).IsDirective := by
  obtain ⟨tag, rest, hdirectives⟩ :=
    List.exists_cons_of_ne_nil (directives_ne_nil h)
  have htag : tag ∈ parsed.directives := by
    rw [hdirectives]
    exact List.mem_cons_self ..
  obtain ⟨hmem, hinclude⟩ := (mem_directives_iff h).mp htag
  have hbegins : BeginsInclude (joinTags parsed.directives) := by
    rw [hdirectives]
    exact (BeginsInclude.of_isInclude (beginsTag_of_mem_tags hmem)
      hinclude).joinTags rest
  exact (hbegins.substitute bindings).isDirective
    (isBlank_of_mem_parsed_indent h)

end ScenarioInclusion
