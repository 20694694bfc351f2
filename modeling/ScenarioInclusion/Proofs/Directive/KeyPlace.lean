import ScenarioInclusion.Proofs.Directive.Spelling
import Mathlib.Data.List.DropRight

/-!
# Places for a key

A key stands at the beginning of an entry of the list of parameters of an include
tag on a tag line.  What the line means does not depend on how the key is spelled
there: the spelling matters neither for where tags and parts end nor for what is
read.

The meaning of a line leaves out what its faulty include tags are at fault for.
-/

namespace ScenarioInclusion

open Text

/-! ## What a line means -/

/-- What an expansion gets from a line: the line itself, or the directives on it
with what stays when they are taken out.  A faulty directive is none. -/
inductive Meaning where
  | text (line : Line)
  | directives (indent : Text) (siblings : List Tag)
      (read : List (Option Directive))
  deriving DecidableEq, Repr

def Line.meaning (line : Line) : Meaning :=
  match DirectiveLine.ofLine? line with
  | none => .text line
  | some parsed =>
    .directives parsed.indent parsed.siblings
      (parsed.directives.map fun tag => (Directive.ofTag tag).toOption)

theorem Line.meaning_of_isDirective {line : Line} (h : line.IsDirective) :
    line.meaning =
      .directives (Text.indent line)
        (line.tags.filter fun tag => !tag.isInclude)
        ((line.tags.filter Tag.isInclude).map fun tag =>
          (Directive.ofTag tag).toOption) := by
  rw [meaning, DirectiveLine.ofLine?_eq_some_iff.mpr ⟨h, rfl⟩]

section TagLine

variable {line : Line} (h : line.isTagLine = true)

include h

theorem trimStart_ne_nil_of_isTagLine : Text.trimStart line ≠ [] := by
  rcases exists_cons_of_beginsTag h with ⟨rest, hrest⟩
  rw [hrest]
  exact List.cons_ne_nil _ _

theorem isTagLine_append_of_isTagLine (more : Text) :
    Line.isTagLine (line ++ more) = true := by
  rcases exists_cons_of_beginsTag h with ⟨rest, hrest⟩
  rw [Line.isTagLine,
    trimStart_append_of_ne_nil (trimStart_ne_nil_of_isTagLine h), hrest]
  rfl

theorem indent_append_of_isTagLine (more : Text) :
    Text.indent (line ++ more) = Text.indent line := by
  rcases exists_cons_of_beginsTag h with ⟨rest, hrest⟩
  have hline := indent_append_trimStart line
  rw [hrest] at hline
  have hmore : line ++ more = Text.indent line ++ '@' :: (rest ++ more) := by
    rw [← List.cons_append, ← List.append_assoc, hline]
  rw [hmore, Text.indent, List.takeWhile_append_of_pos isBlank_of_mem_indent,
    List.takeWhile_cons_of_neg (by decide), List.append_nil]

end TagLine

/-! ## What stands before a key -/

/-- The beginning of a line that goes down to an entry of a list of
parameters. -/
structure LineStart where
  front : Text
  fields : Text
  label : Text
  gap : Text
  entries : Text
  margin : Text

namespace LineStart

/-- The part of the argument list that the key belongs to. -/
def part (start : LineStart) : Text :=
  start.label ++ ':' :: (start.gap ++ '[' :: (start.entries ++ start.margin))

def tag (start : LineStart) : Tag :=
  '@' :: Tag.includeName ++ '(' :: (start.fields ++ start.part)

def text (start : LineStart) : Text :=
  start.front ++ start.tag

end LineStart

/-- A place for a key: the tag that holds it begins a word of a tag line, and the
list that holds it is the value of `params`. -/
structure KeyPlace extends LineStart where
  isTagLine : Line.isTagLine toLineStart.text = true
  endsWord : EndsWord front
  isWord : IsWord toLineStart.tag
  isOpen : ¬ IsClosed toLineStart.tag
  endsPart_fields : EndsPart fields
  parts_part : parts toLineStart.part = [toLineStart.part]
  label_trim : label.trim = Field.params.name
  isBlank_gap : ∀ c ∈ gap, isBlank c = true
  endsPart_entries : EndsPart entries
  isBlank_margin : ∀ c ∈ margin, isBlank c = true

/-! ## Reading the tag -/

namespace Directive

theorem Fields.add_label (fields : Fields) {label : Text}
    (hlabel : label.trim = Field.params.name) (value : Text) :
    fields.add (Text.trim (label ++ ':' :: value)) =
      (setOnce .params fields.params? (readParams value.trimEnd.trim)).map
        fun params? => { fields with params? } := by
  have hstart : label.trimStart ≠ [] := by
    intro hnil
    rw [Text.trim, hnil] at hlabel
    exact absurd hlabel (by decide)
  have hcolon : ':' ∉ label.trimStart := by
    intro hmem
    have hname := mem_trim_of_not_blank ((trimStart_suffix label).subset hmem)
      (by decide)
    rw [hlabel] at hname
    exact absurd hname (by decide)
  have hagain : Text.trim label.trimStart = label.trim := by
    rw [Text.trim, Text.trim, Text.trimStart, Text.trimStart,
      List.dropWhile_idempotent]
  rw [Text.trim, trimStart_append_of_ne_nil hstart,
    trimEnd_append_cons (by decide), add, cutAtColon_append hcolon]
  simp only [hagain, hlabel, Field.ofName?_name]

theorem Fields.toOption_setOnce {α : Type} (field : Field)
    (current : Option α) {value other : Except DirectiveError α}
    (h : value.toOption = other.toOption) :
    (setOnce field current value).toOption =
      (setOnce field current other).toOption := by
  cases value with
  | error fault =>
      cases other with
      | error fault' => rfl
      | ok a => contradiction
  | ok a =>
      cases other with
      | error fault => contradiction
      | ok b =>
          injection h with heq
          rw [heq]

end Directive

namespace KeyPlace

open Directive

section Reading

variable (place : KeyPlace) {key spelling other : Text} (hkey : IsKey key)
  (h : Spells key spelling) (hother : Spells key other)

include hkey h hother

theorem add_part (fields : Fields) (tail : Text) :
    (fields.add (Text.trim (place.part ++ (spelling ++ ':' :: tail)))).toOption =
      (fields.add (Text.trim (place.part ++ (other ++ ':' :: tail)))).toOption := by
  have hpart : ∀ middle : Text, place.part ++ (middle ++ ':' :: tail) =
      place.label ++ ':' :: (place.gap ++ '[' ::
        (place.entries ++ (place.margin ++ (middle ++ ':' :: tail)))) := by
    intro middle
    simp [LineStart.part]
  have hvalue : ∀ middle : Text,
      Text.trim (Text.trimEnd (place.gap ++ '[' ::
        (place.entries ++ (place.margin ++ (middle ++ ':' :: tail))))) =
        '[' :: (place.entries ++
          (place.margin ++ (middle ++ ':' :: tail.trimEnd.trimEnd))) := by
    intro middle
    have hend : ∀ rest : Text, Text.trimEnd
        (place.entries ++ (place.margin ++ (middle ++ ':' :: rest))) =
        place.entries ++ (place.margin ++ (middle ++ ':' :: rest.trimEnd)) := by
      intro rest
      have hcolon := trimEnd_append_cons (c := ':') (by decide)
        (place.entries ++ (place.margin ++ middle)) rest
      simpa only [List.append_assoc] using hcolon
    rw [trimEnd_append_cons (by decide), Text.trim,
      trimStart_append_of_blank place.isBlank_gap,
      trimStart_cons_of_not_blank (by decide),
      trimEnd_cons_of_not_blank (by decide), hend, hend]
  have hparams := readParams_of_spells hkey h hother place.endsPart_entries
    place.isBlank_margin tail.trimEnd.trimEnd
  rw [hpart, hpart, fields.add_label place.label_trim,
    fields.add_label place.label_trim, hvalue, hvalue, toOption_map,
    toOption_map, Fields.toOption_setOnce .params fields.params? hparams]

theorem ofTag_eq (tail : Text) :
    (ofTag (place.tag ++ (spelling ++ ':' :: tail))).toOption =
      (ofTag (place.tag ++ (other ++ ':' :: tail))).toOption := by
  have harguments : ∀ middle : Text,
      argumentList (place.tag ++ (middle ++ ':' :: tail)) =
        if tail.trimEnd.getLast? = some ')' then
          .ok (place.fields ++
            (place.part ++ (middle ++ ':' :: tail.trimEnd.dropLast)))
        else .error .unterminated := by
    intro middle
    have hcolon := argumentList_colon
      (place.fields ++ (place.part ++ middle)) tail
    simpa only [LineStart.tag, List.append_assoc, List.cons_append] using hcolon
  rw [ofTag, ofTag, harguments, harguments]
  by_cases hclosed : tail.trimEnd.getLast? = some ')'
  · rcases exists_items_around place.endsPart_fields place.parts_part
      tail.trimEnd.dropLast with ⟨earlier, last, later, hitems⟩
    simp only [if_pos hclosed, toOption_bind, toOption_ok,
      Option.bind_eq_bind, Option.bind_some, hitems _ (h.isPlain hkey),
      hitems _ (hother.isPlain hkey), List.foldlM_append, List.foldlM_cons,
      place.add_part hkey h hother]
  · rw [if_neg hclosed, if_neg hclosed]

end Reading

/-! ## Reading the line -/

theorem isInclude_tag (place : KeyPlace) (more : Text) :
    Tag.isInclude (place.tag ++ more) = true := by
  have htag : place.tag ++ more =
      '@' :: Tag.includeName ++ '(' :: (place.fields ++ place.part ++ more) := by
    simp [LineStart.tag]
  rw [htag]
  exact Tag.isInclude_append_arguments _

theorem exists_tags_around (place : KeyPlace) {key : Text} (hkey : IsKey key)
    (tail : Text) :
    ∃ earlier rest later, ∀ spelling, Spells key spelling →
      Line.tags (place.text ++ (spelling ++ ':' :: tail)) =
        earlier ++ (place.tag ++ (spelling ++ ':' :: rest)) :: later := by
  rcases place.endsWord with ⟨earlier, hearlier⟩
  refine ⟨earlier.filter beginsTag,
    restOfWord (levelAtEnd 0 place.tag.tail) tail,
    (words (afterWord (levelAtEnd 0 place.tag.tail) tail)).filter beginsTag,
    fun spelling h => ?_⟩
  -- With its colon the key is still plain, and the tail is left to itself.
  have hplain : IsPlain (spelling ++ [':']) :=
    (h.isPlain hkey).append (by simp [IsPlain])
  have hline : place.text ++ (spelling ++ ':' :: tail) =
      place.front ++ (place.tag ++ ((spelling ++ [':']) ++ tail)) := by
    simp [LineStart.text]
  have hbegins : ∀ more : Text, beginsTag (place.tag ++ more) = true :=
    fun more => rfl
  rw [Line.tags, hline, hearlier,
    words_append_isPlain place.isWord place.isOpen hplain, List.filter_append,
    List.filter_cons_of_pos (hbegins _), List.append_assoc]
  rfl

/-- How the key is spelled makes no difference to the line. -/
theorem meaning_eq (place : KeyPlace) {key spelling other : Text}
    (hkey : IsKey key) (h : Spells key spelling) (hother : Spells key other)
    (tail : Text) :
    Line.meaning (place.text ++ (spelling ++ ':' :: tail)) =
      Line.meaning (place.text ++ (other ++ ':' :: tail)) := by
  rcases place.exists_tags_around hkey tail with
    ⟨earlier, rest, later, htags⟩
  have hdirective : ∀ middle, Spells key middle →
      Line.IsDirective (place.text ++ (middle ++ ':' :: tail)) := by
    intro middle hmiddle
    refine ⟨isTagLine_append_of_isTagLine place.isTagLine _, _, ?_,
      place.isInclude_tag (middle ++ ':' :: rest)⟩
    rw [htags middle hmiddle]
    exact List.mem_append_right _ (List.mem_cons_self ..)
  rw [Line.meaning_of_isDirective (hdirective _ h),
    Line.meaning_of_isDirective (hdirective _ hother),
    indent_append_of_isTagLine place.isTagLine,
    indent_append_of_isTagLine place.isTagLine, htags _ h, htags _ hother]
  simp [place.isInclude_tag, place.ofTag_eq hkey h hother rest]

end KeyPlace

end ScenarioInclusion
