import ScenarioInclusion.Proofs.Directive.KeyPlace
import ScenarioInclusion.Proofs.DirectiveLine.Written
import ScenarioInclusion.Proofs.Expansion.Compositional

/-!
# Where a directive ends

Two scanners decide where a directive ends.  The tags of a line end at the first
blank outside brackets.  The argument list of a tag goes from an opening
parenthesis, which blanks may keep away from the name of the tag, to the last
character.  So a text that can be read as a directive is not always the tag of
the line that holds nothing else: blanks that the second scanner passes over may
end the tag for the first.  Then the line begins with a shorter include tag, and
that is what is expanded.
-/

namespace ScenarioInclusion

open Text

/-- The argument list follows the name at once, and every blank in it stands
inside brackets, the parentheses around the list counted. -/
def Tag.HoldsBlanks (tag : Tag) : Prop :=
  ∃ arguments : Text,
    tag = '@' :: Tag.includeName ++ '(' :: (arguments ++ [')']) ∧
      Guards isBlank 1 arguments

/-- A line that is nothing but this text is read as this directive, and becomes
what is spliced for it. -/
structure Tag.TakenWhole (tag : Tag) (directive : Directive) : Prop where
  tags_eq : Line.tags tag = [tag]
  meaning_eq : Line.meaning tag = .directives [] [] [some directive]
  expand_eq : ∀ (library : Library) (settings : Settings) (path : Path),
    library.expand settings path ⟨[tag]⟩ =
      Document.mk <$>
        (library.splice settings.maxDepth [] path 1 tag).outcome

/-- A line that is nothing but this text begins with an include tag that ends at
a blank of the text. -/
def Tag.CutShort (tag : Tag) : Prop :=
  ∃ shortened c rest, tag = shortened ++ c :: rest ∧ isBlank c = true ∧
    shortened.isInclude = true ∧ (Line.tags tag).head? = some shortened

/-! ## What can be read as a directive -/

namespace Directive

theorem exists_gap_of_ofTag {tag : Tag} {directive : Directive}
    (htrim : tag.trim = tag) (h : ofTag tag = .ok directive) :
    ∃ (gap : Gap) (arguments : Text),
      tag = '@' :: Tag.includeName ++
        (gap.text ++ '(' :: (arguments ++ [')'])) := by
  rcases bind_eq_ok_iff.mp h with ⟨arguments, harguments, -⟩
  rcases argumentList_eq_ok_iff.mp harguments with ⟨gap, hgap⟩
  exact ⟨gap, arguments, htrim.symm.trans hgap⟩

end Directive

/-! ## Where the tag ends -/

namespace Tag

variable {tag : Tag}

theorem tags_eq_iff (h : beginsTag tag = true) :
    Line.tags tag = [tag] ↔ Guards isBlank 0 tag := by
  rw [← isWord_iff_guards h]
  constructor
  · intro htags
    have hword := (Line.separable_tags tag).isWord tag
    rw [htags] at hword
    exact hword (List.mem_singleton_self tag)
  · intro hword
    rw [Line.tags, words_of_isWord hword, List.filter_cons_of_pos h]
    rfl

/-- From the opening parenthesis on, one more bracket is open. -/
theorem guards_arguments_iff {arguments : Text} :
    Guards isBlank 0 ('@' :: Tag.includeName ++
        '(' :: (arguments ++ [')'])) ↔ Guards isBlank 1 arguments := by
  have hname : Guards isBlank 0 ('@' :: Tag.includeName) := by decide
  have hopening : isBlank '(' = true → levelAtEnd 0 ('@' :: Tag.includeName) ≠
      0 := by decide
  have hclosing : Guards isBlank (levelAtEnd 1 arguments) [')'] := by
    simp [Guards, show isBlank ')' = false from rfl]
  rw [guards_append, and_iff_right hname, guards_cons,
    and_iff_right hopening]
  exact guards_append.trans (and_iff_left hclosing)

theorem holdsBlanks_iff_guards {gap : Gap} {arguments : Text}
    (h : tag = '@' :: Tag.includeName ++
      (gap.text ++ '(' :: (arguments ++ [')']))) :
    tag.HoldsBlanks ↔ Guards isBlank 0 tag := by
  constructor
  · rintro ⟨inner, hinner, hguards⟩
    rw [hinner, guards_arguments_iff]
    exact hguards
  · intro hguards
    cases hgap : gap.text with
    | nil =>
        rw [hgap, List.nil_append] at h
        rw [h, guards_arguments_iff] at hguards
        exact ⟨arguments, h, hguards⟩
    | cons c more =>
        rw [h, hgap] at hguards
        have hfirst := (guards_cons.mp (guards_append.mp hguards).2).1
        exact absurd rfl (hfirst (gap.isBlank_of_text_eq hgap))

theorem beginsInclude_of_gap {gap : Gap} {arguments : Text}
    (h : tag = '@' :: Tag.includeName ++
      (gap.text ++ '(' :: (arguments ++ [')']))) : BeginsInclude tag := by
  refine ⟨_, h, ?_⟩
  cases hgap : gap.text with
  | nil => simp
  | cons c more => simp [gap.isBlank_of_text_eq hgap]

theorem takenWhole_of_guards {directive : Directive} (h : BeginsInclude tag)
    (htag : Directive.ofTag tag = .ok directive)
    (hguards : Guards isBlank 0 tag) : tag.TakenWhole directive := by
  have hbegins : beginsTag tag = true := by
    rcases h with ⟨rest, rfl, -⟩
    rfl
  have htags := (tags_eq_iff hbegins).mpr hguards
  have hwords := words_of_isWord ((isWord_iff_guards hbegins).mpr hguards)
  have hinclude : tag.isInclude = true := by
    rcases h.exists_words with ⟨first, later, hfirst, -, hinclude⟩
    rw [hwords] at hfirst
    injection hfirst with hfirst
    rwa [hfirst]
  have hline := DirectiveLine.ofLine?_of_tags_eq hbegins hinclude htags
  refine ⟨htags, ?_, fun library settings path => ?_⟩
  · simp [Line.meaning, hline, htag]
  · have hmem : tag ∈ [tag].flatMap Line.includeTags := by
      simp [includeTags_of_some hline]
    exact Library.expand_singleton_of_mem hmem

theorem cutShort_of_not_guards (h : BeginsInclude tag)
    (hguards : ¬ Guards isBlank 0 tag) : tag.CutShort := by
  rcases h.exists_words with ⟨first, later, hwords, hbegins, hinclude⟩
  have hhead : (Line.tags tag).head? = some first := by
    rw [Line.tags, hwords, List.filter_cons_of_pos hbegins]
    rfl
  rcases h with ⟨rest, rfl, -⟩
  rw [← isWord_iff_guards rfl] at hguards
  rw [List.cons_append, words, if_neg (by decide), if_neg (by decide)]
    at hwords
  injection hwords with hfirst
  have happend := restOfWord_append_afterWord 0 (Tag.includeName ++ rest)
  cases hafter : afterWord 0 (Tag.includeName ++ rest) with
  | nil =>
      rw [hafter, List.append_nil] at happend
      exact absurd ⟨by decide, by decide, happend⟩ hguards
  | cons c more =>
      refine ⟨first, c, more, ?_, isBlank_of_afterWord_eq_cons hafter,
        hinclude, hhead⟩
      rw [← hfirst, ← hafter, List.cons_append, List.cons_append, happend]

theorem not_cutShort_of_tags_eq (h : Line.tags tag = [tag]) :
    ¬ tag.CutShort := by
  rintro ⟨shortened, c, rest, htag, -, -, hhead⟩
  rw [h, List.head?_cons, Option.some.injEq, htag] at hhead
  simpa using congrArg List.length hhead

end Tag

/-- The written forms of a directive are all taken whole. -/
theorem WrittenDirective.takenWhole (written : WrittenDirective) :
    written.tag.TakenWhole written.directive := by
  have hguards : Guards isBlank 1 written.arguments :=
    written.isBalanced_arguments.guards_of_pos isBlank Nat.one_pos
  exact Tag.takenWhole_of_guards ⟨_, rfl, by simp⟩ written.ofTag_tag
    (Tag.guards_arguments_iff.mpr hguards)

/-- A text that can be read as a directive is one on a line of its own exactly
when its argument list holds all its blanks; otherwise the line has a shorter
include tag. -/
theorem Directive.takenWhole_iff {tag : Tag} {directive : Directive}
    (htrim : tag.trim = tag) (htag : Directive.ofTag tag = .ok directive) :
    (tag.TakenWhole directive ↔ tag.HoldsBlanks) ∧
      (tag.CutShort ↔ ¬ tag.HoldsBlanks) := by
  rcases exists_gap_of_ofTag htrim htag with ⟨gap, arguments, heq⟩
  have hbegins := Tag.beginsInclude_of_gap heq
  rw [Tag.holdsBlanks_iff_guards heq]
  have hwhole : Guards isBlank 0 tag → tag.TakenWhole directive :=
    Tag.takenWhole_of_guards hbegins htag
  have hshort : ¬ Guards isBlank 0 tag → tag.CutShort :=
    Tag.cutShort_of_not_guards hbegins
  have hnot : tag.TakenWhole directive → ¬ tag.CutShort := fun h =>
    Tag.not_cutShort_of_tags_eq h.tags_eq
  tauto

/-! ## A blank before the list -/

def bracketedTag : Tag :=
  "@include(feature: lib, scenario: A, params: [who (x, y): bob ])".toList

def spacedTag : Tag :=
  "@include (feature: lib, scenario: A)".toList

theorem takenWhole_bracketedTag :
    bracketedTag.trim = bracketedTag ∧
    Directive.ofTag bracketedTag =
      .ok ⟨"lib".toList, "A".toList, [⟨"who (x, y)".toList, "bob".toList⟩]⟩ ∧
    bracketedTag.TakenWhole
      ⟨"lib".toList, "A".toList, [⟨"who (x, y)".toList, "bob".toList⟩]⟩ ∧
    spacedTag.CutShort := by
  have htrim : bracketedTag.trim = bracketedTag := by decide +kernel
  have htag : Directive.ofTag bracketedTag =
      .ok ⟨"lib".toList, "A".toList, [⟨"who (x, y)".toList, "bob".toList⟩]⟩ := by
    cbv
  have hspaced : Directive.ofTag spacedTag =
      .ok ⟨"lib".toList, "A".toList, []⟩ := by
    cbv
  have hholds : bracketedTag.HoldsBlanks :=
    ⟨"feature: lib, scenario: A, params: [who (x, y): bob ]".toList,
      by decide +kernel, by decide +kernel⟩
  have hnot : ¬ spacedTag.HoldsBlanks := by
    rintro ⟨arguments, harguments, -⟩
    have hparen : spacedTag[8]? = some '(' := by
      rw [harguments]
      rfl
    have hblank : spacedTag[8]? = some ' ' := by decide +kernel
    simp [hblank] at hparen
  refine ⟨htrim, htag, ?_, ?_⟩
  · exact (Directive.takenWhole_iff htrim htag).1.mpr hholds
  · exact (Directive.takenWhole_iff (by decide +kernel) hspaced).2.mpr hnot

/-- The text says what to splice, and by itself it is spliced, but its line has
only the bare tag. -/
theorem not_takenWhole_spacedTag :
    spacedTag.trim = spacedTag ∧
    Directive.ofTag spacedTag = .ok ⟨"lib".toList, "A".toList, []⟩ ∧
    (Library.sampleLibrary.splice 32 [] Library.samplePath 1
      spacedTag).outcome = .ok ["Scenario: A".toList, "Given a".toList] ∧
    Line.tags spacedTag = ["@include".toList] ∧
    Library.sampleLibrary.expand Settings.default Library.samplePath
        ⟨[spacedTag]⟩ =
      .error (.malformedDirective Library.samplePath 1
        (.missingField .feature)) ∧
    ¬ spacedTag.TakenWhole ⟨"lib".toList, "A".toList, []⟩ := by
  have htags : Line.tags spacedTag = ["@include".toList] := by decide +kernel
  refine ⟨by decide +kernel, by cbv, by cbv, htags, by cbv, fun h => ?_⟩
  have hwhole := h.tags_eq
  rw [htags] at hwhole
  exact absurd hwhole (by decide +kernel)

end ScenarioInclusion
