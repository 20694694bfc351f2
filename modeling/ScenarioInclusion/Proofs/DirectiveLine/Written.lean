import ScenarioInclusion.Proofs.Directive.Written

/-!
# A written directive among other tags

Brackets keep a written directive in one piece: whatever other tags stand on
its line, and whatever blanks stand between them, taking the tags out of the
line gives the directive as it was written, in its place.
-/

namespace ScenarioInclusion

open Text

/-! ## Tags in one piece -/

theorem Tag.isWord_iff_guards {tag : Tag} (h : beginsTag tag = true) :
    IsWord tag ↔ Guards isBlank 0 tag := by
  rcases exists_cons_of_beginsTag h with ⟨rest, rfl⟩
  rw [guards_cons, ← restOfWord_eq_self_iff]
  constructor
  · rintro ⟨-, -, hrest⟩
    exact ⟨by decide, hrest⟩
  · rintro ⟨-, hrest⟩
    exact ⟨by decide, by decide, hrest⟩

/-- A tag whose brackets are balanced and hold all its blanks. -/
structure Tag.IsWhole (tag : Tag) : Prop where
  begins : beginsTag tag = true
  balanced : Text.IsBalanced tag
  shields : Text.Shields isBlank tag

namespace Tag.IsWhole

variable {tag : Tag} (h : tag.IsWhole)

include h

theorem isWord : IsWord tag :=
  (Tag.isWord_iff_guards h.begins).mpr (h.balanced.guards h.shields 0)

theorem isClosed : IsClosed tag := by
  have hlevel := h.balanced.levelAtEnd_eq 0
  rcases exists_cons_of_beginsTag h.begins with ⟨rest, rfl⟩
  exact hlevel

theorem words_append {gap : Gap} (hgap : gap.text ≠ []) (rest : Text) :
    words (tag ++ (gap.text ++ rest)) = tag :: words rest := by
  have hblank := gap.isBlank_of_mem
  cases htext : gap.text with
  | nil => exact absurd htext hgap
  | cons c more =>
      rw [htext] at hblank
      rw [List.cons_append,
        words_append_blank h.isWord h.isClosed
          (hblank c (List.mem_cons_self ..)),
        words_append_of_blank fun d hd => hblank d (List.mem_cons_of_mem c hd)]

theorem words_append_gap (gap : Gap) : words (tag ++ gap.text) = [tag] := by
  by_cases hgap : gap.text = []
  · rw [hgap, List.append_nil, words_of_isWord h.isWord]
  · have hwords := h.words_append hgap []
    rwa [List.append_nil, words] at hwords

end Tag.IsWhole

theorem WrittenDirective.isWhole_tag (written : WrittenDirective) :
    written.tag.IsWhole := by
  have hname : IsBalanced ('@' :: Tag.includeName) ∧
      Shields isBlank ('@' :: Tag.includeName) := by
    decide
  have harguments := written.isBalanced_arguments
  exact {
    begins := rfl
    balanced := hname.1.append (harguments.enclosed rfl rfl)
    shields := hname.2.append rfl (harguments.shields_enclosed rfl rfl) }

/-! ## Lines -/

/-- Another tag of the line, and the blanks between it and the tag next to it
on the side of the directive. -/
structure Neighbour where
  tag : Tag
  gap : Gap
  tag_isWhole : tag.IsWhole
  gap_ne_nil : gap.text ≠ []

structure WrittenLine where
  indent : Gap
  earlier : List Neighbour
  directive : WrittenDirective
  later : List Neighbour
  trailing : Gap

namespace WrittenLine

def text (line : WrittenLine) : Line :=
  line.indent.text ++
    (line.earlier.flatMap (fun other => other.tag ++ other.gap.text) ++
      (line.directive.tag ++
        (line.later.flatMap (fun other => other.gap.text ++ other.tag) ++
          line.trailing.text)))

theorem words_earlier (earlier : List Neighbour) (rest : Text) :
    words (earlier.flatMap (fun other => other.tag ++ other.gap.text) ++
        rest) = earlier.map Neighbour.tag ++ words rest := by
  induction earlier with
  | nil => rfl
  | cons other earlier ih =>
      rw [List.flatMap_cons, List.append_assoc, List.append_assoc,
        other.tag_isWhole.words_append other.gap_ne_nil, ih]
      rfl

theorem words_later {tag : Tag} (h : tag.IsWhole) (later : List Neighbour)
    (trailing : Gap) :
    words (tag ++
        (later.flatMap (fun other => other.gap.text ++ other.tag) ++
          trailing.text)) = tag :: later.map Neighbour.tag := by
  induction later generalizing tag with
  | nil => exact h.words_append_gap trailing
  | cons other later ih =>
      rw [List.flatMap_cons, List.append_assoc, List.append_assoc,
        h.words_append other.gap_ne_nil, ih other.tag_isWhole]
      rfl

theorem tags_text (line : WrittenLine) :
    Line.tags line.text =
      line.earlier.map Neighbour.tag ++
        line.directive.tag :: line.later.map Neighbour.tag := by
  rw [Line.tags, text, words_append_of_blank line.indent.isBlank_of_mem,
    words_earlier, words_later line.directive.isWhole_tag,
    List.filter_eq_self]
  intro tag htag
  rcases List.mem_append.mp htag with hearlier | htag
  · rcases List.mem_map.mp hearlier with ⟨other, -, rfl⟩
    exact other.tag_isWhole.begins
  rcases List.mem_cons.mp htag with rfl | hlater
  · exact line.directive.isWhole_tag.begins
  · rcases List.mem_map.mp hlater with ⟨other, -, rfl⟩
    exact other.tag_isWhole.begins

/-- Whatever its form and its place on a tag line, a directive is found again
and says what it was written to say. -/
theorem reads_back (line : WrittenLine) :
    Line.tags line.text =
        line.earlier.map Neighbour.tag ++
          line.directive.tag :: line.later.map Neighbour.tag ∧
      line.directive.tag.isInclude = true ∧
      Directive.ofTag line.directive.tag =
        .ok ⟨line.directive.feature, line.directive.scenario,
          line.directive.bindings.map WrittenBinding.binding⟩ :=
  ⟨line.tags_text, line.directive.isInclude_tag, line.directive.ofTag_tag⟩

/-! ## A line that needs all of this -/

theorem ne_text_token {text : Text} (h : text.head? ≠ some '<')
    (name : Text) : text ≠ (Piece.token name).text := by
  rintro rfl
  exact h rfl

def crowdedBindings : List WrittenBinding := [
  { key := "user (a, b)".toList
    value := "x:[1, 2]".toList
    bracketed := true
    aroundKey := ⟨.single ' ' rfl, .single ' ' rfl⟩
    aroundValue := ⟨.single '\t' rfl, .empty⟩
    key_ne_nil := by decide +kernel
    key_isPhrase := by decide +kernel
    colon_not_mem_key := by decide +kernel
    key_ne_token := ne_text_token (by decide +kernel)
    value_isPhrase := by decide +kernel },
  { key := "note>".toList
    value := []
    bracketed := false
    aroundKey := ⟨.single ' ' rfl, .empty⟩
    aroundValue := ⟨.empty, .single '\u3000' rfl⟩
    key_ne_nil := by decide +kernel
    key_isPhrase := by decide +kernel
    colon_not_mem_key := by decide +kernel
    key_ne_token := ne_text_token (by decide +kernel)
    value_isPhrase := by decide +kernel }]

def crowdedLine : WrittenLine where
  indent := .single '\t' rfl
  earlier := [
    { tag := "@tillfixed(QA-1, second try)".toList
      gap := .single ' ' rfl
      tag_isWhole := by
        exact ⟨by decide +kernel, by decide +kernel, by decide +kernel⟩
      gap_ne_nil := by decide }]
  directive := {
    feature := "lib [old].feature".toList
    scenario := "Log in: (fast, safe)".toList
    bindings := crowdedBindings
    order := [.params, .scenario, .feature]
    aroundName := fun _ => ⟨.single ' ' rfl, .single '\u3000' rfl⟩
    aroundValue := fun _ => ⟨.single '\u00a0' rfl, .single ' ' rfl⟩
    emptyList := .empty
    feature_ne_nil := by decide +kernel
    feature_isPhrase := by decide +kernel
    scenario_ne_nil := by decide +kernel
    scenario_isPhrase := by decide +kernel
    order_nodup := by decide
    feature_mem_order := by decide
    scenario_mem_order := by decide
    params_mem_order := fun _ => by decide }
  later := [
    { tag := "@smoke".toList
      gap := .single '\u2003' rfl
      tag_isWhole := by
        exact ⟨by decide +kernel, by decide +kernel, by decide +kernel⟩
      gap_ne_nil := by decide }]
  trailing := .single ' ' rfl

def crowdedTag : Tag :=
  "@include( params\u3000:\u00a0[ <user (a, b)> :\tx:[1, 2], note>:\u3000] ,".toList ++
    " scenario\u3000:\u00a0Log in: (fast, safe) ,".toList ++
    " feature\u3000:\u00a0lib [old].feature )".toList

theorem reads_back_crowdedLine :
    Line.tags ("\t@tillfixed(QA-1, second try) ".toList ++ crowdedTag ++
        "\u2003@smoke ".toList) =
      ["@tillfixed(QA-1, second try)".toList, crowdedTag, "@smoke".toList] ∧
    crowdedTag.isInclude = true ∧
    Directive.ofTag crowdedTag =
      .ok ⟨"lib [old].feature".toList, "Log in: (fast, safe)".toList,
        [⟨"user (a, b)".toList, "x:[1, 2]".toList⟩,
          ⟨"note>".toList, []⟩]⟩ := by
  have htext : crowdedLine.text =
      "\t@tillfixed(QA-1, second try) ".toList ++ crowdedTag ++
        "\u2003@smoke ".toList := by
    decide +kernel
  have htag : crowdedLine.directive.tag = crowdedTag := by
    decide +kernel
  have hread := reads_back crowdedLine
  rw [htext, htag] at hread
  exact hread

end WrittenLine

end ScenarioInclusion
