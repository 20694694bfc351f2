import ScenarioInclusion.Proofs.DirectiveLine.Written

/-!
# Where the tags of a line stand

The words of a line stand in it one behind the other, with blanks before each of
them, and a comment may follow.  A word goes on up to the first blank that is
outside its own brackets, so a word that leaves a bracket open is the last one.
`Text.HasWords` says this without reading, and each line has the words that are
read and no others.

The tags are the words that begin with an at sign.  So they are pieces of the
line in its order, and what is written of them side by side has them again.
-/

namespace ScenarioInclusion

namespace Text

/-! ## Pieces of a text -/

/-- The pieces stand in the text one behind the other, and no two overlap. -/
inductive StandIn : List Text → Text → Prop where
  | none (text : Text) : StandIn [] text
  | piece (front piece : Text) {pieces : List Text} {rest : Text} :
      StandIn pieces rest → StandIn (piece :: pieces) (front ++ (piece ++ rest))

namespace StandIn

variable {pieces : List Text} {text : Text}

theorem append_left (h : StandIn pieces text) (front : Text) :
    StandIn pieces (front ++ text) := by
  cases h with
  | none => exact .none _
  | piece gap piece hrest =>
      rw [← List.append_assoc]
      exact .piece (front ++ gap) piece hrest

theorem sublist {kept : List Text} (h : StandIn pieces text)
    (hsub : kept.Sublist pieces) : StandIn kept text := by
  induction h generalizing kept with
  | none =>
      rw [List.sublist_nil.mp hsub]
      exact .none _
  | piece front piece _ ih =>
      cases hsub with
      | cons _ hsub => exact ((ih hsub).append_left piece).append_left front
      | cons_cons _ hsub => exact .piece front piece (ih hsub)

end StandIn

/-! ## The words of a line -/

/-- Can the rest follow the word on a line? -/
def EndsBefore (word rest : Text) : Prop :=
  rest = [] ∨ IsClosed word ∧ ∃ c ∈ rest.head?, isBlank c = true

/-- The text consists of these words with blanks before them, and of nothing else
up to a comment. -/
inductive HasWords : Text → List Text → Prop where
  | blank (gap : Gap) : HasWords gap.text []
  | comment (gap : Gap) (rest : Text) : HasWords (gap.text ++ '#' :: rest) []
  | word (gap : Gap) {word rest : Text} {later : List Text} :
      IsWord word → EndsBefore word rest → HasWords rest later →
      HasWords (gap.text ++ (word ++ rest)) (word :: later)

namespace HasWords

variable {text : Text} {ws : List Text}

theorem standIn (h : HasWords text ws) : StandIn ws text := by
  induction h with
  | blank => exact .none _
  | comment => exact .none _
  | word gap _ _ _ ih => exact .piece gap.text _ ih

theorem cons_blank {c : Char} (hc : isBlank c = true) (h : HasWords text ws) :
    HasWords (c :: text) ws := by
  cases h with
  | blank gap => exact .blank (gap.cons hc)
  | comment gap rest => exact .comment (gap.cons hc) rest
  | word gap hword hends hlater =>
      exact .word (gap.cons hc) hword hends hlater

theorem words_eq (h : HasWords text ws) : words text = ws := by
  induction h with
  | blank gap =>
      have hwords := words_append_of_blank gap.isBlank_of_mem []
      simpa [words] using hwords
  | comment gap rest =>
      rw [words_append_of_blank gap.isBlank_of_mem, words]
      simp [show isBlank '#' = false from rfl]
  | @word gap word rest later hword hends _ ih =>
      rw [words_append_of_blank gap.isBlank_of_mem]
      rcases hends with rfl | ⟨hclosed, c, hhead, hc⟩
      · rw [List.append_nil, words_of_isWord hword, ← ih, words]
      · obtain ⟨more, rfl⟩ := List.head?_eq_some_iff.mp hhead
        rw [words, if_pos hc] at ih
        rw [words_append_blank hword hclosed hc, ih]

end HasWords

theorem endsBefore_afterWord {c : Char} {rest : Text} :
    EndsBefore (c :: restOfWord 0 rest) (afterWord 0 rest) := by
  rcases afterWord_eq_nil_or_levelAtEnd 0 rest with hnil | hclosed
  · exact Or.inl hnil
  · cases hafter : afterWord 0 rest with
    | nil => exact Or.inl rfl
    | cons d later =>
        exact Or.inr ⟨hclosed, d, rfl, isBlank_of_afterWord_eq_cons hafter⟩

theorem hasWords_words (text : Text) : HasWords text (words text) := by
  fun_induction words text with
  | case1 => exact .blank Gap.empty
  | case2 c rest hc ih => exact ih.cons_blank hc
  | case3 c rest => exact .comment Gap.empty _
  | case4 c rest hc hcomment ih =>
      have hword : IsWord (c :: restOfWord 0 rest) :=
        ⟨by simpa using hc, hcomment, restOfWord_restOfWord 0 rest⟩
      have h := HasWords.word Gap.empty hword endsBefore_afterWord ih
      rw [List.cons_append, restOfWord_append_afterWord] at h
      exact h

/-- A line has the words that are read, and no others. -/
theorem hasWords_iff {text : Text} {ws : List Text} :
    HasWords text ws ↔ words text = ws := by
  constructor
  · exact HasWords.words_eq
  · rintro rfl
    exact hasWords_words text

end Text

open Text

/-! ## The tags of a line -/

theorem Line.standIn_tags (line : Line) : StandIn line.tags line :=
  (hasWords_words line).standIn.sublist List.filter_sublist

theorem Line.guards_of_mem_tags {line : Line} {tag : Tag}
    (h : tag ∈ line.tags) : Guards isBlank 0 tag :=
  (Tag.isWord_iff_guards (beginsTag_of_mem_tags h)).mp
    (line.separable_tags.isWord tag h)

/-- The tags of a line are the words of it that begin with an at sign.  They
stand in it as pieces in order, no blank of them is outside their brackets, and
those that are kept are the tags of the line that they make. -/
theorem Line.tags_rejoined (line : Line) :
    (∃ ws, HasWords line ws ∧ line.tags = ws.filter beginsTag) ∧
    StandIn line.tags line ∧
    (∀ tag ∈ line.tags, tag.head? = some '@' ∧ Guards isBlank 0 tag) ∧
    ∀ kept : List Tag, kept.Sublist line.tags →
      ∀ gap : Gap, Line.tags (gap.text ++ joinTags kept) = kept := by
  refine ⟨⟨words line, hasWords_words line, rfl⟩, line.standIn_tags, ?_, ?_⟩
  · intro tag htag
    have hbegins : tag.head? = some '@' := by
      simpa [beginsTag] using beginsTag_of_mem_tags htag
    exact ⟨hbegins, guards_of_mem_tags htag⟩
  · intro kept hkept gap
    exact Line.tags_append_joinTags hkept gap.isBlank_of_mem

/-! ## A line with brackets out of order -/

/-- A closing bracket too many, a word that is no tag, and a tag that stays
open. -/
def unbalancedLine : Line :=
  "\t@a(b c]) stray(@x y) @d]e @f#[(g h @i".toList

def unbalancedTags : List Tag :=
  ["@a(b c])".toList, "@d]e".toList, "@f#[(g h @i".toList]

theorem tags_rejoined_unbalancedLine :
    unbalancedLine.tags = unbalancedTags ∧
    StandIn unbalancedTags unbalancedLine ∧
    Guards isBlank 0 "@f#[(g h @i".toList ∧
    Line.tags ("  ".toList ++
        joinTags ["@a(b c])".toList, "@f#[(g h @i".toList]) =
      ["@a(b c])".toList, "@f#[(g h @i".toList] := by
  have htags : unbalancedLine.tags = unbalancedTags := by
    decide +kernel
  obtain ⟨-, hstand, hguards, hkept⟩ := Line.tags_rejoined unbalancedLine
  rw [htags] at hstand hguards hkept
  have hblank : ∀ c ∈ "  ".toList, isBlank c = true :=
    List.all_eq_true.mp (by decide)
  refine ⟨htags, hstand, (hguards _ (by decide)).2, ?_⟩
  exact hkept _ (by decide) ⟨"  ".toList, hblank⟩

end ScenarioInclusion
