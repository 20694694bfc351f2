import ScenarioInclusion.Proofs.Directive.KeyPlace
import ScenarioInclusion.Proofs.Expansion.Characters
import ScenarioInclusion.Proofs.Expansion.Completeness
import ScenarioInclusion.Proofs.Library.Shelf
import ScenarioInclusion.Proofs.Text.Lines
import ScenarioInclusion.Proofs.Text.Margins

/-!
# Expansions that are written and read again

No line of a text holds a line feed, and expansions make up no characters.  So
an expansion that is written as a text is read again line by line; only a
carriage return at the end of a line is lost.

A carriage return is a blank, and blanks at the end of a line end its last word
or become a part of it, but take no directive away.  So a line that is no
directive line is none without its carriage return either, and nothing is left
to expand in what was read again.
-/

namespace ScenarioInclusion

open Text

/-! ## Blanks at the end of a line -/

namespace Text

theorem words_append_of_afterWord {c d : Char} {rest later : Text}
    (hc : isBlank c = false) (hcomment : c ≠ '#')
    (hafter : afterWord 0 rest = d :: later) (more : Text) :
    words (c :: rest ++ more) =
      (c :: restOfWord 0 rest) :: words (later ++ more) := by
  have hword : IsWord (c :: restOfWord 0 rest) :=
    ⟨hc, hcomment, restOfWord_restOfWord 0 rest⟩
  have hclosed : IsClosed (c :: restOfWord 0 rest) := by
    have hend := afterWord_eq_nil_or_levelAtEnd 0 rest
    rw [hafter] at hend
    exact hend.resolve_left (List.cons_ne_nil d later)
  have hline : c :: rest ++ more =
      (c :: restOfWord 0 rest) ++ d :: (later ++ more) := by
    calc
      c :: rest ++ more =
          c :: (restOfWord 0 rest ++ d :: later) ++ more := by
        rw [← hafter, restOfWord_append_afterWord]
      _ = (c :: restOfWord 0 rest) ++ d :: (later ++ more) := by
        simp
  rw [hline,
    words_append_blank hword hclosed (isBlank_of_afterWord_eq_cons hafter)]

theorem exists_mem_words_append {text word : Text} (h : word ∈ words text)
    (gap : Gap) :
    ∃ more : Gap, word ++ more.text ∈ words (text ++ gap.text) := by
  fun_induction words text with
  | case1 => contradiction
  | case2 c rest hc ih =>
      obtain ⟨more, hmore⟩ := ih h
      refine ⟨more, ?_⟩
      rwa [List.cons_append, words, if_pos hc]
  | case3 => contradiction
  | case4 c rest hc hcomment ih =>
      have hvisible : isBlank c = false := by simpa using hc
      cases hafter : afterWord 0 rest with
      | nil =>
          -- The last word may be open, and then it takes the blanks in.
          have hsplit := restOfWord_append_afterWord 0 rest
          rw [hafter, List.append_nil] at hsplit
          rw [hafter, words, List.mem_singleton, hsplit] at h
          have hword : IsWord (c :: rest) := ⟨hvisible, hcomment, hsplit⟩
          have hblank : ∀ d ∈ restOfWord (levelAtEnd 0 rest) gap.text,
              isBlank d = true := by
            intro d hd
            apply gap.isBlank_of_mem
            rw [← restOfWord_append_afterWord (levelAtEnd 0 rest) gap.text]
            exact List.mem_append_left _ hd
          refine ⟨⟨_, hblank⟩, ?_⟩
          rw [words_append_of_isWord hword, h]
          exact List.mem_cons_self ..
      | cons d later =>
          have hd := isBlank_of_afterWord_eq_cons hafter
          rw [words_append_of_afterWord hvisible hcomment hafter]
          rcases List.mem_cons.mp h with heq | hmem
          · refine ⟨Gap.empty, ?_⟩
            rw [heq]
            simp [Gap.empty]
          · obtain ⟨more, hmore⟩ := ih hmem
            rw [hafter, List.cons_append, words, if_pos hd] at hmore
            exact ⟨more, List.mem_cons_of_mem _ hmore⟩

end Text

theorem Tag.isInclude_append_gap {tag : Tag} (h : tag.isInclude = true)
    (gap : Gap) : Tag.isInclude (tag ++ gap.text) = true := by
  simp only [isInclude, Bool.and_eq_true, decide_eq_true_eq,
    List.isPrefixOf_iff_prefix] at h ⊢
  obtain ⟨hname, hstart⟩ := h
  have hvisible : tag.trimStart ≠ [] := by
    intro hnil
    rw [hnil, List.prefix_nil] at hstart
    contradiction
  constructor
  · rw [← hname, name, name, trim_append_gap]
  · rw [trimStart_append_of_ne_nil hvisible]
    exact hstart.trans (List.prefix_append _ _)

theorem Line.IsDirective.append_gap {line : Line} (h : line.IsDirective)
    (gap : Gap) : Line.IsDirective (line ++ gap.text) := by
  obtain ⟨htagLine, tag, htag, hinclude⟩ := h
  obtain ⟨hword, hbegins⟩ := List.mem_filter.mp htag
  obtain ⟨more, hmore⟩ := exists_mem_words_append hword gap
  obtain ⟨rest, rfl⟩ := exists_cons_of_beginsTag hbegins
  exact ⟨isTagLine_append_of_isTagLine htagLine gap.text, _,
    List.mem_filter.mpr ⟨hmore, rfl⟩, Tag.isInclude_append_gap hinclude more⟩

theorem Line.not_isDirective_withoutReturn {line : Line}
    (h : ¬ line.IsDirective) : ¬ line.withoutReturn.IsDirective := by
  intro hdirective
  rcases line.eq_withoutReturn_append with heq | heq
  · exact h (heq ▸ hdirective)
  · apply h
    rw [heq]
    exact hdirective.append_gap (Gap.single '\r' (by decide))

/-! ## Reading again -/

namespace Document

/-- The document that is read from what this one is written as. -/
def reread (document : Document) : Document :=
  ofText document.toText

theorem lines_reread {document : Document} (hne : document.lines ≠ [])
    (hfree : document.IsFreeOf '\n') :
    document.reread.lines = document.lines.map Line.withoutReturn :=
  lines_unlines hne hfree

theorem not_isDirective_of_mem_reread {document : Document}
    (hfree : document.IsFreeOf '\n')
    (hplain : ∀ line ∈ document.lines, ¬ line.IsDirective) :
    ∀ line ∈ document.reread.lines, ¬ line.IsDirective := by
  by_cases hne : document.lines = []
  · -- No lines at all are written as one empty line.
    have hlines : document.reread.lines = [[]] := by
      rw [reread, toText, hne]
      rfl
    rw [hlines, List.forall_mem_singleton]
    decide
  · rw [lines_reread hne hfree]
    intro line hline
    obtain ⟨original, horiginal, rfl⟩ := List.mem_map.mp hline
    exact Line.not_isDirective_withoutReturn (hplain original horiginal)

end Document

namespace Shelf

theorem isFreeOf_lineFeed (inserts : List (Path × Text))
    (root : Option Path) :
    ((ofInserts inserts).library root).IsFreeOf '\n' := by
  intro feature caller loaded hload
  obtain ⟨entry, -, -, hdocument⟩ :=
    exists_insert_of_find? (find?_of_load hload).2
  rw [hdocument]
  exact not_mem_of_mem_lines entry.2

/-- What is written comes back line by line, and is its own expansion for every
library. -/
theorem expand_rereads (inserts : List (Path × Text)) (root : Option Path)
    (settings : Settings) (path : Path) (text : Text) {output : Document}
    (h : ((ofInserts inserts).library root).expand settings path
      (Document.ofText text) = .ok output) :
    (∀ line ∈ output.lines, '\n' ∉ line) ∧
    (output.lines ≠ [] →
      output.reread.lines = output.lines.map Line.withoutReturn) ∧
    (∀ line ∈ output.reread.lines, ¬ line.IsDirective) ∧
    ∀ (other : Library) (settings' : Settings) (path' : Path),
      other.expand settings' path' output.reread = .ok output.reread := by
  have hfree : output.IsFreeOf '\n' :=
    Library.isFreeOf_of_expand (by decide) (isFreeOf_lineFeed inserts root)
      (not_mem_of_mem_lines text) h
  have hplain := Document.not_isDirective_of_mem_reread hfree
    (Library.not_isDirective_of_expand h)
  refine ⟨hfree, fun hne => Document.lines_reread hne hfree, hplain, ?_⟩
  intro other settings' path'
  exact Library.expand_of_no_directives hplain

/-! ## Lost carriage returns -/

def returningInserts : List (Path × Text) :=
  [(⟨"lib".toList⟩, "Scenario: A\r\r\nGiven <k>\r\r".toList)]

def returningText : Text :=
  "@t @include(feature: lib, scenario: A, params: [k: v])\r\r\nThen b".toList

def returningExpansion : Document :=
  ⟨["Scenario: A\r".toList, "Given v\r\r".toList, "@t".toList,
    "Then b".toList]⟩

theorem expand_rereads_returning :
    ((ofInserts returningInserts).library none).expand Settings.default
        ⟨"main".toList⟩ (Document.ofText returningText) =
      .ok returningExpansion ∧
    returningExpansion.reread.lines =
      ["Scenario: A".toList, "Given v\r".toList, "@t".toList,
        "Then b".toList] ∧
    (∀ line ∈ returningExpansion.reread.lines, ¬ line.IsDirective) ∧
    (empty.library none).expand Settings.default Path.empty
        returningExpansion.reread = .ok returningExpansion.reread := by
  have hexpand : ((ofInserts returningInserts).library none).expand
      Settings.default ⟨"main".toList⟩ (Document.ofText returningText) =
        .ok returningExpansion := by
    with_unfolding_all rfl
  obtain ⟨-, hlines, hplain, hagain⟩ := expand_rereads returningInserts none
    Settings.default ⟨"main".toList⟩ returningText hexpand
  refine ⟨hexpand, ?_, hplain, hagain _ _ _⟩
  rw [hlines (by decide)]
  decide

end Shelf

end ScenarioInclusion
