import ScenarioInclusion.Library.Shelf
import ScenarioInclusion.Expansion
import ScenarioInclusion.Proofs.Passage.Extent
import Mathlib.Tactic

/-!
# Tags of the section after a passage

The tags of a section may be followed by more tag lines, by void lines and by
comments before the section opens.  A passage drops tag lines and void lines at
its end, but it keeps a comment there, and then everything above the comment.
So it takes tags of the next section along just when one of them stands above a
comment.
-/

namespace ScenarioInclusion

namespace Line

/-- Is the first visible character of the line a number sign? -/
def isComment (line : Line) : Bool :=
  line.trimStart.head? = some '#'

/-- May the line stand between the tags of a section and the section? -/
def isLeadIn (line : Line) : Bool :=
  line.isPreamble || line.isComment

theorem isVoid_eq_true_iff {line : Line} :
    line.isVoid = true ↔ line.trimStart.head? = none := by
  rw [List.head?_eq_none_iff, Text.trimStart, List.dropWhile_eq_nil_iff,
    Text.isVoid, List.all_eq_true]

theorem isLeadIn_eq_true_iff {line : Line} :
    line.isLeadIn = true ↔ line.trimStart.head? = none ∨
      line.trimStart.head? = some '@' ∨ line.trimStart.head? = some '#' := by
  rw [isLeadIn, Bool.or_eq_true, isPreamble_eq_true_iff, isVoid_eq_true_iff,
    isTagLine, beginsTag, isComment, decide_eq_true_eq, decide_eq_true_eq,
    or_assoc]

theorem isPreamble_of_isComment {line : Line} (h : line.isComment = true) :
    line.isPreamble = false := by
  have hhead := of_decide_eq_true h
  rw [← Bool.not_eq_true, isPreamble_eq_true_iff, isVoid_eq_true_iff,
    isTagLine, beginsTag, hhead]
  decide

theorem OpensSection.isLeadIn {line : Line} (h : line.OpensSection) :
    line.isLeadIn = false := by
  have hhead : line.trimStart.head? = some 'S' ∨
      line.trimStart.head? = some 'R' := by
    obtain ⟨name, keyword, rest, rfl | rfl, hstart, -⟩ | ⟨rest, hstart⟩ := h
    · exact Or.inl (by rw [hstart]; rfl)
    · exact Or.inl (by rw [hstart]; rfl)
    · exact Or.inr (by rw [← hstart]; rfl)
  rw [← Bool.not_eq_true, isLeadIn_eq_true_iff]
  obtain hhead | hhead := hhead
  · rw [hhead]
    decide
  · rw [hhead]
    decide

theorem isLeadIn_of_isTagLine {line : Line} (h : line.isTagLine = true) :
    line.isLeadIn = true :=
  isLeadIn_eq_true_iff.mpr (Or.inr (Or.inl (of_decide_eq_true h)))

end Line

namespace Document

/-- The line at `index` is a tag line, and it belongs to the section that opens
at `next`: nothing but lead-in stands between the two. -/
structure TagsSection (document : Document) (index next : Nat) : Prop where
  index_lt : index < next
  tag : ∃ line ∈ document.lines[index]?, line.isTagLine = true
  opens : ∃ line ∈ document.lines[next]?, line.OpensSection
  between : ∀ line ∈ (document.lines.take next).drop (index + 1),
    line.isLeadIn = true

/-- No comment stands between a tag line and the section at `next` that it
belongs to. -/
def TagsUncommented (document : Document) (next : Nat) : Prop :=
  ∀ index, document.TagsSection index next →
    ∀ line ∈ (document.lines.take next).drop (index + 1),
      line.isComment = false

variable {document : Document} {name : Text} {passage : Passage}
  {header next index later : Nat}

theorem TagsSection.not_opensSection (h : document.TagsSection index later)
    {place : Nat} (hlow : index ≤ place) (hhigh : place < later) :
    ∀ line ∈ document.lines[place]?, ¬ line.OpensSection := by
  intro line hline hopens
  have hlead : line.isLeadIn = true := by
    by_cases hplace : place = index
    · obtain ⟨tag, htag, htagLine⟩ := h.tag
      rw [hplace, htag] at hline
      cases hline
      exact Line.isLeadIn_of_isTagLine htagLine
    · exact h.between line
        (mem_drop_take_iff.mpr ⟨place, by omega, hhigh, hline⟩)
  rw [hopens.isLeadIn] at hlead
  contradiction

/-- Tags inside an extent belong to the section that ends it. -/
theorem Extent.eq_of_tagsSection (h : document.Extent name header next)
    (hlow : header ≤ index) (hhigh : index < next)
    (htags : document.TagsSection index later) : later = next := by
  obtain ⟨line, hline, hopens⟩ := htags.opens
  rcases Nat.lt_trichotomy later next with hlt | heq | hgt
  · have hbefore := htags.index_lt
    have hmem : line ∈ (document.lines.take next).drop (header + 1) :=
      mem_drop_take_iff.mpr ⟨later, by omega, hlt, hline⟩
    exact absurd hopens (h.inside line hmem)
  · exact heq
  · have hlater := (List.getElem?_eq_some_iff.mp hline).1
    have hnext : document.lines[next]? = some document.lines[next] :=
      List.getElem?_eq_getElem (by omega)
    exact absurd (h.stops _ hnext)
      (htags.not_opensSection (by omega) hgt _ hnext)

theorem Extent.header_lt_of_tagsSection (h : document.Extent name header next)
    (htags : document.TagsSection index next) : header < index := by
  by_contra hle
  obtain ⟨line, hline, hname⟩ := h.heads
  exact htags.not_opensSection (by omega) h.header_lt line hline
    (Or.inl ⟨name, hname⟩)

end Document

namespace Passage

/-- No line of the passage is a tag line of a later section. -/
def LeavesNextTags (passage : Passage) (document : Document) : Prop :=
  ∀ index later, passage.startLine ≤ index + 1 →
    index + 1 < passage.startLine + passage.lines.length →
    ¬ document.TagsSection index later

namespace IsExact

variable {passage : Passage} {document : Document} {name : Text}
  {header next index : Nat}

theorem getElem?_lines (h : passage.IsExact document header next)
    {offset : Nat} (hoffset : offset < passage.lines.length) :
    passage.lines[offset]? = document.lines[header + offset]? :=
  calc passage.lines[offset]?
      = ((document.lines.take (header + passage.lines.length)).drop
          header)[offset]? := congrArg (·[offset]?) h.lines_eq
    _ = document.lines[header + offset]? := by
        rw [List.getElem?_drop, List.getElem?_take_of_lt (by omega)]

theorem exists_last (h : passage.IsExact document header next) :
    ∃ line,
      document.lines[header + passage.lines.length - 1]? = some line ∧
      line.isPreamble = false := by
  have hpos := h.lines_pos
  obtain ⟨line, hline⟩ : ∃ line, passage.lines.getLast? = some line :=
    ⟨_, List.getLast?_eq_some_getLast (List.ne_nil_of_length_pos hpos)⟩
  obtain ⟨hvoid, htagLine⟩ := h.last_kept line hline
  refine ⟨line, ?_, by rw [Line.isPreamble, hvoid, htagLine]; rfl⟩
  rw [List.getLast?_eq_getElem?, h.getElem?_lines (by omega)] at hline
  rwa [Nat.add_sub_assoc hpos]

/-- A tag line is never the last line of a passage. -/
theorem lt_last_of_isTagLine (h : passage.IsExact document header next)
    (hindex : index < header + passage.lines.length) {tag : Line}
    (htag : document.lines[index]? = some tag)
    (htagLine : tag.isTagLine = true) :
    index < header + passage.lines.length - 1 := by
  by_contra hle
  obtain ⟨last, hlast, hkept⟩ := h.exists_last
  have hsame : header + passage.lines.length - 1 = index := by omega
  rw [hsame, htag] at hlast
  cases hlast
  rw [Line.isPreamble, htagLine, Bool.or_true] at hkept
  contradiction

/-- A comment of the extent is in the passage, with all lines above it. -/
theorem lt_of_isComment (h : passage.IsExact document header next)
    {place : Nat} (hplace : place < next) {line : Line}
    (hline : document.lines[place]? = some line)
    (hcomment : line.isComment = true) :
    place < header + passage.lines.length := by
  by_contra hle
  have hmem : line ∈
      (document.lines.take next).drop (header + passage.lines.length) :=
    mem_drop_take_iff.mpr ⟨place, by omega, hplace, hline⟩
  have hpreamble := Line.isPreamble_eq_true_iff.mpr (h.left_out line hmem)
  rw [Line.isPreamble_of_isComment hcomment] at hpreamble
  contradiction

theorem leavesNextTags_iff (h : passage.IsExact document header next)
    (hextent : document.Extent name header next) :
    passage.LeavesNextTags document ↔ document.TagsUncommented next := by
  have hstart := h.startLine_eq
  have hend := h.lines_end
  constructor
  · intro hleaves index htags line hline
    obtain ⟨place, hlow, hhigh, hplace⟩ := mem_drop_take_iff.mp hline
    have habove := hextent.header_lt_of_tagsSection htags
    by_contra hcomment
    have hinside := h.lt_of_isComment hhigh hplace (by simpa using hcomment)
    exact hleaves index next (by omega) (by omega) htags
  · intro huncommented index later hlow hhigh htags
    have hlater := hextent.eq_of_tagsSection (by omega) (by omega) htags
    subst hlater
    -- The last line of the passage is lead-in of the section, and no preamble.
    obtain ⟨last, hlast, hkept⟩ := h.exists_last
    obtain ⟨tag, htag, htagLine⟩ := htags.tag
    have hbelow := h.lt_last_of_isTagLine (by omega) htag htagLine
    have hmem : last ∈ (document.lines.take later).drop (index + 1) :=
      mem_drop_take_iff.mpr ⟨_, hbelow, by omega, hlast⟩
    have hlead := htags.between last hmem
    rw [Line.isLeadIn, hkept, huncommented index htags last hmem] at hlead
    contradiction

/-- In front of any section, a line of the passage is a tag line of that section
just when it is one of the section after the passage in its own document. -/
theorem tagsSection_splice_iff (h : passage.IsExact document header next)
    (hnext : ∃ line ∈ document.lines[next]?, line.OpensSection)
    {own : Line} (hown : own.OpensSection) (after : List Line) :
    (Document.mk (passage.lines ++ own :: after)).TagsSection index
        passage.lines.length ↔
      index < passage.lines.length ∧
        document.TagsSection (header + index) next := by
  have hend := h.lines_end
  have hlines : ∀ {offset}, offset < passage.lines.length →
      (passage.lines ++ own :: after)[offset]? =
        document.lines[header + offset]? := by
    intro offset hoffset
    rw [List.getElem?_append_left hoffset, h.getElem?_lines hoffset]
  constructor
  · intro htags
    have hindex := htags.index_lt
    refine ⟨hindex, by omega, ?_, hnext, ?_⟩
    · rw [← hlines hindex]
      exact htags.tag
    · intro line hline
      obtain ⟨place, hlow, hhigh, hplace⟩ := mem_drop_take_iff.mp hline
      by_cases hinside : place < header + passage.lines.length
      · apply htags.between
        refine mem_drop_take_iff.mpr ⟨place - header, by omega, by omega, ?_⟩
        rw [hlines (by omega), ← hplace]
        congr 1
        omega
      · have hleft := h.left_out line
          (mem_drop_take_iff.mpr ⟨place, by omega, hhigh, hplace⟩)
        rw [Line.isLeadIn, Line.isPreamble_eq_true_iff.mpr hleft, Bool.true_or]
  · rintro ⟨hindex, htags⟩
    refine ⟨hindex, ?_, ⟨own, by simp, hown⟩, ?_⟩
    · rw [hlines hindex]
      exact htags.tag
    · intro line hline
      obtain ⟨place, hlow, hhigh, hplace⟩ := mem_drop_take_iff.mp hline
      rw [hlines hhigh] at hplace
      exact htags.between line
        (mem_drop_take_iff.mpr ⟨_, by omega, by omega, hplace⟩)

theorem leavesNextTags_iff_splice (h : passage.IsExact document header next)
    (hextent : document.Extent name header next)
    (hnext : next < document.lines.length) {own : Line}
    (hown : own.OpensSection) (after : List Line) :
    passage.LeavesNextTags document ↔
      ∀ index, ¬ (Document.mk (passage.lines ++ own :: after)).TagsSection
        index passage.lines.length := by
  have hstart := h.startLine_eq
  have hend := h.lines_end
  have hget : document.lines[next]? = some document.lines[next] :=
    List.getElem?_eq_getElem hnext
  have hopens : ∃ line ∈ document.lines[next]?, line.OpensSection :=
    ⟨_, hget, hextent.stops _ hget⟩
  constructor
  · intro hleaves index htags
    obtain ⟨hindex, hsource⟩ :=
      (h.tagsSection_splice_iff hopens hown after).mp htags
    exact hleaves _ _ (by omega) (by omega) hsource
  · intro hnone index later hlow hhigh htags
    have hlater := hextent.eq_of_tagsSection (by omega) (by omega) htags
    subst hlater
    apply hnone (index - header)
    refine (h.tagsSection_splice_iff hopens hown after).mpr ⟨by omega, ?_⟩
    rwa [show header + (index - header) = index by omega]

end IsExact

end Passage

/-- A passage leaves the tags of the next section alone if and only if no
comment stands between one of these tags and the section.  A tag that it does
take along belongs to whatever section the passage is spliced in front of. -/
theorem Document.leavesNextTags_iff_tagsUncommented {document : Document}
    {name : Text} {passage : Passage}
    (h : document.passage? name = some passage) :
    ∃ header next, document.Extent name header next ∧
      passage.IsExact document header next ∧
      (passage.LeavesNextTags document ↔ document.TagsUncommented next) ∧
      (next < document.lines.length →
        ∀ own after, own.OpensSection →
          (passage.LeavesNextTags document ↔
            ∀ index, ¬ (Document.mk
              (passage.lines ++ own :: after)).TagsSection index
                passage.lines.length)) := by
  obtain ⟨header, next, hextent, hexact⟩ := document.exists_exact h
  exact ⟨header, next, hextent, hexact, hexact.leavesNextTags_iff hextent,
    fun hnext own after hown =>
      hexact.leavesNextTags_iff_splice hextent hnext hown after⟩

/-! ## A tag above a comment -/

def parkedDocument : Document :=
  ⟨["Feature: lib".toList, "  Scenario: A".toList, "    Given a".toList,
    "  @ignore".toList, "  # not yet".toList, "  Scenario: B".toList,
    "    Given b".toList]⟩

def parkedPassage : Passage where
  startLine := 2
  tagLines := []
  lines := ["  Scenario: A".toList, "    Given a".toList,
    "  @ignore".toList, "  # not yet".toList]

def uncommentedDocument : Document := ⟨parkedDocument.lines.eraseIdx 4⟩

def uncommentedPassage : Passage where
  startLine := 2
  tagLines := []
  lines := ["  Scenario: A".toList, "    Given a".toList]

theorem extent_uncommentedDocument :
    uncommentedDocument.Extent "A".toList 1 4 where
  header_lt := by decide
  next_le := by decide
  heads := ⟨_, rfl, by decide +kernel⟩
  first := by decide +kernel
  inside := by decide +kernel
  stops := by decide +kernel

theorem leavesNextTags_uncommentedDocument :
    uncommentedDocument.passage? "A".toList = some uncommentedPassage ∧
    uncommentedPassage.LeavesNextTags uncommentedDocument ∧
    ∀ own after, own.OpensSection → ∀ index,
      ¬ (Document.mk (uncommentedPassage.lines ++ own :: after)).TagsSection
        index uncommentedPassage.lines.length := by
  have hpassage : uncommentedDocument.passage? "A".toList =
      some uncommentedPassage := by
    decide +kernel
  obtain ⟨header, next, hextent, -, hleaves, hsplice⟩ :=
    Document.leavesNextTags_iff_tagsUncommented hpassage
  obtain ⟨rfl, rfl⟩ := hextent.unique extent_uncommentedDocument
  have hcomments : ∀ line ∈ uncommentedDocument.lines,
      line.isComment = false := by
    decide +kernel
  have hleft : uncommentedPassage.LeavesNextTags uncommentedDocument := by
    rw [hleaves]
    intro index _ line hline
    exact hcomments line (List.mem_of_mem_take (List.mem_of_mem_drop hline))
  exact ⟨hpassage, hleft, fun own after hown =>
    (hsplice (by decide) own after hown).mp hleft⟩

/-- The tag of the second scenario comes along with the first one, and to the
scenario of another author. -/
theorem not_leavesNextTags_parkedDocument :
    parkedDocument.passage? "A".toList = some parkedPassage ∧
    ¬ parkedPassage.LeavesNextTags parkedDocument ∧
    ((Shelf.empty.insert ⟨"features/lib.feature".toList⟩
        parkedDocument.toText).library none).expand Settings.default
        ⟨"features/main.feature".toList⟩
        ⟨["Feature: main".toList,
          "  @include(feature: lib.feature, scenario: A)".toList,
          "  Scenario: Own".toList, "    Then done".toList]⟩ =
      .ok ⟨["Feature: main".toList, "  Scenario: A".toList,
        "    Given a".toList, "  @ignore".toList, "  # not yet".toList,
        "  Scenario: Own".toList, "    Then done".toList]⟩ := by
  have htags : parkedDocument.TagsSection 3 5 := {
    index_lt := by decide
    tag := ⟨_, rfl, by decide +kernel⟩
    opens := ⟨_, rfl, by decide +kernel⟩
    between := by decide +kernel }
  refine ⟨by decide +kernel, ?_, by cbv⟩
  intro hleaves
  exact hleaves 3 5 (by decide) (by decide) htags

end ScenarioInclusion
