import ScenarioInclusion.Proofs.Directive.Spelling
import ScenarioInclusion.Proofs.Text.Balanced
import Mathlib.Data.List.DropRight

/-!
# Blanks around text

An argument list may have blanks on both sides of every separator.  They say
nothing: a text without blanks at its ends is found again by trimming what was
written, and a labelled value by cutting at the colon and trimming both sides.
-/

namespace ScenarioInclusion

open Text

/-- Blanks, maybe none. -/
structure Gap where
  text : Text
  isBlank_of_mem : ∀ c ∈ text, isBlank c = true

theorem isBlank_of_mem_nil : ∀ c ∈ ([] : Text), isBlank c = true :=
  List.forall_mem_nil _

def Gap.empty : Gap :=
  ⟨[], isBlank_of_mem_nil⟩

def Gap.single (c : Char) (h : isBlank c = true) : Gap :=
  ⟨[c], List.forall_mem_singleton.mpr h⟩

def Gap.cons {c : Char} (h : isBlank c = true) (gap : Gap) : Gap :=
  ⟨c :: gap.text, List.forall_mem_cons.mpr ⟨h, gap.isBlank_of_mem⟩⟩

theorem Gap.isBlank_of_text_eq {gap : Gap} {c : Char} {rest : Text}
    (h : gap.text = c :: rest) : isBlank c = true := by
  apply gap.isBlank_of_mem
  simp [h]

/-- The blanks on both sides of a text. -/
structure Margins where
  before : Gap
  after : Gap

def Margins.around (margins : Margins) (text : Text) : Text :=
  margins.before.text ++ (text ++ margins.after.text)

namespace Text

/-! ## Trimming -/

theorem isBlank_eq_false_of_trimStart {text rest : Text} {c : Char}
    (h : text.trimStart = c :: rest) : isBlank c = false := by
  have hhead := List.head?_dropWhile_not isBlank text
  rw [show text.dropWhile isBlank = c :: rest from h] at hhead
  simpa using hhead

/-- It does not matter which end is trimmed first. -/
theorem trimStart_trimEnd (text : Text) : text.trimEnd.trimStart = text.trim := by
  have htext := indent_append_trimStart text
  rw [trim]
  cases hstart : text.trimStart with
  | nil =>
      rw [hstart, List.append_nil] at htext
      have hend : text.trimEnd = [] := by
        have hblank : ∀ c ∈ text.indent, isBlank c = true :=
          isBlank_of_mem_indent
        rw [htext] at hblank
        exact trimEnd_append_of_blank hblank []
      rw [hend]
      rfl
  | cons c rest =>
      have hc : isBlank c = false := isBlank_eq_false_of_trimStart hstart
      rw [← htext, hstart, trimEnd_append_cons hc,
        trimStart_append_of_blank isBlank_of_mem_indent,
        trimStart_cons_of_not_blank hc, trimEnd_cons_of_not_blank hc]

theorem trimEnd_append (text more : Text) :
    Text.trimEnd (text ++ more) =
      if more.trimEnd = [] then text.trimEnd else text ++ more.trimEnd := by
  have hnil : more.trimEnd = [] ↔
      (more.reverse.dropWhile isBlank).isEmpty = true := by
    rw [trimEnd, List.reverse_eq_nil_iff, List.isEmpty_iff]
  rw [trimEnd, List.reverse_append, List.dropWhile_append]
  simp only [hnil]
  split
  · rfl
  · rw [List.reverse_append, List.reverse_reverse, trimEnd]

theorem trimEnd_trimEnd (text : Text) : text.trimEnd.trimEnd = text.trimEnd := by
  rw [trimEnd, trimEnd, List.reverse_reverse, List.dropWhile_idempotent]

theorem trim_trimEnd (text : Text) : text.trimEnd.trim = text.trim := by
  rw [trim, trimStart_trimEnd, trim, trimEnd_trimEnd]

theorem head?_trim (text : Text) : text.trim.head? = text.trimStart.head? := by
  cases hstart : text.trimStart with
  | nil =>
      rw [trim, hstart]
      rfl
  | cons c rest =>
      have hc : isBlank c = false := isBlank_eq_false_of_trimStart hstart
      rw [trim, hstart, trimEnd_cons_of_not_blank hc]
      rfl

theorem trim_trim (text : Text) : text.trim.trim = text.trim := by
  have hstart : text.trimStart.trimStart = text.trimStart :=
    List.dropWhile_idempotent isBlank text
  calc
    text.trim.trim = text.trimStart.trim := trim_trimEnd text.trimStart
    _ = text.trim := by rw [trim, hstart, trim]

theorem trim_append_gap (text : Text) (gap : Gap) :
    Text.trim (text ++ gap.text) = text.trim := by
  rw [← trimStart_trimEnd, trimEnd_append_of_blank gap.isBlank_of_mem,
    trimStart_trimEnd]

theorem trim_around (margins : Margins) (text : Text) :
    Text.trim (margins.around text) = text.trim := by
  rw [Margins.around, trim,
    trimStart_append_of_blank margins.before.isBlank_of_mem, ← trim,
    trim_append_gap]

/-- Trimming a text takes blanks away around it, and nothing else. -/
theorem exists_margins (text : Text) :
    ∃ margins : Margins, text = margins.around text.trim := by
  have hend : ∀ c ∈ (text.trimStart.reverse.takeWhile isBlank).reverse,
      isBlank c = true := by
    intro c hc
    exact List.mem_takeWhile_imp (List.mem_reverse.mp hc)
  refine ⟨⟨⟨text.indent, isBlank_of_mem_indent⟩, ⟨_, hend⟩⟩, ?_⟩
  rw [Margins.around, trim, trimEnd, ← List.reverse_append,
    List.takeWhile_append_dropWhile, List.reverse_reverse,
    indent_append_trimStart]

theorem trim_gap (gap : Gap) : Text.trim gap.text = [] :=
  trim_append_gap [] gap

theorem trimStart_eq_of_trim_eq {text : Text} (h : text.trim = text) :
    text.trimStart = text := by
  have hlength : text.length ≤ text.trimStart.length := by
    have hend := (isPrefix_trimEnd text.trimStart).length_le
    rwa [← trim, h] at hend
  exact (trimStart_suffix text).eq_of_length_le hlength

/-- A visible character at both ends. -/
theorem trim_cons_append_singleton {c d : Char} (hc : isBlank c = false)
    (hd : isBlank d = false) (text : Text) :
    Text.trim (c :: (text ++ [d])) = c :: (text ++ [d]) := by
  rw [trim, trimStart_cons_of_not_blank hc]
  exact trimEnd_append_cons hd (c :: text) []

/-! ## Labelled values -/

/-- A label, a colon and a value, with blanks around both. -/
def labelled (aroundLabel aroundValue : Margins) (label value : Text) : Text :=
  aroundLabel.around label ++ ([':'] ++ aroundValue.around value)

section Labelled

variable (aroundLabel aroundValue : Margins) {label value : Text}

theorem trim_labelled_ne_nil :
    Text.trim (labelled aroundLabel aroundValue label value) ≠ [] := by
  apply List.ne_nil_of_mem (a := ':')
  exact mem_trim_of_not_blank (by simp [labelled]) (by decide)

/-- Cut at the colon and trimmed, a labelled value gives back its label and its
value. -/
theorem exists_cutAtColon_labelled (hne : label ≠ [])
    (hlabel : label.trim = label) (hcolon : ':' ∉ label)
    (hvalue : value.trim = value) :
    ∃ before after,
      cutAtColon (Text.trim (labelled aroundLabel aroundValue label value)) =
        some (before, after) ∧
      before.trim = label ∧ after.trim = value := by
  have hstart : label.trimStart = label := trimStart_eq_of_trim_eq hlabel
  have hvisible : label.trimStart ≠ [] := by rwa [hstart]
  have htrim : Text.trim (labelled aroundLabel aroundValue label value) =
      (label ++ aroundLabel.after.text) ++
        ':' :: Text.trimEnd (aroundValue.around value) := by
    rw [labelled, Margins.around, List.append_assoc, List.append_assoc, trim,
      trimStart_append_of_blank aroundLabel.before.isBlank_of_mem,
      trimStart_append_of_ne_nil hvisible, hstart, ← List.append_assoc,
      List.singleton_append, trimEnd_append_cons (by decide)]
  have hname : ':' ∉ label ++ aroundLabel.after.text := by
    intro hmem
    rcases List.mem_append.mp hmem with hmem | hmem
    · exact hcolon hmem
    · exact absurd (aroundLabel.after.isBlank_of_mem _ hmem) (by decide)
  refine ⟨_, _, htrim ▸ cutAtColon_append hname _, ?_, ?_⟩
  · rw [trim_append_gap, hlabel]
  · rw [trim_trimEnd, trim_around, hvalue]

end Labelled

theorem IsPart.around {text : Text} (h : text.IsPart) (margins : Margins) :
    IsPart (margins.around text) := by
  have hblank : ∀ gap : Gap, IsPart gap.text := fun gap =>
    (isPlain_of_blank gap.isBlank_of_mem).isPart
  exact (hblank margins.before).append (h.append (hblank margins.after))

theorem IsPart.labelled {label value : Text} (hlabel : label.IsPart)
    (hvalue : value.IsPart) (aroundLabel aroundValue : Margins) :
    IsPart (labelled aroundLabel aroundValue label value) := by
  have hcolon : IsPart [':'] := by decide
  exact (hlabel.around aroundLabel).append
    (hcolon.append (hvalue.around aroundValue))

end Text

/-! ## The argument list -/

namespace Directive

theorem argumentList_eq_ok_iff {tag : Tag} {body : Text} :
    argumentList tag = .ok body ↔
      ∃ gap : Gap, Text.trim tag =
        '@' :: Tag.includeName ++ (gap.text ++ '(' :: (body ++ [')'])) := by
  constructor
  · intro h
    unfold argumentList at h
    split at h
    · contradiction
    · next rest hrest =>
        rw [List.isPrefixOf?_eq_some_iff_append_eq] at hrest
        by_cases hvoid : Text.isVoid rest = true
        · simp [hvoid] at h
        · rw [if_neg hvoid] at h
          split at h
          · next behind hbehind =>
              by_cases hlast : behind.getLast? = some ')'
              · rw [if_pos hlast] at h
                cases h
                rcases List.getLast?_eq_some_iff.mp hlast with ⟨body, rfl⟩
                refine ⟨⟨Text.indent rest, isBlank_of_mem_indent⟩, ?_⟩
                rw [← hrest, List.dropLast_concat, ← hbehind,
                  indent_append_trimStart]
              · simp [hlast] at h
          · contradiction
  · rintro ⟨gap, h⟩
    have hrest : ('@' :: Tag.includeName).isPrefixOf? (Text.trim tag) =
        some (gap.text ++ '(' :: (body ++ [')'])) :=
      List.isPrefixOf?_eq_some_iff_append_eq.mpr h.symm
    have hvoid : Text.isVoid (gap.text ++ '(' :: (body ++ [')'])) = false := by
      rw [Text.isVoid, List.all_eq_false]
      exact ⟨'(', by simp, by decide⟩
    rw [argumentList, hrest]
    simp only [hvoid, trimStart_append_of_blank gap.isBlank_of_mem,
      trimStart_cons_of_not_blank (c := '(') (by decide)]
    simp

end Directive

end ScenarioInclusion
