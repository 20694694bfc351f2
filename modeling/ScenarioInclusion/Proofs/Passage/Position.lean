import ScenarioInclusion.Proofs.Passage
import Mathlib.Tactic

/-!
# Where the lines of a scenario stand

The lines of a passage keep the numbers that they have in their document.  Its
tag lines are the run that ends right above the header.  Its text begins with
the header and goes down to a last line that introduces nothing, with no line in
between that would end the scenario.
-/

namespace ScenarioInclusion

theorem Line.isPreamble_of_isHeader {line : Line} (h : line.IsHeader) :
    line.isPreamble = false := by
  have hvisible : line.isVoid = false := by
    rcases isHeader_iff.mp h with ⟨keyword, rest, hkeyword, hstart⟩
    have hmem : 'S' ∈ line := by
      apply (Text.trimStart_suffix line).subset
      rw [hstart]
      rcases hkeyword with rfl | rfl
      · exact List.mem_cons_self ..
      · exact List.mem_cons_self ..
    rw [Text.isVoid, List.all_eq_false]
    exact ⟨'S', hmem, by decide⟩
  rw [isPreamble, hvisible, isTagLine_of_isHeader h]
  rfl

theorem of_mem_takeAtEnd {α : Type} {condition : α → Bool} {xs : List α}
    {x : α} (h : x ∈ takeAtEnd condition xs) : condition x = true := by
  rw [takeAtEnd, List.mem_reverse] at h
  exact List.mem_takeWhile_imp h

/-- What `dropAtEnd` leaves ends with something that it does not drop. -/
theorem condition_getLast_dropAtEnd {α : Type} {condition : α → Bool}
    {xs : List α} {x : α} (h : x ∈ (dropAtEnd condition xs).getLast?) :
    condition x = false := by
  rw [dropAtEnd, List.getLast?_reverse] at h
  have hhead := List.head?_dropWhile_not condition xs.reverse
  rw [h] at hhead
  simpa using hhead

namespace Document

/-- Is the line with this number in the run of tag lines directly above the
header of the scenario? -/
def InTagRun (document : Document) (name : Text) (number : Nat) : Prop :=
  ∃ start, document.headerIndex? name = some start ∧
    1 ≤ number ∧ number ≤ start ∧
    ∀ line ∈ (document.lines.take start).drop (number - 1),
      line.isTagLine = true

/-- Is the line with this number the header of the scenario or a line of its
text, whose last line is the one with the number `last`? -/
def InText (document : Document) (name : Text) (number : Nat) : Prop :=
  ∃ start last, document.headerIndex? name = some start ∧
    start + 1 ≤ number ∧ number ≤ last ∧
    (∀ line ∈ (document.lines.take last).drop (start + 1),
      line.endsScenario = false) ∧
    ∃ line, document.lines[last - 1]? = some line ∧ line.isPreamble = false

variable {document : Document} {name : Text} {passage : Passage} {line : Line}
  {start number : Nat}

/-! ## Tag lines -/

theorem take_eq_append_tagLines (h : document.passage? name = some passage) :
    ∃ start front, document.headerIndex? name = some start ∧
      document.lines.take start = front ++ passage.tagLines ∧
      front.length + passage.tagLines.length = start ∧
      passage.tagLinesStart = front.length + 1 ∧
      ∀ line ∈ passage.tagLines, line.isTagLine = true := by
  rw [passage?, Option.map_eq_some_iff] at h
  rcases h with ⟨start, hstart, rfl⟩
  rcases List.findIdx?_eq_some_iff_getElem.mp hstart with ⟨hlt, -, -⟩
  have hsplit := dropAtEnd_append_takeAtEnd Line.isTagLine
    (document.lines.take start)
  have hlength := congrArg List.length hsplit
  rw [List.length_append, List.length_take] at hlength
  refine ⟨start, _, hstart, hsplit.symm, ?_, ?_, fun _ hline =>
    of_mem_takeAtEnd hline⟩
  · simp only
    omega
  · simp only [Passage.tagLinesStart]
    omega

theorem inTagRun_of_mem_numberedTagLines
    (h : document.passage? name = some passage)
    (hmem : (line, number) ∈ passage.numberedTagLines) :
    document.lines[number - 1]? = some line ∧
      document.InTagRun name number := by
  rcases take_eq_append_tagLines h with
    ⟨start, front, hstart, hsplit, hlength, hfirst, htagLines⟩
  rw [Passage.numberedTagLines, hfirst,
    List.mem_zipIdx_iff_le_and_getElem?_sub] at hmem
  simp only at hmem
  rcases hmem with ⟨hnumber, hget⟩
  have hinside := (List.getElem?_eq_some_iff.mp hget).1
  have hindex : number - (front.length + 1) = number - 1 - front.length := by
    omega
  have hline : (document.lines.take start)[number - 1]? = some line := by
    rw [hsplit, List.getElem?_append_right (by omega), ← hindex, hget]
  rw [List.getElem?_take_of_lt (by omega)] at hline
  refine ⟨hline, start, hstart, by omega, by omega, ?_⟩
  intro other hother
  rw [hsplit, List.drop_append, List.drop_eq_nil_of_le (by omega),
    List.nil_append] at hother
  exact htagLines other (List.mem_of_mem_drop hother)

/-! ## Text -/

theorem scenarioLines_prefix (document : Document) (start : Nat) :
    document.scenarioLines start <+: document.lines.drop start := by
  unfold scenarioLines
  split
  · exact List.nil_prefix
  · next header rest hdrop =>
      rw [hdrop, List.prefix_cons_inj]
      refine List.IsPrefix.trans ?_
        (List.takeWhile_prefix fun line => !line.endsScenario)
      exact ⟨_, dropAtEnd_append_takeAtEnd Line.isPreamble _⟩

theorem endsScenario_of_mem_tail_scenarioLines
    (h : line ∈ (document.scenarioLines start).tail) :
    line.endsScenario = false := by
  unfold scenarioLines at h
  split at h
  · contradiction
  · next header rest hdrop =>
      have hbegins : dropAtEnd Line.isPreamble
          (rest.takeWhile fun line => !line.endsScenario) <+:
          rest.takeWhile fun line => !line.endsScenario :=
        ⟨_, dropAtEnd_append_takeAtEnd Line.isPreamble _⟩
      have hkept := List.mem_takeWhile_imp (hbegins.subset h)
      simpa using hkept

theorem isPreamble_getLast_scenarioLines
    (hstart : document.headerIndex? name = some start)
    (h : line ∈ (document.scenarioLines start).getLast?) :
    line.isPreamble = false := by
  rcases List.findIdx?_eq_some_iff_getElem.mp hstart with ⟨hlt, hname, -⟩
  have hdrop : document.lines.drop start =
      document.lines[start] :: document.lines.drop (start + 1) :=
    List.drop_eq_getElem_cons hlt
  unfold scenarioLines at h
  rw [hdrop] at h
  simp only [List.getLast?_cons] at h
  cases hlast : (dropAtEnd Line.isPreamble
      ((document.lines.drop (start + 1)).takeWhile
        fun line => !line.endsScenario)).getLast? with
  | none =>
      rw [hlast] at h
      cases h
      apply Line.isPreamble_of_isHeader
      rw [Line.IsHeader, Option.getD_none, of_decide_eq_true hname]
      rfl
  | some last =>
      rw [hlast] at h
      cases h
      exact condition_getLast_dropAtEnd hlast

theorem getElem?_of_getElem?_scenarioLines {index : Nat}
    (h : (document.scenarioLines start)[index]? = some line) :
    document.lines[start + index]? = some line := by
  rcases scenarioLines_prefix document start with ⟨after, hafter⟩
  have hlt := (List.getElem?_eq_some_iff.mp h).1
  rw [← List.getElem?_drop, ← hafter, List.getElem?_append_left hlt, h]

theorem drop_take_eq_tail_scenarioLines (document : Document) (start : Nat) :
    (document.lines.take
      (start + (document.scenarioLines start).length)).drop (start + 1) =
      (document.scenarioLines start).tail := by
  have hbegins := scenarioLines_prefix document start
  rw [← List.drop_drop, List.drop_take, Nat.add_sub_cancel_left,
    ← List.prefix_iff_eq_take.mp hbegins, List.drop_one]

theorem inText_of_mem_zipIdx (h : document.passage? name = some passage)
    (hmem : (line, number) ∈ passage.lines.zipIdx passage.startLine) :
    document.lines[number - 1]? = some line ∧ document.InText name number := by
  rw [passage?, Option.map_eq_some_iff] at h
  rcases h with ⟨start, hstart, rfl⟩
  rw [List.mem_zipIdx_iff_le_and_getElem?_sub] at hmem
  simp only at hmem
  rcases hmem with ⟨hnumber, hget⟩
  have hinside := (List.getElem?_eq_some_iff.mp hget).1
  refine ⟨?_, start, start + (document.scenarioLines start).length, hstart,
    hnumber, by omega, ?_, ?_⟩
  · have hline := getElem?_of_getElem?_scenarioLines hget
    rwa [show start + (number - (start + 1)) = number - 1 by omega] at hline
  · intro other hother
    rw [drop_take_eq_tail_scenarioLines] at hother
    exact endsScenario_of_mem_tail_scenarioLines hother
  · cases hlast : (document.scenarioLines start).getLast? with
    | none =>
        rw [List.getLast?_eq_none_iff] at hlast
        simp [hlast] at hinside
    | some last =>
        refine ⟨last, ?_, isPreamble_getLast_scenarioLines hstart hlast⟩
        rw [List.getLast?_eq_getElem?] at hlast
        have hline := getElem?_of_getElem?_scenarioLines hlast
        rwa [← Nat.add_sub_assoc (by omega)] at hline

end Document

end ScenarioInclusion
