import ScenarioInclusion.Proofs.Passage.Position
import Mathlib.Tactic

/-!
# What a passage takes from its document

A scenario reaches from its header to the next line that opens a section, a
scenario or a rule, or to the end of the document.  `Document.Extent` says so
with the indices of these two lines, counted from zero.  From the extent the
passage takes all lines but some at the end that are void or tag lines, and the
last line that it takes is neither.

Above the header it takes the longest run of tag lines that ends there.
-/

namespace ScenarioInclusion

/-! ## Headers and rules -/

namespace Line

/-- Is the line the header of a scenario with this name? -/
def Heads (line : Line) (name : Text) : Prop :=
  ∃ keyword rest, (keyword = outlineKeyword ∨ keyword = scenarioKeyword) ∧
    line.trimStart = keyword ++ rest ∧ Text.trim rest = name

/-- Does a scenario or a rule begin with the line? -/
def OpensSection (line : Line) : Prop :=
  (∃ name, line.Heads name) ∨ ruleKeyword <+: line.trimStart

theorem headerName?_eq_some_iff {line : Line} {name : Text} :
    line.headerName? = some name ↔ line.Heads name := by
  constructor
  · intro h
    obtain ⟨rest, hrest, hname⟩ := Option.map_eq_some_iff.mp h
    cases houtline : outlineKeyword.isPrefixOf? line.trimStart with
    | some rest' =>
        rw [houtline] at hrest
        injection hrest with hsame
        subst hsame
        exact ⟨outlineKeyword, rest', Or.inl rfl,
          (List.isPrefixOf?_eq_some_iff_append_eq.mp houtline).symm, hname⟩
    | none =>
        rw [houtline] at hrest
        exact ⟨scenarioKeyword, rest, Or.inr rfl,
          (List.isPrefixOf?_eq_some_iff_append_eq.mp hrest).symm, hname⟩
  · rintro ⟨keyword, rest, rfl | rfl, hstart, rfl⟩
    · rw [headerName?, hstart,
        List.isPrefixOf?_eq_some_iff_append_eq.mpr rfl]
      rfl
    · -- The longer keyword goes on with a blank where the shorter one ends.
      have houtline : outlineKeyword.isPrefixOf? (scenarioKeyword ++ rest) =
          none := by
        rfl
      rw [headerName?, hstart, houtline,
        List.isPrefixOf?_eq_some_iff_append_eq.mpr rfl]
      rfl

instance (line : Line) (name : Text) : Decidable (line.Heads name) :=
  decidable_of_iff (line.headerName? = some name) headerName?_eq_some_iff

theorem endsScenario_iff {line : Line} :
    line.endsScenario = true ↔ line.OpensSection := by
  rw [endsScenario, Bool.or_eq_true, Option.isSome_iff_exists,
    List.isPrefixOf_iff_prefix]
  simp only [headerName?_eq_some_iff]
  rfl

instance (line : Line) : Decidable line.OpensSection :=
  decidable_of_iff (line.endsScenario = true) endsScenario_iff

theorem endsScenario_eq_false_iff {line : Line} :
    line.endsScenario = false ↔ ¬ line.OpensSection := by
  rw [← endsScenario_iff, Bool.not_eq_true]

theorem isPreamble_eq_true_iff {line : Line} :
    line.isPreamble = true ↔ line.isVoid = true ∨ line.isTagLine = true := by
  rw [isPreamble, Bool.or_eq_true]

end Line

/-! ## Runs of lines -/

section Runs

variable {α : Type} {condition : α → Bool} {xs : List α}

theorem takeWhile_eq_take {count : Nat}
    (hinside : ∀ x ∈ xs.take count, condition x = true)
    (hstops : ∀ x ∈ xs[count]?, condition x = false) :
    xs.takeWhile condition = xs.take count := by
  have hrest : (xs.drop count).takeWhile condition = [] := by
    cases hdrop : xs.drop count with
    | nil => rfl
    | cons x rest =>
        have hx : x ∈ xs[count]? := by
          rw [← List.head?_drop, hdrop]
          exact rfl
        rw [List.takeWhile_cons, hstops x hx]
        rfl
  calc xs.takeWhile condition
      = (xs.take count ++ xs.drop count).takeWhile condition := by
        rw [List.take_append_drop]
    _ = xs.take count ++ (xs.drop count).takeWhile condition :=
        List.takeWhile_append_of_pos hinside
    _ = xs.take count := by rw [hrest, List.append_nil]

theorem getElem?_length_takeWhile {x : α}
    (h : x ∈ xs[(xs.takeWhile condition).length]?) : condition x = false := by
  induction xs with
  | nil => simp at h
  | cons y rest ih =>
    by_cases hy : condition y = true
    · rw [List.takeWhile_cons_of_pos hy] at h
      exact ih h
    · rw [List.takeWhile_cons_of_neg hy] at h
      cases h
      simpa using hy

theorem mem_drop_take_iff {x : α} {low high : Nat} :
    x ∈ (xs.take high).drop low ↔
      ∃ index, low ≤ index ∧ index < high ∧ xs[index]? = some x := by
  rw [List.mem_iff_getElem?]
  constructor
  · rintro ⟨offset, hoffset⟩
    rw [List.getElem?_drop, List.getElem?_take] at hoffset
    split at hoffset
    · next hhigh => exact ⟨low + offset, by omega, hhigh, hoffset⟩
    · contradiction
  · rintro ⟨index, hlow, hhigh, hindex⟩
    refine ⟨index - low, ?_⟩
    rw [List.getElem?_drop, show low + (index - low) = index by omega,
      List.getElem?_take_of_lt hhigh, hindex]

theorem length_le_takeAtEnd {run : List α} (h : run <:+ xs)
    (hall : ∀ x ∈ run, condition x = true) :
    run.length ≤ (takeAtEnd condition xs).length := by
  obtain ⟨before, rfl⟩ := h
  rw [takeAtEnd, List.length_reverse, List.reverse_append,
    List.takeWhile_append_of_pos (by simpa using hall), List.length_append,
    List.length_reverse]
  exact Nat.le_add_right _ _

end Runs

namespace Document

/-- The first scenario of this name has its header at the index `header`, and
the section after it, if there is one, begins at the index `next`. -/
structure Extent (document : Document) (name : Text) (header next : Nat) :
    Prop where
  header_lt : header < next
  next_le : next ≤ document.lines.length
  heads : ∃ line ∈ document.lines[header]?, line.Heads name
  first : ∀ line ∈ document.lines.take header, ¬ line.Heads name
  inside : ∀ line ∈ (document.lines.take next).drop (header + 1),
    ¬ line.OpensSection
  stops : ∀ line ∈ document.lines[next]?, line.OpensSection

variable {document : Document} {name : Text} {passage : Passage}
  {header next : Nat}

theorem passage?_eq_none_iff_forall_not_heads :
    document.passage? name = none ↔
      ∀ line ∈ document.lines, ¬ line.Heads name := by
  simp only [passage?_eq_none_iff, ne_eq, Line.headerName?_eq_some_iff]

theorem exists_passage?_iff :
    (∃ passage, document.passage? name = some passage) ↔
      ∃ line ∈ document.lines, line.Heads name := by
  rw [← Option.ne_none_iff_exists', ne_eq,
    passage?_eq_none_iff_forall_not_heads]
  simp only [not_forall, not_not, exists_prop]

theorem exists_extent (h : document.passage? name = some passage) :
    ∃ header next, document.Extent name header next := by
  obtain ⟨header, hheader, -⟩ := Option.map_eq_some_iff.mp h
  obtain ⟨hlt, hname, hbefore⟩ := List.findIdx?_eq_some_iff_getElem.mp hheader
  have hrest := (List.takeWhile_prefix (fun line : Line => !line.endsScenario)
    (l := document.lines.drop (header + 1))).length_le
  rw [List.length_drop] at hrest
  refine ⟨header, header + 1 + ((document.lines.drop (header + 1)).takeWhile
    fun line => !line.endsScenario).length, by omega, by omega, ?_, ?_, ?_, ?_⟩
  · exact ⟨document.lines[header], List.getElem?_eq_getElem hlt,
      Line.headerName?_eq_some_iff.mp (of_decide_eq_true hname)⟩
  · intro line hline hheads
    obtain ⟨index, hindex, rfl⟩ := List.mem_take_iff_getElem.mp hline
    apply hbefore index (by omega)
    exact decide_eq_true (Line.headerName?_eq_some_iff.mpr hheads)
  · intro line hline
    rw [List.drop_take, Nat.add_sub_cancel_left,
      ← List.prefix_iff_eq_take.mp (List.takeWhile_prefix _)] at hline
    rw [← Line.endsScenario_eq_false_iff]
    simpa using List.mem_takeWhile_imp hline
  · intro line hline
    rw [← List.getElem?_drop] at hline
    rw [← Line.endsScenario_iff]
    simpa using getElem?_length_takeWhile hline

namespace Extent

theorem headerIndex? (h : document.Extent name header next) :
    document.headerIndex? name = some header := by
  obtain ⟨line, hline, hname⟩ := h.heads
  obtain ⟨hlt, rfl⟩ := List.getElem?_eq_some_iff.mp hline
  refine List.findIdx?_eq_some_iff_getElem.mpr ⟨hlt, ?_, ?_⟩
  · exact decide_eq_true (Line.headerName?_eq_some_iff.mpr hname)
  · intro index hindex hother
    apply h.first (document.lines[index])
    · exact List.mem_take_iff_getElem.mpr ⟨index, by omega, rfl⟩
    · exact Line.headerName?_eq_some_iff.mp (of_decide_eq_true hother)

theorem takeWhile_eq (h : document.Extent name header next) :
    (document.lines.drop (header + 1)).takeWhile
        (fun line => !line.endsScenario) =
      (document.lines.take next).drop (header + 1) := by
  obtain ⟨more, hmore⟩ : ∃ more, next = header + 1 + more :=
    ⟨next - (header + 1), by have hlt := h.header_lt; omega⟩
  have hinside := h.inside
  have hstops := h.stops
  rw [hmore, List.drop_take, Nat.add_sub_cancel_left] at hinside
  rw [hmore, ← List.getElem?_drop] at hstops
  rw [hmore, List.drop_take, Nat.add_sub_cancel_left]
  apply takeWhile_eq_take
  · intro line hline
    simpa using Line.endsScenario_eq_false_iff.mpr (hinside line hline)
  · intro line hline
    simpa using Line.endsScenario_iff.mpr (hstops line hline)

theorem unique {header' next' : Nat} (h : document.Extent name header next)
    (h' : document.Extent name header' next') :
    header = header' ∧ next = next' := by
  have hheader := h.headerIndex?
  rw [h'.headerIndex?] at hheader
  cases hheader
  have hlength := congrArg List.length
    (h.takeWhile_eq.symm.trans h'.takeWhile_eq)
  rw [List.length_drop, List.length_drop, List.length_take_of_le h.next_le,
    List.length_take_of_le h'.next_le] at hlength
  have hlt := h.header_lt
  have hlt' := h'.header_lt
  exact ⟨rfl, by omega⟩

/-- The extent is the text of the scenario and then what introduces the next
section. -/
theorem exists_scenarioLines_append (h : document.Extent name header next) :
    ∃ after, (document.lines.take next).drop header =
        document.scenarioLines header ++ after ∧
      ∀ line ∈ after, line.isPreamble = true := by
  have hle := h.next_le
  have hlt := h.header_lt
  have hdrop : document.lines.drop header =
      document.lines[header] :: document.lines.drop (header + 1) :=
    List.drop_eq_getElem_cons (by omega)
  have hextent : (document.lines.take next).drop header =
      document.lines[header] ::
        (document.lines.take next).drop (header + 1) := by
    rw [List.drop_eq_getElem_cons (by rw [List.length_take]; omega),
      List.getElem_take]
  refine ⟨takeAtEnd Line.isPreamble
    ((document.lines.take next).drop (header + 1)), ?_, fun _ hline =>
    of_mem_takeAtEnd hline⟩
  rw [hextent, scenarioLines, hdrop]
  simp only [h.takeWhile_eq, List.cons_append, dropAtEnd_append_takeAtEnd]

end Extent

end Document

/-- The passage is just what the document has of the scenario whose header
stands at the index `header` and before the section at the index `next`. -/
structure Passage.IsExact (passage : Passage) (document : Document)
    (header next : Nat) : Prop where
  startLine_eq : passage.startLine = header + 1
  lines_eq : passage.lines =
    (document.lines.take (header + passage.lines.length)).drop header
  lines_pos : 0 < passage.lines.length
  lines_end : header + passage.lines.length ≤ next
  one_section : ∀ line ∈ passage.lines.tail, ¬ line.OpensSection
  last_kept : ∀ line ∈ passage.lines.getLast?,
    line.isVoid = false ∧ line.isTagLine = false
  left_out : ∀ line ∈
    (document.lines.take next).drop (header + passage.lines.length),
    line.isVoid = true ∨ line.isTagLine = true
  tagLines_eq : passage.tagLines =
    (document.lines.take header).drop (passage.tagLinesStart - 1)
  tagLines_tag : ∀ line ∈ passage.tagLines, line.isTagLine = true
  tagLines_longest : ∀ run, run <:+ document.lines.take header →
    (∀ line ∈ run, line.isTagLine = true) →
    run.length ≤ passage.tagLines.length
  tagLinesStart_pos : 0 < passage.tagLinesStart
  tagLinesStart_add :
    passage.tagLinesStart + passage.tagLines.length = passage.startLine

namespace Document

variable {document : Document} {name : Text} {passage : Passage}
  {header next : Nat}

theorem Extent.exists_passage (h : document.Extent name header next) :
    ∃ passage, document.passage? name = some passage ∧
      passage.IsExact document header next := by
  have hheader := h.headerIndex?
  obtain ⟨passage, hpassage, hnumber, hrun, hlines⟩ :
      ∃ passage, document.passage? name = some passage ∧
        passage.startLine = header + 1 ∧
        passage.tagLines =
          takeAtEnd Line.isTagLine (document.lines.take header) ∧
        passage.lines = document.scenarioLines header := by
    rw [passage?, hheader]
    exact ⟨_, rfl, rfl, rfl, rfl⟩
  obtain ⟨start, front, hstart, hsplit, hlength, hfirst, htagLines⟩ :=
    take_eq_append_tagLines hpassage
  rw [hheader] at hstart
  cases hstart
  obtain ⟨line, rest, hcons, -⟩ := exists_header_of_passage? hpassage
  obtain ⟨after, hextent, hafter⟩ := h.exists_scenarioLines_append
  have hbegins := scenarioLines_prefix document header
  rw [← hlines] at hextent hbegins
  have hslice := congrArg List.length hextent
  rw [List.length_drop, List.length_take_of_le h.next_le, List.length_append]
    at hslice
  have hlt := h.header_lt
  refine ⟨passage, hpassage, ?_⟩
  constructor
  case startLine_eq => exact hnumber
  case lines_eq =>
    rw [List.drop_take, Nat.add_sub_cancel_left]
    exact List.prefix_iff_eq_take.mp hbegins
  case lines_pos =>
    rw [hcons]
    exact Nat.succ_pos _
  case lines_end => omega
  case one_section =>
    intro line hline
    rw [hlines] at hline
    exact Line.endsScenario_eq_false_iff.mp
      (endsScenario_of_mem_tail_scenarioLines hline)
  case last_kept =>
    intro line hline
    rw [hlines] at hline
    simpa [Line.isPreamble] using
      isPreamble_getLast_scenarioLines hheader hline
  case left_out =>
    intro line hline
    rw [← List.drop_drop, hextent, List.drop_left] at hline
    exact Line.isPreamble_eq_true_iff.mp (hafter line hline)
  case tagLines_eq =>
    rw [hfirst, Nat.add_sub_cancel, hsplit, List.drop_left]
  case tagLines_tag => exact htagLines
  case tagLines_longest =>
    intro run hsuffix hall
    rw [hrun]
    exact length_le_takeAtEnd hsuffix hall
  case tagLinesStart_pos => omega
  case tagLinesStart_add => omega

theorem exists_exact (h : document.passage? name = some passage) :
    ∃ header next, document.Extent name header next ∧
      passage.IsExact document header next := by
  obtain ⟨header, next, hextent⟩ := exists_extent h
  obtain ⟨other, hother, hexact⟩ := hextent.exists_passage
  rw [h] at hother
  cases hother
  exact ⟨header, next, hextent, hexact⟩

end Document

end ScenarioInclusion
