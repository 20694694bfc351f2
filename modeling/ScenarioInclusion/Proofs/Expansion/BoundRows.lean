import ScenarioInclusion.Proofs.Excerpt.ExamplesRows
import ScenarioInclusion.Proofs.Expansion.Descent
import ScenarioInclusion.Proofs.TableRow

/-!
# Rows with bindings filled in

An Examples row is counted before anything is filled into it, and the count is to
hold of what is written.  A value might bring a pipe of its own, or a backslash, or
leave the text behind the last pipe void.  Without such values a row keeps its
number of cells, wherever its placeholders stand: behind a backslash, behind the
last pipe, or across several cells if they are not bound.

A row is copied to the expansion once it is filled in, for it begins with a pipe
and so has no tags.
-/

namespace ScenarioInclusion

namespace TableRow

/-! ## Texts with the same cells -/

/-- Are the texts cut into segments that are void alike, be it at the front of a
row or behind a backslash? -/
structure SameCells (text other : Text) : Prop where
  unescaped : voids text = voids other
  escaped : voids ('\\' :: text) = voids ('\\' :: other)

theorem SameCells.refl (text : Text) : SameCells text text :=
  ⟨rfl, rfl⟩

theorem SameCells.cons {text other : Text} (h : SameCells text other)
    (c : Char) : SameCells (c :: text) (c :: other) := by
  constructor
  · by_cases hpipe : c = '|'
    · rw [hpipe, voids_pipe, voids_pipe, h.unescaped]
    · by_cases hescape : c = '\\'
      · rw [hescape, h.escaped]
      · rw [voids_cons hpipe hescape, voids_cons hpipe hescape, h.unescaped]
  · rw [voids_escape, voids_escape, h.unescaped]

theorem SameCells.append {text other : Text} (h : SameCells text other)
    (start : Text) : SameCells (start ++ text) (start ++ other) := by
  induction start with
  | nil => exact h
  | cons c start ih => exact ih.cons c

/-- A visible text without breaks, taken by itself or behind a backslash, keeps
the segment that it is in from being void. -/
theorem voids_append_of_visible {start : Text} (h : IsUnbroken start)
    (hvisible : start.isVoid = false) (rest : Text) :
    voids (start ++ rest) = (voids rest).modifyHead (fun _ => false) ∧
      voids ('\\' :: (start ++ rest)) =
        (voids rest).modifyHead (fun _ => false) := by
  constructor
  · rw [voids_append h, hvisible]
    simp
  · cases start with
    | nil => contradiction
    | cons c start =>
        have hstart := (isUnbroken_cons_iff.mp h).2
        rw [List.cons_append, voids_escape, voids_append hstart,
          List.modifyHead_modifyHead]
        rfl

theorem SameCells.replace {text other : Text} (h : SameCells text other)
    {start start' : Text} (hstart : IsUnbroken start)
    (hvisible : start.isVoid = false) (hstart' : IsUnbroken start')
    (hvisible' : start'.isVoid = false) :
    SameCells (start ++ text) (start' ++ other) := by
  have hbefore := voids_append_of_visible hstart hvisible text
  have hafter := voids_append_of_visible hstart' hvisible' other
  constructor
  · rw [hbefore.1, hafter.1, h.unescaped]
  · rw [hbefore.2, hafter.2, h.unescaped]

theorem isUnbroken_token {name : Text} (h : IsUnbroken name) :
    IsUnbroken (Piece.token name).text := by
  simpa [IsUnbroken, Piece.text] using h

end TableRow

/-! ## One row -/

namespace Bindings

/-- Do neither keys nor values break a cell, and is no value void? -/
def KeepCells (bindings : Bindings) : Prop :=
  ∀ binding ∈ bindings, TableRow.IsUnbroken binding.key ∧
    TableRow.IsUnbroken binding.value ∧ binding.value.isVoid = false

instance (bindings : Bindings) : Decidable bindings.KeepCells :=
  inferInstanceAs (Decidable (∀ binding ∈ bindings, _))

variable {bindings : Bindings}

theorem sameCells_fill (h : bindings.KeepCells) (piece : Piece)
    {text other : Text} (hrest : TableRow.SameCells text other) :
    TableRow.SameCells (bindings.fill piece ++ text)
      (piece.text ++ other) := by
  cases hbound : bindings.binds piece with
  | false =>
      rw [fill_eq_text hbound]
      exact hrest.append piece.text
  | true =>
      cases piece with
      | plain c => contradiction
      | token name =>
          rcases Option.isSome_iff_exists.mp hbound with ⟨value, hvalue⟩
          rcases exists_binding_of_valueOf? hvalue with
            ⟨binding, hmem, rfl, rfl⟩
          rcases h binding hmem with ⟨hkey, hunbroken, hvisible⟩
          rw [fill, hvalue]
          exact hrest.replace hunbroken hvisible
            (TableRow.isUnbroken_token hkey) rfl

theorem sameCells_substitute (h : bindings.KeepCells) (row : Text) :
    TableRow.SameCells (bindings.substitute row) row := by
  have hpieces : ∀ pieces : List Piece, TableRow.SameCells
      (pieces.flatMap bindings.fill) (pieces.flatMap Piece.text) := by
    intro pieces
    induction pieces with
    | nil => exact TableRow.SameCells.refl []
    | cons piece pieces ih =>
        rw [List.flatMap_cons, List.flatMap_cons]
        exact sameCells_fill h piece ih
  have hrow := hpieces (Line.pieces row)
  rwa [Line.flatMap_text_pieces] at hrow

theorem cellCount_substitute (h : bindings.KeepCells) (row : Text) :
    TableRow.cellCount (bindings.substitute row) = TableRow.cellCount row :=
  TableRow.cellCount_congr (sameCells_substitute h row).unescaped

end Bindings

/-! ## Rows of an excerpt -/

namespace Line

theorem isRow_eq_true_iff {line : Line} :
    line.isRow = true ↔ ∃ rest, Text.trimStart line = '|' :: rest := by
  rw [isRow, decide_eq_true_eq, Text.head?_trim, List.head?_eq_some_iff]

theorem isRow_substitute {line : Line} (h : line.isRow = true)
    (bindings : Bindings) : isRow (bindings.substitute line) = true := by
  rcases isRow_eq_true_iff.mp h with ⟨rest, hrest⟩
  have hindent : '<' ∉ Text.indent line := by
    intro hmem
    exact absurd (isBlank_of_mem_indent _ hmem) (by decide)
  refine isRow_eq_true_iff.mpr ⟨bindings.substitute rest, ?_⟩
  rw [← Text.indent_append_trimStart line, hrest,
    bindings.substitute_append_of_not_mem hindent,
    bindings.substitute_cons_of_ne (by decide),
    trimStart_append_of_blank isBlank_of_mem_indent,
    trimStart_cons_of_not_blank (by decide)]

theorem not_isDirective_of_isRow {line : Line} (h : line.isRow = true) :
    ¬ line.IsDirective := by
  intro hdirective
  rcases isRow_eq_true_iff.mp h with ⟨rest, hrest⟩
  have htagLine := hdirective.1
  rw [isTagLine, hrest] at htagLine
  contradiction

end Line

/-- Bindings that were filled in met no misfit. -/
theorem Excerpt.not_misfit_of_bind {excerpt : Excerpt} {bindings : Bindings}
    {text : List Line} (h : excerpt.bind bindings = .ok text)
    (hne : bindings ≠ []) (index : Nat)
    (hindex : index < excerpt.lines.length) :
    ¬ bindings.Misfit (excerpt.lines.take index) excerpt.lines[index] := by
  intro hmisfit
  rcases Bindings.exists_first_misfit ⟨index, hindex, hmisfit⟩ with
    ⟨first, hlength, hfirst, hearlier⟩
  have hsome := Bindings.firstMisfit?_eq_some hlength hfirst hearlier
  have hfault := Excerpt.bind_eq_error_iff.mpr ⟨hne, _, hsome, rfl⟩
  rw [h] at hfault
  contradiction

theorem Excerpt.cellCount_eq_of_bind {excerpt : Excerpt} {bindings : Bindings}
    {text : List Line} (h : excerpt.bind bindings = .ok text)
    (hne : bindings ≠ []) {index : Nat} (hindex : index < excerpt.lines.length)
    (hrow : excerpt.lines[index].isRow = true)
    (hexamples : inExamples (excerpt.lines.take index) = true) :
    TableRow.cellCount excerpt.lines[index] = bindings.length := by
  by_contra hcount
  exact not_misfit_of_bind h hne index hindex ⟨hrow, hexamples, hcount⟩

/-! ## Rows of an expansion -/

namespace Library

variable {library : Library} {settings : Settings} {path : Path}
  {document output : Document}

/-- The rows of every scenario that is spliced are in the expansion, in their
order and with the bindings filled in. -/
theorem rows_sublist_of_expand {links : List Link} {link : Link}
    (hdescent : library.Descent (document.site path) (links ++ [link])
      link.site)
    (h : library.expand settings path document = .ok output) :
    (link.text.filter Line.isRow).Sublist output.lines := by
  rcases exists_block_of_expand hdescent h with
    ⟨roomLeft, entered, block, -, hinfix, hexpand⟩
  rcases exists_output_of_splice library roomLeft entered link.site.path with
    ⟨blocks, hblocks⟩
  have hassemble := ((expandLines_eq_ok_iff hblocks).mp hexpand).2
  have hlines : link.site.lines.map Prod.fst =
      (link.excerpt.nested link.directive.bindings).map Prod.fst ++
        link.text := by
    rw [Link.site, List.map_append, List.zipIdx_map_fst]
  have hrows : (link.text.filter Line.isRow).Sublist
      ((link.site.lines.map Prod.fst).filter fun line =>
        ¬ line.IsDirective) := by
    rw [hlines, List.filter_append]
    refine (List.monotone_filter_right _ ?_).trans
      (List.sublist_append_right ..)
    intro line hrow
    simpa using Line.not_isDirective_of_isRow hrow
  rw [← hassemble] at hinfix
  exact hrows.trans ((sublist_assemble _ _).trans hinfix.sublist)

/-- Filling in bindings that fit into cells leaves the number of cells of a row as
it is.  So when an expansion succeeds, the rows of each scenario that is spliced
are in it, in their order, and each of its Examples rows still has one cell for
each binding. -/
theorem boundRows_keepCells (library : Library) :
    (∀ (bindings : Bindings) (row : Text), bindings.KeepCells →
      TableRow.cellCount (bindings.substitute row) =
        TableRow.cellCount row) ∧
    ∀ settings path document output links link,
      library.expand settings path document = .ok output →
      library.Descent (document.site path) (links ++ [link]) link.site →
        (link.text.filter Line.isRow).Sublist output.lines ∧
        (link.directive.bindings ≠ [] → link.directive.bindings.KeepCells →
          ∀ index (_ : index < link.excerpt.lines.length),
            link.excerpt.lines[index].isRow = true →
            inExamples (link.excerpt.lines.take index) = true →
            ∃ row ∈ output.lines, link.text[index]? = some row ∧
              row.isRow = true ∧
              TableRow.cellCount row = link.directive.bindings.length) := by
  refine ⟨fun bindings row hkeep =>
    Bindings.cellCount_substitute hkeep row, ?_⟩
  intro settings path document output links link houtput hdescent
  have hrows := rows_sublist_of_expand hdescent houtput
  refine ⟨hrows, ?_⟩
  intro hne hkeep index hindex hrow hexamples
  have hfilled := Line.isRow_substitute hrow link.directive.bindings
  have hget : link.text[index]? =
      some (link.directive.bindings.substitute link.excerpt.lines[index]) := by
    rw [Link.text, List.getElem?_map, List.getElem?_eq_getElem hindex,
      Option.map_some]
  refine ⟨_, hrows.subset ?_, hget, hfilled, ?_⟩
  · exact List.mem_filter.mpr ⟨List.mem_of_getElem? hget, hfilled⟩
  · rw [Bindings.cellCount_substitute hkeep]
    exact Excerpt.cellCount_eq_of_bind (hdescent.fits (by simp)) hne hindex
      hrow hexamples

/-! ## A placeholder behind a backslash -/

def pricedLibrary : Library :=
  (Shelf.empty.insert ⟨"shop".toList⟩
    "Scenario: Pay\nExamples:\n|\\<sum>|<tax>".toList).library none

def pricedDocument : Document :=
  ⟨["@include(feature: shop, scenario: Pay, params: [sum:3, tax:<x>])".toList]⟩

def pricedExpansion : Document :=
  ⟨["Scenario: Pay".toList, "Examples:".toList, "|\\3|<x>".toList]⟩

def pricedLink : Link where
  tag := "@include(feature: shop, scenario: Pay, params: [sum:3, tax:<x>])".toList
  number := 1
  directive := ⟨"shop".toList, "Pay".toList,
    [⟨"sum".toList, "3".toList⟩, ⟨"tax".toList, "<x>".toList⟩]⟩
  excerpt := {
    startLine := 1
    tagLines := []
    lines := ["Scenario: Pay".toList, "Examples:".toList,
      "|\\<sum>|<tax>".toList]
    feature := "shop".toList
    source := ⟨"shop".toList⟩
    name := "Pay".toList }

theorem pricedLink_from :
    pricedLink.From pricedLibrary (pricedDocument.site ⟨"main".toList⟩) where
  mem_tags := by
    have htags : numberedTags (pricedDocument.site ⟨"main".toList⟩).lines =
        [(pricedLink.tag, 1)] := by
      cbv
    rw [htags]
    exact List.mem_singleton_self _
  ofTag_eq := by cbv
  excerpt_eq := by cbv

theorem boundRows_keepCells_priced :
    (∀ row, TableRow.cellCount
      (pricedLink.directive.bindings.substitute row) =
        TableRow.cellCount row) ∧
    (pricedLink.text.filter Line.isRow).Sublist pricedExpansion.lines ∧
    ∃ row ∈ pricedExpansion.lines, pricedLink.text[2]? = some row ∧
      row.isRow = true ∧ TableRow.cellCount row = 2 := by
  have hkeep : pricedLink.directive.bindings.KeepCells := by decide +kernel
  have hexpand : pricedLibrary.expand Settings.default ⟨"main".toList⟩
      pricedDocument = .ok pricedExpansion := by
    decide +kernel
  have hfits : pricedLink.Fits := by
    unfold Link.Fits
    decide +kernel
  have hdescent : pricedLibrary.Descent (pricedDocument.site ⟨"main".toList⟩)
      ([] ++ [pricedLink]) pricedLink.site :=
    .down pricedLink_from hfits (.here _)
  obtain ⟨hcount, hrun⟩ := boundRows_keepCells pricedLibrary
  obtain ⟨hrows, hexamples⟩ := hrun _ _ _ _ _ _ hexpand hdescent
  refine ⟨fun row => hcount _ row hkeep, hrows, ?_⟩
  exact hexamples (List.cons_ne_nil _ _) hkeep 2 (by decide)
    (by decide +kernel) (by decide +kernel)

end Library

end ScenarioInclusion
