import ScenarioInclusion.Proofs.DirectiveLine
import ScenarioInclusion.Proofs.Expansion.Splice
import Mathlib.Data.List.SplitBy

/-!
# What an expansion is made of

An expansion runs through the include tags of its lines from the left, and the
first one that fails decides its outcome.  When none fails, what is written
follows from the lines and from what each tag gives: the other lines stay as
they are, and a run of directive lines becomes the blocks of all its tags
followed by its sibling lines.

Held lines wait only for the end of a run.  So a document can be cut anywhere
before a line without directives, and its parts expanded by themselves.
-/

namespace ScenarioInclusion

open DirectiveLine

def Line.includeTags (line : Line) : List Tag :=
  ((ofLine? line).map DirectiveLine.directives).getD []

/-- What stays of a line when its include tags are taken out. -/
def Line.remainder? (line : Line) : Option Line :=
  match ofLine? line with
  | none => some line
  | some parsed => parsed.siblingLine?

/-- The include tags of numbered lines, each with the number of its line. -/
def numberedTags (lines : List (Line × Nat)) : List (Tag × Nat) :=
  lines.flatMap fun entry =>
    entry.1.includeTags.map fun tag => (tag, entry.2)

/-- What lines become when each include tag gives the lines `output`. -/
def assemble (output : Tag → List Line) :
    (held : List Line) → List Line → List Line
  | held, [] => held
  | held, line :: rest =>
    match ofLine? line with
    | none => held ++ line :: assemble output [] rest
    | some parsed =>
      parsed.directives.flatMap output ++
        assemble output (held ++ parsed.siblingLine?.toList) rest

section Cons

variable {output : Tag → List Line} {held rest : List Line} {line : Line}

theorem assemble_cons_of_none (h : ofLine? line = none) :
    assemble output held (line :: rest) =
      held ++ line :: assemble output [] rest := by
  rw [assemble, h]

theorem assemble_cons_of_some {parsed : DirectiveLine}
    (h : ofLine? line = some parsed) :
    assemble output held (line :: rest) =
      parsed.directives.flatMap output ++
        assemble output (held ++ parsed.siblingLine?.toList) rest := by
  rw [assemble, h]

theorem includeTags_of_some {parsed : DirectiveLine}
    (h : ofLine? line = some parsed) :
    line.includeTags = parsed.directives := by
  rw [Line.includeTags, h]
  rfl

theorem includeTags_of_none (h : ofLine? line = none) :
    line.includeTags = [] := by
  rw [Line.includeTags, h]
  rfl

theorem remainder?_of_some {parsed : DirectiveLine}
    (h : ofLine? line = some parsed) :
    line.remainder? = parsed.siblingLine? := by
  rw [Line.remainder?, h]

theorem remainder?_of_none (h : ofLine? line = none) :
    line.remainder? = some line := by
  rw [Line.remainder?, h]

theorem filterMap_remainder?_cons (line : Line) (rest : List Line) :
    (line :: rest).filterMap Line.remainder? =
      line.remainder?.toList ++ rest.filterMap Line.remainder? := by
  cases hremainder : line.remainder? with
  | none => simp [List.filterMap_cons_none hremainder]
  | some left => simp [List.filterMap_cons_some hremainder]

theorem numberedTags_cons (number : Nat) (lines : List (Line × Nat)) :
    numberedTags ((line, number) :: lines) =
      (line.includeTags.map fun tag => (tag, number)) ++ numberedTags lines :=
  List.flatMap_cons

end Cons

theorem map_fst_numberedTags (lines : List (Line × Nat)) :
    (numberedTags lines).map Prod.fst =
      (lines.map Prod.fst).flatMap Line.includeTags := by
  induction lines with
  | nil => rfl
  | cons entry rest ih =>
      rw [numberedTags_cons, List.map_append, ih, List.map_map, List.map_cons,
        List.flatMap_cons]
      simp [Function.comp_def]

theorem assemble_congr {output output' : Tag → List Line}
    {lines : List Line}
    (h : ∀ tag ∈ lines.flatMap Line.includeTags, output tag = output' tag)
    (held : List Line) :
    assemble output held lines = assemble output' held lines := by
  induction lines generalizing held with
  | nil => rfl
  | cons line rest ih =>
      rw [List.flatMap_cons] at h
      have htail := ih fun tag htag => h tag (List.mem_append_right _ htag)
      cases hline : ofLine? line with
      | none =>
          rw [assemble_cons_of_none hline, assemble_cons_of_none hline, htail]
      | some parsed =>
          have hblocks : parsed.directives.flatMap output =
              parsed.directives.flatMap output' := by
            rw [List.flatMap_def, List.flatMap_def]
            apply congrArg
            apply List.map_congr_left
            intro tag htag
            rw [← includeTags_of_some hline] at htag
            exact h tag (List.mem_append_left _ htag)
          rw [assemble_cons_of_some hline, assemble_cons_of_some hline, htail,
            hblocks]

/-! ## The loop over the lines -/

theorem outcome_expandLines
    {splice : Nat → Tag → Traced ExpansionError (List Line)}
    {output : Tag → List Line}
    (houtput : ∀ number tag block,
      (splice number tag).outcome = .ok block → output tag = block)
    (held : List Line) (lines : List (Line × Nat)) :
    (expandLines splice held lines).outcome =
      (fun _ => assemble output held (lines.map Prod.fst)) <$>
        (numberedTags lines).mapM fun entry =>
          (splice entry.2 entry.1).outcome := by
  induction lines generalizing held with
  | nil => rfl
  | cons entry rest ih =>
      obtain ⟨line, number⟩ := entry
      rw [expandLines, numberedTags_cons, List.map_cons]
      cases hline : ofLine? line with
      | none =>
          rw [includeTags_of_none hline, assemble_cons_of_none hline]
          simp only [Traced.outcome_bind, Traced.outcome_pure, ih,
            List.map_nil, List.nil_append]
          cases (numberedTags rest).mapM fun entry =>
            (splice entry.2 entry.1).outcome <;> rfl
      | some parsed =>
          rw [includeTags_of_some hline, assemble_cons_of_some hline,
            List.mapM_append, List.mapM_map]
          simp only [Traced.outcome_bind, Traced.outcome_pure, ih,
            Traced.outcome_mapM, Function.comp_def]
          cases hblocks : parsed.directives.mapM fun tag =>
            (splice number tag).outcome with
          | error fault => rfl
          | ok blocks =>
              have hall : ∀ tag ∈ parsed.directives,
                  (splice number tag).outcome = .ok (output tag) := by
                intro tag htag
                obtain ⟨block, hblock⟩ :=
                  (exists_mapM_eq_ok_iff _ _).mp ⟨blocks, hblocks⟩ tag htag
                rw [hblock, houtput number tag block hblock]
              have hmap : blocks = parsed.directives.map output := by
                rw [mapM_eq_ok_map hall] at hblocks
                injection hblocks with heq
                exact heq.symm
              rw [hmap, List.flatMap_def]
              cases (numberedTags rest).mapM fun entry =>
                (splice entry.2 entry.1).outcome <;> rfl

theorem expandLines_eq_ok_iff
    {splice : Nat → Tag → Traced ExpansionError (List Line)}
    {output : Tag → List Line}
    (houtput : ∀ number tag block,
      (splice number tag).outcome = .ok block → output tag = block)
    {held out : List Line} {lines : List (Line × Nat)} :
    (expandLines splice held lines).outcome = .ok out ↔
      (∀ entry ∈ numberedTags lines,
        ∃ block, (splice entry.2 entry.1).outcome = .ok block) ∧
      assemble output held (lines.map Prod.fst) = out := by
  rw [outcome_expandLines houtput, map_eq_ok_iff, ← exists_mapM_eq_ok_iff]
  constructor
  · intro h
    rcases h with ⟨blocks, hblocks, heq⟩
    exact ⟨⟨blocks, hblocks⟩, heq⟩
  · intro h
    rcases h with ⟨⟨blocks, hblocks⟩, heq⟩
    exact ⟨blocks, hblocks, heq⟩

theorem expandLines_eq_error_iff
    {splice : Nat → Tag → Traced ExpansionError (List Line)}
    {output : Tag → List Line}
    (houtput : ∀ number tag block,
      (splice number tag).outcome = .ok block → output tag = block)
    {held : List Line} {lines : List (Line × Nat)} {fault : ExpansionError} :
    (expandLines splice held lines).outcome = .error fault ↔
      ∃ earlier entry later,
        numberedTags lines = earlier ++ entry :: later ∧
        (∀ other ∈ earlier,
          ∃ block, (splice other.2 other.1).outcome = .ok block) ∧
        (splice entry.2 entry.1).outcome = .error fault := by
  rw [outcome_expandLines houtput, map_eq_error_iff, mapM_eq_error_iff]

/-! ## Cutting a document -/

theorem forall_mem_head?_not_isDirective {line : Line}
    (h : ¬ line.IsDirective) (rest : List Line) :
    ∀ first ∈ (line :: rest).head?, ¬ first.IsDirective := by
  intro first hfirst
  rw [← Option.some.inj hfirst]
  exact h

theorem assemble_of_held {output : Tag → List Line} {held rest : List Line}
    (hrest : ∀ line ∈ rest.head?, ¬ line.IsDirective) :
    assemble output held rest = held ++ assemble output [] rest := by
  cases rest with
  | nil => simp [assemble]
  | cons line rest =>
      have hline : ofLine? line = none :=
        ofLine?_eq_none_iff.mpr (hrest line rfl)
      rw [assemble_cons_of_none hline, assemble_cons_of_none hline,
        List.nil_append]

theorem assemble_append {output : Tag → List Line}
    {held lines rest : List Line}
    (hrest : ∀ line ∈ rest.head?, ¬ line.IsDirective) :
    assemble output held (lines ++ rest) =
      assemble output held lines ++ assemble output [] rest := by
  induction lines generalizing held with
  | nil => exact assemble_of_held hrest
  | cons line lines ih =>
      rw [List.cons_append]
      cases hline : ofLine? line with
      | none =>
          rw [assemble_cons_of_none hline, assemble_cons_of_none hline, ih]
          simp
      | some parsed =>
          rw [assemble_cons_of_some hline, assemble_cons_of_some hline, ih]
          simp

theorem assemble_append_of_directives {output : Tag → List Line}
    {run : List Line} (hrun : ∀ line ∈ run, line.IsDirective)
    (held rest : List Line) :
    assemble output held (run ++ rest) =
      run.flatMap (fun line => line.includeTags.flatMap output) ++
        assemble output (held ++ run.filterMap Line.remainder?) rest := by
  induction run generalizing held with
  | nil => simp
  | cons line run ih =>
      obtain ⟨parsed, hline⟩ := exists_ofLine? (hrun line (List.mem_cons_self ..))
      have htail := ih fun other hother =>
        hrun other (List.mem_cons_of_mem line hother)
      rw [List.cons_append, assemble_cons_of_some hline, htail,
        filterMap_remainder?_cons, remainder?_of_some hline,
        List.flatMap_cons, includeTags_of_some hline]
      simp

section NoDirectives

variable {lines : List Line}

theorem flatMap_includeTags_of_no_directives
    (h : ∀ line ∈ lines, ¬ line.IsDirective) :
    lines.flatMap Line.includeTags = [] := by
  rw [List.flatMap_eq_nil_iff]
  intro line hline
  exact includeTags_of_none (ofLine?_eq_none_iff.mpr (h line hline))

theorem filterMap_remainder?_of_no_directives
    (h : ∀ line ∈ lines, ¬ line.IsDirective) :
    lines.filterMap Line.remainder? = lines := by
  have hsome : ∀ line ∈ lines, line.remainder? = some line := by
    intro line hline
    exact remainder?_of_none (ofLine?_eq_none_iff.mpr (h line hline))
  rw [List.filterMap_congr hsome, List.filterMap_some]

end NoDirectives

theorem assemble_of_no_directives {output : Tag → List Line}
    {lines : List Line} (hlines : ∀ line ∈ lines, ¬ line.IsDirective)
    (held : List Line) : assemble output held lines = held ++ lines := by
  induction lines generalizing held with
  | nil => simp [assemble]
  | cons line lines ih =>
      have hline : ofLine? line = none :=
        ofLine?_eq_none_iff.mpr (hlines line (List.mem_cons_self ..))
      have htail := ih fun other hother =>
        hlines other (List.mem_cons_of_mem line hother)
      rw [assemble_cons_of_none hline, htail, List.nil_append]

theorem infix_assemble {output : Tag → List Line} {lines : List Line}
    {tag : Tag} (h : tag ∈ lines.flatMap Line.includeTags)
    (held : List Line) : output tag <:+: assemble output held lines := by
  induction lines generalizing held with
  | nil => exact absurd h List.not_mem_nil
  | cons line lines ih =>
      rw [List.flatMap_cons] at h
      cases hline : DirectiveLine.ofLine? line with
      | none =>
          rw [includeTags_of_none hline, List.nil_append] at h
          rw [assemble_cons_of_none hline]
          exact ((ih h []).trans (List.suffix_cons line _).isInfix).trans
            (List.suffix_append held _).isInfix
      | some parsed =>
          rw [includeTags_of_some hline] at h
          rw [assemble_cons_of_some hline]
          rcases List.mem_append.mp h with hmem | hmem
          · have hblock : output tag <:+: parsed.directives.flatMap output :=
              List.infix_flatMap_of_mem hmem output
            exact hblock.trans (List.prefix_append _ _).isInfix
          · exact (ih hmem _).trans (List.suffix_append _ _).isInfix

/-- Lines without directives stay, in their order. -/
theorem sublist_assemble {output : Tag → List Line} (held lines : List Line) :
    (lines.filter fun line => ¬ line.IsDirective).Sublist
      (assemble output held lines) := by
  induction lines generalizing held with
  | nil => exact List.nil_sublist _
  | cons line lines ih =>
      cases hline : ofLine? line with
      | none =>
          have hplain := ofLine?_eq_none_iff.mp hline
          rw [List.filter_cons_of_pos (by simpa using hplain),
            assemble_cons_of_none hline]
          exact ((ih []).cons_cons line).trans (List.sublist_append_right ..)
      | some parsed =>
          have hdirective := (ofLine?_eq_some_iff.mp hline).1
          rw [List.filter_cons_of_neg (by simpa using hdirective),
            assemble_cons_of_some hline]
          exact (ih _).trans (List.sublist_append_right ..)

theorem assemble_append_of_last {output : Tag → List Line}
    {lines : List Line} (hlines : ∀ line ∈ lines.getLast?, ¬ line.IsDirective)
    (rest : List Line) :
    assemble output [] (lines ++ rest) =
      assemble output [] lines ++ assemble output [] rest := by
  rcases List.eq_nil_or_concat lines with rfl | ⟨start, last, rfl⟩
  · rfl
  · have hlast : ¬ last.IsDirective := by
      apply hlines
      simp
    have hnone : ofLine? last = none := ofLine?_eq_none_iff.mpr hlast
    have hhead := forall_mem_head?_not_isDirective hlast
    rw [List.concat_eq_append, List.append_assoc, List.singleton_append,
      assemble_append (hhead rest), assemble_append (hhead []),
      assemble_cons_of_none hnone, assemble_cons_of_none hnone]
    simp [assemble]

/-! ## The lines that are written -/

theorem not_isDirective_of_mem_remainder? {line rest : Line}
    (h : rest ∈ line.remainder?) : ¬ rest.IsDirective := by
  cases hline : ofLine? line with
  | none =>
      rw [remainder?_of_none hline] at h
      rw [← Option.some.inj h]
      exact ofLine?_eq_none_iff.mp hline
  | some parsed =>
      rw [remainder?_of_some hline] at h
      exact not_isDirective_siblingLine hline h

theorem forall_mem_assemble {output : Tag → List Line} {P : Line → Prop}
    {held lines : List Line} (hheld : ∀ line ∈ held, P line)
    (houtput : ∀ tag ∈ lines.flatMap Line.includeTags,
      ∀ line ∈ output tag, P line)
    (hremainder : ∀ line ∈ lines, ∀ rest ∈ line.remainder?, P rest) :
    ∀ line ∈ assemble output held lines, P line := by
  induction lines generalizing held with
  | nil => exact hheld
  | cons first lines ih =>
      rw [List.flatMap_cons] at houtput
      have hfirst := hremainder first (List.mem_cons_self ..)
      have houtputTail := fun tag htag =>
        houtput tag (List.mem_append_right _ htag)
      have hremainderTail := fun line hline =>
        hremainder line (List.mem_cons_of_mem first hline)
      intro line hline
      cases hparse : ofLine? first with
      | none =>
          rw [remainder?_of_none hparse] at hfirst
          rw [assemble_cons_of_none hparse, List.mem_append,
            List.mem_cons] at hline
          rcases hline with hmem | heq | hmem
          · exact hheld line hmem
          · rw [heq]
            exact hfirst first rfl
          · exact ih (List.forall_mem_nil _) houtputTail hremainderTail line
              hmem
      | some parsed =>
          rw [remainder?_of_some hparse] at hfirst
          rw [assemble_cons_of_some hparse, List.mem_append] at hline
          rcases hline with hmem | hmem
          · rcases List.mem_flatMap.mp hmem with ⟨tag, htag, hmem⟩
            rw [← includeTags_of_some hparse] at htag
            exact houtput tag (List.mem_append_left _ htag) line hmem
          · have hheldNext : ∀ other ∈ held ++ parsed.siblingLine?.toList,
                P other := by
              intro other hother
              rcases List.mem_append.mp hother with hother | hother
              · exact hheld other hother
              · exact hfirst other (Option.mem_toList.mp hother)
            exact ih hheldNext houtputTail hremainderTail line hmem

/-- What is true of all spliced blocks and of all remainders is true of all
lines that are written. -/
theorem forall_mem_of_expandLines
    {splice : Nat → Tag → Traced ExpansionError (List Line)}
    {output : Tag → List Line}
    (houtput : ∀ number tag block,
      (splice number tag).outcome = .ok block → output tag = block)
    {P : Line → Prop} {lines : List (Line × Nat)} {out : List Line}
    (hsplice : ∀ tag ∈ (lines.map Prod.fst).flatMap Line.includeTags,
      ∀ number block, (splice number tag).outcome = .ok block →
        ∀ line ∈ block, P line)
    (hremainder : ∀ line ∈ lines.map Prod.fst,
      ∀ rest ∈ line.remainder?, P rest)
    (h : (expandLines splice [] lines).outcome = .ok out) :
    ∀ line ∈ out, P line := by
  obtain ⟨hblocks, hassemble⟩ := (expandLines_eq_ok_iff houtput).mp h
  rw [← hassemble]
  refine forall_mem_assemble (List.forall_mem_nil _) ?_ hremainder
  intro tag htag
  obtain ⟨entry, hentry, heq⟩ := List.mem_map.mp
    ((map_fst_numberedTags lines).symm ▸ htag)
  obtain ⟨block, hblock⟩ := hblocks entry hentry
  rw [heq] at hblock
  rw [houtput _ _ _ hblock]
  exact hsplice tag htag _ _ hblock

/-! ## Runs of directive lines -/

/-- The maximal runs of consecutive directive lines, and each other line by
itself. -/
def stretches (lines : List Line) : List (List Line) :=
  lines.splitBy fun line next => line.IsDirective ∧ next.IsDirective

/-- The blocks of all include tags of a stretch, and below them what stays of
its lines. -/
def assembleStretch (output : Tag → List Line) (stretch : List Line) :
    List Line :=
  stretch.flatMap (fun line => line.includeTags.flatMap output) ++
    stretch.filterMap Line.remainder?

theorem isDirective_of_isChain {first next : Line} {rest : List Line}
    (h : (first :: next :: rest).IsChain fun line next =>
      decide (line.IsDirective ∧ next.IsDirective) = true) :
    ∀ line ∈ first :: next :: rest, line.IsDirective := by
  induction rest generalizing first next with
  | nil =>
      have hboth : first.IsDirective ∧ next.IsDirective := by simpa using h
      simp [hboth]
  | cons third rest ih =>
      rw [List.isChain_cons_cons] at h
      have hboth : first.IsDirective ∧ next.IsDirective := by simpa using h.1
      intro line hline
      rcases List.mem_cons.mp hline with rfl | hmem
      · exact hboth.1
      · exact ih h.2 line hmem

theorem run_or_singleton_of_mem_stretches {lines stretch : List Line}
    (h : stretch ∈ stretches lines) :
    (∀ line ∈ stretch, line.IsDirective) ∨
      ∃ line, stretch = [line] ∧ ¬ line.IsDirective := by
  have hchain := List.isChain_of_mem_splitBy h
  rcases stretch with _ | ⟨first, _ | ⟨next, rest⟩⟩
  · exact Or.inl (by simp)
  · by_cases hfirst : first.IsDirective
    · exact Or.inl (by simpa using hfirst)
    · exact Or.inr ⟨first, rfl, hfirst⟩
  · exact Or.inl (isDirective_of_isChain hchain)

theorem assemble_flatten {output : Tag → List Line}
    {parts : List (List Line)}
    (hparts : ∀ part ∈ parts, (∀ line ∈ part, line.IsDirective) ∨
      ∃ line, part = [line] ∧ ¬ line.IsDirective)
    (hchain : parts.IsChain fun part next =>
      ∃ hpart hnext, decide ((part.getLast hpart).IsDirective ∧
        (next.head hnext).IsDirective) = false) :
    assemble output [] parts.flatten =
      parts.flatMap (assembleStretch output) := by
  induction parts with
  | nil => rfl
  | cons part parts ih =>
      have htail := ih (fun other hother =>
        hparts other (List.mem_cons_of_mem part hother)) hchain.tail
      rw [List.flatten_cons, List.flatMap_cons, ← htail]
      rcases hparts part (List.mem_cons_self ..) with hrun |
        ⟨line, rfl, hline⟩
      · -- What follows a run begins with a line that releases the held lines.
        have hnext : ∀ line ∈ parts.flatten.head?, ¬ line.IsDirective := by
          intro line hhead
          cases parts with
          | nil => simp at hhead
          | cons next more =>
              rw [List.isChain_cons_cons] at hchain
              obtain ⟨⟨hpart, hne, hapart⟩, -⟩ := hchain
              have hhead' : next.head hne = line := by
                rw [List.flatten_cons, List.head?_append_of_ne_nil _ hne,
                  List.head?_eq_some_head hne] at hhead
                simpa using hhead
              have hlast := hrun _ (List.getLast_mem hpart)
              intro hdirective
              rw [hhead'] at hapart
              simp [hlast, hdirective] at hapart
        rw [assemble_append_of_directives hrun, assemble_of_held hnext,
          assembleStretch]
        simp
      · have hnone : ofLine? line = none := ofLine?_eq_none_iff.mpr hline
        rw [List.singleton_append, assemble_cons_of_none hnone]
        simp [assembleStretch, includeTags_of_none hnone,
          remainder?_of_none hnone]

/-- The expansion of a document, stretch by stretch. -/
theorem assemble_eq_flatMap_stretches (output : Tag → List Line)
    (lines : List Line) :
    assemble output [] lines =
      (stretches lines).flatMap (assembleStretch output) := by
  have hflatten : (stretches lines).flatten = lines := List.flatten_splitBy ..
  have hchain : (stretches lines).IsChain fun part next =>
      ∃ hpart hnext, decide ((part.getLast hpart).IsDirective ∧
        (next.head hnext).IsDirective) = false :=
    List.isChain_getLast_head_splitBy
      (fun line next => decide (line.IsDirective ∧ next.IsDirective)) lines
  have hassemble : assemble output [] (stretches lines).flatten =
      (stretches lines).flatMap (assembleStretch output) :=
    assemble_flatten (fun _ h => run_or_singleton_of_mem_stretches h) hchain
  rwa [hflatten] at hassemble

end ScenarioInclusion
