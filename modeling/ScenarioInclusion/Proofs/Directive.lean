import ScenarioInclusion.Proofs.DirectiveLine
import ScenarioInclusion.Proofs.Sequence

/-!
# Faults of include tags

Reading a text may find that it is no include directive at all.  An include tag
never gets that answer: behind its name stands the argument list, if anything,
so whatever is wrong with it is wrong with its arguments.  Every other tag gets
it.
-/

namespace ScenarioInclusion

open Text

/-! ## Include tags -/

theorem isBlank_of_trimEnd_eq_nil {text : Text} (h : text.trimEnd = []) :
    ∀ c ∈ text, isBlank c = true := by
  simpa [Text.trimEnd] using h

theorem trimEnd_eq_nil_of_blank {text : Text}
    (h : ∀ c ∈ text, isBlank c = true) : text.trimEnd = [] := by
  simpa [Text.trimEnd] using h

namespace Tag

/-- Before the argument list are only blanks if there is no argument list, or
if it is the first that is visible. -/
theorem forall_blank_takeWhile_iff {rest : Text} :
    (∀ c ∈ rest.takeWhile (· ≠ '('), isBlank c = true) ↔
      rest.isVoid = true ∨ ∃ body, rest.trimStart = '(' :: body := by
  constructor
  · intro hblank
    have hsplit := List.takeWhile_append_dropWhile (p := (· ≠ '('))
      (l := rest)
    cases hlist : rest.dropWhile (· ≠ '(') with
    | nil =>
        rw [hlist, List.append_nil] at hsplit
        rw [hsplit] at hblank
        exact Or.inl (List.all_eq_true.mpr hblank)
    | cons c body =>
        have hparen : c = '(' := by
          have hhead := List.head?_dropWhile_not (· ≠ '(') rest
          rw [hlist] at hhead
          simpa using hhead
        refine Or.inr ⟨body, ?_⟩
        calc
          rest.trimStart = Text.trimStart (rest.takeWhile (· ≠ '(') ++
              rest.dropWhile (· ≠ '(')) := by rw [hsplit]
          _ = Text.trimStart (rest.dropWhile (· ≠ '(')) :=
              trimStart_append_of_blank hblank _
          _ = '(' :: body := by
              rw [hlist, hparen, trimStart_cons_of_not_blank (by decide)]
  · intro h c hc
    rcases h with hvoid | ⟨body, hbody⟩
    · exact List.all_eq_true.mp hvoid c ((List.takeWhile_sublist _).subset hc)
    · have hindent : ∀ d ∈ rest.indent, decide (d ≠ '(') = true := by
        intro d hd
        have hblank := isBlank_of_mem_indent d hd
        by_contra hparen
        rw [show d = '(' by simpa using hparen] at hblank
        exact absurd hblank (by decide)
      rw [← indent_append_trimStart rest, hbody,
        List.takeWhile_append_of_pos hindent,
        List.takeWhile_cons_of_neg (by decide), List.append_nil] at hc
      exact isBlank_of_mem_indent c hc

theorem name_of_trim_eq {tag : Tag} {rest : Text}
    (h : Text.trim tag = '@' :: includeName ++ rest) :
    tag.name = includeName ++ Text.trimEnd (rest.takeWhile (· ≠ '(')) := by
  have hdrop : ('@' :: includeName ++ rest).dropWhile (· = '@') =
      includeName ++ rest := by
    simp [includeName]
  have hletters : ∀ c ∈ includeName, decide (c ≠ '(') = true := by
    simp [includeName]
  rw [name, h, hdrop, List.takeWhile_append_of_pos hletters]
  exact trimEnd_append_cons (c := 'e') (by decide)
    ['i', 'n', 'c', 'l', 'u', 'd'] _

/-- Behind the name of an include tag is its argument list, if anything. -/
theorem isInclude_iff_of_trim_eq {tag : Tag} {rest : Text}
    (h : Text.trim tag = '@' :: includeName ++ rest) :
    tag.isInclude = true ↔
      rest.isVoid = true ∨ ∃ body, rest.trimStart = '(' :: body := by
  have hprefix : ('@' :: includeName).isPrefixOf tag.trimStart = true := by
    rw [List.isPrefixOf_iff_prefix]
    exact (h ▸ List.prefix_append _ _ : '@' :: includeName <+: Text.trim tag)
      |>.trans (isPrefix_trimEnd _)
  rw [← forall_blank_takeWhile_iff, isInclude, hprefix, Bool.and_true,
    decide_eq_true_eq, name_of_trim_eq h]
  constructor
  · intro hname
    exact isBlank_of_trimEnd_eq_nil (by simpa using hname)
  · intro hblank
    rw [trimEnd_eq_nil_of_blank hblank, List.append_nil]

theorem exists_trim_eq_of_isInclude {tag : Tag} (h : tag.isInclude = true) :
    ∃ rest, Text.trim tag = '@' :: includeName ++ rest := by
  simp only [isInclude, Bool.and_eq_true, List.isPrefixOf_iff_prefix] at h
  rcases h with ⟨-, rest, hrest⟩
  refine ⟨Text.trimEnd rest, ?_⟩
  rw [Text.trim, ← hrest]
  exact trimEnd_append_cons (c := 'e') (by decide)
    ['@', 'i', 'n', 'c', 'l', 'u', 'd'] rest

end Tag

namespace Directive

section Recognises

variable {α β : Type}

/-- Is the text taken for an include directive, even if a faulty one? -/
def Recognises (read : Except DirectiveError α) : Prop :=
  ∀ tag, read ≠ .error (.notAnInclude tag)

theorem recognises_ok (a : α) :
    Recognises (.ok a : Except DirectiveError α) := by
  intro tag h
  contradiction

theorem Recognises.bind {read : Except DirectiveError α}
    {next : α → Except DirectiveError β} (hread : Recognises read)
    (hnext : ∀ a, Recognises (next a)) : Recognises (read >>= next) := by
  intro tag h
  rcases bind_eq_error_iff.mp h with h | ⟨a, -, h⟩
  · exact hread tag h
  · exact hnext a tag h

theorem Recognises.map {read : Except DirectiveError α} (f : α → β)
    (hread : Recognises read) : Recognises (read.map f) := by
  intro tag h
  exact hread tag (map_eq_error_iff.mp h)

theorem recognises_mapM {read : α → Except DirectiveError β} (xs : List α)
    (hread : ∀ x, Recognises (read x)) : Recognises (xs.mapM read) := by
  intro tag h
  rcases mapM_eq_error_iff.mp h with ⟨-, x, -, -, -, hx⟩
  exact hread x tag hx

theorem recognises_foldlM {read : β → α → Except DirectiveError β}
    (xs : List α) (hread : ∀ b x, Recognises (read b x)) (start : β) :
    Recognises (xs.foldlM read start) := by
  induction xs generalizing start with
  | nil => exact recognises_ok start
  | cons x xs ih =>
      rw [List.foldlM_cons]
      exact (hread start x).bind ih

end Recognises

/-! ## The arguments -/

theorem recognises_readBinding (entry : Text) :
    Recognises (readBinding entry) := by
  intro tag
  unfold readBinding
  split
  · simp
  · split <;> simp

theorem recognises_readParams (value : Text) :
    Recognises (readParams value) := by
  unfold readParams
  split
  · intro tag
    simp
  · exact recognises_mapM _ recognises_readBinding

theorem recognises_readRequired (field : Field) (value : Text) :
    Recognises (readRequired field value) := by
  intro tag
  unfold readRequired
  split <;> simp

namespace Fields

theorem recognises_setOnce {α : Type} (field : Field) (current : Option α)
    {value : Except DirectiveError α} (hvalue : Recognises value) :
    Recognises (setOnce field current value) := by
  intro tag
  unfold setOnce
  split
  · next fault _ =>
      intro h
      cases h
      exact hvalue tag rfl
  · simp
  · simp

theorem recognises_add (fields : Fields) (part : Text) :
    Recognises (fields.add part) := by
  unfold add
  split
  · intro tag
    simp
  · split
    · intro tag
      simp
    · exact (recognises_setOnce _ _ (recognises_readRequired _ _)).map _
    · exact (recognises_setOnce _ _ (recognises_readRequired _ _)).map _
    · exact (recognises_setOnce _ _ (recognises_readParams _)).map _

theorem recognises_toDirective (fields : Fields) :
    Recognises fields.toDirective := by
  intro tag
  unfold toDirective
  split <;> simp

end Fields

/-! ## The argument list -/

theorem argumentList_eq_notAnInclude_iff {tag : Tag} {text : Text} :
    argumentList tag = .error (.notAnInclude text) ↔
      tag.isInclude = false ∧ text = Text.trim tag := by
  unfold argumentList
  cases hrest : ('@' :: Tag.includeName).isPrefixOf? (Text.trim tag) with
  | none =>
      have hnot : tag.isInclude = false := by
        by_contra hinclude
        rcases Tag.exists_trim_eq_of_isInclude (by simpa using hinclude) with
          ⟨rest, htrim⟩
        rw [List.isPrefixOf?_eq_some_iff_append_eq.mpr htrim.symm] at hrest
        contradiction
      simp [hnot, eq_comm]
  | some rest =>
      have htrim : Text.trim tag = '@' :: Tag.includeName ++ rest :=
        (List.isPrefixOf?_eq_some_iff_append_eq.mp hrest).symm
      rw [Bool.eq_false_iff, ne_eq, Tag.isInclude_iff_of_trim_eq htrim]
      simp only
      by_cases hvoid : Text.isVoid rest = true
      · simp [hvoid]
      · rw [if_neg hvoid]
        split
        · next body hbody =>
            simp only [hvoid, hbody]
            split <;> simp
        · next hnot =>
            have hlist : ¬ ∃ body, Text.trimStart rest = '(' :: body := by
              intro hbody
              rcases hbody with ⟨body, hbody⟩
              exact hnot body hbody
            simp [hvoid, hlist, eq_comm (a := text)]

theorem recognises_afterArgumentList (body : Text) :
    Recognises (((items body).foldlM Fields.add Fields.empty) >>=
      Fields.toDirective) :=
  (recognises_foldlM _ Fields.recognises_add _).bind
    Fields.recognises_toDirective

/-- A tag is found to be no include directive just when it is no include
tag. -/
theorem ofTag_eq_notAnInclude_iff {tag : Tag} {text : Text} :
    ofTag tag = .error (.notAnInclude text) ↔
      tag.isInclude = false ∧ text = Text.trim tag := by
  rw [ofTag, bind_eq_error_iff, argumentList_eq_notAnInclude_iff]
  constructor
  · intro h
    rcases h with hlist | ⟨body, -, hafter⟩
    · exact hlist
    · exact absurd hafter (recognises_afterArgumentList body text)
  · intro h
    exact Or.inl h

theorem recognises_ofTag {tag : Tag} (h : tag.isInclude = true) :
    Recognises (ofTag tag) := by
  intro text hfault
  have hnot := (ofTag_eq_notAnInclude_iff.mp hfault).1
  rw [h] at hnot
  contradiction

end Directive

end ScenarioInclusion
