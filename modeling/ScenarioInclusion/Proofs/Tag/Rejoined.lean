import ScenarioInclusion.DirectiveLine

/-!
# Tags taken out of a line and written again

The tags of a line can be taken out of it and written side by side behind any
indentation: the new line has exactly these tags, and so it has when some of
them are left out.  This is what lets the sibling line of a directive line stay
free of directives, and what makes a tag alone on a line mean what it meant
among others.

A word may leave brackets open.  Then it reaches up to the end of its line, so
only the last word of a line does, and nothing that is written before it is
touched.
-/

namespace ScenarioInclusion

namespace Text

/-- The level at the end of a text that is entered at the given level. -/
def levelAtEnd (level : Nat) (text : Text) : Nat :=
  text.foldl levelAfter level

/-- A text that is one word of a line: it begins with neither a blank nor a
comment, and no blank of it is outside brackets. -/
def IsWord : Text → Prop
  | [] => False
  | c :: rest => isBlank c = false ∧ c ≠ '#' ∧ restOfWord 0 rest = rest

/-- Does the word close the brackets that it opens? -/
def IsClosed (word : Text) : Prop :=
  levelAtEnd 0 word.tail = 0

/-- Words that can stand side by side: each but the last is closed. -/
structure Separable (ws : List Text) : Prop where
  isWord : ∀ word ∈ ws, IsWord word
  isClosed : ws.Pairwise fun word _ => IsClosed word

theorem Separable.sublist {ws ws' : List Text} (h : Separable ws)
    (hsub : ws'.Sublist ws) : Separable ws' :=
  ⟨fun word hword => h.isWord word (hsub.subset hword),
    h.isClosed.sublist hsub⟩

theorem Separable.of_cons {word : Text} {ws : List Text}
    (h : Separable (word :: ws)) : Separable ws :=
  h.sublist (List.sublist_cons_self word ws)

/-! ## One word -/

theorem restOfWord_restOfWord (level : Nat) (text : Text) :
    restOfWord level (restOfWord level text) = restOfWord level text := by
  induction text generalizing level with
  | nil => rfl
  | cons c rest ih =>
      rw [restOfWord]
      split
      · rfl
      · next h =>
          rw [restOfWord, if_neg h, ih]

theorem afterWord_eq_nil_of_restOfWord_eq {level : Nat} {text : Text}
    (h : restOfWord level text = text) : afterWord level text = [] := by
  have happend := restOfWord_append_afterWord level text
  rw [h] at happend
  exact List.append_right_eq_self.mp happend

theorem isBlank_of_afterWord_eq_cons {level : Nat} {text rest : Text}
    {c : Char} (h : afterWord level text = c :: rest) : isBlank c = true := by
  induction text generalizing level with
  | nil => contradiction
  | cons d text ih =>
      rw [afterWord] at h
      split at h
      · next hd =>
          injection h with hc
          rw [← hc]
          exact hd.1
      · exact ih h

/-- A word is followed by the end of the line or leaves no bracket open. -/
theorem afterWord_eq_nil_or_levelAtEnd (level : Nat) (text : Text) :
    afterWord level text = [] ∨
      levelAtEnd level (restOfWord level text) = 0 := by
  induction text generalizing level with
  | nil => exact Or.inl rfl
  | cons c rest ih =>
      rw [afterWord, restOfWord]
      split
      · next h => exact Or.inr h.2
      · exact ih (levelAfter level c)

theorem restOfWord_append_blank {level : Nat} {word : Text} {c : Char}
    (hword : restOfWord level word = word)
    (hclosed : levelAtEnd level word = 0) (hc : isBlank c = true)
    (rest : Text) :
    restOfWord level (word ++ c :: rest) = word := by
  induction word generalizing level with
  | nil =>
      have hlevel : level = 0 := hclosed
      rw [List.nil_append, restOfWord, if_pos ⟨hc, hlevel⟩]
  | cons d word ih =>
      rw [restOfWord] at hword
      split at hword
      · simp at hword
      · next h =>
          have htail : restOfWord (levelAfter level d) word = word := by
            simpa using hword
          rw [List.cons_append, restOfWord, if_neg h, ih htail hclosed]

theorem afterWord_append_blank {level : Nat} {word : Text} {c : Char}
    (hword : restOfWord level word = word)
    (hclosed : levelAtEnd level word = 0) (hc : isBlank c = true)
    (rest : Text) :
    afterWord level (word ++ c :: rest) = c :: rest := by
  have happend := restOfWord_append_afterWord level (word ++ c :: rest)
  rw [restOfWord_append_blank hword hclosed hc] at happend
  exact List.append_cancel_left happend

/-! ## The words of a line -/

theorem words_append_of_blank {indent : Text}
    (hindent : ∀ c ∈ indent, isBlank c = true) (text : Text) :
    words (indent ++ text) = words text := by
  induction indent with
  | nil => rfl
  | cons c indent ih =>
      have hc : isBlank c = true := hindent c (List.mem_cons_self ..)
      rw [List.cons_append, words, if_pos hc]
      exact ih fun d hd => hindent d (List.mem_cons_of_mem c hd)

theorem words_of_isWord {word : Text} (h : IsWord word) :
    words word = [word] := by
  cases word with
  | nil => exact h.elim
  | cons c rest =>
      obtain ⟨hblank, hcomment, hrest⟩ := h
      have hafter : afterWord 0 rest = [] :=
        afterWord_eq_nil_of_restOfWord_eq hrest
      rw [words, if_neg (by simp [hblank]), if_neg hcomment, hrest, hafter,
        words]

theorem words_append_blank {word : Text} {c : Char} (h : IsWord word)
    (hclosed : IsClosed word) (hc : isBlank c = true) (rest : Text) :
    words (word ++ c :: rest) = word :: words rest := by
  cases word with
  | nil => exact h.elim
  | cons d word =>
      obtain ⟨hblank, hcomment, hword⟩ := h
      rw [List.cons_append, words, if_neg (by simp [hblank]),
        if_neg hcomment, restOfWord_append_blank hword hclosed hc,
        afterWord_append_blank hword hclosed hc, words, if_pos hc]

theorem separable_words (text : Text) : Separable (words text) := by
  fun_induction words text with
  | case1 => exact ⟨by simp, List.Pairwise.nil⟩
  | case2 c rest hc ih => exact ih
  | case3 => exact ⟨by simp, List.Pairwise.nil⟩
  | case4 c rest hc hcomment ih =>
      refine ⟨?_, ?_⟩
      · intro word hword
        rcases List.mem_cons.mp hword with heq | hmem
        · subst heq
          exact ⟨by simpa using hc, hcomment, restOfWord_restOfWord 0 rest⟩
        · exact ih.isWord word hmem
      · rw [List.pairwise_cons]
        refine ⟨?_, ih.isClosed⟩
        intro word hword
        rcases afterWord_eq_nil_or_levelAtEnd 0 rest with hnil | hlevel
        · rw [hnil, words] at hword
          exact absurd hword List.not_mem_nil
        · exact hlevel

end Text

/-! ## The tags of a line -/

open Text

@[simp] theorem joinTags_nil : joinTags [] = [] := rfl

@[simp] theorem joinTags_singleton (tag : Tag) : joinTags [tag] = tag := by
  simp [joinTags, List.intercalate]

theorem joinTags_cons_cons (tag next : Tag) (rest : List Tag) :
    joinTags (tag :: next :: rest) =
      tag ++ ' ' :: joinTags (next :: rest) := by
  simp [joinTags, List.intercalate]

theorem words_joinTags {tags : List Tag} (h : Separable tags) :
    words (joinTags tags) = tags := by
  induction tags with
  | nil => simp [words]
  | cons tag rest ih =>
      have hword : IsWord tag := h.isWord tag (List.mem_cons_self ..)
      cases rest with
      | nil => rw [joinTags_singleton, words_of_isWord hword]
      | cons next more =>
          have hclosed : IsClosed tag :=
            (List.pairwise_cons.mp h.isClosed).1 next (List.mem_cons_self ..)
          rw [joinTags_cons_cons,
            words_append_blank hword hclosed (by decide), ih h.of_cons]

theorem beginsTag_of_mem_tags {line : Line} {tag : Tag}
    (h : tag ∈ line.tags) : beginsTag tag = true :=
  (List.mem_filter.mp h).2

theorem Line.separable_tags (line : Line) : Separable line.tags :=
  (separable_words line).sublist List.filter_sublist

/-- Some of the tags of a line, written side by side behind any indentation,
are the tags of what is written. -/
theorem Line.tags_append_joinTags {line : Line} {tags : List Tag}
    (h : tags.Sublist line.tags) {indent : Text}
    (hindent : ∀ c ∈ indent, isBlank c = true) :
    Line.tags (indent ++ joinTags tags) = tags := by
  have hseparable : Separable tags := line.separable_tags.sublist h
  have hbegins : ∀ tag ∈ tags, beginsTag tag = true := by
    intro tag htag
    exact beginsTag_of_mem_tags (h.subset htag)
  rw [Line.tags, words_append_of_blank hindent, words_joinTags hseparable]
  exact List.filter_eq_self.mpr hbegins

theorem Line.tags_of_mem_tags {line : Line} {tag : Tag} (h : tag ∈ line.tags) :
    Line.tags tag = [tag] := by
  have hsub : [tag].Sublist line.tags := List.singleton_sublist.mpr h
  have htags := Line.tags_append_joinTags hsub (List.forall_mem_nil _)
  simpa using htags

end ScenarioInclusion
