import ScenarioInclusion.Proofs.DirectiveLine

/-!
# Reading on

What comes after the beginning of a word, or of a part of an argument list,
depends on that beginning only by the level of brackets at its end.  Plain text,
without brackets and commas, changes no level and ends no part.  So other plain
text may stand in its place, and only the word or the part that holds it becomes
another one.
-/

namespace ScenarioInclusion

namespace Text

/-- Has the text neither brackets nor commas? -/
def IsPlain (text : Text) : Prop :=
  ∀ c ∈ text, c ∉ ['(', ')', '[', ']', ',']

instance (text : Text) : Decidable text.IsPlain :=
  -- Only the characters of the text are tried.
  List.decidableBAll (fun c => c ∉ ['(', ')', '[', ']', ',']) text

theorem IsPlain.append {text more : Text} (h : text.IsPlain)
    (hmore : more.IsPlain) : IsPlain (text ++ more) := by
  intro c hc
  rcases List.mem_append.mp hc with hmem | hmem
  · exact h c hmem
  · exact hmore c hmem

theorem isPlain_of_blank {gap : Text} (h : ∀ c ∈ gap, isBlank c = true) :
    gap.IsPlain := by
  intro c hc hbracket
  have hblank := h c hc
  simp only [List.mem_cons, List.not_mem_nil, or_false] at hbracket
  rcases hbracket with rfl | rfl | rfl | rfl | rfl <;>
    exact absurd hblank (by decide)

theorem levelAfter_of_plain {c : Char} (h : c ∉ ['(', ')', '[', ']', ','])
    (level : Nat) : levelAfter level c = level := by
  simp only [List.mem_cons, List.not_mem_nil, or_false, not_or] at h
  simp [levelAfter, h]

theorem levelAtEnd_of_isPlain {text : Text} (h : text.IsPlain) (level : Nat) :
    levelAtEnd level text = level := by
  induction text with
  | nil => rfl
  | cons c text ih =>
      change levelAtEnd (levelAfter level c) text = level
      rw [levelAfter_of_plain (h c (List.mem_cons_self ..))]
      exact ih fun d hd => h d (List.mem_cons_of_mem c hd)

/-! ## Words -/

instance (word : Text) : Decidable word.IsClosed :=
  inferInstanceAs (Decidable (_ = _))

theorem restOfWord_append {level : Nat} {start : Text}
    (h : restOfWord level start = start) (rest : Text) :
    restOfWord level (start ++ rest) =
      start ++ restOfWord (levelAtEnd level start) rest := by
  induction start generalizing level with
  | nil => rfl
  | cons c start ih =>
      rw [restOfWord] at h
      split at h
      · contradiction
      · next hc =>
          injection h with _ htail
          rw [List.cons_append, restOfWord, if_neg hc, ih htail]
          rfl

theorem afterWord_append {level : Nat} {start : Text}
    (h : restOfWord level start = start) (rest : Text) :
    afterWord level (start ++ rest) =
      afterWord (levelAtEnd level start) rest := by
  have happend := restOfWord_append_afterWord level (start ++ rest)
  rw [restOfWord_append h, List.append_assoc, List.append_right_inj] at happend
  have hrest := restOfWord_append_afterWord (levelAtEnd level start) rest
  exact List.append_cancel_left (happend.trans hrest.symm)

theorem restOfWord_of_isPlain {text : Text} (h : text.IsPlain) {level : Nat}
    (hlevel : 0 < level) : restOfWord level text = text := by
  induction text with
  | nil => rfl
  | cons c text ih =>
      have hinside : ¬ (isBlank c = true ∧ level = 0) := by omega
      rw [restOfWord, if_neg hinside,
        levelAfter_of_plain (h c (List.mem_cons_self ..)),
        ih fun d hd => h d (List.mem_cons_of_mem c hd)]

/-- A word that has begun goes on, and then come the words after it. -/
theorem words_append_of_isWord {start : Text} (h : IsWord start)
    (rest : Text) :
    words (start ++ rest) =
      (start ++ restOfWord (levelAtEnd 0 start.tail) rest) ::
        words (afterWord (levelAtEnd 0 start.tail) rest) := by
  cases start with
  | nil => exact h.elim
  | cons c start =>
      rcases h with ⟨hblank, hcomment, hstart⟩
      rw [List.cons_append, words, if_neg (by simp [hblank]),
        if_neg hcomment, restOfWord_append hstart, afterWord_append hstart]
      rfl

theorem words_append_isPlain {start : Text} (h : IsWord start)
    (hopen : ¬ IsClosed start) {middle : Text} (hmiddle : middle.IsPlain)
    (rest : Text) :
    words (start ++ (middle ++ rest)) =
      (start ++ (middle ++ restOfWord (levelAtEnd 0 start.tail) rest)) ::
        words (afterWord (levelAtEnd 0 start.tail) rest) := by
  have hlevel : 0 < levelAtEnd 0 start.tail := Nat.pos_of_ne_zero hopen
  have hrest := restOfWord_of_isPlain hmiddle hlevel
  rw [words_append_of_isWord h, restOfWord_append hrest,
    afterWord_append hrest, levelAtEnd_of_isPlain hmiddle]

/-- After this text a new word begins. -/
def EndsWord (front : Text) : Prop :=
  ∃ earlier, ∀ rest, words (front ++ rest) = earlier ++ words rest

theorem endsWord_of_blank {indent : Text}
    (h : ∀ c ∈ indent, isBlank c = true) : EndsWord indent :=
  ⟨[], words_append_of_blank h⟩

theorem EndsWord.append {front indent : Text} (h : EndsWord front)
    (hindent : ∀ c ∈ indent, isBlank c = true) :
    EndsWord (indent ++ front) := by
  rcases h with ⟨earlier, h⟩
  refine ⟨earlier, fun rest => ?_⟩
  rw [List.append_assoc, words_append_of_blank hindent, h]

/-! ## Parts -/

theorem partsFrom_append {level : Nat} {start : Text}
    (h : partsFrom level start = [start]) (rest : Text) :
    partsFrom level (start ++ rest) =
      (partsFrom (levelAtEnd level start) rest).modifyHead (start ++ ·) := by
  induction start generalizing level with
  | nil =>
      change partsFrom level rest = (partsFrom level rest).modifyHead id
      rw [List.modifyHead_id]
      rfl
  | cons c start ih =>
      rw [partsFrom] at h
      split at h
      · injection h with _ hnil
        exact absurd hnil (partsFrom_ne_nil 0 start)
      · next hc =>
          have htail : partsFrom (levelAfter level c) start = [start] := by
            cases hparts : partsFrom (levelAfter level c) start with
            | nil => exact absurd hparts (partsFrom_ne_nil _ _)
            | cons first more =>
                rw [hparts, List.modifyHead_cons] at h
                injection h with hfirst hmore
                injection hfirst with _ hfirst
                rw [hfirst, hmore]
          rw [List.cons_append, partsFrom, if_neg hc, ih htail,
            List.modifyHead_modifyHead]
          rfl

theorem partsFrom_of_isPlain {text : Text} (h : text.IsPlain) (level : Nat) :
    partsFrom level text = [text] := by
  induction text with
  | nil => rfl
  | cons c text ih =>
      have hc := h c (List.mem_cons_self ..)
      have hcomma : ¬ (c = ',' ∧ level = 0) := by
        rintro ⟨rfl, -⟩
        exact hc (by simp)
      rw [partsFrom, if_neg hcomma, levelAfter_of_plain hc,
        ih fun d hd => h d (List.mem_cons_of_mem c hd)]
      rfl

theorem partsFrom_append_comma {level : Nat} {start : Text}
    (h : levelAtEnd level start = 0) (rest : Text) :
    partsFrom level (start ++ ',' :: rest) =
      partsFrom level start ++ parts rest := by
  induction start generalizing level with
  | nil =>
      have hlevel : level = 0 := h
      subst hlevel
      rfl
  | cons c start ih =>
      rw [List.cons_append, partsFrom, partsFrom]
      split
      · next hc =>
          have hlevel : levelAtEnd 0 start = 0 := by
            rcases hc with ⟨rfl, rfl⟩
            exact h
          rw [ih hlevel]
          rfl
      · rw [ih h]
        cases hparts : partsFrom (levelAfter level c) start with
        | nil => exact absurd hparts (partsFrom_ne_nil _ _)
        | cons first more => rfl

/-- After this text a new part begins. -/
def EndsPart (front : Text) : Prop :=
  front = [] ∨ ∃ start, front = start ++ [','] ∧ levelAtEnd 0 start = 0

theorem EndsPart.exists_parts {front : Text} (h : EndsPart front) :
    ∃ earlier, ∀ rest, parts (front ++ rest) = earlier ++ parts rest := by
  rcases h with rfl | ⟨start, rfl, hlevel⟩
  · exact ⟨[], fun _ => rfl⟩
  · refine ⟨partsFrom 0 start, fun rest => ?_⟩
    rw [List.append_assoc]
    exact partsFrom_append_comma hlevel rest

/-- Plain text before a colon stays in one part, and changes no other. -/
theorem exists_parts_around {front start : Text} (hfront : EndsPart front)
    (hstart : parts start = [start]) (rest : Text) :
    ∃ earlier tail later, ∀ middle : Text, middle.IsPlain →
      parts (front ++ (start ++ (middle ++ ':' :: rest))) =
        earlier ++ (start ++ (middle ++ ':' :: tail)) :: later := by
  rcases hfront.exists_parts with ⟨earlier, hearlier⟩
  have hcolon : partsFrom (levelAtEnd 0 start) (':' :: rest) =
      (partsFrom (levelAtEnd 0 start) rest).modifyHead (':' :: ·) := by
    rw [partsFrom, if_neg (by simp), levelAfter_of_plain (by simp)]
  cases hparts : partsFrom (levelAtEnd 0 start) rest with
  | nil => exact absurd hparts (partsFrom_ne_nil _ _)
  | cons tail later =>
      refine ⟨earlier, tail, later, fun middle hmiddle => ?_⟩
      rw [hearlier, parts, partsFrom_append hstart,
        partsFrom_append (partsFrom_of_isPlain hmiddle _),
        levelAtEnd_of_isPlain hmiddle, hcolon, hparts]
      rfl

end Text

end ScenarioInclusion
