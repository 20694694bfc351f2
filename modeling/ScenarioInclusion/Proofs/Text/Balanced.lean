import ScenarioInclusion.Proofs.Text.Reading

/-!
# Balanced text

The depth of a text is what its brackets open less what they close, round and
square ones counted alike.  In a balanced text no beginning closes more than it
opened, and the whole closes all that it opened.  A balanced text leaves every
level as it was, wherever it is written, so what comes after it is read as if
it were not there.

The words of a line end at blanks, and the parts of an argument list at commas.
Both scanners read on past such a character exactly where it is guarded, that
is, where the level is not zero.
-/

namespace ScenarioInclusion

namespace Text

/-! ## Depth -/

def isOpening (c : Char) : Bool :=
  c = '(' || c = '['

def isClosing (c : Char) : Bool :=
  c = ')' || c = ']'

def depth (text : Text) : Int :=
  (text.countP isOpening : Int) - (text.countP isClosing : Int)

@[simp] theorem depth_nil : depth [] = 0 := rfl

theorem depth_append (text more : Text) :
    depth (text ++ more) = depth text + depth more := by
  simp only [depth, List.countP_append]
  omega

theorem depth_cons (c : Char) (rest : Text) :
    depth (c :: rest) = depth [c] + depth rest :=
  depth_append [c] rest

theorem depth_singleton (c : Char) :
    depth [c] = if isOpening c then 1 else if isClosing c then -1 else 0 := by
  have hboth : isOpening c = true → isClosing c = false := by
    simp only [isOpening, isClosing, Bool.or_eq_true, decide_eq_true_eq]
    rintro (rfl | rfl) <;> decide
  by_cases hopen : isOpening c = true
  · simp [depth, hopen, hboth hopen]
  · by_cases hclose : isClosing c = true <;> simp [depth, hopen, hclose]

theorem levelAfter_eq_add_depth {level : Nat} {c : Char}
    (h : 0 ≤ (level : Int) + depth [c]) :
    (levelAfter level c : Int) = level + depth [c] := by
  rw [depth_singleton] at h ⊢
  simp only [levelAfter, isOpening, isClosing, Bool.or_eq_true,
    decide_eq_true_eq] at h ⊢
  split_ifs at h ⊢ <;> omega

/-- The level counts the depth, as long as nothing is closed that was not
opened. -/
theorem levelAtEnd_eq_add_depth {level : Nat} {text : Text}
    (h : ∀ i, 0 ≤ (level : Int) + depth (text.take i)) :
    (levelAtEnd level text : Int) = level + depth text := by
  induction text generalizing level with
  | nil => simp [levelAtEnd]
  | cons c rest ih =>
      have hlevel : (levelAfter level c : Int) = level + depth [c] :=
        levelAfter_eq_add_depth (by simpa using h 1)
      have hrest : ∀ i, 0 ≤ (levelAfter level c : Int) +
          depth (rest.take i) := by
        intro i
        have hi := h (i + 1)
        rw [List.take_succ_cons, depth_cons] at hi
        omega
      change (levelAtEnd (levelAfter level c) rest : Int) = _
      rw [ih hrest, depth_cons, hlevel]
      omega

/-! ## Guarded characters -/

/-- When the text is entered at the given level, does every such character
stand inside brackets? -/
def Guards (p : Char → Bool) (level : Nat) (text : Text) : Prop :=
  ∀ i (_ : i < text.length), p text[i] = true →
    levelAtEnd level (text.take i) ≠ 0

instance (p : Char → Bool) (level : Nat) (text : Text) :
    Decidable (Guards p level text) :=
  inferInstanceAs (Decidable (∀ i (_ : i < text.length), _ → _))

theorem guards_nil (p : Char → Bool) (level : Nat) : Guards p level [] :=
  fun _ hi => absurd hi (Nat.not_lt_zero _)

theorem guards_cons {p : Char → Bool} {level : Nat} {c : Char} {rest : Text} :
    Guards p level (c :: rest) ↔
      (p c = true → level ≠ 0) ∧ Guards p (levelAfter level c) rest := by
  constructor
  · intro h
    refine ⟨h 0 (by simp), fun i hi => ?_⟩
    exact h (i + 1) (by simpa using hi)
  · rintro ⟨hhead, htail⟩ i hi
    cases i with
    | zero => exact hhead
    | succ i => exact htail i (by simpa using hi)

theorem guards_append {p : Char → Bool} {level : Nat} {text more : Text} :
    Guards p level (text ++ more) ↔
      Guards p level text ∧ Guards p (levelAtEnd level text) more := by
  induction text generalizing level with
  | nil => exact (and_iff_right (guards_nil p level)).symm
  | cons c text ih =>
      rw [List.cons_append, guards_cons, guards_cons, ih, and_assoc]
      rfl

theorem restOfWord_eq_self_iff {level : Nat} {text : Text} :
    restOfWord level text = text ↔ Guards isBlank level text := by
  induction text generalizing level with
  | nil => simp [restOfWord, Guards]
  | cons c rest ih =>
      rw [guards_cons, ← ih, restOfWord]
      split
      · next h => simp [h.1, h.2]
      · next h =>
          have hc : isBlank c = true → level ≠ 0 := fun hblank hlevel =>
            h ⟨hblank, hlevel⟩
          simpa using fun _ => hc

def isComma (c : Char) : Bool :=
  c = ','

theorem partsFrom_eq_singleton_iff {level : Nat} {text : Text} :
    partsFrom level text = [text] ↔ Guards isComma level text := by
  induction text generalizing level with
  | nil => simp [partsFrom, Guards]
  | cons c rest ih =>
      rw [guards_cons, ← ih, partsFrom]
      split
      · next h => simp [isComma, h.1, h.2]
      · next h =>
          have hc : isComma c = true → level ≠ 0 := fun hcomma hlevel =>
            h ⟨by simpa [isComma] using hcomma, hlevel⟩
          cases hparts : partsFrom (levelAfter level c) rest with
          | nil => exact absurd hparts (partsFrom_ne_nil _ _)
          | cons first more => simpa using fun _ _ => hc

/-! ## Balanced text -/

structure IsBalanced (text : Text) : Prop where
  nonneg : ∀ i, 0 ≤ depth (text.take i)
  depth_eq : depth text = 0

/-- Does no such character stand at depth zero? -/
def Shields (p : Char → Bool) (text : Text) : Prop :=
  ∀ i (_ : i < text.length), p text[i] = true → depth (text.take i) ≠ 0

theorem isBalanced_iff {text : Text} :
    text.IsBalanced ↔
      (∀ i < text.length, 0 ≤ depth (text.take i)) ∧ depth text = 0 := by
  constructor
  · intro h
    exact ⟨fun i _ => h.nonneg i, h.depth_eq⟩
  · rintro ⟨hnonneg, hdepth⟩
    refine ⟨fun i => ?_, hdepth⟩
    by_cases hi : i < text.length
    · exact hnonneg i hi
    · rw [List.take_of_length_le (by omega)]
      omega

instance (text : Text) : Decidable text.IsBalanced :=
  decidable_of_iff _ isBalanced_iff.symm

instance (p : Char → Bool) (text : Text) : Decidable (text.Shields p) :=
  inferInstanceAs (Decidable (∀ i (_ : i < text.length), _ → _))

theorem IsBalanced.levelAtEnd_take {text : Text} (h : text.IsBalanced)
    (level i : Nat) :
    (levelAtEnd level (text.take i) : Int) =
      level + depth (text.take i) := by
  refine levelAtEnd_eq_add_depth fun j => ?_
  have hnonneg := h.nonneg (min j i)
  rw [List.take_take]
  omega

theorem IsBalanced.levelAtEnd_eq {text : Text} (h : text.IsBalanced)
    (level : Nat) : levelAtEnd level text = level := by
  have htake := h.levelAtEnd_take level text.length
  rw [List.take_length, h.depth_eq] at htake
  omega

theorem IsBalanced.guards {text : Text} (h : text.IsBalanced)
    {p : Char → Bool} (hp : text.Shields p) (level : Nat) :
    Guards p level text := by
  intro i hi hchar
  have hlevel := h.levelAtEnd_take level i
  have hnonneg := h.nonneg i
  have hdepth := hp i hi hchar
  omega

/-- Inside brackets, every character of a balanced text is guarded. -/
theorem IsBalanced.guards_of_pos {text : Text} (h : text.IsBalanced)
    (p : Char → Bool) {level : Nat} (hlevel : 0 < level) :
    Guards p level text := by
  intro i _ _
  have hlevelAt := h.levelAtEnd_take level i
  have hnonneg := h.nonneg i
  omega

/-! ## How balanced text is put together -/

theorem depth_take_of_flat {text : Text}
    (h : ∀ c ∈ text, isOpening c = false ∧ isClosing c = false) (i : Nat) :
    depth (text.take i) = 0 := by
  have hnone : ∀ p : Char → Bool, (∀ c ∈ text, p c = false) →
      (text.take i).countP p = 0 := by
    intro p hp
    rw [List.countP_eq_zero]
    intro c hc
    simp [hp c (List.mem_of_mem_take hc)]
  rw [depth, hnone isOpening fun c hc => (h c hc).1,
    hnone isClosing fun c hc => (h c hc).2]
  rfl

/-- A text without brackets. -/
theorem isBalanced_of_flat {text : Text}
    (h : ∀ c ∈ text, isOpening c = false ∧ isClosing c = false) :
    text.IsBalanced := by
  refine ⟨fun i => Int.le_of_eq (depth_take_of_flat h i).symm, ?_⟩
  simpa using depth_take_of_flat h text.length

theorem IsPlain.isBalanced {text : Text} (h : text.IsPlain) :
    text.IsBalanced := by
  refine isBalanced_of_flat fun c hc => ?_
  have hbracket := h c hc
  simp only [List.mem_cons, List.not_mem_nil, or_false, not_or] at hbracket
  simp [isOpening, isClosing, hbracket]

theorem IsBalanced.append {text more : Text} (h : text.IsBalanced)
    (hmore : more.IsBalanced) : IsBalanced (text ++ more) := by
  refine ⟨fun i => ?_, ?_⟩
  · rw [List.take_append, depth_append]
    have hfirst := h.nonneg i
    have hsecond := hmore.nonneg (i - text.length)
    omega
  · rw [depth_append, h.depth_eq, hmore.depth_eq]
    rfl

theorem shields_of_forall_not {p : Char → Bool} {text : Text}
    (h : ∀ c ∈ text, p c = false) : text.Shields p := by
  intro i hi hchar
  rw [h _ (List.getElem_mem hi)] at hchar
  contradiction

theorem Shields.append {p : Char → Bool} {text more : Text}
    (h : text.Shields p) (hdepth : depth text = 0) (hmore : more.Shields p) :
    Shields p (text ++ more) := by
  intro i hi hchar
  rw [List.take_append, depth_append]
  by_cases hfirst : i < text.length
  · rw [List.getElem_append_left hfirst] at hchar
    have hinside := h i hfirst hchar
    simpa [Nat.sub_eq_zero_of_le hfirst.le] using hinside
  · rw [List.getElem_append_right (by omega)] at hchar
    rw [List.take_of_length_le (by omega), hdepth, Int.zero_add]
    exact hmore _ _ hchar

section Enclosed

variable {text : Text} {opening closing : Char}
  (h : text.IsBalanced) (hopening : isOpening opening = true)
  (hclosing : isClosing closing = true)

include h hopening

/-- Up to the closing bracket everything is inside. -/
theorem IsBalanced.depth_take_enclosed {i : Nat} (hi : i ≤ text.length) :
    0 < depth ((opening :: (text ++ [closing])).take (i + 1)) := by
  have hnonneg := h.nonneg i
  rw [List.take_succ_cons, List.take_append_of_le_length hi, depth_cons,
    depth_singleton, if_pos hopening]
  omega

include hclosing

theorem IsBalanced.enclosed :
    IsBalanced (opening :: (text ++ [closing])) := by
  have hnotOpening : isOpening closing = false := by
    simp only [isClosing, Bool.or_eq_true, decide_eq_true_eq] at hclosing
    rcases hclosing with rfl | rfl <;> decide
  have hdepth : depth (opening :: (text ++ [closing])) = 0 := by
    rw [depth_cons, depth_append, h.depth_eq, depth_singleton,
      depth_singleton, if_pos hopening, if_neg (by simp [hnotOpening]),
      if_pos hclosing]
    rfl
  refine isBalanced_iff.mpr ⟨fun i hi => ?_, hdepth⟩
  cases i with
  | zero => exact Int.le_refl 0
  | succ i =>
      have hi : i ≤ text.length := by
        simpa [Nat.lt_succ_iff] using hi
      exact Int.le_of_lt (h.depth_take_enclosed hopening hi)

omit hclosing

theorem IsBalanced.shields_enclosed {p : Char → Bool}
    (hp : p opening = false) :
    Shields p (opening :: (text ++ [closing])) := by
  intro i hi hchar
  cases i with
  | zero =>
      rw [List.getElem_cons_zero, hp] at hchar
      contradiction
  | succ i =>
      have hi : i ≤ text.length := by
        simpa [Nat.lt_succ_iff] using hi
      exact Int.ne_of_gt (h.depth_take_enclosed hopening hi)

end Enclosed

/-! ## One part of an argument list -/

/-- A text that is one part of an argument list, and leaves the parts after it
alone. -/
structure IsPart (text : Text) : Prop where
  balanced : text.IsBalanced
  shields : text.Shields isComma

instance (text : Text) : Decidable text.IsPart :=
  decidable_of_iff (text.IsBalanced ∧ text.Shields isComma)
    ⟨fun h => ⟨h.1, h.2⟩, fun h => ⟨h.balanced, h.shields⟩⟩

theorem IsPlain.isPart {text : Text} (h : text.IsPlain) : text.IsPart := by
  refine ⟨h.isBalanced, shields_of_forall_not fun c hc => ?_⟩
  have hplain := h c hc
  simp only [List.mem_cons, List.not_mem_nil, or_false, not_or] at hplain
  simp [isComma, hplain]

theorem IsPart.append {text more : Text} (h : text.IsPart)
    (hmore : more.IsPart) : IsPart (text ++ more) :=
  ⟨h.balanced.append hmore.balanced,
    h.shields.append h.balanced.depth_eq hmore.shields⟩

theorem IsBalanced.isPart_enclosed {text : Text} (h : text.IsBalanced)
    {opening closing : Char} (hopening : isOpening opening = true)
    (hclosing : isClosing closing = true) :
    IsPart (opening :: (text ++ [closing])) := by
  have hcomma : isComma opening = false := by
    simp only [isOpening, Bool.or_eq_true, decide_eq_true_eq] at hopening
    rcases hopening with rfl | rfl <;> decide
  exact ⟨h.enclosed hopening hclosing, h.shields_enclosed hopening hcomma⟩

theorem IsPart.parts_eq {text : Text} (h : text.IsPart) :
    parts text = [text] :=
  partsFrom_eq_singleton_iff.mpr (h.balanced.guards h.shields 0)

/-! ## Lists of parts -/

/-- Texts that can be the parts of one argument list: no comma of a part is
outside brackets, and every part but the last closes what it opens. -/
structure AreParts (texts : List Text) : Prop where
  ne_nil : texts ≠ []
  guarded : ∀ part ∈ texts, Guards isComma 0 part
  closed : ∀ part ∈ texts.dropLast, levelAtEnd 0 part = 0

theorem areParts_singleton_iff {part : Text} :
    AreParts [part] ↔ Guards isComma 0 part := by
  constructor
  · intro h
    exact h.guarded part (List.mem_singleton_self part)
  · intro h
    exact ⟨by simp, by simpa using h, by simp⟩

theorem areParts_cons_iff {part : Text} {rest : List Text} (hne : rest ≠ []) :
    AreParts (part :: rest) ↔
      Guards isComma 0 part ∧ levelAtEnd 0 part = 0 ∧ AreParts rest := by
  constructor
  · rintro ⟨-, hguarded, hclosed⟩
    rw [List.dropLast_cons_of_ne_nil hne, List.forall_mem_cons] at hclosed
    rw [List.forall_mem_cons] at hguarded
    exact ⟨hguarded.1, hclosed.1, hne, hguarded.2, hclosed.2⟩
  · rintro ⟨hguarded, hclosed, hrest⟩
    refine ⟨List.cons_ne_nil part rest, ?_, ?_⟩
    · exact List.forall_mem_cons.mpr ⟨hguarded, hrest.guarded⟩
    · rw [List.dropLast_cons_of_ne_nil hne]
      exact List.forall_mem_cons.mpr ⟨hclosed, hrest.closed⟩

/-- The first comma outside brackets ends the first part. -/
theorem parts_append_comma {part : Text} (hguarded : Guards isComma 0 part)
    (hclosed : levelAtEnd 0 part = 0) (rest : Text) :
    parts (part ++ ',' :: rest) = part :: parts rest := by
  have hpart : partsFrom 0 part = [part] :=
    partsFrom_eq_singleton_iff.mpr hguarded
  rw [parts, partsFrom_append_comma hclosed, hpart, List.singleton_append]

/-- Parts that are written with commas between them are read again. -/
theorem AreParts.parts_intercalate {texts : List Text} (h : AreParts texts) :
    parts (List.intercalate [','] texts) = texts := by
  induction texts with
  | nil => exact absurd rfl h.ne_nil
  | cons part rest ih =>
      by_cases hrest : rest = []
      · subst hrest
        rw [areParts_singleton_iff] at h
        rw [List.intercalate_singleton]
        exact partsFrom_eq_singleton_iff.mpr h
      · obtain ⟨hguarded, hclosed, hparts⟩ := (areParts_cons_iff hrest).mp h
        obtain ⟨next, more, rfl⟩ := List.exists_cons_of_ne_nil hrest
        rw [List.intercalate_cons_cons, List.append_assoc,
          List.singleton_append, parts_append_comma hguarded hclosed,
          ih hparts]

/-! ## Texts written with commas between them -/

section Intercalate

variable {α : Type} {written : α → Text}

theorem areParts_map (h : ∀ a, (written a).IsPart) {items : List α}
    (hne : items ≠ []) : AreParts (items.map written) := by
  have hitem : ∀ part ∈ items.map written, part.IsPart := by
    intro part hpart
    obtain ⟨a, -, rfl⟩ := List.mem_map.mp hpart
    exact h a
  refine ⟨by simpa using hne, ?_, ?_⟩
  · intro part hpart
    exact (hitem part hpart).balanced.guards (hitem part hpart).shields 0
  · intro part hpart
    exact (hitem part (List.mem_of_mem_dropLast hpart)).balanced.levelAtEnd_eq 0

theorem isBalanced_intercalate (h : ∀ a, (written a).IsBalanced)
    (items : List α) :
    IsBalanced (List.intercalate [','] (items.map written)) := by
  induction items with
  | nil => exact isBalanced_of_flat (List.forall_mem_nil _)
  | cons item rest ih =>
      cases rest with
      | nil => simpa [List.intercalate] using h item
      | cons next more =>
          have hcomma : IsBalanced [','] := by decide
          rw [List.map_cons, List.map_cons, List.intercalate_cons_cons,
            List.append_assoc]
          exact (h item).append (hcomma.append ih)

end Intercalate

end Text

end ScenarioInclusion
