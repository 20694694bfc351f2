import ScenarioInclusion.Text.Blank

/-!
# Brackets and what they protect

Round and square brackets count alike: an opening one goes one level deeper, a
closing one comes back, and a closing one with nothing to close is ordinary
text.  Tags and argument lists are cut only at level zero.

`Text.parts` cuts an argument list at its commas.  Cutting loses nothing but
those commas: joined by commas again, the parts are the text.
-/

namespace ScenarioInclusion

/-- The level after reading one character at the given level. -/
def levelAfter (level : Nat) (c : Char) : Nat :=
  if c = '(' ∨ c = '[' then level + 1
  else if c = ')' ∨ c = ']' then level - 1
  else level

namespace Text

def partsFrom : Nat → Text → List Text
  | _, [] => [[]]
  | level, c :: rest =>
    if c = ',' ∧ level = 0 then [] :: partsFrom 0 rest
    else (partsFrom (levelAfter level c) rest).modifyHead (c :: ·)

/-- The parts of an argument list, cut at the commas outside any bracket.  An
empty text has one empty part. -/
def parts (text : Text) : List Text :=
  partsFrom 0 text

def cutAtColon : Text → Option (Text × Text)
  | [] => none
  | c :: rest =>
    if c = ':' then some ([], rest)
    else (cutAtColon rest).map fun (before, after) => (c :: before, after)

/-- What stands between an opening and a closing delimiter at the two ends. -/
def between? (opening closing : Char) : Text → Option Text
  | [] => none
  | c :: rest =>
    if c = opening ∧ rest.getLast? = some closing then some rest.dropLast
    else none

theorem partsFrom_ne_nil (level : Nat) (text : Text) :
    partsFrom level text ≠ [] := by
  induction text generalizing level with
  | nil => simp [partsFrom]
  | cons c rest ih =>
    rw [partsFrom]
    split
    · simp
    · simpa using ih _

theorem intercalate_partsFrom (level : Nat) (text : Text) :
    List.intercalate [','] (partsFrom level text) = text := by
  induction text generalizing level with
  | nil => rfl
  | cons c rest ih =>
    rw [partsFrom]
    split
    case isTrue h =>
      obtain ⟨head, tail, hparts⟩ :=
        List.exists_cons_of_ne_nil (partsFrom_ne_nil 0 rest)
      have hjoin := ih 0
      rw [hparts] at hjoin ⊢
      simp [List.intercalate] at hjoin ⊢
      simp [h.1, hjoin]
    case isFalse h =>
      obtain ⟨head, tail, hparts⟩ :=
        List.exists_cons_of_ne_nil (partsFrom_ne_nil (levelAfter level c) rest)
      have hjoin := ih (levelAfter level c)
      rw [hparts] at hjoin ⊢
      cases tail <;> simp_all [List.intercalate]

theorem eq_append_of_cutAtColon {text before after : Text}
    (h : cutAtColon text = some (before, after)) :
    text = before ++ ':' :: after := by
  induction text generalizing before with
  | nil => simp [cutAtColon] at h
  | cons c rest ih =>
    rw [cutAtColon] at h
    split at h
    case isTrue hc => simp_all
    case isFalse hc =>
      obtain ⟨⟨first, last⟩, hrest, heq⟩ := Option.map_eq_some_iff.mp h
      cases heq
      simp [ih hrest]

end Text

end ScenarioInclusion
