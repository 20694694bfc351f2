import ScenarioInclusion.Text.Blank

/-!
# Placeholders

A placeholder is a name in angle brackets.  The name begins with a character
that is neither blank nor a closing bracket and runs up to the first closing
bracket; an opening bracket that begins no such token stands for itself, and
so does every other character.

Reading a line from the left cuts it into pieces.  The cut depends on the line
alone, not on what is bound, and the pieces written one after the other are
the line.
-/

namespace ScenarioInclusion

/-- A piece of a line: a character that stands for itself, or a placeholder
with the name between its brackets. -/
inductive Piece where
  | plain (c : Char)
  | token (name : Text)
  deriving DecidableEq, Repr

namespace Piece

def text : Piece → Text
  | .plain c => [c]
  | .token name => '<' :: (name ++ ['>'])

end Piece

/-- The text before the first closing angle bracket and the text after it. -/
def cutAtClosing : Text → Option (Text × Text)
  | [] => none
  | c :: rest =>
    if c = '>' then some ([], rest)
    else (cutAtClosing rest).map fun (before, after) => (c :: before, after)

def beginsName (c : Char) : Bool :=
  c ≠ '>' && !isBlank c

/-- The placeholder's name and the text after it, read right after an opening
angle bracket. -/
def readName : Text → Option (Text × Text)
  | [] => none
  | c :: rest =>
    if beginsName c then
      (cutAtClosing rest).map fun (name, after) => (c :: name, after)
    else none

theorem eq_append_of_cutAtClosing {text before after : Text}
    (h : cutAtClosing text = some (before, after)) :
    text = before ++ '>' :: after := by
  induction text generalizing before with
  | nil => simp [cutAtClosing] at h
  | cons c rest ih =>
    rw [cutAtClosing] at h
    split at h
    case isTrue hc => simp_all
    case isFalse hc =>
      obtain ⟨⟨first, last⟩, hrest, heq⟩ := Option.map_eq_some_iff.mp h
      cases heq
      simp [ih hrest]

theorem eq_append_of_readName {text name after : Text}
    (h : readName text = some (name, after)) :
    text = name ++ '>' :: after := by
  cases text with
  | nil => simp [readName] at h
  | cons c rest =>
    rw [readName] at h
    split at h
    case isTrue hc =>
      obtain ⟨⟨first, last⟩, hrest, heq⟩ := Option.map_eq_some_iff.mp h
      cases heq
      simp [eq_append_of_cutAtClosing hrest]
    case isFalse hc => simp at h

def Line.pieces : Text → List Piece
  | [] => []
  | c :: rest =>
    if c = '<' then
      match _hname : readName rest with
      | some (name, after) => .token name :: Line.pieces after
      | none => .plain c :: Line.pieces rest
    else .plain c :: Line.pieces rest
termination_by text => text.length
decreasing_by
  · rw [eq_append_of_readName _hname]
    simp
    omega
  · simp
  · simp

/-- Written one after the other, the pieces of a line are the line. -/
theorem Line.flatMap_text_pieces (line : Text) :
    (Line.pieces line).flatMap Piece.text = line := by
  fun_induction Line.pieces line with
  | case1 => rfl
  | case2 rest name after h ih =>
    simp [Piece.text, ih, eq_append_of_readName h]
  | case3 rest h ih => simp [Piece.text, ih]
  | case4 c rest hc ih => simp [Piece.text, ih]

end ScenarioInclusion
