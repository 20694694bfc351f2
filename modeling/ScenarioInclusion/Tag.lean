import ScenarioInclusion.Text.Nesting

/-!
# Tags

A tag line is a line whose first visible character is an at sign.  Its words
are separated by blanks, except that the argument list of a word may hold
blanks of its own: a blank inside brackets ends no word.  A word that begins
with a number sign starts a comment, and a word that does not begin with an at
sign is no tag.

Each word is cut off together with all its text, so the words of a line are
pieces of it, and reading goes on with strictly less of the line.
-/

namespace ScenarioInclusion

/-- A tag as it is written, at sign and argument list included. -/
abbrev Tag := Text

namespace Text

/-- What is left of a word, entered at the given level: all text up to the
first blank outside brackets. -/
def restOfWord : Nat → Text → Text
  | _, [] => []
  | level, c :: rest =>
    if isBlank c ∧ level = 0 then []
    else c :: restOfWord (levelAfter level c) rest

/-- What follows the word that `restOfWord` reads. -/
def afterWord : Nat → Text → Text
  | _, [] => []
  | level, c :: rest =>
    if isBlank c ∧ level = 0 then c :: rest
    else afterWord (levelAfter level c) rest

theorem restOfWord_append_afterWord (level : Nat) (text : Text) :
    restOfWord level text ++ afterWord level text = text := by
  induction text generalizing level with
  | nil => rfl
  | cons c rest ih =>
    rw [restOfWord, afterWord]
    split
    · rfl
    · simp [ih]

theorem length_afterWord_le (level : Nat) (text : Text) :
    (afterWord level text).length ≤ text.length := by
  have h := congrArg List.length (restOfWord_append_afterWord level text)
  simp only [List.length_append] at h
  omega

/-- The words of a line, up to a comment.  The first character of a word opens
no bracket. -/
def words : Text → List Text
  | [] => []
  | c :: rest =>
    if isBlank c then words rest
    else if c = '#' then []
    else (c :: restOfWord 0 rest) :: words (afterWord 0 rest)
termination_by text => text.length
decreasing_by
  · simp
  · simpa [Nat.lt_succ_iff] using length_afterWord_le 0 rest

end Text

def beginsTag (word : Text) : Bool :=
  word.head? = some '@'

def Line.tags (line : Line) : List Tag :=
  (Text.words line).filter beginsTag

/-- Is the first visible character of the line an at sign? -/
def Line.isTagLine (line : Line) : Bool :=
  beginsTag line.trimStart

namespace Tag

/-- The name of a tag: its text without at signs, up to an argument list. -/
def name (tag : Tag) : Text :=
  Text.trimEnd ((tag.trim.dropWhile (· = '@')).takeWhile (· ≠ '('))

def includeName : Text :=
  ['i', 'n', 'c', 'l', 'u', 'd', 'e']

/-- Is this a tag that includes a scenario, with or without an argument
list?  Such a tag has one at sign. -/
def isInclude (tag : Tag) : Bool :=
  tag.name = includeName && ('@' :: includeName).isPrefixOf tag.trimStart

end Tag

end ScenarioInclusion
