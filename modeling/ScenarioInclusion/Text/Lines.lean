import ScenarioInclusion.Text.Blank

/-!
# Text and its lines

A line ends at a line feed, and a carriage return right before that line feed
belongs to the ending.  The last line needs no ending, but then it keeps a
carriage return it may end with; after a final line feed there is no further,
empty line.

`Text.unlines` writes every line with a line feed between it and the next one
and one more at the end, so it undoes `Text.lines` up to the carriage returns.
Its one odd value is the text of no lines at all, which is a line feed too.
-/

namespace ScenarioInclusion

namespace Text

/-- Put one more character in front of the first line. -/
def extendFirst (c : Char) : List Line → List Line
  | [] => [[c]]
  | line :: rest => (c :: line) :: rest

def lines : Text → List Line
  | [] => []
  | '\n' :: rest => [] :: lines rest
  | '\r' :: '\n' :: rest => [] :: lines rest
  | c :: rest => extendFirst c (lines rest)

def unlines (lines : List Line) : Text :=
  List.intercalate ['\n'] lines ++ ['\n']

@[simp] theorem lines_nil : lines [] = [] := rfl

@[simp] theorem lines_lineFeed (rest : Text) :
    lines ('\n' :: rest) = [] :: lines rest := by
  rw [lines]

theorem extendFirst_ne_nil (c : Char) (rest : List Line) :
    extendFirst c rest ≠ [] := by
  cases rest <;> simp [extendFirst]

@[simp] theorem unlines_nil : unlines [] = ['\n'] := rfl

@[simp] theorem unlines_singleton (line : Line) :
    unlines [line] = line ++ ['\n'] := by
  simp [unlines, List.intercalate]

theorem unlines_cons_cons (line next : Line) (rest : List Line) :
    unlines (line :: next :: rest) = line ++ '\n' :: unlines (next :: rest) := by
  simp [unlines, List.intercalate]

end Text

end ScenarioInclusion
