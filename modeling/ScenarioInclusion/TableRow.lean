import ScenarioInclusion.Text.Blank

/-!
# Rows of a table

A table row is cut at its pipes.  A backslash takes the next character into
its cell, so an escaped pipe cuts nothing.  The first cell begins after the
first pipe and the last one ends at the last pipe; text after the last pipe is
one cell more.  A row without a pipe has no cells.
-/

namespace ScenarioInclusion

namespace TableRow

/-- The text between the pipes of a row, escapes kept as they are written. -/
def segments : Text → List Text
  | [] => [[]]
  | '|' :: rest => [] :: segments rest
  | '\\' :: c :: rest =>
    (segments rest).modifyHead fun segment => '\\' :: c :: segment
  | c :: rest => (segments rest).modifyHead (c :: ·)

def cells (row : Text) : List Text :=
  let afterFirstPipe := (segments row.trim).tail
  if afterFirstPipe.getLast? = some [] then afterFirstPipe.dropLast
  else afterFirstPipe

def cellCount (row : Text) : Nat :=
  (cells row).length

end TableRow

end ScenarioInclusion
