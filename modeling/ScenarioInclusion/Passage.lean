import ScenarioInclusion.Document
import ScenarioInclusion.Tag

/-!
# Scenarios in a document

A scenario begins at its header and runs up to the next scenario header, the
next rule or the end of the document.  Blank lines and tag lines at its very
end introduce what comes next and do not belong to it.  The tag lines that
stand directly above its header do belong to it, but they are kept apart from
its text.

A document may hold several scenarios of one name; the first one is meant.
-/

namespace ScenarioInclusion

def outlineKeyword : Text :=
  ['S', 'c', 'e', 'n', 'a', 'r', 'i', 'o', ' ',
    'O', 'u', 't', 'l', 'i', 'n', 'e', ':']

def scenarioKeyword : Text :=
  ['S', 'c', 'e', 'n', 'a', 'r', 'i', 'o', ':']

def ruleKeyword : Text :=
  ['R', 'u', 'l', 'e', ':']

namespace Line

def headerName? (line : Line) : Option Text :=
  (outlineKeyword.isPrefixOf? line.trimStart <|>
    scenarioKeyword.isPrefixOf? line.trimStart).map Text.trim

def endsScenario (line : Line) : Bool :=
  line.headerName?.isSome || ruleKeyword.isPrefixOf line.trimStart

/-- May this line introduce the scenario after it? -/
def isPreamble (line : Line) : Bool :=
  line.isVoid || line.isTagLine

end Line

/-- The lines of one scenario of a document: those of its text, header first,
those of its tags, and the number of the header, counted from one. -/
structure Passage where
  startLine : Nat
  tagLines : List Line
  lines : List Line
  deriving DecidableEq, Repr

namespace Passage

def tagLinesStart (passage : Passage) : Nat :=
  passage.startLine - passage.tagLines.length

def numberedTagLines (passage : Passage) : List (Line × Nat) :=
  passage.tagLines.zipIdx passage.tagLinesStart

end Passage

def dropAtEnd {α : Type} (condition : α → Bool) (xs : List α) : List α :=
  (xs.reverse.dropWhile condition).reverse

def takeAtEnd {α : Type} (condition : α → Bool) (xs : List α) : List α :=
  (xs.reverse.takeWhile condition).reverse

theorem dropAtEnd_append_takeAtEnd {α : Type} (condition : α → Bool)
    (xs : List α) : dropAtEnd condition xs ++ takeAtEnd condition xs = xs := by
  rw [dropAtEnd, takeAtEnd, ← List.reverse_append,
    List.takeWhile_append_dropWhile, List.reverse_reverse]

namespace Document

def headerIndex? (document : Document) (name : Text) : Option Nat :=
  document.lines.findIdx? fun line => line.headerName? = some name

/-- The lines of the scenario whose header follows the first `start` lines. -/
def scenarioLines (document : Document) (start : Nat) : List Line :=
  match document.lines.drop start with
  | [] => []
  | header :: rest =>
    header :: dropAtEnd Line.isPreamble
      (rest.takeWhile fun line => !line.endsScenario)

def passage? (document : Document) (name : Text) : Option Passage :=
  (document.headerIndex? name).map fun start => {
    startLine := start + 1
    tagLines := takeAtEnd Line.isTagLine (document.lines.take start)
    lines := document.scenarioLines start }

theorem passage?_eq_none_iff {document : Document} {name : Text} :
    document.passage? name = none ↔
      ∀ line ∈ document.lines, line.headerName? ≠ some name := by
  simp [passage?, headerIndex?, List.findIdx?_eq_none_iff]

end Document

end ScenarioInclusion
