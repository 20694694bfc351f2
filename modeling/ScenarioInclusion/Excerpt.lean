import ScenarioInclusion.DirectiveLine
import ScenarioInclusion.Expansion.Error
import ScenarioInclusion.Passage

/-!
# Scenarios taken out of a library

An excerpt is a scenario together with the feature it was asked from and the
path it was found at.  What is spliced for it are two runs of numbered lines:
the include tags of its own tag lines, and its text.  The bindings of the
inclusion are filled into both.

A table under an Examples keyword lists values of placeholders, so with
bindings at hand each of its rows must have one cell for each.  Other tables
may have any width.  A row belongs to the nearest line above it that is neither
a row nor blank nor a comment.
-/

namespace ScenarioInclusion

structure Excerpt extends Passage where
  feature : Text
  source : Path
  name : Text
  deriving DecidableEq, Repr

def Library.excerpt (library : Library) (feature scenario : Text)
    (caller : Path) : Traced ExpansionError Excerpt := do
  let loaded ← (library.load feature caller).mapError
    (.featureNotFound feature caller)
  match loaded.document.passage? scenario with
  | none => .fail (.scenarioNotFound feature scenario)
  | some passage => do
    .note (.resolved scenario loaded.path passage.lines.length)
    return {
      passage with
      feature
      source := loaded.path
      name := scenario }

def examplesKeyword : Text :=
  ['E', 'x', 'a', 'm', 'p', 'l', 'e', 's', ':']

def scenariosKeyword : Text :=
  ['S', 'c', 'e', 'n', 'a', 'r', 'i', 'o', 's', ':']

inductive LineRole where
  | examples
  | row
  | aside
  | other
  deriving DecidableEq, Repr

namespace Line

def opensExamples (line : Line) : Bool :=
  examplesKeyword.isPrefixOf line.trim || scenariosKeyword.isPrefixOf line.trim

def role (line : Line) : LineRole :=
  if line.opensExamples then .examples
  else
    match line.trim with
    | [] | '#' :: _ => .aside
    | '|' :: _ => .row
    | _ => .other

end Line

/-- Are rows after a line rows of an Examples table, given whether they were
before it? -/
def LineRole.examplesAfter (before : Bool) : LineRole → Bool
  | examples => true
  | row | aside => before
  | other => false

namespace Bindings

/-- The first row of an Examples table that does not have one cell for each
binding.  Whether the lines begin inside such a table is given. -/
def firstMisfit? (bindings : Bindings) : Bool → List Line → Option Text
  | _, [] => none
  | inExamples, line :: rest =>
    if inExamples ∧ line.role = .row ∧ ¬ bindings.MatchesRow line.trim then
      some line.trim
    else bindings.firstMisfit? (line.role.examplesAfter inExamples) rest

end Bindings

namespace Excerpt

def inclusion (excerpt : Excerpt) : Inclusion :=
  ⟨excerpt.source, excerpt.name⟩

def bind (excerpt : Excerpt) (bindings : Bindings) :
    Except ExpansionError (List Line) :=
  if bindings = [] then .ok excerpt.lines
  else
    match bindings.firstMisfit? false excerpt.lines with
    | some row =>
      .error (.arityMismatch excerpt.feature excerpt.name row bindings.length
        (TableRow.cellCount row))
    | none => .ok (excerpt.lines.map bindings.substitute)

/-- The include tags on the scenario's own tag lines, with placeholders filled
in and under the numbers of those lines. -/
def nested (excerpt : Excerpt) (bindings : Bindings) : List (Line × Nat) :=
  excerpt.numberedTagLines.filterMap fun (line, number) =>
    (DirectiveLine.ofLine? line).map fun parsed =>
      (parsed.forward bindings, number)

end Excerpt

end ScenarioInclusion
