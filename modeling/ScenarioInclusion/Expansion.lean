import ScenarioInclusion.Excerpt
import ScenarioInclusion.Settings

/-!
# Expansion of included scenarios

A document is expanded line by line.  Each include tag is replaced by the
scenario it names, with the bindings filled in, and the lines of that scenario
are expanded in turn, as lines of the document it comes from.  The other tags
on a line with an include tag belong to the author's next line; they are held
back until all scenarios that are spliced above that line have been written.

The chain lists the inclusions that are being spliced, the outermost first.
No inclusion enters a chain that it is already in, and every inclusion uses up
room for one, so splicing is a recursion on the room that is left.  A scenario
that is already being spliced is reported before the lack of room is.
-/

namespace ScenarioInclusion

/-- Expand numbered lines, given how an include tag on a line with a certain
number is spliced.  The lines in `held` wait for the end of a run of
directive lines. -/
def expandLines (splice : Nat → Tag → Traced ExpansionError (List Line)) :
    (held : List Line) → List (Line × Nat) → Traced ExpansionError (List Line)
  | held, [] => return held
  | held, (line, number) :: rest =>
    match DirectiveLine.ofLine? line with
    | none => do
      let after ← expandLines splice [] rest
      return held ++ line :: after
    | some parsed => do
      let spliced ← parsed.directives.mapM (splice number)
      let after ←
        expandLines splice (held ++ parsed.siblingLine?.toList) rest
      return spliced.flatten ++ after

namespace Library

/-- Read an include tag, find its scenario and see that it is not being spliced
already. -/
def target (library : Library) (chain : List Inclusion) (path : Path)
    (number : Nat) (tag : Tag) :
    Traced ExpansionError (Directive × Excerpt) := do
  let directive ← .ofExcept
    ((Directive.ofTag tag).mapError (.malformedDirective path number))
  let excerpt ← library.excerpt directive.feature directive.scenario path
  if chain.any fun entered => entered.Same excerpt.inclusion then
    .fail (.cyclic (chain ++ [excerpt.inclusion]))
  else return (directive, excerpt)

/-- The lines that replace an include tag.  The room is the number of
inclusions that the chain may still grow by; without room, the chain is as long
as the limit. -/
def splice (library : Library) :
    (room : Nat) → (chain : List Inclusion) → (path : Path) →
      (number : Nat) → Tag → Traced ExpansionError (List Line)
  | 0, chain, path, number, tag => do
    let (_, excerpt) ← library.target chain path number tag
    .fail (.tooDeep chain.length (chain ++ [excerpt.inclusion]))
  | room + 1, chain, path, number, tag => do
    let (directive, excerpt) ← library.target chain path number tag
    let text ← .ofExcept (excerpt.bind directive.bindings)
    .note (.including path number excerpt.name excerpt.source
      directive.bindings.length)
    expandLines
      (library.splice room (chain ++ [excerpt.inclusion]) excerpt.source) []
      (excerpt.nested directive.bindings ++ text.zipIdx excerpt.startLine)

/-- Expand a document that lies at a path, with the events on the way. -/
def expandTraced (library : Library) (settings : Settings) (path : Path)
    (document : Document) : Traced ExpansionError Document := do
  let lines ← expandLines (library.splice settings.maxDepth [] path) []
    (document.lines.zipIdx 1)
  return ⟨lines⟩

def expand (library : Library) (settings : Settings) (path : Path)
    (document : Document) : Except ExpansionError Document :=
  (library.expandTraced settings path document).outcome

end Library

end ScenarioInclusion
