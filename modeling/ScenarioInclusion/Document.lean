import ScenarioInclusion.Text.Lines

/-!
# Feature documents

A document is the list of its lines.  It can be made from a text or from lines
that are given as they are; then a line may hold any character at all.
-/

namespace ScenarioInclusion

structure Document where
  lines : List Line
  deriving DecidableEq, Repr

namespace Document

def empty : Document := ⟨[]⟩

def ofText (text : Text) : Document := ⟨text.lines⟩

def toText (document : Document) : Text :=
  Text.unlines document.lines

def RoundTrips (document : Document) : Prop :=
  ofText document.toText = document

instance (document : Document) : Decidable document.RoundTrips :=
  inferInstanceAs (Decidable (_ = _))

end Document

end ScenarioInclusion
