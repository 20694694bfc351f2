import ScenarioInclusion.Document
import ScenarioInclusion.Traced

/-!
# Libraries of feature documents

A library finds the document that a feature name means for a given caller and
says at which path it found it.  That path is the caller of the names in the
document itself.

The usual library is a reader of single paths: the candidates are read in
order, a missing one is passed over, and a fault that is not absence ends the
search.
-/

namespace ScenarioInclusion

/-- A fault of a reader, which may be any.  Nothing is done with it but to tell
it. -/
structure ReadFault where
  message : String
  deriving DecidableEq, Repr

inductive ReadFailure where
  | missing
  | faulty (fault : ReadFault)
  deriving DecidableEq, Repr

inductive LookupError where
  | notFound (feature : Text) (searched : List Path)
  | unreadable (path : Path) (fault : ReadFault)
  deriving DecidableEq, Repr

namespace LookupError

def showPaths : List Path → String
  | [] => "nothing"
  | paths => ", ".intercalate (paths.map fun path => String.ofList path.text)

def message : LookupError → String
  | notFound feature searched =>
    "no feature file '" ++ String.ofList feature ++ "' (searched: " ++
      showPaths searched ++ ")"
  | unreadable path fault =>
    "failed to read " ++ String.ofList path.text ++ ": " ++ fault.message

end LookupError

structure LoadedFeature where
  path : Path
  document : Document
  deriving DecidableEq, Repr

structure Library where
  load : (feature : Text) → (caller : Path) → Traced LookupError LoadedFeature

namespace Library

/-- Read the first of the given paths that is not missing.  All paths that were
to be searched are `searched`. -/
def firstReadable (read : Path → Except ReadFailure Text) (feature : Text)
    (searched : List Path) : List Path → Traced LookupError LoadedFeature
  | [] => .fail (.notFound feature searched)
  | path :: rest =>
    match read path with
    | .ok text => do
      .note (.loaded feature path)
      return ⟨path, Document.ofText text⟩
    | .error .missing => firstReadable read feature searched rest
    | .error (.faulty fault) => .fail (.unreadable path fault)

/-- The library of the texts that a reader finds at paths. -/
def ofReader (read : Path → Except ReadFailure Text)
    (featuresRoot : Option Path) : Library where
  load feature caller :=
    let searched := Path.candidates featuresRoot feature caller
    firstReadable read feature searched searched

end Library

end ScenarioInclusion
