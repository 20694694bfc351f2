import ScenarioInclusion.Library

/-!
# Documents by name

A register knows each feature by its exact name, whoever calls it, and serves
the document that was entered last, at the path it was entered with.  There is
nowhere to search, so a name that is not entered has been searched for nowhere.
-/

namespace ScenarioInclusion

/-- The entries of a register, the newest first. -/
structure Register where
  entries : List (Text × LoadedFeature)
  deriving DecidableEq, Repr

namespace Register

def empty : Register := ⟨[]⟩

def enter (register : Register) (feature : Text) (path : Path)
    (document : Document) : Register :=
  ⟨(feature, ⟨path, document⟩) :: register.entries⟩

def library (register : Register) : Library where
  load feature _ :=
    match register.entries.find? (·.1 = feature) with
    | some entry => pure entry.2
    | none => .fail (.notFound feature [])

end Register

end ScenarioInclusion
