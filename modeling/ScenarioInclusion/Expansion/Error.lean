import ScenarioInclusion.Directive.Error
import ScenarioInclusion.Library

/-!
# What can stop an expansion

Every cause names the place or the scenario that a reader has to look at.  An
inclusion is known by the path of its document and the name of its scenario,
and a chain of inclusions lists them from the outermost to the one that could
not be entered.
-/

namespace ScenarioInclusion

structure Inclusion where
  source : Path
  scenario : Text
  deriving DecidableEq, Repr

namespace Inclusion

/-- Do two inclusions splice the same scenario of the same document? -/
def Same (inclusion other : Inclusion) : Prop :=
  inclusion.source.Same other.source ∧ inclusion.scenario = other.scenario

instance (inclusion other : Inclusion) : Decidable (inclusion.Same other) :=
  inferInstanceAs (Decidable (_ ∧ _))

def render (inclusion : Inclusion) : Text :=
  inclusion.source.text ++ ':' :: inclusion.scenario

end Inclusion

inductive ExpansionError where
  | malformedDirective (path : Path) (line : Nat) (fault : DirectiveError)
  | featureNotFound (feature : Text) (caller : Path) (cause : LookupError)
  | scenarioNotFound (feature scenario : Text)
  | arityMismatch (feature scenario row : Text) (expected found : Nat)
  | cyclic (chain : List Inclusion)
  | tooDeep (limit : Nat) (chain : List Inclusion)
  deriving DecidableEq, Repr

namespace ExpansionError

def showChain (chain : List Inclusion) : String :=
  " -> ".intercalate (chain.map fun inclusion => String.ofList inclusion.render)

def message : ExpansionError → String
  | malformedDirective path line fault =>
    "malformed @include directive at " ++ String.ofList path.text ++ ":" ++
      toString line ++ ": " ++ fault.message
  | featureNotFound feature caller cause =>
    "feature '" ++ String.ofList feature ++ "' included from " ++
      String.ofList caller.text ++ " could not be found: " ++ cause.message
  | scenarioNotFound feature scenario =>
    "scenario '" ++ String.ofList scenario ++ "' not found in feature '" ++
      String.ofList feature ++ "'"
  | arityMismatch feature scenario row expected found =>
    "Examples row `" ++ String.ofList row ++ "` of scenario '" ++
      String.ofList scenario ++ "' in '" ++ String.ofList feature ++ "' has " ++
      toString found ++ " cells but the directive binds " ++
      toString expected ++ " parameters"
  | cyclic chain => "cyclic @include: " ++ showChain chain
  | tooDeep limit chain =>
    "@include nesting exceeds the limit of " ++ toString limit ++ ": " ++
      showChain chain

end ExpansionError

end ScenarioInclusion
