import ScenarioInclusion.Path

/-!
# What is worth a note

The library makes no output of its own.  What a host may want to write to its
log is returned as a list of events, each with a level and a text.
-/

namespace ScenarioInclusion

inductive Level where
  | trace
  | debug
  | warn
  deriving DecidableEq, Repr

namespace Level

def label : Level → String
  | trace => "TRACE"
  | debug => "DEBUG"
  | warn => "WARN"

end Level

inductive Event where
  | loaded (feature : Text) (path : Path)
  | resolved (scenario : Text) (path : Path) (lineCount : Nat)
  | including (path : Path) (line : Nat) (scenario : Text) (source : Path)
      (bindingCount : Nat)
  | skipped (warning : String)
  deriving DecidableEq, Repr

namespace Event

def level : Event → Level
  | .loaded .. | .resolved .. => .trace
  | .including .. => .debug
  | .skipped .. => .warn

def message : Event → String
  | .loaded feature path =>
    "loaded feature '" ++ String.ofList feature ++ "' from " ++
      String.ofList path.text
  | .resolved scenario path lineCount =>
    "resolved scenario '" ++ String.ofList scenario ++ "' in " ++
      String.ofList path.text ++ " (" ++ toString lineCount ++ " lines)"
  | .including path line scenario source bindingCount =>
    String.ofList path.text ++ ":" ++ toString line ++ ": including '" ++
      String.ofList scenario ++ "' from " ++ String.ofList source.text ++
      " (" ++ toString bindingCount ++ " bindings)"
  | .skipped warning => warning

end Event

end ScenarioInclusion
