import ScenarioInclusion.Path

/-!
# Settings

An expansion has a limit on the nesting of inclusions, and a library may have a
directory to search when a feature is not beside its caller.  Both can be read
from two variables.  A blank root is no root; the limit is written in decimal
and must be positive and fit into 64 bits.  The root is read first, so its
fault is the one reported when both are faulty.
-/

namespace ScenarioInclusion

structure Settings where
  featuresRoot : Option Path
  maxDepth : Nat
  deriving DecidableEq, Repr

namespace Settings

inductive Variable where
  | featuresRoot
  | maxDepth
  deriving DecidableEq, Repr

namespace Variable

def name : Variable → String
  | featuresRoot => "BDD_INCLUDE_FEATURES_ROOT"
  | maxDepth => "BDD_INCLUDE_MAX_DEPTH"

end Variable

inductive Held where
  | missing
  | notUnicode
  | text (text : Text)
  deriving DecidableEq, Repr

inductive Fault where
  | notUnicode (faulty : Variable)
  | notPositive (written : Text)
  deriving DecidableEq, Repr

namespace Fault

def message : Fault → String
  | notUnicode faulty =>
    "invalid configuration: " ++ faulty.name ++ " is not valid UTF-8"
  | notPositive written =>
    "invalid configuration: invalid " ++ Variable.maxDepth.name ++
      " value '" ++ String.ofList written ++ "', expected a positive integer"

end Fault

def defaultMaxDepth : Nat := 32

def default : Settings := ⟨none, defaultMaxDepth⟩

/-- The greatest number of 64 bits. -/
def greatestDepth : Nat := UInt64.size - 1

def isDigit (c : Char) : Bool :=
  '0' ≤ c ∧ c ≤ '9'

def valueOfDigits (digits : Text) : Nat :=
  digits.foldl (fun value digit => 10 * value + (digit.toNat - '0'.toNat)) 0

/-- A number as it may be written: digits, and a plus sign if one likes. -/
def digitsOf (text : Text) : Text :=
  match text with
  | '+' :: digits => digits
  | digits => digits

def readDepth? (text : Text) : Option Nat :=
  let digits := digitsOf text.trim
  if digits = [] ∨ ¬ digits.all isDigit then none
  else
    let depth := valueOfDigits digits
    if 1 ≤ depth ∧ depth ≤ greatestDepth then some depth else none

def readRoot : Held → Except Fault (Option Path)
  | .missing => .ok none
  | .notUnicode => .error (.notUnicode .featuresRoot)
  | .text text => .ok (if text.isVoid then none else some ⟨text.trim⟩)

def readMaxDepth : Held → Except Fault Nat
  | .missing => .ok defaultMaxDepth
  | .notUnicode => .error (.notUnicode .maxDepth)
  | .text text =>
    match readDepth? text with
    | none => .error (.notPositive text)
    | some depth => .ok depth

def ofVariables (held : Variable → Held) : Except Fault Settings := do
  let featuresRoot ← readRoot (held .featuresRoot)
  let maxDepth ← readMaxDepth (held .maxDepth)
  return { featuresRoot, maxDepth }

def withFeaturesRoot (settings : Settings) (root : Path) : Settings :=
  { settings with featuresRoot := some root }

def withMaxDepth (settings : Settings) (depth : Nat) : Settings :=
  { settings with maxDepth := depth }

/-- Put in what is given and keep the rest. -/
def override (settings : Settings) (root? : Option Path)
    (depth? : Option Nat) : Settings where
  featuresRoot := root? <|> settings.featuresRoot
  maxDepth := depth?.getD settings.maxDepth

end Settings

end ScenarioInclusion
