import ScenarioInclusion.Event
import ScenarioInclusion.Tag

/-!
# Skipped scenarios

A scenario is skipped when it is tagged to be ignored, and other tags may say
why.  Of several reasons the strongest counts: too complex, then manual, then
unimplemented, then a condition of the environment, then a ticket.  Of several
tickets the last one counts.

Tags may be given with or without an at sign, and blanks around them do not
matter.  A ticket is whatever stands between the parentheses, up to the first
closing one on the same line.
-/

namespace ScenarioInclusion

inductive SkipReason where
  | notSkipped
  | environment
  | unimplemented
  | manual
  | tooComplex
  | ticket (reference : Text)
  | unspecified
  deriving DecidableEq, Repr

namespace SkipReason

def ignoreTag : Tag :=
  ['@', 'i', 'g', 'n', 'o', 'r', 'e']

def environmentTag : Tag :=
  ['@', 'e', 'n', 'v', 'C', 'o', 'n', 'd', 'i', 't', 'i', 'o', 'n']

def unimplementedTag : Tag :=
  ['@', 'u', 'n', 'i', 'm', 'p', 'l', 'e', 'm', 'e', 'n', 't', 'e', 'd']

def manualTag : Tag :=
  ['@', 'm', 'a', 'n', 'u', 'a', 'l']

def tooComplexTag : Tag :=
  ['@', 't', 'o', 'o', 'c', 'o', 'm', 'p', 'l', 'e', 'x']

def ticketOpening : Text :=
  ['@', 't', 'i', 'l', 'l', 'f', 'i', 'x', 'e', 'd', '(']

/-- The text before the first closing parenthesis, if it is on this line. -/
def upToClosing? : Text → Option Text
  | [] => none
  | c :: rest =>
    if c = ')' then some []
    else if c = '\n' then none
    else (upToClosing? rest).map (c :: ·)

def ticketOf? : Tag → Option Text
  | [] => none
  | c :: rest =>
    ((ticketOpening.isPrefixOf? (c :: rest)).bind upToClosing?) <|>
      ticketOf? rest

/-- A tag in full: without blanks around it and with an at sign. -/
def fullTag (tag : Tag) : Tag :=
  if beginsTag (Text.trim tag) then Text.trim tag else '@' :: Text.trim tag

/-- The reason that the full tags of an ignored scenario give. -/
def ofIgnored (tags : List Tag) : SkipReason :=
  if tooComplexTag ∈ tags then tooComplex
  else if manualTag ∈ tags then manual
  else if unimplementedTag ∈ tags then unimplemented
  else if environmentTag ∈ tags then environment
  else
    match (tags.filterMap ticketOf?).getLast? with
    | some reference => ticket reference
    | none => unspecified

def ofTags (tags : List Tag) : SkipReason :=
  if ignoreTag ∈ tags.map fullTag then ofIgnored (tags.map fullTag)
  else notSkipped

/-- A scenario has the tags of its feature and its own. -/
def ofScenario (featureTags scenarioTags : List Tag) : SkipReason :=
  ofTags (featureTags ++ scenarioTags)

def IsSkipped (reason : SkipReason) : Prop :=
  reason ≠ notSkipped

instance (reason : SkipReason) : Decidable reason.IsSkipped :=
  inferInstanceAs (Decidable (_ ≠ _))

/-- What a host should warn of.  A condition of the environment is no cause
for a warning. -/
def warning? (reason : SkipReason) (scenario : Text) : Option String :=
  let ignored := "Scenario '" ++ String.ofList scenario ++ "' ignored"
  match reason with
  | notSkipped | environment => none
  | unspecified => some (ignored ++ ", no reason specified.")
  | ticket reference =>
    some (ignored ++ " because of ticket: " ++ String.ofList reference)
  | unimplemented =>
    some (ignored ++ " because it is not yet implemented.")
  | manual => some (ignored ++ " because it is marked as manual test.")
  | tooComplex => some (ignored ++ " because the test is too complex.")

def report (reason : SkipReason) (scenario : Text) : List Event :=
  (reason.warning? scenario).toList.map .skipped

end SkipReason

end ScenarioInclusion
