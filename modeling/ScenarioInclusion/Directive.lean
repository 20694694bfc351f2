import ScenarioInclusion.Binding
import ScenarioInclusion.Directive.Error
import ScenarioInclusion.Tag

/-!
# The include directive

An include tag names a feature and one of its scenarios, and may bind
placeholders.  Its argument list is cut at the top-level commas into parts of
the form `name: value`, in any order; blank parts say nothing.  The value of
`params` is a list in square brackets, cut in the same way into entries of the
form `key: value`.

Parts are read from the left, so the first faulty part is the one reported,
and within a part a faulty value is reported before a repeated name.  Only a
list without a faulty part is asked whether a field is missing.
-/

namespace ScenarioInclusion

structure Directive where
  feature : Text
  scenario : Text
  bindings : Bindings
  deriving DecidableEq, Repr

namespace Directive

/-- The parts of an argument list that hold something, without the blanks
around them. -/
def items (text : Text) : List Text :=
  (text.parts.map Text.trim).filter (· ≠ [])

/-- The text between the outer parentheses of an include tag. -/
def argumentList (tag : Tag) : Except DirectiveError Text :=
  match ('@' :: Tag.includeName).isPrefixOf? (Text.trim tag) with
  | none => .error (.notAnInclude (Text.trim tag))
  | some rest =>
    if Text.isVoid rest then .error (.missingField .feature)
    else
      match Text.trimStart rest with
      | '(' :: body =>
        if body.getLast? = some ')' then .ok body.dropLast
        else .error .unterminated
      | _ => .error (.notAnInclude (Text.trim tag))

def readBinding (entry : Text) : Except DirectiveError Binding :=
  match entry.cutAtColon with
  | none => .error (.malformedBinding entry)
  | some (spelling, value) =>
    if Binding.keyOf spelling = [] then .error (.malformedBinding entry)
    else .ok (Binding.ofSpelling spelling value.trim)

def readParams (value : Text) : Except DirectiveError Bindings :=
  match value.between? '[' ']' with
  | none => .error (.malformedParams value)
  | some inner => (items inner).mapM readBinding

def readRequired (field : Field) (value : Text) : Except DirectiveError Text :=
  if value = [] then .error (.missingField field) else .ok value

structure Fields where
  feature? : Option Text
  scenario? : Option Text
  params? : Option Bindings
  deriving DecidableEq, Repr

namespace Fields

def empty : Fields := ⟨none, none, none⟩

/-- Give a field the value that was read for it, unless it has one. -/
def setOnce {α : Type} (field : Field) (current : Option α)
    (value : Except DirectiveError α) : Except DirectiveError (Option α) :=
  match value, current with
  | .error fault, _ => .error fault
  | .ok _, some _ => .error (.duplicateField field)
  | .ok new, none => .ok (some new)

def add (fields : Fields) (part : Text) : Except DirectiveError Fields :=
  match part.cutAtColon with
  | none => .error (.malformedField part)
  | some (name, value) =>
    match Field.ofName? name.trim with
    | none => .error (.unknownField name.trim)
    | some .feature =>
      (setOnce .feature fields.feature?
        (readRequired .feature value.trim)).map
          fun feature? => { fields with feature? }
    | some .scenario =>
      (setOnce .scenario fields.scenario?
        (readRequired .scenario value.trim)).map
          fun scenario? => { fields with scenario? }
    | some .params =>
      (setOnce .params fields.params? (readParams value.trim)).map
        fun params? => { fields with params? }

def toDirective : Fields → Except DirectiveError Directive
  | ⟨none, _, _⟩ => .error (.missingField .feature)
  | ⟨some _, none, _⟩ => .error (.missingField .scenario)
  | ⟨some feature, some scenario, params?⟩ =>
    .ok ⟨feature, scenario, params?.getD []⟩

end Fields

def ofTag (tag : Tag) : Except DirectiveError Directive := do
  let body ← argumentList tag
  let fields ← (items body).foldlM Fields.add Fields.empty
  fields.toDirective

end Directive

end ScenarioInclusion
