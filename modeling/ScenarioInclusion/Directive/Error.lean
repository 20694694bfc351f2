import ScenarioInclusion.Text.Blank

/-!
# What can be wrong with a directive

Each cause keeps the text that a reader of the message has to look for: the
whole tag, the part between two commas, or the entry of the parameter list.
-/

namespace ScenarioInclusion

inductive Field where
  | feature
  | scenario
  | params
  deriving DecidableEq, Repr

namespace Field

def name : Field → Text
  | .feature => ['f', 'e', 'a', 't', 'u', 'r', 'e']
  | .scenario => ['s', 'c', 'e', 'n', 'a', 'r', 'i', 'o']
  | .params => ['p', 'a', 'r', 'a', 'm', 's']

def ofName? (text : Text) : Option Field :=
  [feature, scenario, params].find? (·.name = text)

@[simp] theorem ofName?_name (field : Field) :
    ofName? field.name = some field := by
  cases field <;> rfl

theorem name_eq_of_ofName? {text : Text} {field : Field}
    (h : ofName? text = some field) : field.name = text := by
  simpa using List.find?_some h

end Field

inductive DirectiveError where
  | notAnInclude (tag : Text)
  | unterminated
  | missingField (field : Field)
  | unknownField (name : Text)
  | duplicateField (field : Field)
  | malformedField (part : Text)
  | malformedParams (value : Text)
  | malformedBinding (entry : Text)
  deriving DecidableEq, Repr

namespace DirectiveError

/-- The text that the message quotes, if it quotes any. -/
def quoted? : DirectiveError → Option Text
  | .unterminated => none
  | .missingField field | .duplicateField field => some field.name
  | .notAnInclude text | .unknownField text | .malformedField text
  | .malformedParams text | .malformedBinding text => some text

def message : DirectiveError → String
  | .notAnInclude tag =>
    "`" ++ String.ofList tag ++ "` is not an @include directive"
  | .unterminated => "missing closing ')' for @include directive"
  | .missingField field =>
    "@include directive is missing the required `" ++
      String.ofList field.name ++ ":` field"
  | .unknownField name =>
    "unknown @include field `" ++ String.ofList name ++ "`"
  | .duplicateField field =>
    "duplicate @include field `" ++ String.ofList field.name ++ "`"
  | .malformedField part =>
    "expected `name: value` in @include directive but found `" ++
      String.ofList part ++ "`"
  | .malformedParams value =>
    "`params` must be a bracketed list such as `[key:value]`, found `" ++
      String.ofList value ++ "`"
  | .malformedBinding entry =>
    "expected `key:value` in @include params but found `" ++
      String.ofList entry ++ "`"

end DirectiveError

end ScenarioInclusion
