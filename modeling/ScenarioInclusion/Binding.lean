import ScenarioInclusion.Placeholder
import ScenarioInclusion.TableRow
import ScenarioInclusion.Text.Nesting

/-!
# Bindings and substitution

A binding gives a placeholder its value.  Its key may be spelled bare or in
angle brackets, and both spellings bind the same placeholder.  Bindings keep
the order in which they were declared, and the first one for a key wins.

Substitution works on the pieces of a line, so it is one pass: a value that
looks like a placeholder is text and is not read again.
-/

namespace ScenarioInclusion

structure Binding where
  key : Text
  value : Text
  deriving DecidableEq, Repr

abbrev Bindings := List Binding

namespace Binding

def keyOf (spelling : Text) : Text :=
  (spelling.trim.between? '<' '>').getD spelling.trim

def ofSpelling (spelling value : Text) : Binding :=
  ⟨keyOf spelling, value⟩

end Binding

namespace Bindings

/-- Pair up a flat list of keys and values; a key without a value is
dropped. -/
def ofFlat : List Text → Bindings
  | key :: value :: rest => Binding.ofSpelling key value :: ofFlat rest
  | _ => []

/-- Declare one more binding. -/
def push (bindings : Bindings) (binding : Binding) : Bindings :=
  bindings ++ [binding]

def flatLength (bindings : Bindings) : Nat :=
  2 * bindings.length

def valueOf? (bindings : Bindings) (key : Text) : Option Text :=
  (bindings.find? (·.key = key)).map Binding.value

/-- What a piece of a line becomes: a bound placeholder its value, and
everything else its own text. -/
def fill (bindings : Bindings) : Piece → Text
  | .plain c => [c]
  | .token name => (bindings.valueOf? name).getD (Piece.token name).text

def substitute (bindings : Bindings) (line : Text) : Text :=
  (Line.pieces line).flatMap bindings.fill

/-- Does the row have one cell for each binding? -/
def MatchesRow (bindings : Bindings) (row : Text) : Prop :=
  TableRow.cellCount row = bindings.length

instance (bindings : Bindings) (row : Text) :
    Decidable (bindings.MatchesRow row) :=
  inferInstanceAs (Decidable (_ = _))

@[simp] theorem valueOf?_nil (key : Text) :
    valueOf? [] key = none := rfl

theorem valueOf?_cons (binding : Binding) (rest : Bindings) (key : Text) :
    valueOf? (binding :: rest) key =
      if binding.key = key then some binding.value else rest.valueOf? key := by
  by_cases h : binding.key = key <;> simp [valueOf?, h]

theorem fill_nil : fill [] = Piece.text := by
  funext piece
  cases piece <;> rfl

/-- Without bindings a line stays as it is. -/
@[simp] theorem substitute_nil (line : Text) :
    substitute [] line = line := by
  rw [substitute, fill_nil, Line.flatMap_text_pieces]

end Bindings

end ScenarioInclusion
