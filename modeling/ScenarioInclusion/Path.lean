import ScenarioInclusion.Text.Blank

/-!
# Paths

A path is kept as it is written, for messages show it so.  What it means is in
its components: a slash at the front is the root, empty segments say nothing,
and so does a single dot, except that a relative path may begin with one.  Two
paths are the same place when their components agree.

`Path.normal` gives each path one spelling without looking at any file: it
drops the dots and lets two dots take back the name before them.  Two dots with
no name before them stay, also right under the root.
-/

namespace ScenarioInclusion

inductive Component where
  | root
  | here
  | up
  | name (text : Text)
  deriving DecidableEq, Repr

namespace Component

/-- The component that a segment between two slashes stands for. -/
def ofSegment? : Text → Option Component
  | [] => none
  | ['.'] => none
  | ['.', '.'] => some up
  | segment => some (name segment)

def text : Component → Text
  | root => []
  | here => ['.']
  | up => ['.', '.']
  | name text => text

/-- Go on from a place, given by its components with the innermost first. -/
def settle (above : List Component) : Component → List Component
  | here => above
  | up =>
    match above with
    | name _ :: rest => rest
    | _ => up :: above
  | component => component :: above

end Component

structure Path where
  text : Text
  deriving DecidableEq, Repr

namespace Path

def empty : Path := ⟨[]⟩

def IsAbsolute (path : Path) : Prop :=
  path.text.head? = some '/'

instance (path : Path) : Decidable path.IsAbsolute :=
  inferInstanceAs (Decidable (_ = _))

/-- The first component, where it differs from those that follow. -/
def front (path : Path) : List Component :=
  if path.IsAbsolute then [.root]
  else if (path.text.splitOn '/').head? = some ['.'] then [.here]
  else []

def components (path : Path) : List Component :=
  path.front ++ (path.text.splitOn '/').filterMap Component.ofSegment?

def Same (path other : Path) : Prop :=
  path.components = other.components

instance (path other : Path) : Decidable (path.Same other) :=
  inferInstanceAs (Decidable (_ = _))

def joinSegments (components : List Component) : Text :=
  List.intercalate ['/'] (components.map Component.text)

def ofComponents : List Component → Path
  | .root :: rest => ⟨'/' :: joinSegments rest⟩
  | components => ⟨joinSegments components⟩

def normal (path : Path) : Path :=
  ofComponents (path.components.foldl Component.settle []).reverse

/-- The path without its last component.  The root lies in no directory, and
neither does the empty path. -/
def directory (path : Path) : Path :=
  if path.components = [.root] then empty
  else ofComponents path.components.dropLast

def fileName? (path : Path) : Option Text :=
  match path.components.getLast? with
  | some (.name text) => some text
  | _ => none

/-- The path that a second path, read from a directory, leads to. -/
def join (directory path : Path) : Path :=
  if path.IsAbsolute ∨ directory.text = [] then path
  else if directory.text.getLast? = some '/' then
    ⟨directory.text ++ path.text⟩
  else ⟨directory.text ++ '/' :: path.text⟩

/-- The place that a path leads to from the directory of a file. -/
def beside (caller path : Path) : Path :=
  (caller.directory.join path).normal

/-- The place that a path leads to from a directory. -/
def under (directory path : Path) : Path :=
  (directory.join path).normal

/-- Where a feature may be, in the order of search: an absolute name stands for
itself, any other is looked for beside its caller and then under the features
root. -/
def candidates (featuresRoot : Option Path) (feature : Text) (caller : Path) :
    List Path :=
  if IsAbsolute ⟨feature⟩ then [normal ⟨feature⟩]
  else
    match featuresRoot with
    | none => [caller.beside ⟨feature⟩]
    | some root =>
      if (root.under ⟨feature⟩).Same (caller.beside ⟨feature⟩) then
        [caller.beside ⟨feature⟩]
      else [caller.beside ⟨feature⟩, root.under ⟨feature⟩]

theorem Same.refl (path : Path) : path.Same path := rfl

theorem Same.symm {path other : Path} (h : path.Same other) :
    other.Same path :=
  Eq.symm h

theorem Same.trans {first second third : Path} (h : first.Same second)
    (h' : second.Same third) : first.Same third :=
  Eq.trans h h'

theorem candidates_ne_nil (featuresRoot : Option Path) (feature : Text)
    (caller : Path) : candidates featuresRoot feature caller ≠ [] := by
  unfold candidates
  split
  · exact List.cons_ne_nil _ _
  · split
    · exact List.cons_ne_nil _ _
    · split <;> exact List.cons_ne_nil _ _

end Path

end ScenarioInclusion
