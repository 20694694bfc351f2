import ScenarioInclusion.Directive

/-!
# Lines that carry directives

A tag line with at least one include tag is taken apart into the blanks it
starts with, its include tags and its other tags.  The include tags will be
replaced by scenarios.  The other tags are the author's and stay: written side
by side behind the same blanks they make the sibling line.  When the scenario
that owns the line is included elsewhere, only the include tags go along, with
the bindings of that inclusion filled in.
-/

namespace ScenarioInclusion

structure DirectiveLine where
  indent : Text
  directives : List Tag
  siblings : List Tag
  deriving DecidableEq, Repr

def joinTags (tags : List Tag) : Text :=
  List.intercalate [' '] tags

namespace DirectiveLine

def ofLine? (line : Line) : Option DirectiveLine :=
  if line.isTagLine ∧ line.tags.any Tag.isInclude then
    some {
      indent := Text.indent line
      directives := line.tags.filter Tag.isInclude
      siblings := line.tags.filter fun tag => !tag.isInclude }
  else none

def siblingLine? (line : DirectiveLine) : Option Line :=
  if line.siblings = [] then none
  else some (line.indent ++ joinTags line.siblings)

def forward (line : DirectiveLine) (bindings : Bindings) : Line :=
  line.indent ++ bindings.substitute (joinTags line.directives)

end DirectiveLine

end ScenarioInclusion
