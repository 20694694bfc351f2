/-!
# Blank characters and trimming

Feature files are read as lists of characters, so that every law about them is
a law about lists.  Which characters count as blank is one table for the whole
library: the characters that Unicode gives the property `White_Space`.  Tags,
directives, placeholders, headers and settings all trim and split by it.

Trimming only ever cuts blanks off an end: what `trimStart` and `trimEnd`
leave is a tail and a beginning of the text they were given.
-/

namespace ScenarioInclusion

abbrev Text := List Char

/-- One line of a feature file, without the line feed that ends it. -/
abbrev Line := Text

/-- The code points with the property `White_Space`, as closed ranges in
increasing order. -/
def blankRanges : List (Nat × Nat) :=
  [(0x09, 0x0D), (0x20, 0x20), (0x85, 0x85), (0xA0, 0xA0), (0x1680, 0x1680),
    (0x2000, 0x200A), (0x2028, 0x2029), (0x202F, 0x202F), (0x205F, 0x205F),
    (0x3000, 0x3000)]

def isBlank (c : Char) : Bool :=
  blankRanges.any fun range => range.1 ≤ c.toNat && c.toNat ≤ range.2

namespace Text

def trimStart (text : Text) : Text :=
  text.dropWhile isBlank

def trimEnd (text : Text) : Text :=
  (text.reverse.dropWhile isBlank).reverse

def trim (text : Text) : Text :=
  text.trimStart.trimEnd

/-- The blanks that a line starts with. -/
def indent (text : Text) : Text :=
  text.takeWhile isBlank

/-- Has the text no visible character? -/
def isVoid (text : Text) : Bool :=
  text.all isBlank

theorem indent_append_trimStart (text : Text) :
    text.indent ++ text.trimStart = text :=
  List.takeWhile_append_dropWhile

theorem trimStart_suffix (text : Text) : text.trimStart <:+ text :=
  List.dropWhile_suffix isBlank

theorem isPrefix_trimEnd (text : Text) : text.trimEnd <+: text := by
  rw [trimEnd, ← List.reverse_suffix, List.reverse_reverse]
  exact List.dropWhile_suffix isBlank

end Text

end ScenarioInclusion
